import SymbolIndex.Data
import SymbolIndex.Part

/-!
# Parts as records

A part is written as a record, or as the list of its fields in their order. The
id and the files must be there; the other fields may be left out, and fields of
other names are ignored. Some formats refuse a list with more items than fields.
-/

namespace SymbolIndex

/-- Whether a list that stands for a record may have items to spare. -/
inductive SpareItems where
  | refused
  | ignored
deriving DecidableEq, Repr

namespace SpareItems

/-- Whether a list of the given length may stand for a record of `n` fields. -/
def allow (spare : SpareItems) (n length : Nat) : Bool :=
  match spare with
  | refused => decide (length ≤ n)
  | ignored => true

end SpareItems

namespace Data

/-- The fields of a record, or of a list that stands for one. -/
def fieldsOf? (spare : SpareItems) (names : List String) : Data -> Option (List (String × Data))
  | record fields => some fields
  | list items => if spare.allow names.length items.length then some (names.zip items) else none
  | _ => none

/-- A field that must be there. -/
def required? {α : Type} (fields : List (String × Data)) (name : String)
    (read : Data -> Option α) : Option α :=
  (field? name fields).bind read

/-- A field that may be left out. -/
def withDefault? {α : Type} (fields : List (String × Data)) (name : String) (default : α)
    (read : Data -> Option α) : Option α :=
  match field? name fields with
  | none => some default
  | some d => read d

def asOptionalText? : Data -> Option (Option String)
  | null => some none
  | text s => some (some s)
  | _ => none

def asPaths? (d : Data) : Option (List Path) := d.asTexts?.map fun texts => texts.map Path.ofString

end Data

namespace CompilerMacro

def ofData? (spare : SpareItems) (d : Data) : Option CompilerMacro := do
  let fields ← d.fieldsOf? spare ["name", "value"]
  let name ← Data.required? fields "name" Data.asText?
  let value ← Data.withDefault? fields "value" none Data.asOptionalText?
  pure ⟨name, value⟩

def toData (m : CompilerMacro) : Data :=
  .record [("name", .text m.name), ("value", match m.value with | some v => .text v | none => .null)]

end CompilerMacro

namespace Part

def ofData? (spare : SpareItems) (d : Data) : Option Part := do
  let fields ← d.fieldsOf? spare ["id", "files", "arguments", "macros", "include_paths"]
  let id ← Data.required? fields "id" Data.asText?
  let files ← Data.required? fields "files" Data.asPaths?
  let arguments ← Data.withDefault? fields "arguments" [] Data.asTexts?
  let macros ← Data.withDefault? fields "macros" [] fun m =>
    m.asList?.bind fun items => items.mapM (CompilerMacro.ofData? spare)
  let includePaths ← Data.withDefault? fields "include_paths" [] Data.asPaths?
  pure ⟨⟨id⟩, files, arguments, macros, includePaths⟩

def toData (p : Part) : Data :=
  .record [("id", .text p.id.name), ("files", .ofTexts (p.files.map Path.display)),
    ("arguments", .ofTexts p.arguments), ("macros", .list (p.macros.map CompilerMacro.toData)),
    ("include_paths", .ofTexts (p.includePaths.map Path.display))]

end Part
end SymbolIndex
