import SymbolIndex.Disk
import SymbolIndex.Toml.Document
import SymbolIndex.Toml.Quoted

/-!
# Settings

The settings of the indexer and the file that holds them. Settings that are left out
have default values, and settings of unknown names are ignored.
-/

namespace SymbolIndex

structure Settings where
  database : Path
  concurrency : Option Nat
  debounceMilliseconds : Nat
  logLevel : String
deriving DecidableEq

namespace Settings

/-- Where the database of a directory is unless the settings say otherwise. -/
def databaseIn (base : Path) : Path :=
  (base.join (.ofString ".symdex")).join (.ofString "index.db")

def default : Settings :=
  { database := databaseIn (.ofString ".")
    concurrency := none
    debounceMilliseconds := 20
    logLevel := "info" }

def defaultFile : Path := .ofString "symdex.toml"

/-- The concurrency that was asked for; zero asks for nothing. -/
def requestedConcurrency (s : Settings) : Option Nat := s.concurrency.filter fun n => decide (0 < n)

/-- How many collectors run at once on a machine with the given number of processors. -/
def concurrencyOn (processors : Nat) (s : Settings) : Nat :=
  s.requestedConcurrency.getD (max processors 1)

def debounceNanoseconds (s : Settings) : Nat := s.debounceMilliseconds * 1000000

def ofFields? (fields : List (String × Data)) : Option Settings := do
  let database ← match Data.field? "database" fields with
    | none => some default.database
    | some d => d.asText?.map Path.ofString
  let concurrency ← match Data.field? "concurrency" fields with
    | none => some none
    | some d => d.asNat?.map some
  let debounceMilliseconds ← match Data.field? "watch_debounce_ms" fields with
    | none => some default.debounceMilliseconds
    | some d => d.asNat?
  let logLevel ← match Data.field? "log_level" fields with
    | none => some default.logLevel
    | some d => d.asText?
  pure { database, concurrency, debounceMilliseconds, logLevel }

def malformed (p : Path) : Failure := .config (p.display ++ ": TOML parse error")

/-- The settings in a file; none where there is no such file. -/
def load (d : Disk) (p : Path) : Except Failure (Option Settings) :=
  if !d.doesExist p then .ok none
  else match d.readText p with
    | .error fault => .error (.io fault)
    | .ok text =>
        match (Toml.document? text).bind ofFields? with
        | some settings => .ok (some settings)
        | none => .error (malformed p)

/-- Numbers are written as signed words of 64 bits. -/
def number (n : Nat) : Except Failure String :=
  if Data.isWord n then .ok (toString n) else .error (.config "out-of-range value for u64 type")

def line (key value : String) : String := key ++ " = " ++ value ++ "\n"

def render (s : Settings) : Except Failure String := do
  let database ← match s.database.text? with
    | some text => pure (line "database" (Toml.quoted text))
    | none => .error (.config "path contains invalid UTF-8 characters")
  let concurrency ← match s.concurrency with
    | some n => (number n).map (line "concurrency")
    | none => pure ""
  let debounce ← (number s.debounceMilliseconds).map (line "watch_debounce_ms")
  pure (database ++ concurrency ++ debounce ++ line "log_level" (Toml.quoted s.logLevel))

/-- Write the settings to a file, which must not be there already unless `force` allows it. -/
def save (d : Disk) (p : Path) (s : Settings) (force : Bool) : Except Failure Disk :=
  if d.doesExist p && !force then
    .error (.config ("config already exists at " ++ p.display ++ " (use --force to overwrite)"))
  else do
    let text ← s.render
    match d.write p (Text.bytesOf text) 0 with
    | .ok d => .ok d
    | .error fault => .error (.io fault)

/-- Make the directory that the database is in. -/
def ensureDirectory (d : Disk) (database : Path) : Except Failure Disk :=
  match database.parent with
  | none => .ok d
  | some parent =>
      if parent.isEmpty || d.doesExist parent then .ok d
      else match d.makeDirectories parent.bytes.length parent with
        | .ok d => .ok d
        | .error fault => .error (.io fault)

end Settings
end SymbolIndex
