import SymbolIndex.Extraction
import SymbolIndex.Overlay

/-!
# Collectors

A collector reports the symbols of a file that is compiled with given arguments, fails
or breaks down. The collector for source code picks the language, first by the
arguments and then by the path, reads generated contents before the disk, and has a
grammar parse the text.
-/

namespace SymbolIndex

/-- How a collection ends. -/
inductive Collected where
  | results (r : Results)
  | failed (failure : Failure)
  | panicked (message : String)
deriving DecidableEq

/-- The syntax tree of a text in a language, if a parser delivers one. -/
abbrev Grammar := Language -> String -> Option SyntaxTree

namespace Collected

/-- The symbols of a source text. -/
def ofSource (grammar : Grammar) (language : Language) (p : Path) (source : String) : Collected :=
  match grammar language source with
  | some tree => .results (Extraction.Source.collect ⟨language, Text.bytesOf source⟩ tree)
  | none => .failed (.parse p "parser produced no tree")

def languageOf (p : Path) (arguments : List String) : Option Language :=
  (Language.ofArguments? arguments).or (Language.ofPath? p)

/-- The symbols of a source file. -/
def ofFile (grammar : Grammar) (d : Disk) (o : Overlay) (p : Path) (arguments : List String) : Collected :=
  match languageOf p arguments with
  | none => .failed (.parse p "unsupported source language")
  | some language =>
      match o.content? p with
      | some content => ofSource grammar language p content
      | none =>
          match d.readText p with
          | .ok source => ofSource grammar language p source
          | .error fault => .failed (.parse p fault.message)

end Collected
end SymbolIndex
