import SymbolIndex.Data
import SymbolIndex.Path

/-!
# Arguments of the command line

A command line is a sequence of options, the name of a command, and the options of that
command. An option is given by its long name, with a value behind an equals sign or as
the next word, or by its letter; several letters may share a dash, and what follows the
letter of an option with a value is the value. A word with a dash in front is never the
value of the option before it. Some options may stand before the command and after it;
there the later one counts. Nothing may be given twice in one place.
-/

namespace SymbolIndex

/-- What the program is asked to do. -/
inductive Command where
  | index (project : Path) (watch : Bool)
  | symbols (file : Path)
  | locations (symbol : Int)
  | find (name : String)
  | stats
  | init (force : Bool)
deriving DecidableEq, Repr

structure Invocation where
  verbose : Bool
  json : Bool
  config : Option Path
  database : Option Path
  command : Command
deriving DecidableEq, Repr

/-- The options. -/
inductive Switch where
  | verbose
  | config
  | database
  | json
  | version
  | help
  | project
  | watch
  | file
  | symbol
  | name
  | force
deriving DecidableEq, Repr

namespace Switch

def long : Switch -> String
  | verbose => "verbose"
  | config => "config"
  | database => "database"
  | json => "json"
  | version => "version"
  | help => "help"
  | project => "project"
  | watch => "watch"
  | file => "file"
  | symbol => "symbol"
  | name => "name"
  | force => "force"

def letter? : Switch -> Option Char
  | verbose => some 'v'
  | config => some 'c'
  | database => some 'd'
  | version => some 'V'
  | help => some 'h'
  | project => some 'p'
  | watch => some 'w'
  | file => some 'f'
  | symbol => some 's'
  | name => some 'n'
  | json => none
  | force => none

def takesValue : Switch -> Bool
  | config | database | project | file | symbol | name => true
  | _ => false

/-- The options that may also stand behind the command. -/
def everywhere : List Switch := [.verbose, .config, .database, .json, .help]

end Switch

/-- A whole number with an optional sign that fits a signed word of 64 bits. -/
def wordOf? (s : String) : Option Int :=
  let value : List Char -> Option Nat := fun ds =>
    if !ds.isEmpty && ds.all Char.isDigit then
      some (ds.foldl (fun n c => n * 10 + (c.toNat - 48)) 0)
    else none
  let n : Option Int := match s.toList with
    | '-' :: ds => (value ds).map fun n => -(n : Int)
    | '+' :: ds => (value ds).map fun n => (n : Int)
    | ds => (value ds).map fun n => (n : Int)
  n.filter Data.isWord

/-- Whether an option takes this value; a path may not be empty. -/
def Switch.accepts (switch : Switch) (value : String) : Bool :=
  match switch with
  | .config | .database | .project | .file => !value.isEmpty
  | .symbol => (wordOf? value).isSome
  | _ => true

/-- Why reading a command line ends before a command is found. -/
inductive Stop where
  | malformed
  | version
  | help
deriving DecidableEq, Repr

namespace Arguments

/-- The options given in one place, with their values. -/
abbrev Given := List (Switch × String)

/-- One more option with its value. -/
def give (given : Given) (switch : Switch) (value : String) : Except Stop Given :=
  match switch with
  | .version => .error .version
  | .help => .error .help
  | _ =>
      if (given.lookup switch).isSome || !switch.accepts value then .error .malformed
      else .ok (given ++ [(switch, value)])

/-- An option that still wants its value from the next word. -/
structure Pending where
  given : Given
  wanting : Option Switch

def withoutEquals : List Char -> List Char
  | '=' :: cs => cs
  | cs => cs

/-- Letters that share a dash. -/
def letters (allowed : List Switch) : Given -> List Char -> Except Stop Pending
  | given, [] => .ok ⟨given, none⟩
  | given, c :: cs =>
      match allowed.find? fun switch => switch.letter? == some c with
      | none => .error .malformed
      | some switch =>
          if !switch.takesValue then do
            let given ← give given switch ""
            letters allowed given cs
          else if cs.isEmpty then .ok ⟨given, some switch⟩
          else do
            let given ← give given switch (String.ofList (withoutEquals cs))
            .ok ⟨given, none⟩

/-- An option by its long name, with or without a value behind an equals sign. -/
def longName (allowed : List Switch) (given : Given) (cs : List Char) : Except Stop Pending :=
  let name := String.ofList (cs.takeWhile fun c => c != '=')
  let value := (cs.dropWhile fun c => c != '=')
  match allowed.find? fun switch => switch.long == name with
  | none => .error .malformed
  | some switch =>
      match switch.takesValue, value with
      | true, [] => .ok ⟨given, some switch⟩
      | true, _ :: value => do
          let given ← give given switch (String.ofList value)
          .ok ⟨given, none⟩
      | false, [] => do
          let given ← give given switch ""
          .ok ⟨given, none⟩
      | false, _ :: _ => .error .malformed

/-- Whether a word is an option; a dash alone is none. -/
def isOption (word : String) : Bool := word.startsWith "-" && word != "-"

def option (allowed : List Switch) (given : Given) (word : String) : Except Stop Pending :=
  match word.toList with
  | '-' :: '-' :: cs => longName allowed given cs
  | '-' :: cs => letters allowed given cs
  | _ => .error .malformed

/--
Read options up to the first word that is none. Two dashes end the options, and no word
may follow them.
-/
def options (allowed : List Switch) : Given -> List String -> Except Stop (Given × List String)
  | given, [] => .ok (given, [])
  | given, word :: rest =>
      if word = "--" then
        if rest.isEmpty then .ok (given, []) else .error .malformed
      else if !isOption word then .ok (given, word :: rest)
      else match option allowed given word, rest with
        | .error stop, _ => .error stop
        | .ok ⟨given, none⟩, rest => options allowed given rest
        | .ok ⟨_, some _⟩, [] => .error .malformed
        | .ok ⟨given, some switch⟩, value :: rest =>
            if isOption value then .error .malformed
            else match give given switch value with
              | .error stop => .error stop
              | .ok given => options allowed given rest

/-- The options of a command of its own. -/
def ownSwitches : String -> Option (List Switch)
  | "index" => some [.project, .watch]
  | "symbols" => some [.file]
  | "locations" => some [.symbol]
  | "find" => some [.name]
  | "stats" => some []
  | "init" => some [.force]
  | _ => none

def pathIn (given : Given) (switch : Switch) : Option Path := (given.lookup switch).map Path.ofString

def isGiven (given : Given) (switch : Switch) : Bool := (given.lookup switch).isSome

/-- The command of a name with its options; some options must be given. -/
def commandOf? (word : String) (given : Given) : Option Command :=
  match word with
  | "index" => (pathIn given .project).map fun p => .index p (isGiven given .watch)
  | "symbols" => (pathIn given .file).map .symbols
  | "locations" => ((given.lookup .symbol).bind wordOf?).map .locations
  | "find" => (given.lookup .name).map .find
  | "stats" => some .stats
  | "init" => some (.init (isGiven given .force))
  | _ => none

def read (arguments : List String) : Except Stop Invocation :=
  match options (.version :: Switch.everywhere) [] arguments with
  | .error stop => .error stop
  | .ok (_, []) => .error .malformed
  | .ok (before, word :: rest) =>
      match ownSwitches word with
      | none => .error (if word = "help" then .help else .malformed)
      | some own =>
          match options (own ++ Switch.everywhere) [] rest with
          | .error stop => .error stop
          | .ok (_, _ :: _) => .error .malformed
          | .ok (behind, []) =>
              match commandOf? word behind with
              | none => .error .malformed
              | some command =>
                  .ok { verbose := isGiven before .verbose || isGiven behind .verbose
                        json := isGiven before .json || isGiven behind .json
                        config := (pathIn behind .config).or (pathIn before .config)
                        database := (pathIn behind .database).or (pathIn before .database)
                        command := command }

end Arguments
end SymbolIndex
