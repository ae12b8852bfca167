import SymbolIndex.Symbol

/-!
# Source languages

For each language: which file names and compile arguments select it, which nodes
of its syntax trees define a symbol and of what kind, and which nodes only open a
scope.
-/

namespace SymbolIndex

inductive Language where
  | c
  | cpp
  | rust
  | python
  | javaScript
  | go
deriving DecidableEq, Repr

namespace Language

def all : List Language := [.c, .cpp, .rust, .python, .javaScript, .go]

def display : Language -> String
  | c => "C"
  | cpp => "C++"
  | rust => "Rust"
  | python => "Python"
  | javaScript => "JavaScript"
  | go => "Go"

/-- What the keys of a language's symbols begin with. -/
def usrPrefix : Language -> String
  | c => "c"
  | cpp => "c++"
  | rust => "rust"
  | python => "py"
  | javaScript => "js"
  | go => "go"

def extensions : Language -> List String
  | c => ["c", "h"]
  | cpp => ["cc", "cpp", "cxx", "c++", "hpp", "hh", "hxx", "h++", "ipp", "tpp"]
  | rust => ["rs"]
  | python => ["py", "pyi"]
  | javaScript => ["js", "jsx", "mjs", "cjs"]
  | go => ["go"]

/-- The names by which compile arguments ask for a language. -/
def names : Language -> List String
  | c => ["c", "c-header"]
  | cpp => ["c++", "cpp", "cxx", "c++-header", "objective-c++"]
  | rust => ["rust", "rs"]
  | python => ["python", "py"]
  | javaScript => ["javascript", "js"]
  | go => ["go"]

/-- The language that has the extension of the path, in letters of either case. -/
def ofPath? (p : Path) : Option Language :=
  match p.extension.bind Text.ofBytes? with
  | some ext => all.find? fun language => language.extensions.contains (Text.fold ext)
  | none => none

def ofName? (name : String) : Option Language :=
  all.find? fun language => language.names.contains (Text.fold name)

/--
Go through compile arguments with `found` the language so far. The argument `-x`
takes the next argument as a name; `--language=` and `-x` may also stand right in
front of the name.
-/
def scan (found : Option Language) : List String -> Option Language
  | [] => found
  | argument :: rest =>
      if argument = "-x" then
        match rest with
        | [] => found
        | name :: rest => scan ((ofName? name).or found) rest
      else
        let name := match Text.stripFront "--language=" argument with
          | some name => some name
          | none => Text.stripFront "-x" argument
        scan ((name.bind ofName?).or found) rest

/-- The language that compile arguments ask for; the last request that is understood wins. -/
def ofArguments? (arguments : List String) : Option Language := scan none arguments

/-!
# Roles of nodes
-/

def cDefinitions : List (String × SymbolKind) :=
  [("function_definition", .callable),
   ("struct_specifier", .container),
   ("union_specifier", .container),
   ("enum_specifier", .container),
   ("type_definition", .container),
   ("enumerator", .value),
   ("preproc_def", .value),
   ("preproc_function_def", .callable)]

def cppDefinitions : List (String × SymbolKind) :=
  cDefinitions ++
  [("class_specifier", .container),
   ("alias_declaration", .container),
   ("namespace_definition", .nameSpace)]

def rustDefinitions : List (String × SymbolKind) :=
  [("function_item", .callable),
   ("function_signature_item", .callable),
   ("macro_definition", .callable),
   ("struct_item", .container),
   ("enum_item", .container),
   ("union_item", .container),
   ("trait_item", .container),
   ("type_item", .container),
   ("mod_item", .nameSpace),
   ("const_item", .value),
   ("static_item", .value),
   ("enum_variant", .value)]

def pythonDefinitions : List (String × SymbolKind) :=
  [("function_definition", .callable),
   ("class_definition", .container)]

def javaScriptDefinitions : List (String × SymbolKind) :=
  [("function_declaration", .callable),
   ("generator_function_declaration", .callable),
   ("method_definition", .callable),
   ("class_declaration", .container),
   ("variable_declarator", .value)]

def goDefinitions : List (String × SymbolKind) :=
  [("function_declaration", .callable),
   ("method_declaration", .callable),
   ("type_spec", .container),
   ("const_spec", .value),
   ("var_spec", .value)]

def definitions : Language -> List (String × SymbolKind)
  | c => cDefinitions
  | cpp => cppDefinitions
  | rust => rustDefinitions
  | python => pythonDefinitions
  | javaScript => javaScriptDefinitions
  | go => goDefinitions

/-- The kind of symbol that a node of this kind defines. -/
def definitionKind (language : Language) (nodeKind : String) : Option SymbolKind :=
  (language.definitions.find? fun d => d.1 == nodeKind).map Prod.snd

/-- Whether nodes of this kind open a scope, named by their type, without defining a symbol. -/
def opensScope (language : Language) (nodeKind : String) : Bool :=
  language == .rust && nodeKind == "impl_item"

/-- Tag types define a symbol only where they have a body. -/
def requiresBody (nodeKind : String) : Bool :=
  ["struct_specifier", "union_specifier", "enum_specifier", "class_specifier"].contains nodeKind

/-- The nodes that can name or refer to a symbol. -/
def isIdentifier (nodeKind : String) : Bool :=
  ["identifier", "type_identifier", "field_identifier", "property_identifier",
   "namespace_identifier"].contains nodeKind

end Language
end SymbolIndex
