import SymbolIndex.FileId
import SymbolIndex.Path

/-!
# Failures

What can go wrong, by cause, and the wording of each cause. A failure that was
brought about by another one names it too: `chain` lists the wordings from the
outermost cause inwards.
-/

namespace SymbolIndex

/-- Why the disk refused. -/
inductive DiskFault where
  | notFound
  | notDirectory
  | isDirectory
  | alreadyExists
  | notEmpty
  | nameTooLong
  | nulInPath
  | notText
deriving DecidableEq, Repr

namespace DiskFault

def message : DiskFault -> String
  | notFound => "No such file or directory (os error 2)"
  | notDirectory => "Not a directory (os error 20)"
  | isDirectory => "Is a directory (os error 21)"
  | alreadyExists => "File exists (os error 17)"
  | notEmpty => "Directory not empty (os error 39)"
  | nameTooLong => "File name too long (os error 36)"
  | nulInPath => "file name contained an unexpected NUL byte"
  | notText => "stream did not contain valid UTF-8"

end DiskFault

/-- Why the store refused. -/
inductive StoreFault where
  | foreignKey
  | duplicatePath
  | unknownKind (text : String)
  | unknownRole (text : String)
  | cannotOpen (path : Path)
  | notADatabase
deriving DecidableEq, Repr

def unknownKindText (text : String) : String := "Unknown symbol kind: " ++ text

def unknownRoleText (text : String) : String := "Unknown location role: " ++ text

namespace StoreFault

def conversion (column : Nat) (problem : String) : String :=
  "Conversion error from type Text at index: " ++ toString column ++ ", Config error: " ++ problem

def message : StoreFault -> String
  | foreignKey => "FOREIGN KEY constraint failed"
  | duplicatePath => "UNIQUE constraint failed: sources.path"
  | unknownKind text => conversion 2 (unknownKindText text)
  | unknownRole text => conversion 4 (unknownRoleText text)
  | cannotOpen path => "unable to open database file: " ++ path.display
  | notADatabase => "file is not a database"

/-- The wording of the store's own error code, where there is one. -/
def code : StoreFault -> Option String
  | foreignKey | duplicatePath => some "Error code 19: Constraint failed"
  | unknownKind text => some ("Config error: " ++ unknownKindText text)
  | unknownRole text => some ("Config error: " ++ unknownRoleText text)
  | cannotOpen _ => some "Error code 14: Unable to open the database file"
  | notADatabase => some "Error code 26: File opened that is not a database file"

end StoreFault

inductive Failure where
  | storage (fault : StoreFault)
  | io (fault : DiskFault)
  | parse (path : Path) (message : String)
  | invalidPart (part reason : String)
  | duplicateFile (path : Path) (first second : String)
  | watch
  | unknownFile (id : FileId)
  | config (message : String)
  | collector (message : String)
  | serialization
deriving DecidableEq, Repr

namespace Failure

def message : Failure -> String
  | storage fault => "Storage error: " ++ fault.message
  | io fault => "IO error: " ++ fault.message
  | parse path text => "Parse error in " ++ path.display ++ ": " ++ text
  | invalidPart part reason => "Invalid project part '" ++ part ++ "': " ++ reason
  | duplicateFile path first second =>
      "File " ++ path.display ++ " is claimed by project parts '" ++ first ++ "' and '"
        ++ second ++ "'"
  | watch => "Watch error"
  | unknownFile id => "Unknown file id: " ++ id.display
  | config text => "Config error: " ++ text
  | collector text => "Collector error: " ++ text
  | serialization => "Serialization error"

def chain (failure : Failure) : List String :=
  failure.message :: match failure with
    | storage fault => fault.message :: fault.code.toList
    | io fault => [fault.message]
    | _ => []

end Failure
end SymbolIndex
