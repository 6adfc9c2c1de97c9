import FacetQuery.Schema.Reader

/-!
# Schema — Files

A schema is kept in a directory, in a file of a fixed name. What the file system answers is a
value here, so that reading a schema from a directory is a function of that answer.
-/

namespace FacetQuery

open Json.Reader

/-- Why a file cannot be read as text. -/
inductive FileFault where
  | missing
  | denied
  /-- A directory on the path to the file is none. -/
  | notDirectory
  /-- The file is a directory. -/
  | isDirectory
  | nameTooLong
  /-- The bytes of the file are no UTF-8. -/
  | notText
  /-- Something else, in the words of the system. -/
  | other (reason : String)
deriving DecidableEq, Repr

namespace FileFault

/-- `message f` is the wording of `f`. -/
def message : FileFault → String
  | .missing => "No such file or directory (os error 2)"
  | .denied => "Permission denied (os error 13)"
  | .notDirectory => "Not a directory (os error 20)"
  | .isDirectory => "Is a directory (os error 21)"
  | .nameTooLong => "File name too long (os error 36)"
  | .notText => "stream did not contain valid UTF-8"
  | .other reason => reason

end FileFault

/-- What the file system answers when a file is asked for. -/
inductive FileContent where
  /-- The bytes of the file. -/
  | bytes (data : ByteArray)
  /-- There is no file to read. -/
  | unreadable (fault : FileFault)

/-- Why a schema cannot be read from a directory. -/
inductive SchemaFileError where
  /-- The file cannot be read as text. -/
  | io (path : String) (fault : FileFault)
  /-- The text is no schema. -/
  | parse (path : String) (error : ReadError)

namespace SchemaFileError

/-- `message e` is the wording of `e`. -/
def message : SchemaFileError → String
  | .io path fault => "I/O error: " ++ path ++ ": " ++ fault.message
  | .parse path error =>
      "parse error on " ++ path ++ ":" ++ naturalText error.place.line ++ ":"
        ++ naturalText error.place.column ++ ": " ++ error.message

end SchemaFileError

namespace Schema

/-- The name of the file in its directory. -/
def fileName : String := "schema.json"

/-- `join directory name` is the path of a file in a directory. -/
def join (directory name : String) : String :=
  if directory = "" ∨ directory.toList.getLast? = some '/' then directory ++ name
  else directory ++ "/" ++ name

/-- `path directory` is the path of the schema in a directory. -/
def path (directory : String) : String :=
  join directory fileName

/-- `ofContent path content` reads the schema from what the file system answers for its path. -/
def ofContent (path : String) : FileContent → Except SchemaFileError Schema
  | .unreadable fault => .error (.io path fault)
  | .bytes data =>
      match String.fromUTF8? data with
      | none => .error (.io path .notText)
      | some text => (read text).mapError (.parse path)

end Schema

end FacetQuery
