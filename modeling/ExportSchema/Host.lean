import ExportSchema.Encoding.Name
import ExportSchema.Encoding.Utf8
import ExportSchema.Json.Basic
import ExportSchema.Language
import ExportSchema.Number.Binary64
import ExportSchema.Repository
import ExportSchema.Text.Quoted
import ExportSchema.Tree.Basic

/-!
# The surroundings of a computation

`Host m` is all that a computation asks of its surroundings: files, web pages, repository contents,
a guess at an encoding, and the syntax tree of a module. The effects live in the monad `m`.
-/

namespace ExportSchema

/-- Why a file cannot be opened. -/
inductive FileError where
  /-- The path holds a NUL, and names no file at all. -/
  | nullByte
  | notFound
  | notDirectory
  | isDirectory
  | nameTooLong
  /-- A failure of the system, by its number and text. -/
  | system (number : Nat) (text : Text)
  deriving DecidableEq, Repr

/-- A failure of the system to open a file, by its number and text. -/
def FileError.system? : FileError → Option (Nat × Text)
  | nullByte => none
  | notFound => some (2, "No such file or directory".toList)
  | notDirectory => some (20, "Not a directory".toList)
  | isDirectory => some (21, "Is a directory".toList)
  | nameTooLong => some (36, "File name too long".toList)
  | system number text => some (number, text)

/-- The answer to a request for a web page. -/
inductive Page where
  | content (text : Text)
  /-- The server refused, for this reason. -/
  | refused (reason : Text)
  /-- There was no answer. -/
  | failed (message : Text)
  deriving DecidableEq, Repr

/-- The answer to a request for the contents of a repository. -/
inductive Contents where
  | file (bytes : Bytes)
  | directory
  /-- The service refused, with a status and data on the cause. -/
  | refused (status : Int) (data : Json)

/-- What a computation asks of its surroundings. -/
structure Host (m : Type → Type) where
  isDirectory : Text → m Bool
  readFile : Text → m (Except FileError Bytes)
  /-- Get a web page, waiting at most so many seconds. -/
  getPage : Text → Binary64 → m Page
  /-- Open the repository service with a token, and wait at most so many seconds. -/
  openService : Text → Int → m Unit
  getContents : Repository.FileRef → m Contents
  /-- Guess the encoding of bytes that are not UTF-8. -/
  detectEncoding : Bytes → m (Option EncodingName)
  /-- The syntax tree of a module. -/
  syntaxTree : Grammar → Text → m Tree

end ExportSchema
