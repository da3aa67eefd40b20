import ExportSchema.Fields
import ExportSchema.Host

/-!
# A world in memory

Files, web pages and repository contents as plain data, with the record of what was asked for. A
computation runs in it without effects, so that what it asks for and what it answers can be stated.

* `World.lookUp`: the file or directory of a path, or why there is none.
* `World.host`: the world as the surroundings of a computation.
-/

namespace ExportSchema

/-- What was asked of the world. -/
inductive Call where
  | page (url : Text) (timeout : Binary64)
  | service (token : Text) (seconds : Int)
  | contents (ref : Repository.FileRef)
  deriving DecidableEq, Repr

/-- A world in memory. Files and directories are named by their components from the root, and the
contents of repositories by `FileRef.name`. -/
structure World where
  cwd : List Text
  files : List (List Text × Bytes)
  directories : List (List Text)
  pages : Fields Page
  contents : Fields Contents
  syntaxTree : Grammar → Text → Tree

namespace World

/-- What a place in the tree of files holds. -/
inductive Node where
  | file (bytes : Bytes)
  | directory

/-- What is at a place. Whatever holds something is a directory. -/
def node? (w : World) (place : List Text) : Option Node :=
  match w.files.lookup place with
  | some bytes => some (.file bytes)
  | none =>
    if w.cwd :: w.directories ++ w.files.map (·.1) |>.any place.isPrefixOf then some .directory
    else none

/-- The longest name of a component, in bytes. -/
def maxName : Nat := 255

/-- The length from which on a path is too long, in bytes. -/
def pathLimit : Nat := 4096

/-- Go down from a place along components. Each step starts in a directory. -/
def walk (w : World) (place : List Text) : List Text → Except FileError (List Text × Node)
  | [] =>
    match w.node? place with
    | some n => .ok (place, n)
    | none => .error .notFound
  | c :: cs =>
    match w.node? place with
    | none => .error .notFound
    | some (.file _) => .error .notDirectory
    | some .directory =>
      if c = [] ∨ c = ['.'] then walk w place cs
      else if c = "..".toList then walk w place.dropLast cs
      else if maxName < (Utf8.encode c).length then .error .nameTooLong
      else walk w (place ++ [c]) cs

/-- The file or directory of a path. A slash at the end asks for a directory. -/
def lookUp (w : World) (path : Text) : Except FileError Node :=
  if path.contains '\x00' then .error .nullByte
  else if path.isEmpty then .error .notFound
  else if pathLimit ≤ (Utf8.encode path).length then .error .nameTooLong
  else
    let start := if path.head? = some '/' then [] else w.cwd
    (w.walk start (Text.splitOn '/' path)).map (·.2)

/-- Read a file. -/
def readFile (w : World) (path : Text) : Except FileError Bytes :=
  match w.lookUp path with
  | .ok (.file bytes) => .ok bytes
  | .ok .directory => .error .isDirectory
  | .error e => .error e

/-- Is there a directory at a path? -/
def isDirectory (w : World) (path : Text) : Bool :=
  match w.lookUp path with
  | .ok .directory => true
  | _ => false

/-- The world as the surroundings of a computation that records its calls. -/
def host (w : World) : Host (StateM (List Call)) where
  isDirectory path := return w.isDirectory path
  readFile path := return w.readFile path
  getPage url timeout := do
    modify (· ++ [.page url timeout])
    return (w.pages.get? url).getD (.refused "Not Found".toList)
  openService token seconds := modify (· ++ [.service token seconds])
  getContents ref := do
    modify (· ++ [.contents ref])
    return (w.contents.get? ref.name).getD
      (.refused 404 (.ofFields [("message", .ofString "Not Found")]))
  detectEncoding _ := return none
  syntaxTree grammar source := return w.syntaxTree grammar source

end World

end ExportSchema
