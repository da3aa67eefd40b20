import ExportSchema.Text.Basic

/-!
# Paths

Paths with slashes, as texts.

* `Path.join`: a path below another, unless it is absolute.
* `Path.normalize`: the shortest path that names the same place, as far as the text tells.
* `Path.fileName`, `Path.extension`: the last component and its extension.
-/

namespace ExportSchema.Path

/-- A path below another; an absolute path stands for itself. -/
def join (base path : Text) : Text :=
  if Text.startsWith ['/'] path then path
  else if base.isEmpty || Text.endsWith ['/'] base then base ++ path
  else base ++ '/' :: path

/-- How many slashes a path starts with: two are kept apart from one, more count as one. -/
def rootSlashes (path : Text) : Nat :=
  if !Text.startsWith ['/'] path then 0
  else if Text.startsWith ['/', '/'] path && !Text.startsWith ['/', '/', '/'] path then 2
  else 1

/-- Add a component to the ones kept so far, the last one first. Empty components and `.` add
nothing; `..` takes the last one away, and stays only where there is nothing to take away in a
relative path. -/
def addComponent (absolute : Bool) (kept : List Text) (c : Text) : List Text :=
  if c = [] ∨ c = ['.'] then kept
  else if c ≠ "..".toList then c :: kept
  else
    match kept with
    | [] => if absolute then [] else [c]
    | last :: rest => if last = "..".toList then c :: kept else rest

/-- The components that stay. -/
def components (path : Text) : List Text :=
  ((Text.splitOn '/' path).foldl (addComponent (rootSlashes path ≠ 0)) []).reverse

/-- The path without empty components and with `.` and `..` carried out. The empty path is `.`. -/
def normalize (path : Text) : Text :=
  let clean := List.replicate (rootSlashes path) '/' ++ Text.join ['/'] (components path)
  if clean.isEmpty then ['.'] else clean

/-- The part of a path after its last slash. -/
def fileName (path : Text) : Text := (path.reverse.takeWhile (· ≠ '/')).reverse

/-- The last point of a file name and what follows it; points at the start of the name do not
count. -/
def extension (path : Text) : Text :=
  let name := (fileName path).dropWhile (· = '.')
  if name.contains '.' then '.' :: (name.reverse.takeWhile (· ≠ '.')).reverse else []

end ExportSchema.Path
