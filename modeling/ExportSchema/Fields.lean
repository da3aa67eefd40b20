import ExportSchema.Text.Basic

/-!
# Ordered fields

A list of named values in the order in which the names first came. `put` writes a value under its
name: a new name goes to the end, a name that is there keeps its place and takes the new value.
-/

namespace ExportSchema

/-- Named values, in order. -/
abbrev Fields (α : Type) := List (Text × α)

namespace Fields

variable {α : Type}

/-- The value under a name. -/
def get? (fs : Fields α) (name : Text) : Option α := List.lookup name fs

/-- The names, in order. -/
def names (fs : Fields α) : List Text := fs.map (·.1)

/-- The values, in order. -/
def values (fs : Fields α) : List α := fs.map (·.2)

/-- Write a value under a name. -/
def put (name : Text) (value : α) : Fields α → Fields α
  | [] => [(name, value)]
  | (n, v) :: rest => if n = name then (n, value) :: rest else (n, v) :: put name value rest

/-- Write a value under a name that is not there yet. -/
def putNew (name : Text) (value : α) (fs : Fields α) : Fields α :=
  if (get? fs name).isSome then fs else fs ++ [(name, value)]

/-- Write named values one after the other. -/
def putAll (fs : Fields α) (entries : List (Text × α)) : Fields α :=
  entries.foldl (fun fs (name, value) => put name value fs) fs

/-- The fields that named values make when written in order. -/
def ofList (entries : List (Text × α)) : Fields α := putAll [] entries

end Fields

end ExportSchema
