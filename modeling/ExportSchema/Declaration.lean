import ExportSchema.Text.Basic

/-!
# Top-level declarations

What a module declares at its top level, in source order: local definitions with their export
marks, export clauses, and default exports of an expression.

* `Member.text`, `membersText`: the members of an interface, printed as members of an object type.
* `localTypes`: the interfaces and type aliases, by name.
-/

namespace ExportSchema

/-- A member of an interface. A method has a function type. -/
structure Member where
  name : Text
  type : Text
  optional : Bool
  deriving DecidableEq, Repr

/-- The member as a member of an object type. -/
def Member.text (m : Member) : Text :=
  m.name ++ (if m.optional then ['?'] else []) ++ ": ".toList ++ m.type

/-- Members between braces, separated by semicolons. -/
def membersText (parts : List Text) : Text :=
  "\x7b ".toList ++ Text.join "; ".toList parts ++ " \x7d".toList

/-- One entry of an export clause: a symbol of this module, and the name it is exported under. -/
structure Specifier where
  symbol : Text
  name : Text
  typeOnly : Bool
  deriving DecidableEq, Repr

/-- What a local declaration defines. -/
inductive Definition where
  | variables
  | function
  | classType
  | interface (members : List Member) (parents : List Text)
  | typeAlias (value : Option Text)
  | enumType
  deriving DecidableEq, Repr

/-- A top-level declaration. -/
inductive Declaration where
  /-- A definition of local names, with the marks `export` and `default`. -/
  | define (what : Definition) (names : List Text) (exported default : Bool)
  /-- An export clause, from another module when it has a source. -/
  | clause (specifiers : List Specifier) (typeOnly : Bool) (source : Option Text)
  /-- The default export of an expression: a local name, or anything else. -/
  | defaultValue (symbol : Option Text)
  /-- A declaration of another kind. -/
  | other
  deriving DecidableEq, Repr

/-- The types that a module declares under a name. -/
inductive LocalType where
  | interface (members : List Member) (parents : List Text)
  | typeAlias (value : Option Text)
  deriving DecidableEq, Repr

/-- The local type that a declaration gives, with its name. -/
def Declaration.localType? : Declaration → Option (Text × LocalType)
  | .define (.interface members parents) (name :: _) _ _ => some (name, .interface members parents)
  | .define (.typeAlias value) (name :: _) _ _ => some (name, .typeAlias value)
  | _ => none

/-- The local types of a module; of several of one name the first counts. -/
def localTypes (ds : List Declaration) : List (Text × LocalType) :=
  ds.filterMap Declaration.localType?

end ExportSchema
