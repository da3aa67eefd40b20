import ExportSchema.Bracket.Split
import ExportSchema.TypeNode.Basic
import ExportSchema.TypeNode.Lexeme

/-!
# One construct of a type text

Reading a type goes layer by layer. `layer t` recognises the outermost construct of `t` and leaves
the texts of its components unread; `Layer.build` completes it once a way to read those is given.

Six forms are tried in turn: keywords and literals, arrays, components, objects, unions and
functions. Text of none of the forms is kept verbatim.
-/

namespace ExportSchema.TypeNode

open Text (trim trimStart)
open Lexeme

/-! ## Layers -/

/-- A component of a construct that is still to be read. -/
inductive Part where
  /-- The text of a type. -/
  | text (t : Text)
  /-- A method, which is a function under a text of its own. -/
  | method (text : Text) (params : List (Param Text)) (returns : Text)

/-- What a text is, down to the texts of its components. -/
inductive Layer where
  /-- A node of this text, mark and shape. -/
  | node (text : Text) (nullable : Bool) (shape : Shape Part)
  /-- The type of another text. -/
  | same (inner : Text)
  /-- The type of another text, with `null` folded in. -/
  | orNull (inner : Text)

/-- Complete a component, where `read` reads type texts. -/
def Part.build (read : Text → TypeNode) : Part → TypeNode
  | .text t => read t
  | .method src params returns =>
    TypeNode.plain src (.function (params.map (·.map read)) (read returns))

/-- Complete a layer, where `read` reads type texts. -/
def Layer.build (read : Text → TypeNode) : Layer → TypeNode
  | .node text nullable shape => ⟨text, nullable, shape.map (·.build read)⟩
  | .same inner => read inner
  | .orNull inner => (read inner).asNullable

/-- The type texts that a component holds. -/
def Part.texts : Part → List Text
  | .text t => [t]
  | .method _ params returns => params.map (·.type) ++ [returns]

/-- The type texts that a layer holds. -/
def Layer.texts : Layer → List Text
  | .node _ _ shape => shape.parts.flatMap Part.texts
  | .same inner => [inner]
  | .orNull inner => [inner]

/-- A node that is not nullable by itself. -/
def Layer.plain (text : Text) (shape : Shape Part) : Layer := .node text false shape

/-! ## Keywords and literals -/

/-- A keyword or a literal. -/
def primitiveLayer (t : Text) : Option Layer :=
  if primitiveNames.contains t then some (.plain t (.primitive t))
  else if isLiteral t then some (.plain t (.literal t))
  else none

/-! ## Generic types, arrays and components -/

/-- The base and the arguments of a text `Base<…>`; empty arguments are left out. -/
def generic? (t : Text) : Option (Text × List Text) := do
  let (base, rest) ← dottedName? t
  let inside ← Bracket.enclosed? '<' (trimStart rest)
  let args := (Bracket.split [','] inside none).map trim
  return (base, args.filter (!·.isEmpty))

/-- The names of the generic array types. -/
def arrayBases : List Text := ["Array".toList, "ReadonlyArray".toList]

/-- The names of the generic component types, which may be qualified by `React.`. -/
def componentBases : List Text :=
  ["FC", "VFC", "FunctionComponent", "ComponentType"].map String.toList

/-- The element of a text `T[]`. The brackets bind tighter than a union or an arrow. -/
def arraySuffix? (t : Text) : Option Text :=
  let element := trim t.dropLast.dropLast
  if element.isEmpty || Bracket.hasTopLevel ['|'] element ||
      (Bracket.find? "=>".toList element).isSome then none
  else some element

/-- An array, written with brackets behind or as a generic type. -/
def arrayLayer (t : Text) : Option Layer :=
  if Text.endsWith "[]".toList t then
    (arraySuffix? t).map fun element => .plain t (.array (.text element))
  else
    match generic? t with
    | some (base, [element]) =>
      if arrayBases.contains base then some (.plain t (.array (.text element))) else none
    | _ => none

/-- A component with one type argument, its props. -/
def componentLayer (t : Text) : Option Layer :=
  match generic? t with
  | some (base, [props]) =>
    if componentBases.contains ((Text.after? "React.".toList base).getD base) then
      some (.plain t (.component (.text props)))
    else none
  | _ => none

/-! ## Parameters -/

/-- One parameter. Without a type it has the type `any`; a default value and the marks of a rest
or optional parameter are not part of its name. -/
def param (raw : Text) : Param Text :=
  let (name, type) :=
    match Bracket.cutAt? [':'] raw with
    | some (name, type) => (trim name, trim type)
    | none => (trim raw, "any".toList)
  let name :=
    match Bracket.cutAt? ['='] name with
    | some (name, _) => trim name
    | none => name
  let name := (Text.after? "...".toList name).getD name
  ⟨(splitOptional name).1, type⟩

/-- The parameters between the parentheses of a signature; empty ones are left out. -/
def params (t : Text) : List (Param Text) :=
  (((Bracket.split [','] t none).map trim).filter (!·.isEmpty)).map param

/-! ## Objects -/

/-- What a member of an object type contributes. -/
inductive Member where
  | property (p : Property Part)
  /-- The value type of an index signature. -/
  | index (type : Text)

/-- The accessor keyword and the property name of `get x` or `set x`. The name is on one line; one
line feed may follow it. -/
def accessor? (head : Text) : Option (Bool × Text) := do
  let (isGetter, rest) ←
    match Text.after? "get".toList head, Text.after? "set".toList head with
    | some rest, _ => some (true, rest)
    | none, some rest => some (false, rest)
    | none, none => none
  let name := trimStart rest
  if name.isEmpty || name.length = rest.length then none
  else
    let line := if name.getLast? = some '\n' then name.dropLast else name
    if line.contains '\n' then none else some (isGetter, line)

/-- A method or accessor, from the text before its parameters, its parameters in parentheses and
the text of its result. A setter contributes nothing. -/
def methodMember? (head signature result : Text) : Option (Property Part) := do
  let (name, optional) := splitOptional (trim (head.takeWhile (· ≠ '<')))
  let name := unquote name
  let inside ← Bracket.enclosed? '(' signature
  match accessor? name with
  | some (false, _) => none
  | some (true, name) => return ⟨unquote (trim name), .text result, optional⟩
  | none =>
    return ⟨name, .method (signature ++ " => ".toList ++ result) (params inside) result, optional⟩

/-- Does a member of this name describe the object itself, as call and construct signatures do? -/
def isSelfSignature (name : Text) : Bool :=
  Text.startsWith ['('] name || Text.startsWith ['<'] name || Text.startsWith "new ".toList name

/-- One trimmed member of an object type. Text without a top-level colon is none. -/
def member? (raw : Text) : Option Member := do
  let (name, type) ← Bracket.cutAt? [':'] raw
  let name := dropReadonly (trim name)
  let type := trim type
  if Text.startsWith ['['] name then return .index type
  else if isSelfSignature name then none
  else if name.contains '(' then
    let head := name.takeWhile (· ≠ '(')
    let signature := name.dropWhile (· ≠ '(')
    return .property (← methodMember? (trim head) (trim signature) type)
  else
    let (name, optional) := splitOptional name
    return .property ⟨unquote name, .text type, optional⟩

/-- The members between the braces of an object type. They end at a semicolon, a comma or a line
feed. -/
def members (inside : Text) : List Member :=
  (((Bracket.split ";,\n".toList inside none).map trim).filter (!·.isEmpty)).filterMap member?

/-- The property that a member contributes. -/
def Member.property? : Member → Option (Property Part)
  | .property p => some p
  | .index _ => none

/-- The index type that a member contributes. -/
def Member.index? : Member → Option Text
  | .property _ => none
  | .index t => some t

/-- An object type. The last index signature counts. -/
def objectLayer (t : Text) : Option Layer := do
  let inside ← Bracket.enclosed? '{' t
  let ms := members inside
  return .plain t (.object (ms.filterMap Member.property?)
    ((ms.filterMap Member.index?).getLast?.map Part.text))

/-! ## Unions -/

/-- A union. A top-level arrow owns all that follows it, so such a text is no union. `null` and
`undefined` go into the nullable mark; one member alone is that member. -/
def unionLayer (t : Text) : Option Layer :=
  if !Bracket.hasTopLevel ['|'] t || (Bracket.find? "=>".toList t).isSome then none
  else
    let members := ((Bracket.split ['|'] t none).map trim).filter (!·.isEmpty)
    let concrete := members.filter (!nullishNames.contains ·)
    match members, concrete with
    | [m], _ => some (.same m)
    | _, [] => some (.plain t (.primitive "null".toList))
    | _, [m] => some (.orNull m)
    | _, _ => some (.node t (concrete.length < members.length) (.union (concrete.map Part.text)))

/-! ## Functions -/

/-- A text without the type parameters at its start. -/
def dropTypeParams? (t : Text) : Option Text :=
  if Text.startsWith ['<'] t then
    (Bracket.close? t 0).map fun close => trimStart (t.drop (close + 1))
  else some t

/-- A function type: parameters in parentheses, an arrow, a result. -/
def functionLayer (t : Text) : Option Layer := do
  let signature ← dropTypeParams? t
  if !Text.startsWith ['('] signature then none
  else
    let close ← Bracket.close? signature 0
    let arrow ← Bracket.find? "=>".toList signature
    if !(trim ((signature.take arrow).drop (close + 1))).isEmpty then none
    else
      return .plain t (.function
        ((params ((signature.take close).drop 1)).map (·.map Part.text))
        (.text (signature.drop (arrow + 2))))

/-! ## All forms -/

/-- The construct of a text that is trimmed and not wrapped in parentheses as a whole. -/
def construct (t : Text) : Layer :=
  (primitiveLayer t <|> arrayLayer t <|> componentLayer t <|> objectLayer t <|> unionLayer t <|>
    functionLayer t).getD (.plain t (.verbatim t))

/-- The outermost construct of a text. Blanks around it, one leading `readonly` and parentheses
around the whole do not count. -/
def layer (t : Text) : Layer :=
  let t := dropReadonly (trim t)
  match Bracket.enclosed? '(' t with
  | some inner => .same (trim inner)
  | none => construct t

end ExportSchema.TypeNode
