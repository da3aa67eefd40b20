import ExportSchema.Module.Fault
import ExportSchema.Text.Blank
import ExportSchema.Tree.Basic

/-!
# The type of an expression

The type of an expression is printed from its syntax and widened: a number literal is a `number`.
Annotations count where they are; what cannot be told without a type checker is `any`.

Every rule here is given the rule for smaller expressions (`infer`) and for names (`lookup`), so
each stands on its own; `inferType` ties them together. A rule only asks for the types of nodes
below its own, so the height of the tree bounds the depth. What asking does besides, such as
keeping a record of the names asked for, is left to the monad `m`.

* `annotationText`: the text of a type annotation.
* `signatureText`: a function type, from its parameters and its annotated or inferred result.
* `firstReturn`: the first value that a function body returns.
* `arrayText`, `objectText`: the types of array and object literals.
-/

namespace ExportSchema.Module

open Text (trim)

/-- A way to tell the type of an expression. -/
abbrev Infer (m : Type → Type) := Tree → m Text

/-- A way to tell the type of a top-level name; `none` for a name that is not declared. -/
abbrev Lookup (m : Type → Type) := Text → m (Option Text)

variable {m : Type → Type} [Monad m] [MonadExceptOf Fault m]

/-- The type that says nothing. -/
def anyText : Text := "any".toList

/-- A text without the single, double or back quotes around it. -/
def stripQuotes (t : Text) : Text :=
  match t with
  | [] => []
  | [c] => [c]
  | c :: cs =>
    if (c = '"' ∨ c = '\'' ∨ c = '\x60') ∧ cs.getLast? = some c then cs.dropLast else c :: cs

/-- The text of a node that has to be there. -/
def textOf : Option Tree → m Text
  | some t => pure t.text
  | none => throw Fault.noTextNode

/-! ## Annotations -/

/-- The text of a type annotation; none, or an empty one, is `any`, and a type guard is a truth
value. -/
def annotationText : Option Tree → Text
  | none => anyText
  | some t =>
    match t.kind with
    | .predicateMark | .assertsMark => "boolean".toList
    | _ =>
      let whole := trim t.text
      let type :=
        match t.kind, whole with
        | .typeMark, ':' :: rest => trim rest
        | _, _ => whole
      if type.isEmpty then anyText else type

/-! ## Functions -/

/-- A parameter in a signature. -/
def paramText (name : Text) (optional : Bool) (type : Text) : Text :=
  name ++ (if optional then ['?'] else []) ++ ": ".toList ++ type

/-- One parameter of a function. Its type is the annotated one, or that of its default value. -/
def parameterText (infer : Infer m) (p : Tree) : m Text := do
  let name := ((p.child? .pattern).map (·.text)).getD "arg".toList
  let default := p.child? .value
  let type ←
    match p.child? .type, default with
    | some mark, _ => pure (annotationText (some mark))
    | none, some value => infer value
    | none, none => pure anyText
  return paramText name (p.kind = .optionalParameter || default.isSome) type

/-- Is this node a parameter? -/
def isParameter (t : Tree) : Bool := t.kind = .requiredParameter || t.kind = .optionalParameter

/-- The parameters of a function, without their parentheses. -/
def parametersText (infer : Infer m) (t : Tree) : m Text :=
  match t.child? .parameter, t.child? .parameters with
  | some single, _ => pure (single.text ++ ": any".toList)
  | none, none => pure []
  | none, some ps => do
    let texts ← (ps.namedChildren.filter isParameter).mapM (parameterText infer)
    return Text.join ", ".toList texts

/-- Does the search for a return statement pass this node by? Inner functions and classes have
return statements of their own. -/
def opensScope (k : Kind) : Bool := k.isFunctionExpression || k.isFunction || k.isClass

/-- The first value of a return statement. -/
def returnedValue? (t : Tree) : Option Tree := (t.namedChildren.filter (·.kind ≠ .comment)).head?

mutual
/-- The first value that is returned below a node, outside inner functions and classes. -/
def firstReturn : Tree → Option Tree
  | ⟨_, _, _, _, children⟩ => firstReturnIn children
/-- The first value that is returned in one of several nodes. -/
def firstReturnIn : List Tree → Option Tree
  | [] => none
  | t :: ts =>
    if !t.named then firstReturnIn ts
    else if t.kind = .returnStatement then (returnedValue? t).or (firstReturnIn ts)
    else if opensScope t.kind then firstReturnIn ts
    else (firstReturn t).or (firstReturnIn ts)
end

/-- The inferred result of a function: that of its body expression, or of the first value that its
body returns. -/
def resultText (infer : Infer m) (t : Tree) : m Text :=
  match t.child? .body with
  | none => pure anyText
  | some body =>
    if body.kind = .statementBlock then
      match firstReturn body with
      | some value => infer value
      | none => pure "void".toList
    else infer body

/-- The result of a function: annotated, or inferred and wrapped in a promise when the function is
asynchronous. -/
def returnsText (infer : Infer m) (t : Tree) : m Text :=
  match t.child? .returnType with
  | some mark => pure (annotationText (some mark))
  | none => do
    let result ← resultText infer t
    return if t.hasChild .asyncKeyword then "Promise<".toList ++ result ++ ['>'] else result

/-- A function type from its parts. -/
def arrowText (typeParams params returns : Text) : Text :=
  typeParams ++ '(' :: params ++ ") => ".toList ++ returns

/-- The type of a function. -/
def signatureText (infer : Infer m) (t : Tree) : m Text := do
  let typeParams := ((t.child? .typeParameters).map (·.text)).getD []
  let returns ← returnsText infer t
  let params ← parametersText infer t
  return arrowText typeParams params returns

/-! ## Literals -/

/-- The type of an array of one element type: unions and functions go in parentheses. -/
def wrapped (type : Text) : Text :=
  if type.contains '|' || Text.hasPiece "=>".toList type then '(' :: type ++ [')'] else type

/-- The type of an array of these distinct element types. -/
def arrayText : List Text → Text
  | [] => "any[]".toList
  | [type] => wrapped type ++ "[]".toList
  | types => '(' :: Text.join " | ".toList types ++ ")[]".toList

/-- The type of an element of an array literal; elements that are spread out say nothing. -/
def elementType (infer : Infer m) (element : Tree) : m Text :=
  if element.kind = .spreadElement then pure anyText else infer element

/-- The element types of an array literal, each once. -/
def elementTypes (infer : Infer m) (t : Tree) : m (List Text) := do
  let types ← (t.namedChildren.filter (·.kind ≠ .comment)).mapM (elementType infer)
  return types.eraseDups

/-- A type text that is not empty; no type, or an empty one, is `any`. -/
def orAny : Option Text → Text
  | none | some [] => anyText
  | some type => type

/-- A member of an object type. -/
def fieldText (name type : Text) : Text := name ++ ": ".toList ++ type

/-- The member of an object literal. Computed keys and spreads have none. -/
def objectMember? (infer : Infer m) (lookup : Lookup m) (t : Tree) : m (Option Text) :=
  match t.kind with
  | .pair =>
    match t.child? .key with
    | none => pure none
    | some key =>
      if key.kind = .computedPropertyName then pure none
      else
        match t.child? .value with
        | none => throw Fault.noExpression
        | some value => do return some (fieldText (stripQuotes key.text) (← infer value))
  | .shorthandPropertyIdentifier => do
    return some (fieldText t.text (orAny (← lookup t.text)))
  | .methodDefinition =>
    match t.child? .name with
    | none => pure none
    | some name => do
      return some (fieldText (stripQuotes name.text) (← signatureText infer t))
  | _ => pure none

/-- Members between braces; no members are `{}`. -/
def bracedText (parts : List Text) : Text :=
  match parts with
  | [] => "\x7b\x7d".toList
  | parts => "\x7b ".toList ++ Text.join "; ".toList parts ++ " \x7d".toList

/-- The type of an object literal. -/
def objectText (infer : Infer m) (lookup : Lookup m) (t : Tree) : m Text := do
  let parts ← t.namedChildren.mapM (objectMember? infer lookup)
  return bracedText (parts.filterMap id)

/-! ## Expressions -/

/-- The type that an operator in front gives, whatever it is applied to. -/
def operatorType? (op : Text) : Option Text :=
  if op = ['!'] then some "boolean".toList
  else if op = ['-'] ∨ op = ['+'] ∨ op = ['~'] then some "number".toList
  else if op = "typeof".toList then some "string".toList
  else if op = "void".toList then some "undefined".toList
  else none

/-- The type of an assertion `e as T`: the text of `T`, or the type of `e` for a constant. -/
def assertionText (infer : Infer m) (t : Tree) : m Text :=
  match t.children.getLast? with
  | none => throw Fault.noChild
  | some target =>
    if target.kind = .constKeyword then
      match t.namedChildren with
      | [] => throw Fault.noChild
      | e :: _ => infer e
    else pure target.text

/-- The type of an expression, from the types of smaller ones. -/
def inferStep (infer : Infer m) (lookup : Lookup m) (t : Tree) : m Text :=
  match t.kind with
  | .number => pure "number".toList
  | .string | .templateString => pure "string".toList
  | .trueWord | .falseWord => pure "boolean".toList
  | .nullWord => pure "null".toList
  | .undefinedWord => pure "undefined".toList
  | .identifier =>
    if t.text = "undefined".toList then pure t.text else do return orAny (← lookup t.text)
  | .array => do return arrayText (← elementTypes infer t)
  | .object => objectText infer lookup t
  | .arrowFunction | .functionExpression | .functionKeyword | .generatorFunction =>
    signatureText infer t
  | .asExpression => assertionText infer t
  | .satisfiesExpression | .nonNullExpression | .parenthesizedExpression =>
    match t.namedChildren with
    | [] => pure anyText
    | e :: _ => infer e
  | .newExpression => pure (((t.child? .constructorField).map (·.text)).getD anyText)
  | .unaryExpression =>
    pure (((t.child? .operator).bind fun op => operatorType? op.text).getD anyText)
  | .jsxElement | .jsxSelfClosingElement | .jsxFragment => pure "JSX.Element".toList
  | _ => pure anyText

/-- The type of an expression, to at most `depth` levels of its tree. -/
def inferDepth (lookup : Lookup m) : Nat → Infer m
  | 0, _ => pure anyText
  | depth + 1, t => inferStep (inferDepth lookup depth) lookup t

/-- The type of an expression, where `lookup` tells the types of names. -/
def inferType (lookup : Lookup m) (t : Tree) : m Text := inferDepth lookup t.height t

end ExportSchema.Module
