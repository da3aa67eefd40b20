import ExportSchema.Encoding.Utf8
import ExportSchema.Tree.Kind

/-!
# Syntax trees

A syntax tree gives, node by node, the kind, the field and the text of each piece of a module. It
comes from a parser as `Spans`, which point into the bytes of the source; `Tree.ofSpans` puts the
texts in.

* `Tree.child?`: the first child in a field.
* `Tree.namedChildren`: the children that are more than punctuation.
* `Tree.height`: how deep the tree goes.
-/

namespace ExportSchema

/-- A node as a parser reports it: its type, whether it is more than punctuation, where it starts
and stops in the bytes of the source, its field and its children. -/
structure Spans where
  kind : String
  named : Bool
  start : Nat
  stop : Nat
  field : Option String
  children : List Spans

/-- A node of a syntax tree. -/
structure Tree where
  kind : Kind
  /-- Is the node more than punctuation or a keyword? -/
  named : Bool
  field : Option Field
  text : Text
  children : List Tree

namespace Tree

/-- The text between two places in the bytes of a source. -/
def slice (source : Bytes) (start stop : Nat) : Text :=
  Utf8.replacing ((source.take stop).drop start)

mutual
/-- The tree of spans in a source. -/
def ofSpans (source : Bytes) : Spans → Tree
  | ⟨kind, named, start, stop, field, children⟩ =>
    ⟨.ofName kind, named, field.bind Field.ofName?, slice source start stop,
      ofSpansList source children⟩
/-- The trees of several spans. -/
def ofSpansList (source : Bytes) : List Spans → List Tree
  | [] => []
  | s :: ss => ofSpans source s :: ofSpansList source ss
end

mutual
/-- The number of nodes on the longest way down. -/
def height : Tree → Nat
  | ⟨_, _, _, _, children⟩ => heightList children + 1
/-- The greatest height of several trees. -/
def heightList : List Tree → Nat
  | [] => 0
  | t :: ts => max (height t) (heightList ts)
end

/-- The first child in a field. -/
def child? (t : Tree) (f : Field) : Option Tree := t.children.find? (·.field = some f)

/-- The children that are more than punctuation. -/
def namedChildren (t : Tree) : List Tree := t.children.filter (·.named)

/-- Is there a child of this kind? -/
def hasChild (t : Tree) (k : Kind) : Bool := t.children.any (·.kind = k)

end Tree

end ExportSchema
