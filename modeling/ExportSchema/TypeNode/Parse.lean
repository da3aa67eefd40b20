import ExportSchema.TypeNode.Layer

/-!
# Reading type text

`parse` reads a type text layer by layer. Every component of a layer is shorter than the text of
the layer, so the length of the text bounds the depth; `parseDepth` carries that bound.
-/

namespace ExportSchema.TypeNode

/-- Read a type text to at most `depth` layers; deeper text is kept verbatim. -/
def parseDepth : Nat → Text → TypeNode
  | 0, t => verbatim t
  | depth + 1, t => (layer t).build (parseDepth depth)

/-- Read a type text. -/
def parse (t : Text) : TypeNode := parseDepth (t.length + 1) t

end ExportSchema.TypeNode
