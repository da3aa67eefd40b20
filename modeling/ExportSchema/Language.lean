import ExportSchema.Path

/-!
# Languages

The extension of a file tells whether it is a module that can be read, and the ending of its name
which grammar it is read with.
-/

namespace ExportSchema

/-- The two grammars of modules: with and without element literals. -/
inductive Grammar where
  | typescript
  | tsx
  deriving DecidableEq, Repr

namespace Language

/-- The extensions of modules, in lower case. -/
def moduleExtensions : List Text :=
  [".ts", ".mts", ".cts", ".tsx", ".js", ".jsx", ".mjs", ".cjs"].map String.toList

/-- The endings of files that may hold element literals. -/
def tsxEndings : List Text := [".tsx", ".jsx", ".js", ".mjs", ".cjs"].map String.toList

/-- The grammar of a module, by the ending of its file name as it is written. -/
def grammarOf (fileName : Text) : Grammar :=
  if tsxEndings.any (Text.endsWith · fileName) then .tsx else .typescript

/-- The grammar of a file, or `none` when its extension, in whatever case, is not one of a
module. -/
def grammarFor? (fileName : Text) : Option Grammar :=
  if moduleExtensions.contains (Text.lowerAscii (Path.extension fileName)) then
    some (grammarOf fileName)
  else none

end Language

end ExportSchema
