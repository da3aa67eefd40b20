import ExportSchema.Text.Basic

/-!
# Lines

A line ends at a line feed, a vertical tab, a form feed, a carriage return, the separators of files,
groups and records, the next-line control, and the Unicode separators of lines and paragraphs. A
carriage return with a line feed after it is one line end.
-/

namespace ExportSchema.Text

/-- Does a line end at this character? -/
def isLineEnd (c : Char) : Bool :=
  let n := c.toNat
  (10 ≤ n && n ≤ 13) || (0x1C ≤ n && n ≤ 0x1E) || n = 0x85 || n = 0x2028 || n = 0x2029

/-- The lines of a text, without their ends. -/
def lines (t : Text) : List Text := splitWhere isLineEnd (dropBefore '\r' '\n' t)

end ExportSchema.Text
