import ExportSchema.Text.Basic

/-!
# Blank characters

The 29 characters that Unicode counts as white space, or that separate lines, paragraphs or
records. `trim` drops them at the ends of a text.
-/

namespace ExportSchema.Text

/-- White space: the ASCII blanks, the four ASCII separators and the Unicode spaces. -/
def isBlank (c : Char) : Bool :=
  c = ' ' ||
    let n := c.toNat
    (9 ≤ n && n ≤ 13) || (0x1C ≤ n && n ≤ 0x1F) || n = 0x85 || n = 0xA0 || n = 0x1680 ||
      (0x2000 ≤ n && n ≤ 0x200A) || n = 0x2028 || n = 0x2029 || n = 0x202F || n = 0x205F || n = 0x3000

/-- Drop blanks at both ends. -/
def trim (t : Text) : Text := stripWith isBlank t

/-- Drop blanks at the start. -/
def trimStart (t : Text) : Text := stripStartWith isBlank t

/-- Drop blanks at the end. -/
def trimEnd (t : Text) : Text := stripEndWith isBlank t

end ExportSchema.Text
