import ExportSchema.Proofs.Json.String
import ExportSchema.Proofs.TypeNode.Recursion
import ExportSchema.Schema.Fragment

/-!
# String literal types

Three readers look at a string in double quotes: the scanner of quotes, the rule for string literals
and the reader of JSON strings. They agree on every string that JSON writes. A string in single
quotes has only the backslash before a single quote taken away; other escapes stay as they are.

Results:
* `closedBy_of_spells`: the closing quote of a JSON string is the first that no backslash escapes.
* `parse_stringLiteral`: a string literal is read as one.
* `literal_of_quote`: a string that JSON writes is the literal type of this string.
* `quotes_read_alike_iff`: single and double quotes make the same value iff no backslash is between
  them.
-/

namespace ExportSchema

/-- Nothing is taken away where the second character of the pair does not occur. -/
theorem Text.dropBefore_of_not_mem {a b : Char} {t : Text} (h : b ∉ t) : dropBefore a b t = t := by
  fun_induction dropBefore a b t with
  | case1 => rfl
  | case2 => rfl
  | case3 c d cs hpair _ => exact absurd (by simp [hpair.2]) h
  | case4 c d cs _ ih => rw [ih (List.not_mem_of_not_mem_cons h)]

/-- Four hexadecimal digits are none of the marks of a string. -/
theorem Json.hexValue?_ne_none {a b c d : Char} {n : Nat} (h : hex4? a b c d = some n) :
    ∀ x ∈ [a, b, c, d], hexValue? x ≠ none := by
  intro x hx hnone
  unfold hex4? at h
  simp only [List.mem_cons, List.not_mem_nil, or_false] at hx
  rcases hx with rfl | rfl | rfl | rfl <;> simp [hnone] at h

namespace Schema

open Json (Spells isVerbatim_iff quote)
open TypeNode (parse)
open Lexeme ExportSchema.Bracket

/-! ## JSON strings as literals -/

/-- A character that is neither a backslash nor the quote does not end a string. -/
theorem closedBy_cons {q c : Char} (hslash : c ≠ '\\') (hq : c ≠ q) {t : Text} (ht : t ≠ []) :
    closedBy q (c :: t) = closedBy q t := by
  cases t with
  | nil => exact absurd rfl ht
  | cons d t => rw [closedBy, if_neg hslash, if_neg hq]

/-- **The closing quote of a JSON string** is the first that no backslash escapes. -/
theorem closedBy_of_spells {body : Text} {us : List Nat} (h : Spells body us) :
    closedBy '"' (body ++ ['"']) = true := by
  induction h with
  | nil => rfl
  | verbatim hc _ ih =>
    obtain ⟨hquote, hslash, -⟩ := isVerbatim_iff.mp hc
    rwa [List.cons_append, closedBy_cons hslash hquote (by simp)]
  | letter _ _ ih => exact ih
  | @code a b c d n body us hn _ ih =>
    have hplain : ∀ x ∈ [a, b, c, d], x ≠ '\\' ∧ x ≠ '"' := fun x hx =>
      ⟨fun he => Json.hexValue?_ne_none hn x hx (he ▸ rfl),
        fun he => Json.hexValue?_ne_none hn x hx (he ▸ rfl)⟩
    have hdigit : ∀ x ∈ [a, b, c, d], ∀ t : Text, t ≠ [] → closedBy '"' (x :: t) = closedBy '"' t :=
      fun x hx t ht => closedBy_cons (hplain x hx).1 (hplain x hx).2 ht
    show closedBy '"' (a :: b :: c :: d :: (body ++ ['"'])) = true
    rw [hdigit a (by simp) _ (by simp), hdigit b (by simp) _ (by simp),
      hdigit c (by simp) _ (by simp), hdigit d (by simp) _ (by simp), ih]

/-- **A string literal is read as one**, and kept as it is written. -/
theorem parse_stringLiteral {t : Text} (h : isStringLiteral t = true) :
    parse t = .plain t (.literal t) := by
  obtain ⟨q, u, rfl, hq, hu⟩ := TypeNode.isStringLiteral_eq h
  have hmark : q = '"' ∨ q = '\'' := by
    simpa [isStringLiteral, hu] using h
  have hblank : Text.isBlank q = false := by rcases hmark with rfl | rfl <;> rfl
  have htrim : Text.trim (q :: u) = q :: u := by
    refine Text.trim_eq_self (fun c hc => ?_) fun c hc => ?_
    · cases hc
      exact hblank
    · have hlast := TypeNode.getLast?_of_closedBy hu
      have hne : u ≠ [] := by
        rintro rfl
        cases hlast
      rw [List.getLast?_cons_of_ne_nil hne, hlast] at hc
      cases hc
      exact hblank
  have hreadonly : Text.after? "readonly ".toList (q :: u) = none := by
    rcases hmark with rfl | rfl <;> rfl
  have hparen : enclosed? '(' (q :: u) = none :=
    TypeNode.enclosed?_of_head (by rcases hmark with rfl | rfl <;> simp)
  have hkeyword : ¬ primitiveNames.contains (q :: u) = true := by
    rcases hmark with rfl | rfl <;> simp [primitiveNames]
  have hliteral : isLiteral (q :: u) = true := by simp [isLiteral, h]
  have hprimitive : TypeNode.primitiveLayer (q :: u) = some (.plain (q :: u) (.literal (q :: u))) := by
    rw [TypeNode.primitiveLayer, if_neg hkeyword, if_pos hliteral]
  rw [TypeNode.parse_eq, TypeNode.layer_eq_construct htrim hreadonly hparen,
    TypeNode.construct_eq_of_primitive hprimitive]
  rfl

/-! ## Values -/

theorem literalValue_double (t : Text) :
    literalValue ('"' :: t) = .ok (.str (doubleQuoted ('"' :: t))) := by
  simp [literalValue]

theorem literalValue_single (t : Text) :
    literalValue ('\'' :: t) = .ok (.str (singleQuoted ('\'' :: t))) := by
  simp [literalValue]

theorem literalValue_of_json (body : Text) {s : Text}
    (h : Json.read? ('"' :: (body ++ ['"'])) = some (.str s)) :
    literalValue ('"' :: (body ++ ['"'])) = .ok (.str s) := by
  rw [literalValue_double, doubleQuoted, h]

/-- Between single quotes a text without single quotes stands for itself. -/
theorem literalValue_single_of_not_mem {body : Text} (h : '\'' ∉ body) :
    literalValue ('\'' :: (body ++ ['\''])) = .ok (.str body) := by
  have hinner : inner ('\'' :: (body ++ ['\''])) = body := by simp [inner]
  rw [literalValue_single, singleQuoted, hinner, Text.dropBefore_of_not_mem h]

/-- **A string that JSON writes is the literal type of this string**, whatever quotes, brackets,
backslashes and control characters are in it. -/
theorem literal_of_quote (s : Text) :
    parse (quote s) = .plain (quote s) (.literal (quote s)) ∧
      literalValue (quote s) = .ok (.str s) ∧
      fragment (parse (quote s)) = .ok (.obj [typeEntry "string", entry "const" (.str s)]) := by
  have hparse : parse (quote s) = .plain (quote s) (.literal (quote s)) :=
    parse_stringLiteral (closedBy_of_spells (Json.spells_flatMap_escapeChar s))
  have hvalue : literalValue (quote s) = .ok (.str s) :=
    literalValue_of_json _ (Json.read?_quote s)
  refine ⟨hparse, hvalue, ?_⟩
  rw [hparse, TypeNode.plain, fragment, shapeEntries, hvalue]
  rfl

/-- **Single and double quotes make the same value iff no backslash is between them.** The text
between double quotes is a JSON string, and no single quote is in it. In double quotes an escape
stands for a character, and in single quotes for its own characters, which are more. -/
theorem quotes_read_alike_iff {body s : Text} (hsingle : '\'' ∉ body)
    (hjson : Json.read? ('"' :: (body ++ ['"'])) = some (.str s)) :
    literalValue ('\'' :: (body ++ ['\''])) = .ok (.str body) ∧
      literalValue ('"' :: (body ++ ['"'])) = .ok (.str s) ∧
      (literalValue ('\'' :: (body ++ ['\''])) = literalValue ('"' :: (body ++ ['"'])) ↔
        '\\' ∉ body) := by
  have hs := literalValue_single_of_not_mem hsingle
  have hd := literalValue_of_json body hjson
  obtain ⟨us, hspells, rfl⟩ := Json.read?_quoted_iff.mp hjson
  refine ⟨hs, hd, ?_⟩
  rw [hs, hd]
  constructor
  · intro heq hslash
    have hbody : body = Json.joinUnits us := LiteralValue.str.inj (Except.ok.inj heq)
    have hshort : (Json.joinUnits us).length < body.length :=
      Nat.lt_of_le_of_lt (Json.length_joinUnits_le us) (hspells.length_lt hslash)
    exact absurd (congrArg List.length hbody) (Nat.ne_of_gt hshort)
  · intro hslash
    rw [hspells.eq_map hslash, Json.joinUnits_map]

/-- A code point in digits is read in double quotes only, and its character in both. -/
theorem quotes_read_alike_of_code :
    literalValue "'(\\u0041'".toList = .ok (.str "(\\u0041".toList) ∧
      literalValue "\"(\\u0041\"".toList = .ok (.str "(A".toList) ∧
      literalValue "'(A'".toList = literalValue "\"(A\"".toList := by
  have hcode : Spells "(\\u0041".toList ("(A".toList.map Char.toNat) :=
    .verbatim rfl (.code rfl .nil)
  have hletter : Spells "(A".toList ("(A".toList.map Char.toNat) :=
    .verbatim rfl (.verbatim rfl .nil)
  have hescaped : Json.read? ('"' :: ("(\\u0041".toList ++ ['"'])) = some (.str "(A".toList) :=
    Json.read?_quoted_iff.mpr ⟨_, hcode, Json.joinUnits_map _⟩
  have hplain : Json.read? ('"' :: ("(A".toList ++ ['"'])) = some (.str "(A".toList) :=
    Json.read?_quoted_iff.mpr ⟨_, hletter, Json.joinUnits_map _⟩
  have hsingle : '\'' ∉ "(\\u0041".toList ∧ '\'' ∉ "(A".toList := by decide
  obtain ⟨hs, hd, -⟩ := quotes_read_alike_iff hsingle.1 hescaped
  exact ⟨hs, hd, (quotes_read_alike_iff hsingle.2 hplain).2.2.mpr (by decide)⟩

/-- **The escape of a line feed is one in double quotes only.** -/
theorem quotes_differ_of_line_feed :
    ('\'' ∉ "a\\nb".toList ∧ '"' ∉ "a\\nb".toList ∧
        Json.read? "\"a\\nb\"".toList = some (.str "a\nb".toList)) ∧
      literalValue "'a\\nb'".toList = .ok (.str "a\\nb".toList) ∧
      literalValue "\"a\\nb\"".toList = .ok (.str "a\nb".toList) ∧
      literalValue "'a\\nb'".toList ≠ literalValue "\"a\\nb\"".toList := by
  have hsingle : '\'' ∉ "a\\nb".toList := by decide
  have hspells : Spells "a\\nb".toList ("a\nb".toList.map Char.toNat) :=
    .verbatim rfl (.letter rfl (.verbatim rfl .nil))
  have hjson : Json.read? ('"' :: ("a\\nb".toList ++ ['"'])) = some (.str "a\nb".toList) :=
    Json.read?_quoted_iff.mpr ⟨_, hspells, Json.joinUnits_map _⟩
  have hs : literalValue "'a\\nb'".toList = .ok (.str "a\\nb".toList) :=
    literalValue_single_of_not_mem hsingle
  have hd : literalValue "\"a\\nb\"".toList = .ok (.str "a\nb".toList) :=
    literalValue_of_json "a\\nb".toList hjson
  exact ⟨⟨hsingle, by decide, hjson⟩, hs, hd, by rw [hs, hd]; decide⟩

end Schema

end ExportSchema
