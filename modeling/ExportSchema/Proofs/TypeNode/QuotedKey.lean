import ExportSchema.Proofs.Text.Split
import ExportSchema.Proofs.TypeNode.RoundTrip

/-!
# Quoted names of properties

`"k": T` and `'k'?: T` name a property by a string. Nothing in the string is at the top level, so
the member is cut where it should be, and its quotes are taken off. But a parenthesis anywhere before
the colon, quoted or not, makes the member a method, and this one has no parameters: it is dropped.

* `QuotedName`: a text that quotes can stand around.
* `keyText`: the name in its quotes, with the mark of optional members.

Results:
* `QuotedName.front_keyText`: a quoted name stands before the colon as one.
* `QuotedName.member?_of_not_mem`, `QuotedName.member?_of_mem`: what the member reads as.
* `quoted_key_reads_back_iff`: the property reads back iff no parenthesis is in its name.
-/

namespace ExportSchema.TypeNode

open Text (trim isBlank)
open Lexeme ExportSchema.Bracket

/-- Every keyword type can stand behind the colon of a member. -/
theorem lineType_keyword {type : Text} (h : type ∈ primitiveNames) : LineType type := by
  have hall : ∀ type ∈ primitiveNames, LineType type := by decide
  exact hall type h

/-- A text is one group only if a bracket is its last character. -/
theorem enclosed?_of_getLast? {o : Char} (ho : isOpener o = true) {t : Text}
    (h : ∀ c, t.getLast? = some c → isCloser c = false) : enclosed? o t = none := by
  refine Option.eq_none_iff_forall_not_mem.mpr fun inside hin => ?_
  obtain ⟨c, rfl, hb⟩ := (enclosed?_eq_some_iff ho).mp hin
  have hc := h c (by rw [← List.cons_append, List.getLast?_concat])
  rw [hb.isCloser] at hc
  cases hc

/-- A method without parameters behind its name is dropped. -/
theorem member?_of_unclosed {raw a b : Text} (hcut : cutAt? [':'] raw = some (a, b))
    (h : Named (trim a)) (hparen : '(' ∈ trim a)
    (hlast : ∀ c, (trim a).getLast? = some c → isCloser c = false) : member? raw = none := by
  obtain ⟨lead, rest, happ, hlead⟩ := List.eq_append_cons_of_mem hparen
  have hdrop : (trim a).dropWhile (· ≠ '(') = '(' :: rest := by
    rw [happ, Text.dropWhile_append_sep hlead]
  have hend : (trim a).getLast? = ('(' :: rest).getLast? := by
    rw [happ, List.getLast?_append_of_ne_nil _ (List.cons_ne_nil _ _)]
  have htrim : trim ('(' :: rest) = '(' :: rest := by
    refine Text.trim_eq_self (fun c hc => ?_) fun c hc => Text.getLast?_trim (hend.trans hc)
    cases hc
    rfl
  have hnone : enclosed? '(' ('(' :: rest) = none :=
    enclosed?_of_getLast? rfl fun c hc => hlast c (hend.trans hc)
  rw [member?_call hcut h hparen, hdrop, htrim]
  unfold methodMember?
  simp only [hnone, Option.bind_eq_bind, Option.bind_none, Option.map_none]

/-! ## Names in quotes -/

/-- A single or double quote and a text that it can stand around. -/
structure QuotedName (q : Char) (name : Text) : Prop where
  quote : q = '"' ∨ q = '\''
  unquoted : q ∉ name
  unescaped : '\\' ∉ name

/-- A name in quotes, with a question mark behind it when it is optional. -/
def keyText (q : Char) (name : Text) (optional : Bool) : Text :=
  markedName (q :: (name ++ [q])) optional

/-- The last character before the colon is the quote or the mark. -/
theorem getLast?_keyText {q : Char} {name : Text} {optional : Bool} {c : Char}
    (hc : (keyText q name optional).getLast? = some c) : c = q ∨ c = '?' := by
  unfold keyText markedName at hc
  cases optional with
  | false =>
    rw [if_neg Bool.false_ne_true, List.append_nil, ← List.cons_append, List.getLast?_concat] at hc
    exact Or.inl (Option.some.inj hc).symm
  | true =>
    rw [if_pos rfl, List.getLast?_concat] at hc
    exact Or.inr (Option.some.inj hc).symm

namespace QuotedName

variable {q : Char} {name : Text} (h : QuotedName q name) (optional : Bool)
include h

theorem isQuote : isQuote q = true := by
  rcases h.quote with rfl | rfl <;> rfl

theorem isBlank : isBlank q = false := by
  rcases h.quote with rfl | rfl <;> rfl

theorem isStringLiteral : isStringLiteral (q :: (name ++ [q])) = true :=
  isStringLiteral_text (q := q) ⟨h.quote, h.unquoted, h.unescaped⟩

theorem splitOptional_keyText :
    splitOptional (keyText q name optional) = (q :: (name ++ [q]), optional) := by
  refine splitOptional_mark (Text.trim_between h.isBlank h.isBlank name) ?_ optional
  rw [← List.cons_append, List.getLast?_concat]
  rcases h.quote with rfl | rfl <;> decide

theorem unquote_quoted : unquote (q :: (name ++ [q])) = name := by
  have hq : (q = '"' ∨ q = '\'') ∧ (name ++ [q]).getLast? = some q :=
    ⟨h.quote, List.getLast?_concat⟩
  rw [unquote, if_pos hq, List.dropLast_concat]
  simp

theorem front_keyText : Front (keyText q name optional) := by
  have hlit := settled_literal h.isQuote h.unquoted h.unescaped
  have hmark : Settled (if optional then ['?'] else []) := by
    cases optional
    · exact ⟨nested_nil, rfl⟩
    · exact ⟨by decide, rfl⟩
  refine ⟨(hlit.append hmark).nested, ?_, Text.trim_eq_self (fun c hc => ?_) fun c hc => ?_⟩
  · refine hlit.clear_append (clearFrom_of_isStringLiteral h.isStringLiteral) ?_
    cases optional <;> decide
  · cases hc
    exact h.isBlank
  · rcases getLast?_keyText hc with rfl | rfl
    · exact h.isBlank
    · rfl

theorem named_keyText : Named (keyText q name optional) := by
  rcases h.quote with rfl | rfl <;> exact ⟨rfl, rfl, rfl⟩

/-! ## The member -/

/-- A quoted name without a parenthesis is the name of a property. -/
theorem member?_of_not_mem (hparen : '(' ∉ name) {type : Text} (ht : trim type = type) :
    member? (keyText q name optional ++ ':' :: ' ' :: type) =
      some (.property ⟨name, .text type, optional⟩) := by
  have hfront := h.front_keyText optional
  have hno : '(' ∉ keyText q name optional := by
    have hq : '(' ≠ q := by rcases h.quote with rfl | rfl <;> decide
    cases optional <;> simp [keyText, markedName, hparen, hq]
  rw [member?_property (hfront.cutAt?_line type) (hfront.trimmed.symm ▸ h.named_keyText optional)
    (hfront.trimmed.symm ▸ hno), hfront.trimmed, Text.trim_cons (c := ' ') rfl, ht,
    h.splitOptional_keyText, h.unquote_quoted]

/-- **A parenthesis in a quoted name hides the property**: behind it comes a quote or a mark, and not
the end of a group. -/
theorem member?_of_mem (hparen : '(' ∈ name) (type : Text) :
    member? (keyText q name optional ++ ':' :: ' ' :: type) = none := by
  have hfront := h.front_keyText optional
  have hmem : '(' ∈ keyText q name optional := by simp [keyText, markedName, hparen]
  refine member?_of_unclosed (hfront.cutAt?_line type)
    (hfront.trimmed.symm ▸ h.named_keyText optional) (hfront.trimmed.symm ▸ hmem) fun c hc => ?_
  rw [hfront.trimmed] at hc
  rcases getLast?_keyText hc with rfl | rfl
  · rcases h.quote with rfl | rfl <;> rfl
  · rfl

end QuotedName

/-- **A quoted name reads back iff no parenthesis is in it**, whatever else is; if one is, the
property is lost. -/
theorem quoted_key_reads_back_iff {q : Char} {name : Text} (h : QuotedName q name) (optional : Bool)
    {type : Text} (ht : type ∈ primitiveNames) :
    let text := Module.bracedText [keyText q name optional ++ ':' :: ' ' :: type]
    ((parse text).shape = .object [⟨name, .plain type (.primitive type), optional⟩] none ↔
        '(' ∉ name) ∧
      ('(' ∈ name → (parse text).shape = .object [] none) := by
  intro text
  have hline := lineType_keyword ht
  have hlost : '(' ∈ name → (parse text).shape = .object [] none := fun hparen =>
    (h.front_keyText optional).shape_line hline none (h.member?_of_mem optional hparen type)
  refine ⟨⟨fun hback hparen => ?_, fun hparen => ?_⟩, hlost⟩
  · rw [hlost hparen] at hback
    cases hback
  · have hkeyword : parse type = .plain type (.primitive type) := parse_keyword ht
    rw [(h.front_keyText optional).shape_line hline (some ⟨name, .text type, optional⟩)
      (h.member?_of_not_mem optional hparen hline.trimmed), ← hkeyword]
    rfl

/-- Delimiters, brackets, marks and keywords in a quoted name do not count. -/
theorem quoted_key_reads_back_of_marks :
    (parse "\x7b 'readonly [a]: b?, \"c\"; =>) \x7b'?: string \x7d".toList).shape =
      .object [⟨"readonly [a]: b?, \"c\"; =>) \x7b".toList,
        .plain "string".toList (.primitive "string".toList), true⟩] none :=
  have h : QuotedName '\'' "readonly [a]: b?, \"c\"; =>) \x7b".toList :=
    ⟨Or.inr rfl, by decide, by decide⟩
  have ht : "string".toList ∈ primitiveNames := by decide
  (quoted_key_reads_back_iff h true ht).1.mpr (by decide)

/-- **The property `"f(x)"` is lost.** -/
theorem quoted_key_of_call :
    (QuotedName '"' "f(x)".toList ∧ "string".toList ∈ primitiveNames) ∧
      Module.bracedText [keyText '"' "f(x)".toList false ++ ':' :: ' ' :: "string".toList] =
        "\x7b \"f(x)\": string \x7d".toList ∧
      (parse "\x7b \"f(x)\": string \x7d".toList).shape = .object [] none :=
  ⟨⟨⟨Or.inl rfl, by decide, by decide⟩, by decide⟩, by decide, rfl⟩

end ExportSchema.TypeNode
