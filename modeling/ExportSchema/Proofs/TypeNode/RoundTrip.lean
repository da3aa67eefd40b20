import ExportSchema.Proofs.TypeNode.Grammar
import ExportSchema.Proofs.TypeNode.Signature

/-!
# Reading back printed expressions

The text of a well-formed type expression is read back as the node of the expression: at every
level the one form that the expression has fires, and what stands inside brackets or quotes is
never taken for the level outside.

Results:
* `construct_named`, `primitiveLayer_literal`: words and literals.
* `parse_array`, `parse_object`, `parse_union`, `parse_function`, `parse_component`: each construct
  reads back when its parts do.
* `parse_print`: reading inverts printing.
-/

namespace ExportSchema.TypeNode

open Text (trim isBlank isDigit isAsciiLetter)
open Lexeme ExportSchema.Bracket

/-! ## Words and literals -/

/-- A printed text that is not in parentheses is read by its form. -/
theorem parse_of_printed {t : Text} (h : Printed t) (hp : enclosed? '(' t = none) :
    parse t = (construct t).build parse := by
  rw [parse_eq, layer_eq_construct h.trimmed h.after?_readonly hp]

theorem isDigit_of_isNameStart {c : Char} (h : isNameStart c = true) : isDigit c = false := by
  simp only [isNameStart, isAsciiLetter, Bool.or_eq_true, Bool.and_eq_true, decide_eq_true_eq] at h
  have hcode : c.toNat < 128 ∧ ¬ (48 ≤ c.toNat ∧ c.toNat ≤ 57) := by
    rcases h with ((⟨h1, h2⟩ | ⟨h1, h2⟩) | rfl) | rfl
    · have hlo : 'a'.toNat ≤ c.toNat := toNat_le_of_le h1
      have hhi : c.toNat ≤ 'z'.toNat := toNat_le_of_le h2
      simp only [show 'a'.toNat = 97 from rfl, show 'z'.toNat = 122 from rfl] at hlo hhi
      omega
    · have hlo : 'A'.toNat ≤ c.toNat := toNat_le_of_le h1
      have hhi : c.toNat ≤ 'Z'.toNat := toNat_le_of_le h2
      simp only [show 'A'.toNat = 65 from rfl, show 'Z'.toNat = 90 from rfl] at hlo hhi
      omega
    · decide
    · decide
  simp only [isDigit, Text.digitValue?, if_pos hcode.1, if_neg hcode.2, Option.isSome_none]

theorem isDigit_of_ascii {c : Char} (h : '0' ≤ c ∧ c ≤ '9') : isDigit c = true := by
  have hlo : 48 ≤ c.toNat := toNat_le_of_le h.1
  have hhi : c.toNat ≤ 57 := toNat_le_of_le h.2
  have hlt : c.toNat < 128 := by omega
  simp only [isDigit, Text.digitValue?, if_pos hlt, if_pos (And.intro hlo hhi), Option.isSome_some]

theorem isNumberLiteral_of_isIdentifier {n : Text} (h : isIdentifier n = true) :
    isNumberLiteral n = false := by
  cases n with
  | nil => cases h
  | cons c cs =>
    have hc := (isIdentifier_cons.mp h).1
    have hd : ¬ isDigit c = true := by simp [isDigit_of_isNameStart hc]
    have hminus : c ≠ '-' := by
      rintro rfl
      exact absurd hc (by decide)
    have hpoint : c ≠ '.' := by
      rintro rfl
      exact absurd hc (by decide)
    have hlit : isNumberLiteral (c :: cs) = isUnsignedNumber (c :: cs) := by
      unfold isNumberLiteral
      split
      · rename_i heq
        exact absurd (List.cons.inj heq).1 hminus
      · rfl
    rw [hlit, isUnsignedNumber]
    simp only [List.takeWhile_cons_of_neg hd, List.dropWhile_cons_of_neg hd, List.isEmpty_nil,
      if_true]
    split
    · rename_i heq
      exact absurd (List.cons.inj heq).1 hpoint
    · rfl

/-- A name that is neither keyword nor truth value has none of the forms. -/
theorem construct_named {n : Text} (h : isIdentifier n = true) (hr : n ∉ TypeExpr.reserved) :
    construct n = .plain n (.verbatim n) := by
  have hchars := dottedChars_of_isIdentifier h
  have hnot : ∀ {c : Char}, c ∈ n → isDottedChar c = false → False := fun hc hd =>
    not_mem_of_class hchars hd hc
  have hreserved : ∀ {w : Text}, w ∈ TypeExpr.reserved → n ≠ w := fun hw he => hr (he ▸ hw)
  have hgeneric : ∀ {base : Text} {args : List Text}, generic? n = some (base, args) → False := by
    intro base args hg
    obtain ⟨gap, inside, c, ht, -⟩ := generic?_eq_some hg
    refine hnot (c := '<') ?_ (by decide)
    rw [ht]
    simp
  have hflat : ¬ clearFrom ['|'] .start n = false := by
    rw [clearFrom_of_class hchars (by decide)]
    exact Bool.noConfusion
  have hform := formed_construct n
  generalize construct n = l at hform
  cases hform with
  | verbatim => rfl
  | keyword hname => exact absurd (List.mem_append_left _ hname) hr
  | literal hlit =>
    exfalso
    simp only [isLiteral, Bool.or_eq_true, decide_eq_true_eq] at hlit
    rcases hlit with ((he | he) | hs) | hn
    · exact hreserved (by decide) he
    · exact hreserved (by decide) he
    · obtain ⟨q, u, rfl, hq, -⟩ := isStringLiteral_eq hs
      have hplain := isPlain_of_isDottedChar (hchars q List.mem_cons_self)
      rw [isQuote_of_isPlain hplain] at hq
      cases hq
    · rw [isNumberLiteral_of_isIdentifier h] at hn
      cases hn
  | suffix ht => exact (hnot (c := '[') (by rw [ht]; simp) (by decide)).elim
  | array hg | component hg => exact (hgeneric hg).elim
  | object ht => exact (hnot (c := '{') (by rw [ht]; simp) (by decide)).elim
  | same hbar | orNull hbar | nullish hbar | union hbar => exact absurd hbar hflat
  | function ht => exact (hnot (c := '(') (by rw [ht]; simp) (by decide)).elim

theorem isNumberLiteral_integer {negative : Bool} {digits : Text}
    (h : (LiteralExpr.integer negative digits).WellFormed) :
    isNumberLiteral (LiteralExpr.integer negative digits).text = true := by
  obtain ⟨hne, hd⟩ := h
  have hdigits : ∀ c ∈ digits, isDigit c = true := fun c hc => isDigit_of_ascii (hd c hc)
  have hunsigned : isUnsignedNumber digits = true := by
    unfold isUnsignedNumber
    simp only [List.takeWhile_eq_self_iff.mpr hdigits, List.dropWhile_eq_nil_iff.mpr hdigits]
    cases digits with
    | nil => exact absurd rfl hne
    | cons c cs => rfl
  cases negative with
  | true => exact hunsigned
  | false =>
    cases digits with
    | nil => exact absurd rfl hne
    | cons c cs =>
      have hminus : c ≠ '-' := by
        rintro rfl
        exact absurd (hd '-' List.mem_cons_self) (by decide)
      show isNumberLiteral (c :: cs) = true
      unfold isNumberLiteral
      split
      · rename_i heq
        exact absurd (List.cons.inj heq).1 hminus
      · exact hunsigned

theorem isLiteral_text {l : LiteralExpr} (h : l.WellFormed) : isLiteral l.text = true := by
  simp only [isLiteral, Bool.or_eq_true, decide_eq_true_eq]
  cases l with
  | truth value =>
    cases value with
    | true => exact Or.inl (Or.inl (Or.inl rfl))
    | false => exact Or.inl (Or.inl (Or.inr rfl))
  | integer negative digits => exact Or.inr (isNumberLiteral_integer h)
  | string q body => exact Or.inl (Or.inr (isStringLiteral_text h))

/-- No literal is a keyword. -/
theorem text_not_mem_primitiveNames {l : LiteralExpr} (h : l.WellFormed) :
    l.text ∉ primitiveNames := by
  intro hmem
  have hletters := letters_of_primitive (List.contains_iff_mem.mpr hmem)
  cases l with
  | truth value =>
    have hall : ∀ b, (LiteralExpr.truth b).text ∉ primitiveNames := by decide
    exact hall value hmem
  | integer negative digits =>
    obtain ⟨-, c, hc, hcase⟩ := chars_of_integer h
    have hletter := hletters c (List.mem_of_head? hc)
    rcases hcase with rfl | hdigit
    · cases hletter
    · have hstart := isDigit_of_isNameStart (c := c) (by simp [isNameStart, hletter])
      rw [isDigit_of_ascii hdigit] at hstart
      cases hstart
  | string q body =>
    have hletter := hletters q List.mem_cons_self
    obtain ⟨hq, -⟩ := h
    rcases hq with rfl | rfl
    · cases hletter
    · cases hletter

theorem primitiveLayer_literal {l : LiteralExpr} (h : l.WellFormed) :
    primitiveLayer l.text = some (.plain l.text (.literal l.text)) := by
  have hk : ¬ primitiveNames.contains l.text = true := fun hc =>
    text_not_mem_primitiveNames h (List.contains_iff_mem.mp hc)
  rw [primitiveLayer, if_neg hk, if_pos (isLiteral_text h)]

/-! ## Constructs -/

/-- A component base with its type in angle brackets makes a component. -/
theorem componentLayer_generic {base : Text} (hb : base ∈ componentBases) (q : Bool) {t : Text}
    (h : Printed t) :
    componentLayer (TypeExpr.baseText q base ++ '<' :: (t ++ ['>'])) =
      some (.plain (TypeExpr.baseText q base ++ '<' :: (t ++ ['>'])) (.component (.text t))) := by
  have hname : ∀ r, dottedName? (TypeExpr.baseText q base ++ '<' :: r) =
      some (TypeExpr.baseText q base, '<' :: r) := by
    intro r
    simp only [componentBases, List.map_cons, List.map_nil, List.mem_cons, List.not_mem_nil,
      or_false] at hb
    rcases hb with rfl | rfl | rfl | rfl <;> cases q <;> rfl
  have hbase : componentBases.contains ((Text.after? "React.".toList
      (TypeExpr.baseText q base)).getD (TypeExpr.baseText q base)) = true := by
    have hall : ∀ q, ∀ b ∈ componentBases, componentBases.contains ((Text.after? "React.".toList
        (TypeExpr.baseText q b)).getD (TypeExpr.baseText q b)) = true := by decide
    exact hall q base hb
  have hinside : enclosed? '<' (Text.trimStart ('<' :: (t ++ ['>']))) = some t :=
    (enclosed?_eq_some_iff rfl).mpr ⟨'>', rfl, h.settled.closesBehind rfl⟩
  have hargs : pieces [','] t = [t] :=
    pieces_of_clear (clearFrom_mono (by decide) h.clear) h.trimmed h.nonempty
  have hgeneric : generic? (TypeExpr.baseText q base ++ '<' :: (t ++ ['>'])) =
      some (TypeExpr.baseText q base, [t]) := by
    unfold generic?
    rw [hname]
    simp only [Option.bind_eq_bind, Option.bind_some, hinside]
    exact congrArg (fun args => some (TypeExpr.baseText q base, args)) hargs
  unfold componentLayer
  rw [hgeneric]
  simp only [hbase, if_true]

/-- Parentheses that an operand needs are taken off again. -/
theorem parse_operand {e : TypeExpr} (h : e.WellFormed) :
    parse e.operand = parse e.print := by
  unfold TypeExpr.operand TypeExpr.wrap
  split
  · exact parse_parenthesized (TypeExpr.printed_print h).1.settled.nested
  · rfl

/-- An operand that reads as a keyword is that keyword. -/
theorem operand_not_nullish {e : TypeExpr} (h : e.WellFormed) (hread : parse e.print = e.node)
    (hnull : ∀ n ∈ nullishNames, e ≠ .keyword n) : e.operand ∉ nullishNames := by
  intro hmem
  have hkeyword : ∀ n ∈ nullishNames, (parse n).shape = .primitive n := by
    intro n hn
    simp only [nullishNames, List.mem_cons, List.not_mem_nil, or_false] at hn
    rcases hn with rfl | rfl <;> rfl
  have hshape := hkeyword _ hmem
  rw [parse_operand h, hread] at hshape
  cases e with
  | keyword n => exact hnull n hmem rfl
  | _ => simp [TypeExpr.node, TypeNode.plain] at hshape

/-! ## One construct -/

theorem parse_keyword {n : Text} (h : n ∈ primitiveNames) :
    parse (TypeExpr.keyword n).print = (TypeExpr.keyword n).node := by
  have hhead : ∀ n ∈ primitiveNames, n.head? ≠ some '(' := by decide
  have hl : primitiveLayer n = some (.plain n (.primitive n)) := by
    rw [primitiveLayer, if_pos (List.contains_iff_mem.mpr h)]
  rw [TypeExpr.print, parse_of_printed (operand_keyword h).toPrinted
    (enclosed?_of_head (hhead n h)), construct_eq_of_primitive hl]
  rfl

theorem parse_named {n : Text} (h : isIdentifier n = true) (hr : n ∉ TypeExpr.reserved) :
    parse (TypeExpr.named n).print = (TypeExpr.named n).node := by
  have hhead : n.head? ≠ some '(' := fun hh =>
    not_mem_of_class (dottedChars_of_isIdentifier h) (by decide) (List.mem_of_head? hh)
  rw [TypeExpr.print, parse_of_printed (operand_named h hr).toPrinted (enclosed?_of_head hhead),
    construct_named h hr]
  rfl

theorem parse_literal {l : LiteralExpr} (h : l.WellFormed) :
    parse (TypeExpr.literal l).print = (TypeExpr.literal l).node := by
  have hl := primitiveLayer_literal h
  have hhead : l.text.head? ≠ some '(' := by
    intro hh
    rw [primitiveLayer_of_head hh rfl] at hl
    cases hl
  rw [TypeExpr.print, parse_of_printed (operand_literal h).toPrinted (enclosed?_of_head hhead),
    construct_eq_of_primitive hl]
  rfl

theorem parse_array {e : TypeExpr} (h : e.WellFormed) (ih : parse e.print = e.node) :
    parse (TypeExpr.array e).print = (TypeExpr.array e).node := by
  have hp := (TypeExpr.printed_print (.array h)).1
  have ho := h.operand
  rw [TypeExpr.node, TypeExpr.print_array] at *
  rw [parse_suffix ho.nonempty ho.trimmed hp.after?_readonly ho.clear_bar
    (find?_arrow_of_clear ho.clear_equals), parse_operand h, ih]

theorem parse_object {ms : List (Property TypeExpr)}
    (hn : ∀ p ∈ ms, isIdentifier p.name = true) (h : ∀ p ∈ ms, p.type.WellFormed)
    (ih : ∀ p ∈ ms, parse p.type.print = p.type.node) :
    parse (TypeExpr.object ms).print = (TypeExpr.object ms).node := by
  have hms : ∀ m ∈ ms.map TypeExpr.written, Printable m ∧
      clearFrom ['\n'] .start m.type = true := by
    intro m hm
    obtain ⟨p, hp, rfl⟩ := List.mem_map.mp hm
    exact Printed.printable (m := TypeExpr.written p) (hn p hp) (TypeExpr.printed_print (h p hp)).1
  have hprops : ((ms.map TypeExpr.written).map fun m =>
      (⟨m.name, parse m.type, m.optional⟩ : Property TypeNode)) =
        ms.map fun p => ⟨p.name, p.type.node, p.optional⟩ := by
    rw [List.map_map]
    refine List.map_congr_left fun p hp => ?_
    simp only [Function.comp_apply, TypeExpr.written, ih p hp]
  rw [TypeExpr.node_object, TypeExpr.print_object,
    parse_of_lines (fun m hm => (hms m hm).1) fun m hm => (hms m hm).2, hprops]

theorem parse_union {ms : List TypeExpr} (htwo : 2 ≤ ms.length)
    (hnull : ∀ n ∈ nullishNames, .keyword n ∉ ms) (h : ∀ m ∈ ms, m.WellFormed)
    (ih : ∀ m ∈ ms, parse m.print = m.node) :
    parse (TypeExpr.union ms).print = (TypeExpr.union ms).node := by
  have hp := (TypeExpr.printed_print (.union htwo hnull h)).1
  have hops : ∀ t ∈ ms.map TypeExpr.operand, Operand t ∧ t ∉ nullishNames := by
    intro t ht
    obtain ⟨m, hm, rfl⟩ := List.mem_map.mp ht
    refine ⟨(h m hm).operand, operand_not_nullish (h m hm) (ih m hm) fun n hn he => ?_⟩
    rw [he] at hm
    exact hnull n hn hm
  have htwo' : 2 ≤ (ms.map TypeExpr.operand).length := by simpa using htwo
  have hbar := clearFrom_bar_join htwo' fun t ht => (hops t ht).1.settled.nested
  have harrow : find? arrow (Text.join " | ".toList (ms.map TypeExpr.operand)) = none :=
    (find?_arrow_join fun t ht => (hops t ht).1.settled.nested).mpr fun t ht =>
      find?_arrow_of_clear (hops t ht).1.clear_equals
  have hmembers : (ms.map TypeExpr.operand).map parse = ms.map TypeExpr.node := by
    rw [List.map_map]
    exact List.map_congr_left fun m hm => (parse_operand (h m hm)).trans (ih m hm)
  rw [TypeExpr.node_union, TypeExpr.print_union] at *
  rw [parse_of_printed hp (enclosed?_of_not_clear rfl hbar rfl),
    build_construct_join htwo' (fun t ht => ?_) (fun t ht => (hops t ht).2) harrow, hmembers]
  have ho := (hops t ht).1
  exact ⟨ho.settled.nested, ho.clear_bar, ho.trimmed, ho.nonempty⟩

theorem parse_function {ps : List (Param TypeExpr)} {r : TypeExpr}
    (hn : ∀ p ∈ ps, isIdentifier p.name = true) (h : ∀ p ∈ ps, p.type.WellFormed)
    (hr : r.WellFormed) (ih : ∀ p ∈ ps, parse p.type.print = p.type.node)
    (ihr : parse r.print = r.node) :
    parse (TypeExpr.function ps r).print = (TypeExpr.function ps r).node := by
  have hp := (TypeExpr.printed_print (.function hn h hr)).1
  let parameter (p : Param TypeExpr) : Parameter := ⟨p.name, false, p.type.print⟩
  have htexts : ps.map TypeExpr.writtenParam = (ps.map parameter).map (·.text) := by
    rw [List.map_map]
    rfl
  have hps : ∀ q ∈ ps.map parameter, q.Printable := by
    intro q hq
    obtain ⟨p, hp, rfl⟩ := List.mem_map.mp hq
    have hprinted := (TypeExpr.printed_print (h p hp)).1
    refine ⟨isLabel_of_isIdentifier (hn p hp), hprinted.settled.nested, ?_⟩
    rw [hasTopLevel_eq, clearFrom_mono (by decide) hprinted.clear]
    rfl
  have hparams : ((ps.map parameter).map fun q => (⟨q.name, parse q.type⟩ : Param TypeNode)) =
      ps.map fun p => ⟨p.name, p.type.node⟩ := by
    rw [List.map_map]
    refine List.map_congr_left fun p hp => ?_
    simp only [Function.comp_apply, parameter, ih p hp]
  rw [TypeExpr.print_function, htexts] at hp
  rw [TypeExpr.node_function, TypeExpr.print_function, htexts, parse_signature .none hps, hparams,
    ihr, hp.trimmed]

theorem parse_component {q : Bool} {base : Text} {e : TypeExpr} (hb : base ∈ componentBases)
    (h : e.WellFormed) (ih : parse e.print = e.node) :
    parse (TypeExpr.component q base e).print = (TypeExpr.component q base e).node := by
  have hp := (TypeExpr.printed_print (.component (q := q) hb h)).1
  have hl := componentLayer_generic hb q (TypeExpr.printed_print h).1
  have hhead : (TypeExpr.baseText q base ++ '<' :: (e.print ++ ['>'])).head? ≠ some '(' := by
    intro hh
    rw [componentLayer_of_not_generic (generic?_of_head hh (by decide))] at hl
    cases hl
  rw [TypeExpr.node, TypeExpr.print_component] at *
  rw [parse_of_printed hp (enclosed?_of_head hhead), construct_eq_of_component hl]
  show TypeNode.plain _ (.component (parse e.print)) = _
  rw [ih]

/-- **Reading inverts printing**: the text of every well-formed type expression is read as the node
of the expression, with the same constructs, names, marks and order at every level. -/
theorem parse_print {e : TypeExpr} (h : e.WellFormed) : parse e.print = e.node := by
  induction h with
  | keyword h => exact parse_keyword h
  | named h hr => exact parse_named h hr
  | literal h => exact parse_literal h
  | array h ih => exact parse_array h ih
  | object hn h ih => exact parse_object hn h ih
  | union htwo hnull h ih => exact parse_union htwo hnull h ih
  | function hn h hr ih ihr => exact parse_function hn h hr ih ihr
  | component hb h ih => exact parse_component hb h ih

/-- An object of a string that holds a bar and a brace, an array of functions, and a component. -/
theorem parse_print_nested :
    let handler : TypeExpr := .function [⟨"e".toList, .named "E".toList⟩]
      (.union [.keyword "void".toList, .literal (.integer true "1".toList)])
    let e : TypeExpr := .object [⟨"kind".toList, .literal (.string '"' "a|\x7d".toList), false⟩,
      ⟨"on".toList, .array handler, true⟩,
      ⟨"view".toList, .component true "FC".toList (.named "P".toList), false⟩]
    e.WellFormed ∧ e.print =
        "\x7b kind: \"a|\x7d\"; on?: ((e: E) => void | -1)[]; view: React.FC<P> \x7d".toList ∧
      parse e.print = e.node := by
  intro handler e
  have hhandler : handler.WellFormed :=
    .function (by decide) (by simpa using .named (by decide) (by decide))
      (.union (by decide) (by simp [nullishNames]) (by
        simpa using ⟨.keyword (by decide), .literal ⟨by decide, by decide⟩⟩))
  have he : e.WellFormed := .object (by decide) (by
    simpa using ⟨.literal ⟨by decide, by decide, by decide⟩, .array hhandler,
      .component (by decide) (.named (by decide) (by decide))⟩)
  exact ⟨he, rfl, parse_print he⟩

end ExportSchema.TypeNode
