import ExportSchema.Proofs.Module.Rule
import ExportSchema.Proofs.Number.Literal

/-!
# The numbers of an enumeration

A member without an initialiser has the number after the one before it. The counter of `enumValues`
follows the initialisers that are plain decimal numbers. After any other literal it goes on by one
only, and a name that stands in quotes or brackets is passed over. So the values are those of the
language iff no such name has to be numbered, and the counter has caught up with the numbers wherever
a name is.

* `EnumMember`, `EnumMember.Stands`: the members of an enumeration, and their nodes.
* `numbered`: the values by the rule of the language.
* `numberAfter`, `countAfter`: the next number, by that rule and by the counter.

Results:
* `enumValuesFrom_filter`: only members count.
* `enumValuesFrom_plain`, `enumValuesFrom_literal`, `enumValuesFrom_skip`: what one member gives.
* `enumValuesFrom_eq_iff`: when the values are those of the language, from any two counters on.
* `enum_numbered_iff`: the same for a whole enumeration.
-/

namespace ExportSchema

theorem Text.ofNat_injective : Function.Injective Text.ofNat := fun a b h => by
  have hread := congrArg (fun ds => Nat.ofDigitChars 10 ds 0) h
  simpa [Text.ofNat, Nat.ofDigitChars_ten_toDigits] using hread

namespace Module

open Number (Digits IntegerLiteral isPlainDecimal maxDigits readInt?_of_integerLiteral)

/-! ## Members -/

/-- A member of an enumeration, by its initialiser. -/
inductive EnumMember where
  /-- A bare name without an initialiser. -/
  | plain
  /-- A name in quotes or brackets without an initialiser. -/
  | quoted
  /-- An integer-valued literal as the initialiser, and its value. -/
  | literal (text : Text) (value : Nat)
  deriving DecidableEq, Repr

/-- A node of an enumeration that is a member: the others are comments and the like. -/
def isEnumMember (t : Tree) : Bool :=
  t.kind = .enumAssignment || t.kind = .propertyIdentifier || t.kind = .identifier ||
    t.field = some .name

namespace EnumMember

/-- The node of a member. -/
def Stands (m : EnumMember) (t : Tree) : Prop :=
  match m with
  | plain => t.kind = .propertyIdentifier ∨ t.kind = .identifier
  | quoted => t.field = some .name ∧
      t.kind ≠ .enumAssignment ∧ t.kind ≠ .propertyIdentifier ∧ t.kind ≠ .identifier
  | literal text value => t.kind = .enumAssignment ∧ IntegerLiteral text value ∧
      ∃ v, t.child? .value = some v ∧ v.kind = .number ∧ v.text = text

/-- The value of a member, where `n` is the next number. -/
def valueText (n : Nat) : EnumMember → Text
  | plain | quoted => Text.ofNat n
  | literal text _ => text

/-- The number after a member, where `n` is its number if it has no initialiser. -/
def next (n : Nat) : EnumMember → Nat
  | plain | quoted => n + 1
  | literal _ value => value + 1

/-- The counter after a member: it only follows plain decimal numbers. -/
def count (n : Nat) : EnumMember → Nat
  | plain => n + 1
  | quoted => n
  | literal text value => if isPlainDecimal text then value + 1 else n + 1

/-- The counter follows the member. -/
def Followed : EnumMember → Prop
  | plain => True
  | quoted => False
  | literal text _ => isPlainDecimal text = true

theorem Followed.count_eq {m : EnumMember} (h : m.Followed) (n : Nat) : m.count n = m.next n := by
  cases m with
  | plain => rfl
  | quoted => cases h
  | literal text value => exact if_pos h

end EnumMember

/-- The values of an enumeration, where `n` is the next number. -/
def numbered (n : Nat) : List EnumMember → List Text
  | [] => []
  | m :: ms => m.valueText n :: numbered (m.next n) ms

/-- The next number after members. -/
def numberAfter (n : Nat) (ms : List EnumMember) : Nat := ms.foldl EnumMember.next n

/-- The counter after members. -/
def countAfter (n : Nat) (ms : List EnumMember) : Nat := ms.foldl EnumMember.count n

/-! ## One member -/

theorem counterText_natCast (n : Nat) :
    counterText n = if maxDigits < (Text.ofNat n).length then .error .tooManyDigits
      else .ok (Text.ofNat n) := by
  have hneg : ¬ (n : Int) < 0 := by omega
  simp only [counterText, Int.natAbs_natCast, if_neg hneg]

variable {t : Tree} {ts : List Tree}

theorem enumValuesFrom_plain (h : EnumMember.plain.Stands t) (n : Nat) :
    enumValuesFrom n (t :: ts) = do
      let text ← counterText n
      return text :: (← enumValuesFrom (n + 1 : Nat) ts) := by
  rw [enumValuesFrom]
  rcases h with hkind | hkind
  · simp only [hkind]
    rfl
  · simp only [hkind]
    rfl

theorem enumValuesFrom_skip {counter : Int} (ha : t.kind ≠ .enumAssignment)
    (hp : t.kind ≠ .propertyIdentifier) (hi : t.kind ≠ .identifier) :
    enumValuesFrom counter (t :: ts) = enumValuesFrom counter ts := by
  rw [enumValuesFrom]
  split
  · exact absurd ‹_› ha
  · exact absurd ‹_› hp
  · exact absurd ‹_› hi
  · rfl

theorem enumValuesFrom_literal {text : Text} {value : Nat}
    (h : (EnumMember.literal text value).Stands t) (n : Nat) :
    enumValuesFrom n (t :: ts) = do
      return text :: (← enumValuesFrom ((EnumMember.literal text value).count n : Nat) ts) := by
  obtain ⟨hkind, hliteral, v, hv, hnumber, rfl⟩ := h
  have hassigned : assignedValue n v =
      (v.text, (((EnumMember.literal v.text value).count n : Nat) : Int)) := by
    unfold assignedValue EnumMember.count
    rw [hnumber, readInt?_of_integerLiteral hliteral]
    cases hplain : isPlainDecimal v.text <;> simp [hplain]
  rw [enumValuesFrom]
  simp only [hkind, hv, hassigned]

/-- Only members count. -/
theorem enumValuesFrom_filter (counter : Int) (ts : List Tree) :
    enumValuesFrom counter ts = enumValuesFrom counter (ts.filter isEnumMember) := by
  induction ts generalizing counter with
  | nil => rfl
  | cons t ts ih =>
    by_cases hm : isEnumMember t = true
    · rw [List.filter_cons_of_pos hm, enumValuesFrom, enumValuesFrom]
      simp only [ih]
    · rw [List.filter_cons_of_neg hm, ← ih]
      simp only [isEnumMember, Bool.or_eq_true, decide_eq_true_eq, not_or] at hm
      exact enumValuesFrom_skip hm.1.1.1 hm.1.1.2 hm.1.2

/-! ## All members -/

theorem length_numbered (n : Nat) (ms : List EnumMember) : (numbered n ms).length = ms.length := by
  induction ms generalizing n with
  | nil => rfl
  | cons m ms ih => rw [numbered, List.length_cons, List.length_cons, ih]

theorem cons_eq_ok_iff {x : Except Fault Text} {y : Except Fault (List Text)} {v : Text}
    {vs : List Text} :
    (do let text ← x; return text :: (← y)) = .ok (v :: vs) ↔ x = .ok v ∧ y = .ok vs := by
  constructor
  · intro h
    obtain ⟨v, hv, h⟩ := exists_ok_of_bind h
    obtain ⟨vs, hvs, h⟩ := exists_ok_of_bind h
    cases h
    exact ⟨hv, hvs⟩
  · rintro ⟨rfl, rfl⟩
    rfl

theorem counterText_eq_iff (c n : Nat) :
    counterText c = .ok (Text.ofNat n) ↔ c = n ∧ (Text.ofNat n).length ≤ maxDigits := by
  rw [counterText_natCast]
  split
  · rename_i hlong
    refine iff_of_false (fun h => by cases h) ?_
    rintro ⟨rfl, hshort⟩
    exact absurd hlong (Nat.not_lt.mpr hshort)
  · rename_i hshort
    rw [Except.ok.injEq, Text.ofNat_injective.eq_iff]
    refine ⟨?_, And.left⟩
    rintro rfl
    exact ⟨rfl, Nat.not_lt.mp hshort⟩

/-- No member gives more than one value. -/
theorem length_enumValuesFrom_le {ms : List EnumMember} {ts : List Tree}
    (h : List.Forall₂ EnumMember.Stands ms ts) {c : Nat} {values : List Text}
    (hvalues : enumValuesFrom c ts = .ok values) : values.length ≤ ms.length := by
  induction h generalizing c values with
  | nil =>
    cases hvalues
    exact Nat.le_refl _
  | @cons m t ms ts hm _ ih =>
    cases m with
    | plain =>
      rw [enumValuesFrom_plain hm] at hvalues
      obtain ⟨v, -, hvalues⟩ := exists_ok_of_bind hvalues
      obtain ⟨vs, hvs, h⟩ := exists_ok_of_bind hvalues
      cases h
      exact Nat.succ_le_succ (ih hvs)
    | quoted =>
      rw [enumValuesFrom_skip hm.2.1 hm.2.2.1 hm.2.2.2] at hvalues
      exact (ih hvalues).trans (Nat.le_succ _)
    | literal text value =>
      rw [enumValuesFrom_literal hm] at hvalues
      obtain ⟨vs, hvs, h⟩ := exists_ok_of_bind hvalues
      cases h
      exact Nat.succ_le_succ (ih hvs)

/-- A statement about every cut of a list in front of a bare name, for one more member. -/
theorem forall_cut_cons {P : List EnumMember → Prop} {m : EnumMember} {ms : List EnumMember} :
    (∀ pre post, m :: ms = pre ++ .plain :: post → P pre) ↔
      (m = .plain → P []) ∧ ∀ pre post, ms = pre ++ .plain :: post → P (m :: pre) := by
  constructor
  · intro h
    refine ⟨fun hm => h [] ms (by rw [hm, List.nil_append]), fun pre post hcut => ?_⟩
    exact h (m :: pre) post (by rw [hcut, List.cons_append])
  · rintro ⟨hnil, hcons⟩ pre post hcut
    rcases List.cons_eq_append_iff.mp hcut with ⟨rfl, hpost⟩ | ⟨pre', rfl, hcut'⟩
    · exact hnil (List.cons.inj hpost).1.symm
    · exact hcons pre' post hcut'

theorem forall_cut_nil {P : List EnumMember → Prop} :
    (∀ pre post, [] = pre ++ .plain :: post → P pre) ↔ True := by simp

/-- **The values are those of the language** iff every name stands bare, and in front of every bare name
without an initialiser the counter is the next number, short enough to be written. -/
theorem enumValuesFrom_eq_iff {ms : List EnumMember} {ts : List Tree}
    (h : List.Forall₂ EnumMember.Stands ms ts) (c n : Nat) :
    enumValuesFrom c ts = .ok (numbered n ms) ↔
      .quoted ∉ ms ∧ ∀ pre post, ms = pre ++ .plain :: post →
        countAfter c pre = numberAfter n pre ∧
          (Text.ofNat (numberAfter n pre)).length ≤ maxDigits := by
  -- the counter and the next number go apart, so the induction is on both
  induction h generalizing c n with
  | nil => simp [enumValuesFrom, numbered]
  | @cons m t ms ts hm hms ih =>
    rw [forall_cut_cons]
    cases m with
    | plain =>
      have hstep : enumValuesFrom c (t :: ts) = .ok (numbered n (.plain :: ms)) ↔
          (c = n ∧ (Text.ofNat n).length ≤ maxDigits) ∧
            enumValuesFrom (c + 1 : Nat) ts = .ok (numbered (n + 1) ms) := by
        rw [enumValuesFrom_plain hm, ← counterText_eq_iff]
        exact cons_eq_ok_iff
      have hquoted : EnumMember.quoted ∉ EnumMember.plain :: ms ↔ EnumMember.quoted ∉ ms := by simp
      rw [hstep, ih, hquoted]
      exact ⟨fun ⟨h, hq, hall⟩ => ⟨hq, fun _ => h, hall⟩, fun ⟨hq, h, hall⟩ => ⟨h rfl, hq, hall⟩⟩
    | quoted =>
      -- the name is passed over, so there are fewer values than members
      refine iff_of_false (fun hvalues => ?_) fun hall => hall.1 List.mem_cons_self
      rw [enumValuesFrom_skip hm.2.1 hm.2.2.1 hm.2.2.2] at hvalues
      have hle := length_enumValuesFrom_le hms hvalues
      rw [length_numbered, List.length_cons] at hle
      omega
    | literal text value =>
      have hstep : enumValuesFrom c (t :: ts) = .ok (numbered n (.literal text value :: ms)) ↔
          enumValuesFrom ((EnumMember.literal text value).count c : Nat) ts =
            .ok (numbered (value + 1) ms) := by
        rw [enumValuesFrom_literal hm]
        exact (cons_eq_ok_iff (x := .ok text)).trans (and_iff_right rfl)
      have hquoted : EnumMember.quoted ∉ EnumMember.literal text value :: ms ↔
          EnumMember.quoted ∉ ms := by simp
      rw [hstep, ih, hquoted]
      exact ⟨fun ⟨hq, hall⟩ => ⟨hq, (fun h => by cases h), hall⟩, fun ⟨hq, _, hall⟩ => ⟨hq, hall⟩⟩

theorem countAfter_eq {ms : List EnumMember} (h : ∀ m ∈ ms, m.Followed) (n : Nat) :
    countAfter n ms = numberAfter n ms := by
  induction ms generalizing n with
  | nil => rfl
  | cons m ms ih =>
    obtain ⟨hm, hms⟩ := List.forall_mem_cons.mp h
    show countAfter (m.count n) ms = numberAfter (m.next n) ms
    rw [hm.count_eq, ih hms]

/-- **When the members of an enumeration are numbered as in the language.** Let every initialiser be an
integer-valued literal. The values are those of the language iff every member without an initialiser
has a bare name, and the counter that only follows plain decimal numbers is the next number there,
short enough to be written. If the counter follows every member, only the length counts. -/
theorem enum_numbered_iff {t body : Tree} (hbody : t.child? .body = some body)
    {ms : List EnumMember}
    (h : List.Forall₂ EnumMember.Stands ms (body.namedChildren.filter isEnumMember)) :
    (enumValues t = .ok (numbered 0 ms) ↔
      .quoted ∉ ms ∧ ∀ pre post, ms = pre ++ .plain :: post →
        countAfter 0 pre = numberAfter 0 pre ∧
          (Text.ofNat (numberAfter 0 pre)).length ≤ maxDigits) ∧
    ((∀ m ∈ ms, m.Followed) →
      (enumValues t = .ok (numbered 0 ms) ↔ ∀ pre post, ms = pre ++ .plain :: post →
        (Text.ofNat (numberAfter 0 pre)).length ≤ maxDigits)) := by
  have hvalues : enumValues t = .ok (numbered 0 ms) ↔
      .quoted ∉ ms ∧ ∀ pre post, ms = pre ++ .plain :: post →
        countAfter 0 pre = numberAfter 0 pre ∧
          (Text.ofNat (numberAfter 0 pre)).length ≤ maxDigits := by
    rw [← enumValuesFrom_eq_iff h 0 0]
    unfold enumValues
    rw [hbody, ← Int.natCast_zero]
    simp only [← enumValuesFrom_filter]
  refine ⟨hvalues, fun hfollowed => hvalues.trans ⟨fun hall => ?_, fun hall => ⟨?_, ?_⟩⟩⟩
  · exact fun pre post hcut => (hall.2 pre post hcut).2
  · exact fun hquoted => hfollowed _ hquoted
  · intro pre post hcut
    refine ⟨countAfter_eq (fun m hm => hfollowed m ?_) 0, hall pre post hcut⟩
    rw [hcut]
    exact List.mem_append_left _ hm

/-- The enumeration `\x7b A, B = 1_000, C, D = 0x10, E = 1.5e1, F = 7, G \x7d`: no number has to be counted
from a literal that the counter does not follow. -/
theorem enum_numbered_of_mixed :
    let leaf (kind : Kind) (field : Field) (text : String) : Tree :=
      ⟨kind, true, some field, text.toList, []⟩
    let name (text : String) : Tree := leaf .propertyIdentifier .name text
    let assigned (text value : String) : Tree :=
      ⟨.enumAssignment, true, none, [], [name text, leaf .number .value value]⟩
    let body : Tree := ⟨.other, true, some .body, [], [name "A", assigned "B" "1_000", name "C",
      assigned "D" "0x10", ⟨.comment, true, none, [], []⟩, assigned "E" "1.5e1", assigned "F" "7",
      name "G"]⟩
    let tree : Tree := ⟨.enumDeclaration, true, none, [], [body]⟩
    let ms : List EnumMember := [.plain, .literal "1_000".toList 1000, .plain,
      .literal "0x10".toList 16, .literal "1.5e1".toList 15, .literal "7".toList 7, .plain]
    tree.child? .body = some body ∧
      List.Forall₂ EnumMember.Stands ms (body.namedChildren.filter isEnumMember) ∧
      enumValues tree = .ok (numbered 0 ms) ∧
      numbered 0 ms = ["0".toList, "1_000".toList, "1001".toList, "0x10".toList, "1.5e1".toList,
        "7".toList, "8".toList] := by
  intro leaf name assigned body tree ms
  have hthousand : Digits 10 "1_000".toList [1, 0, 0, 0] :=
    .underscore rfl (.cons rfl (.cons rfl (.last rfl)))
  have hsixteen : Digits 16 "10".toList [1, 0] := .cons rfl (.last rfl)
  have hone : Digits 10 "1".toList [1] := .last rfl
  have hfive : Digits 10 "5".toList [5] := .last rfl
  have hseven : Digits 10 "7".toList [7] := .last rfl
  have hfifteen : IntegerLiteral "1.5e1".toList 15 :=
    .scaled (.digits hone (by decide)) (.digits hfive) (.plain (Or.inl rfl) hone)
      (by decide) (by decide) (by decide)
  have hms : List.Forall₂ EnumMember.Stands ms (body.namedChildren.filter isEnumMember) := by
    refine .cons (Or.inl rfl) (.cons ⟨rfl, .decimal hthousand (by decide), _, rfl, rfl, rfl⟩ ?_)
    refine .cons (Or.inl rfl) (.cons ⟨rfl, .radix rfl hsixteen, _, rfl, rfl, rfl⟩ ?_)
    refine .cons ⟨rfl, hfifteen, _, rfl, rfl, rfl⟩ ?_
    exact .cons ⟨rfl, .decimal hseven (by decide), _, rfl, rfl, rfl⟩ (.cons (Or.inl rfl) .nil)
  refine ⟨rfl, hms, (enum_numbered_iff rfl hms).1.mpr ⟨by decide, ?_⟩, by decide⟩
  simp only [ms, forall_cut_cons, forall_cut_nil]
  decide

/-- **After a hexadecimal number the counter goes on by one**: the enumeration `\x7b A = 0x10, B \x7d` has
the values `0x10` and `1`, but the number after 16 is 17. -/
theorem enum_counts_past_hexadecimal :
    let leaf (kind : Kind) (field : Field) (text : String) : Tree :=
      ⟨kind, true, some field, text.toList, []⟩
    let body : Tree := ⟨.other, true, some .body, [], [⟨.enumAssignment, true, none, [],
      [leaf .propertyIdentifier .name "A", leaf .number .value "0x10"]⟩,
      leaf .propertyIdentifier .name "B"]⟩
    let tree : Tree := ⟨.enumDeclaration, true, none, [], [body]⟩
    let ms : List EnumMember := [.literal "0x10".toList 16, .plain]
    (tree.child? .body = some body ∧
      List.Forall₂ EnumMember.Stands ms (body.namedChildren.filter isEnumMember)) ∧
      enumValues tree = .ok ["0x10".toList, "1".toList] ∧
      numbered 0 ms = ["0x10".toList, "17".toList] ∧
      enumValues tree ≠ .ok (numbered 0 ms) := by
  intro leaf body tree ms
  have hsixteen : Digits 16 "10".toList [1, 0] := .cons rfl (.last rfl)
  have hfirst : (EnumMember.literal "0x10".toList 16).Stands
      ⟨.enumAssignment, true, none, [],
        [leaf .propertyIdentifier .name "A", leaf .number .value "0x10"]⟩ :=
    ⟨rfl, .radix rfl hsixteen, _, rfl, rfl, rfl⟩
  have hsecond : EnumMember.plain.Stands (leaf .propertyIdentifier .name "B") := Or.inl rfl
  have hvalues : enumValues tree = .ok ["0x10".toList, "1".toList] := by
    have hbody : tree.child? .body = some body := rfl
    have hnodes : body.namedChildren = [_, leaf .propertyIdentifier .name "B"] := rfl
    rw [enumValues, hbody, ← Int.natCast_zero]
    simp only
    rw [hnodes, enumValuesFrom_literal hfirst, enumValuesFrom_plain hsecond]
    rfl
  have hnumbered : numbered 0 ms = ["0x10".toList, "17".toList] := rfl
  refine ⟨⟨rfl, .cons hfirst (.cons hsecond .nil)⟩, hvalues, hnumbered, ?_⟩
  rw [hvalues, hnumbered]
  decide

end Module

end ExportSchema
