import ExportSchema.Proofs.Bracket.Place

/-!
# The bracket that closes a group

The scanner looks back one character for the first half of an arrow. What it remembers is the
character before, so a bracket closes at a place or not by what the text has there and just before.

* `State.Follows`: the state the scanner is in behind a character.
* `ClosesAt`: a bracket closes at a place.

Results:
* `follows_run`: the scanner remembers the character before.
* `closesAt_append_cons`: a bracket closes at a place iff the scanner says so.
* `closeFrom_firstIn`: the search gives the first place where a bracket closes.
* `Stands.close?_firstIn`: a group closes at the first place where a bracket closes from one deeper.
* `Stands.exists_group`, `marks_inside`: the inside of a group is nested, and is scanned as if it
  stood alone.
* `close?_exact`: the bracket that closes a group, and what stands between.
-/

namespace ExportSchema.Bracket

variable {s : State} {last : Option Char} {t a b : Text} {c : Char} {d : Nat}

/-! ## The character before -/

/-- The scanner behind the character `last`: outside literals it remembers whether that was an
equals sign, and inside a literal only the quote that opened it. -/
def State.Follows (s : State) (last : Option Char) : Prop :=
  match s.mode with
  | .code => s.afterEq = true ↔ last = some '='
  | .quoted q | .escaped q => isQuote q = true ∧ s.afterEq = false

/-- Brackets and quotes are no equals signs. -/
theorem follows_of_special (hc : isPlain c = false) : State.Follows (.code d false) (some c) := by
  refine iff_of_false Bool.false_ne_true fun heq => ?_
  cases heq
  cases hc

theorem State.Follows.step (h : s.Follows last) (c : Char) : (s.step c).Follows (some c) := by
  obtain ⟨d, m, e⟩ := s
  cases m with
  | escaped q => exact h
  | quoted q =>
    obtain ⟨hq, he⟩ : isQuote q = true ∧ e = false := h
    subst he
    simp only [State.step]
    split
    · exact ⟨hq, rfl⟩
    · split
      · rename_i hcq
        exact follows_of_special (by simp [isPlain, hcq, hq])
      · exact ⟨hq, rfl⟩
  | code =>
    by_cases hq : isQuote c = true
    · rw [step_quote hq]
      exact ⟨hq, rfl⟩
    by_cases ho : isOpener c = true
    · rw [step_opener ho]
      exact follows_of_special (by simp [isPlain, ho])
    by_cases hc : State.closes (.code d e) c = true
    · rw [step_closes hc]
      exact follows_of_special (by simp [isPlain, State.isCloser_of_closes hc])
    · rw [step_other hq ho hc]
      simp [State.Follows]

/-- **The scanner remembers the character before.** -/
theorem follows_run (a : Text) : (State.start.run a).Follows a.getLast? := by
  induction a using List.reverseRecOn with
  | nil => exact iff_of_false Bool.false_ne_true nofun
  | append_singleton a c ih =>
    rw [State.run_append, List.getLast?_concat]
    exact ih.step c

/-! ## Where a bracket closes -/

/-- A bracket closes at place `i` of `t`, inside `d` brackets: a closing bracket outside literals
that is not the second half of an arrow. -/
def ClosesAt (t : Text) (i d : Nat) : Prop :=
  ∃ c, Stands t i c d ∧ isCloser c = true ∧ ¬ (c = '>' ∧ t[i - 1]? = some '=')

/-- A closing angle has an equals sign before it in the text iff it has one where it is read. -/
theorem getElem?_before (a b : Text) :
    (a ++ '>' :: b)[a.length - 1]? = some '=' ↔ a.getLast? = some '=' := by
  cases a using List.reverseRecOn with
  | nil => simp
  | append_singleton a c => simp

/-- **A bracket closes at a place** iff the scanner closes one there. -/
theorem closesAt_append_cons :
    ClosesAt (a ++ c :: b) a.length d ↔
      (State.start.run a).mark c = some d ∧ (State.start.run a).closes c = true := by
  have hlook : (State.start.run a).mode = .code →
      ((State.start.run a).afterEq = true ↔ a.getLast? = some '=') := by
    intro hm
    have h := follows_run a
    rwa [State.Follows, hm] at h
  have hcloses : (State.start.run a).mark c = some d →
      ((State.start.run a).closes c = true ↔
        isCloser c = true ∧ ¬ (c = '>' ∧ (a ++ c :: b)[a.length - 1]? = some '=')) := by
    intro hm
    have heq := hlook (State.mark_eq_some hm).1
    by_cases hgt : c = '>'
    · subst hgt
      simp [State.closes, getElem?_before, ← heq]
    · simp [State.closes, hgt]
  constructor
  · rintro ⟨x, hs, hx, harrow⟩
    obtain ⟨rfl, hm⟩ := stands_append_cons.mp hs
    exact ⟨hm, (hcloses hm).mpr ⟨hx, harrow⟩⟩
  · rintro ⟨hm, hc⟩
    exact ⟨c, stands_append_cons.mpr ⟨rfl, hm⟩, (hcloses hm).mp hc⟩

/-- A search in the rest `b` of a text gives the first place there where a bracket closes. -/
theorem closeFrom_firstIn (d : Nat) (a b : Text) :
    FirstIn {i | ClosesAt (a ++ b) (i + a.length) d} (closeFrom d (State.start.run a) b) := by
  induction b generalizing a with
  | nil => exact .never fun i ⟨c, hs, _⟩ => not_stands_past hs
  | cons c b ih =>
    rw [closeFrom]
    refine .cons ?_ ?_
    · rw [Set.mem_ofPred_eq, Nat.zero_add, closesAt_append_cons]
    · have hnext := ih (a ++ [c])
      rw [State.run_append, State.run_cons, State.run_nil] at hnext
      simpa [Nat.add_assoc, Nat.add_comm 1] using hnext

/-! ## Groups -/

/-- Only a bracket that opens outside literals is closed. -/
theorem exists_stands_of_close? {start j : Nat} (h : close? t start = some j) :
    ∃ o d, Stands t start o d ∧ isOpener o = true := by
  have hlt : start < t.length := by
    by_contra hge
    rw [close?, List.drop_eq_nil_of_le (Nat.le_of_not_lt hge)] at h
    cases h
  obtain ⟨o, hget⟩ : ∃ o, t[start]? = some o := ⟨_, List.getElem?_eq_getElem hlt⟩
  obtain ⟨a, b, rfl, rfl⟩ := exists_append_of_getElem? hget
  rw [close?_append_cons] at h
  split at h
  · rename_i hopen
    have hmark := State.mark_of_code hopen.2 (isQuote_of_isOpener hopen.1)
    exact ⟨_, _, stands_append_cons.mpr ⟨rfl, hmark⟩, hopen.1⟩
  · cases h

/-- **A group closes at the first place** where a bracket closes from one deeper. -/
theorem Stands.close?_firstIn {start : Nat} {o : Char} (h : Stands t start o d)
    (ho : isOpener o = true) :
    FirstIn {i | start < i ∧ ClosesAt t i (d + 1)} (close? t start) := by
  obtain ⟨a, b, rfl, rfl, hm⟩ := h.exists_append
  obtain ⟨hmode, -, rfl⟩ := State.mark_eq_some hm
  have hpast : ∀ i, a.length < i + (a.length + 1) := by omega
  have hrest := closeFrom_firstIn ((State.start.run a).depth + 1) (a ++ [o]) b
  rw [State.run_append, State.run_cons, State.run_nil] at hrest
  rw [close?_append_cons, if_pos ⟨ho, hmode⟩]
  refine .shift (fun i hi => hi.1) ?_
  simpa [hpast] using hrest

/-- **The text of a group**: what stands between its brackets is nested, one deeper. -/
theorem Stands.exists_group {start j : Nat} {o : Char} (h : Stands t start o d)
    (ho : isOpener o = true) (hj : close? t start = some j) :
    ∃ u inner v, t = u ++ (inner ++ v) ∧ start + 1 = u.length ∧ u.length + inner.length = j ∧
      State.start.run u = State.start.lift (d + 1) ∧ Nested inner := by
  obtain ⟨a, b, rfl, rfl, hm⟩ := h.exists_append
  obtain ⟨hmode, -, hdepth⟩ := State.mark_eq_some hm
  have hstep : (State.start.run a).step o = State.start.lift (d + 1) := by
    rw [State.eq_code_of_mark hm, step_opener ho]
    simp [State.lift, State.start]
  have hin : State.start.run (a ++ [o]) = State.start.lift (d + 1) := by
    rw [State.run_append, State.run_cons, State.run_nil, hstep]
  rw [close?_append_cons, if_pos ⟨ho, hmode⟩, hstep, hdepth, Option.map_eq_some_iff] at hj
  obtain ⟨k, hk, rfl⟩ := hj
  obtain ⟨inner, c, rest, rfl, rfl, hb⟩ := closeFrom_eq_some_iff.mp hk
  refine ⟨a ++ [o], inner, c :: rest, by simp, by simp, ?_, hin, hb.nested⟩
  rw [List.length_append, List.length_singleton, Nat.add_comm]

/-- What stands between two places. -/
theorem drop_take_between {α : Type} (u v w : List α) :
    ((u ++ (v ++ w)).take (u.length + v.length)).drop u.length = v := by
  rw [List.take_length_add_append, List.take_left, List.drop_left]

/-- **The inside of a group is scanned as if it stood alone**, with the depths raised. -/
theorem marks_inside {u inner : Text} (hin : State.start.run u = State.start.lift d)
    (hns : noStrayFrom .start inner = true) (v : Text) :
    ((marks (u ++ (inner ++ v))).take (u.length + inner.length)).drop u.length =
      (marks inner).map (Option.map (· + d)) := by
  have hsplit : marks (u ++ (inner ++ v)) = marksFrom .start u ++
      (marksFrom (State.start.lift d) inner ++ marksFrom ((State.start.lift d).run inner) v) := by
    rw [← hin, ← marksFrom_append, ← marksFrom_append, marks]
  have hbetween := drop_take_between (marksFrom .start u) (marksFrom (State.start.lift d) inner)
    (marksFrom ((State.start.lift d).run inner) v)
  rw [length_marksFrom, length_marksFrom] at hbetween
  rw [hsplit, hbetween, marksFrom_lift hns, marks]

/-- **The bracket that closes a group.** A group that opens at a place outside literals closes at
the first later place where a bracket closes from one deeper, and at no other place is a group
closed. What stands between is scanned as if it stood alone, with the depths raised by the brackets
around it, and ends at the top level. -/
theorem close?_exact (t : Text) (start j : Nat) :
    (close? t start = some j ↔ ∃ o d, Stands t start o d ∧ isOpener o = true ∧
      IsLeast {i | start < i ∧ ClosesAt t i (d + 1)} j) ∧
    (close? t start = some j → ∃ o d, Stands t start o d ∧
      let inner := (t.take j).drop (start + 1)
      ((marks t).take j).drop (start + 1) = (marks inner).map (Option.map (· + (d + 1))) ∧
        EndsAtTop inner) := by
  refine ⟨⟨fun hj => ?_, ?_⟩, fun hj => ?_⟩
  · obtain ⟨o, d, hs, ho⟩ := exists_stands_of_close? hj
    exact ⟨o, d, hs, ho, (hs.close?_firstIn ho).eq_some_iff.mp hj⟩
  · rintro ⟨o, d, hs, ho, hleast⟩
    exact (hs.close?_firstIn ho).eq_some_iff.mpr hleast
  · obtain ⟨o, d, hs, ho⟩ := exists_stands_of_close? hj
    obtain ⟨u, inner, v, rfl, hu, rfl, hin, hb⟩ := hs.exists_group ho hj
    refine ⟨o, d, hs, ?_⟩
    rw [hu, drop_take_between]
    exact ⟨marks_inside hin hb.noStray v, hb.endsAtTop⟩

/-- Neither the brackets that close nothing in front, nor the angle in the literal, nor the arrow
count. -/
theorem close?_exact_of_arrow :
    let t := ")) f<\x7b a: '>' => B<c> \x7d> x".toList
    close? t 4 = some 23 ∧ ∃ o d, Stands t 4 o d ∧
      let inner := (t.take 23).drop 5
      ((marks t).take 23).drop 5 = (marks inner).map (Option.map (· + (d + 1))) ∧
        EndsAtTop inner := by
  intro t
  have hclose : close? t 4 = some 23 := by decide
  exact ⟨hclose, (close?_exact t 4 23).2 hclose⟩

end ExportSchema.Bracket
