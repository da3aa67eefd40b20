import ExportSchema.Proofs.Bracket.TopLevel

/-!
# Segments

The segments of a text are what it is cut into at every top-level occurrence of one delimiter. When
the text ends at the top level so does each segment, and cutting and joining undo each other: texts
that end at the top level, none with a delimiter there, are the segments of what they make with
delimiters between them.

Results:
* `join_split`: the segments of a text, joined again, are the text.
* `endsAtTop_of_mem_split`, `clearFrom_of_mem_split`, `nested_of_mem_split`: what the segments of a
  text are.
* `split_join`: joined segments are cut into the same segments.
* `splitFrom_top`, `clearFrom_top`: at the top level a text is cut as if it started there.
* `pieces_trim`, `clearFrom_trim`, `find?_arrow_trim`, `endsAtTop_trim`: blanks at the ends of a
  text make no difference.
* `exists_of_cutAt?`: a cut is at the first delimiter of the top level.
* `countP_splitFrom`: cutting loses the delimiters and nothing else.
-/

namespace ExportSchema.Bracket

open Text (trim isBlank)

variable {d : Char} {delims : Text}

/-! ## The segments of a text -/

theorem join_two (d : Char) (p q : Text) (ps : List Text) :
    Text.join [d] (p :: q :: ps) = p ++ d :: Text.join [d] (q :: ps) := by
  rw [Text.join, List.append_assoc, List.singleton_append]

theorem join_cons_cons (d c : Char) (p : Text) (ps : List Text) :
    Text.join [d] ((c :: p) :: ps) = c :: Text.join [d] (p :: ps) := by
  cases ps with
  | nil => rfl
  | cons q qs => rfl

theorem join_splitFrom (d : Char) (s : State) (t : Text) :
    Text.join [d] ((splitFrom [d] s none t).1 :: (splitFrom [d] s none t).2) = t := by
  induction t generalizing s with
  | nil => rfl
  | cons c t ih =>
    rw [splitFrom]
    split
    · rename_i hcut
      obtain rfl : c = d := by simpa using hcut.2.1
      show c :: Text.join [c] ((splitFrom [c] (s.step c) none t).1 :: _) = c :: t
      exact congrArg (c :: ·) (ih _)
    · simp only [join_cons_cons, ih]

/-- **The segments of a text, joined again, are the text.** -/
theorem join_split (d : Char) (t : Text) : Text.join [d] (split [d] t none) = t :=
  join_splitFrom d .start t

/-- The scanner starts anew behind a delimiter of the top level. -/
theorem step_of_mark (hd : ∀ c ∈ delims, isPlain c = true ∧ c ≠ '=') {s : State} {c : Char}
    (hmark : s.mark c = some 0) (hc : delims.contains c = true) : s.step c = .start := by
  obtain ⟨hplain, hne⟩ := hd c (List.contains_iff_mem.mp hc)
  rw [State.eq_code_of_mark hmark]
  exact step_separator hplain hne s.afterEq

/-- At the top level nothing can be closed, so an arrow is nothing special there. -/
theorem step_top (c : Char) (e e' : Bool) : (State.code 0 e).step c = (State.code 0 e').step c := by
  by_cases hgt : c = '>'
  · subst hgt
    cases e <;> cases e' <;> rfl
  · exact State.step_afterEq hgt 0 e e'

theorem run_top {s : State} {t : Text} {e e' : Bool} (hs : s = .code 0 e)
    (h : s.run t = .code 0 e') : EndsAtTop t := by
  subst hs
  cases t with
  | nil => exact nested_nil.endsAtTop
  | cons c t =>
    refine endsAtTop_of_run (e := e') ?_
    rw [← h, State.run_cons, State.run_cons]
    exact congrArg (State.run · t) (step_top c false e)

/-- A text may be cut at the top level as if it started there. -/
theorem splitFrom_top (delims : Text) (e : Bool) (limit : Option Nat) (t : Text) :
    splitFrom delims (.code 0 e) limit t = splitFrom delims .start limit t := by
  cases t with
  | nil => rfl
  | cons c t =>
    have hmark : (State.code 0 e).mark c = State.start.mark c := rfl
    simp only [splitFrom, hmark, step_top c e false]
    rfl

theorem clearFrom_top (delims : Text) (e : Bool) (t : Text) :
    clearFrom delims (.code 0 e) t = clearFrom delims .start t := by
  cases t with
  | nil => rfl
  | cons c t =>
    have hmark : (State.code 0 e).mark c = State.start.mark c := rfl
    simp only [clearFrom, hmark, step_top c e false]
    rfl

/-- The scan stays at the top level behind a character that opens no bracket. -/
theorem step_top_of_mark {s : State} {c : Char} (hmark : s.mark c = some 0)
    (ho : isOpener c = false) : ∃ e, s.step c = .code 0 e := by
  have hq := (State.mark_eq_some hmark).2.1
  rw [State.eq_code_of_mark hmark]
  by_cases hc : State.closes (.code 0 s.afterEq) c = true
  · exact ⟨false, step_closes hc⟩
  · exact ⟨c = '=', step_other (by simp [hq]) (by simp [ho]) hc⟩

theorem forall_mem_split (P : Text → Prop) {t : Text} :
    (∀ p ∈ split delims t none, P p) ↔ P (splitFrom delims .start none t).1 ∧
      ∀ p ∈ (splitFrom delims .start none t).2, P p :=
  List.forall_mem_cons

section Segments

variable (hd : ∀ c ∈ delims, isOpener c = false)
include hd

/-- A part goes on in the state in which its text started, the others start at the top level. -/
theorem splitFrom_clear (s : State) (t : Text) :
    clearFrom delims s (splitFrom delims s none t).1 = true ∧
      ∀ p ∈ (splitFrom delims s none t).2, clearFrom delims .start p = true := by
  induction t generalizing s with
  | nil => exact ⟨rfl, List.forall_mem_nil _⟩
  | cons c t ih =>
    obtain ⟨hclear, hrest⟩ := ih (s.step c)
    rw [splitFrom]
    split
    · rename_i hcut
      obtain ⟨e, he⟩ := step_top_of_mark hcut.1 (hd c (List.contains_iff_mem.mp hcut.2.1))
      refine ⟨rfl, List.forall_mem_cons.mpr ⟨?_, hrest⟩⟩
      rwa [he, clearFrom_top, ← he] at hclear
    · rename_i hcut
      exact ⟨clearFrom_cons.mpr ⟨fun hc => hcut ⟨hc.1, hc.2, rfl⟩, hclear⟩, hrest⟩

theorem splitFrom_ends {s : State} {t : Text} {e : Bool} (h : s.run t = .code 0 e) :
    (∃ e', s.run (splitFrom delims s none t).1 = .code 0 e') ∧
      ∀ p ∈ (splitFrom delims s none t).2, EndsAtTop p := by
  induction t generalizing s with
  | nil => exact ⟨⟨e, h⟩, List.forall_mem_nil _⟩
  | cons c t ih =>
    obtain ⟨⟨e', hrun⟩, hrest⟩ := ih h
    rw [splitFrom]
    split
    · rename_i hcut
      obtain ⟨e'', he⟩ := step_top_of_mark hcut.1 (hd c (List.contains_iff_mem.mp hcut.2.1))
      refine ⟨⟨s.afterEq, State.eq_code_of_mark hcut.1⟩, List.forall_mem_cons.mpr ⟨?_, hrest⟩⟩
      exact run_top he hrun
    · exact ⟨⟨e', hrun⟩, hrest⟩

variable {t p : Text} (hp : p ∈ split delims t none)
include hp

/-- **No delimiter stands at the top level of a segment.** -/
theorem clearFrom_of_mem_split : clearFrom delims .start p = true :=
  (forall_mem_split (clearFrom delims .start · = true)).mpr (splitFrom_clear hd .start t) p hp

/-- Every segment of a text that ends at the top level does so. -/
theorem endsAtTop_of_mem_split (h : EndsAtTop t) : EndsAtTop p := by
  obtain ⟨⟨e, hrun⟩, hrest⟩ := splitFrom_ends hd h.run_start
  exact (forall_mem_split EndsAtTop).mpr ⟨endsAtTop_of_run hrun, hrest⟩ p hp

end Segments

/-- A part is part of the text. -/
theorem splitFrom_sublist (delims : Text) (s : State) (t : Text) :
    (splitFrom delims s none t).1.Sublist t ∧
      ∀ p ∈ (splitFrom delims s none t).2, p.Sublist t := by
  induction t generalizing s with
  | nil => exact ⟨List.Sublist.refl _, List.forall_mem_nil _⟩
  | cons c t ih =>
    obtain ⟨hfirst, hrest⟩ := ih (s.step c)
    rw [splitFrom]
    split
    · exact ⟨List.nil_sublist _, List.forall_mem_cons.mpr
        ⟨hfirst.cons c, fun p hp => (hrest p hp).cons c⟩⟩
    · exact ⟨hfirst.cons_cons c, fun p hp => (hrest p hp).cons c⟩

theorem sublist_of_mem_split {t p : Text} (hp : p ∈ split delims t none) : p.Sublist t :=
  (forall_mem_split (·.Sublist t)).mpr (splitFrom_sublist delims .start t) p hp

/-- No bracket of a part closes what the part did not open, if that is so of the text. -/
theorem splitFrom_noStray (hd : ∀ c ∈ delims, isPlain c = true ∧ c ≠ '=') {s : State} {t : Text}
    (h : noStrayFrom s t = true) :
    noStrayFrom s (splitFrom delims s none t).1 = true ∧
      ∀ p ∈ (splitFrom delims s none t).2, noStrayFrom .start p = true := by
  induction t generalizing s with
  | nil => exact ⟨rfl, List.forall_mem_nil _⟩
  | cons c t ih =>
    obtain ⟨hc, ht⟩ := noStrayFrom_cons.mp h
    obtain ⟨hfirst, hrest⟩ := ih ht
    rw [splitFrom]
    split
    · rename_i hcut
      have hstep := step_of_mark hd hcut.1 hcut.2.1
      rw [hstep] at hfirst hrest
      simp only [spend, Option.map_none, hstep]
      exact ⟨rfl, List.forall_mem_cons.mpr ⟨hfirst, hrest⟩⟩
    · exact ⟨noStrayFrom_cons.mpr ⟨hc, hfirst⟩, hrest⟩

/-- **The segments of a nested text are nested.** -/
theorem nested_of_mem_split (hd : ∀ c ∈ delims, isPlain c = true ∧ c ≠ '=') {t p : Text}
    (h : Nested t) (hp : p ∈ split delims t none) : Nested p := by
  have hend := endsAtTop_of_mem_split (fun c hc => isOpener_of_isPlain (hd c hc).1) hp h.endsAtTop
  refine ⟨?_, hend.depth_end, hend.mode_end⟩
  exact (forall_mem_split (noStrayFrom .start · = true)).mpr (splitFrom_noStray hd h.noStray) p hp

/-! ## Joined segments -/

/-- **Joined segments are cut into the same segments.** -/
theorem split_join (hp : isPlain d = true) (hne : d ≠ '=') {ps : List Text} (hps : ps ≠ [])
    (h : ∀ p ∈ ps, EndsAtTop p ∧ clearFrom [d] .start p = true) :
    split [d] (Text.join [d] ps) none = ps := by
  match ps, hps, h with
  | [p], _, h => exact split_of_clear (h p List.mem_cons_self).2 none
  | p :: q :: ps, _, h =>
    have hrest := split_join hp hne (List.cons_ne_nil q ps)
      fun x hx => h x (List.mem_cons_of_mem p hx)
    obtain ⟨hend, hclear⟩ := h p List.mem_cons_self
    rw [join_two, split_append hend hp hne (by simp), split_of_clear hclear, hrest]
    rfl

/-- Two segments or more have a delimiter between them. -/
theorem clearFrom_of_two_segments {t : Text} (h : 2 ≤ (split delims t none).length) :
    clearFrom delims .start t = false := by
  by_contra hclear
  rw [Bool.not_eq_false] at hclear
  rw [split_of_clear hclear] at h
  simp at h

/-! ## Blanks at the ends -/

section Blanks

variable (hd : ∀ c ∈ delims, isBlank c = false)
include hd

theorem contains_of_isBlank {c : Char} (hc : isBlank c = true) : delims.contains c = false := by
  rw [← Bool.not_eq_true, List.contains_iff_mem]
  intro hmem
  rw [hd c hmem] at hc
  cases hc

/-- Blanks at the ends of a text are in no piece. -/
theorem pieces_trim (t : Text) : pieces delims (trim t) = pieces delims t := by
  obtain ⟨a, b, ht, ha, hb⟩ := Text.trim_eq_append t
  calc pieces delims (trim t) = pieces delims (a ++ trim t) :=
        (pieces_append_left ha (fun c hc => contains_of_isBlank hd (ha c hc)) _).symm
    _ = pieces delims (a ++ trim t ++ b) :=
        (pieces_append_right hb (fun c hc => contains_of_isBlank hd (hb c hc)) _).symm
    _ = pieces delims t := by rw [← ht]

/-- Trimming takes no delimiter away. -/
theorem clearFrom_trim (t : Text) :
    clearFrom delims .start (trim t) = clearFrom delims .start t := by
  obtain ⟨a, b, ht, ha, hb⟩ := Text.trim_eq_append t
  have hclear : ∀ {b : Text}, (∀ c ∈ b, isBlank c = true) → ∀ s, clearFrom delims s b = true :=
    fun hb => clearFrom_of_forall fun c hc => contains_of_isBlank hd (hb c hc)
  have happ : clearFrom delims .start (a ++ trim t ++ b) = true ↔
      clearFrom delims .start (trim t) = true := by
    rw [List.append_assoc, clearFrom_append, run_blank ha, clearFrom_append]
    simp only [hclear ha, hclear hb, true_and, and_true]
  rw [Bool.eq_iff_iff, ← happ, ← ht]

end Blanks

/-- Trimming takes no arrow away. -/
theorem find?_arrow_trim {t : Text} : find? arrow (trim t) = none ↔ find? arrow t = none := by
  constructor
  · intro h
    have hwhole := find?_arrow_of_trim (u := []) (List.forall_mem_nil _) h
    rwa [List.append_nil] at hwhole
  · intro h
    obtain ⟨a, b, ht, ha, hb⟩ := Text.trim_eq_append t
    rw [ht, List.append_assoc] at h
    have hrest := (findFrom_of_append h).2
    rw [run_blank ha] at hrest
    exact (findFrom_of_append hrest).1

/-- Blanks lead neither into a literal nor out of one, and open or close no bracket. -/
theorem run_blanks_iff {s : State} (hq : s.OpenedByQuote) {b : Text}
    (hb : ∀ c ∈ b, isBlank c = true) :
    (s.run b).depth = s.depth ∧ ((s.run b).mode = .code ↔ s.mode = .code) := by
  induction b generalizing s with
  | nil => exact ⟨rfl, Iff.rfl⟩
  | cons c b ih =>
    have hplain := isPlain_of_isBlank (hb c List.mem_cons_self)
    have hstep : (s.step c).depth = s.depth ∧ ((s.step c).mode = .code ↔ s.mode = .code) := by
      obtain ⟨d, m, e⟩ := s
      cases m with
      | escaped q => exact ⟨rfl, by simp [State.step]⟩
      | quoted q =>
        have hc : c ≠ q := by
          rintro rfl
          have hquote : isQuote c = true := hq
          rw [isQuote_of_isPlain hplain] at hquote
          cases hquote
        simp only [State.step, if_neg hc]
        split
        · exact ⟨rfl, by simp⟩
        · exact ⟨rfl, Iff.rfl⟩
      | code =>
        have hs : State.step ⟨d, .code, e⟩ c = .code d (c = '=') := step_plain hplain
        rw [hs]
        exact ⟨rfl, Iff.rfl⟩
    obtain ⟨hdepth, hmode⟩ := ih (hq.step c) fun x hx => hb x (List.mem_cons_of_mem c hx)
    exact ⟨hdepth.trans hstep.1, hmode.trans hstep.2⟩

/-- Trimming leaves it as it is whether a text ends at the top level. -/
theorem endsAtTop_trim {t : Text} : EndsAtTop (trim t) ↔ EndsAtTop t := by
  obtain ⟨a, b, ht, ha, hb⟩ := Text.trim_eq_append t
  have hquote : (State.start.run (trim t)).OpenedByQuote :=
    State.OpenedByQuote.run (s := State.start) trivial (trim t)
  obtain ⟨hdepth, hmode⟩ := run_blanks_iff hquote hb
  have hrun : State.start.run t = (State.start.run (trim t)).run b := by
    conv_lhs => rw [ht, State.run_append, State.run_append, run_blank ha]
  rw [← hrun] at hdepth hmode
  constructor
  · exact fun h => ⟨hdepth.trans h.depth_end, hmode.mpr h.mode_end⟩
  · exact fun h => ⟨hdepth.symm.trans h.depth_end, hmode.mp h.mode_end⟩

/-- Trimming leaves a nested text nested. -/
theorem Nested.trim {t : Text} (h : Nested t) : Nested (trim t) := by
  obtain ⟨a, b, ht, ha, -⟩ := Text.trim_eq_append t
  have hend := endsAtTop_trim.mpr h.endsAtTop
  have hstray := h.noStray
  rw [ht, List.append_assoc, noStrayFrom_append, run_blank ha, noStrayFrom_append] at hstray
  exact ⟨hstray.2.1, hend.depth_end, hend.mode_end⟩

/-- Trimming leaves a text without a delimiter at its top level without one. -/
theorem clearFrom_trim_of_clear {t : Text} (h : clearFrom delims .start t = true) :
    clearFrom delims .start (Text.trim t) = true := by
  obtain ⟨a, b, ht, ha, -⟩ := Text.trim_eq_append t
  rw [ht, List.append_assoc, clearFrom_append, run_blank ha, clearFrom_append] at h
  exact h.2.1

/-! ## Cuts -/

/-- **A cut is at the first delimiter of the top level.** -/
theorem exists_of_cutAt? {t a b : Text} (h : cutAt? delims t = some (a, b)) :
    ∃ c, t = a ++ c :: b ∧ clearFrom delims .start a = true ∧
      (State.start.run a).mark c = some 0 := by
  have hnot : clearFrom delims .start t = false := by
    rw [← Bool.not_eq_true]
    intro hclear
    rw [cutAt?_of_clear hclear] at h
    cases h
  obtain ⟨a', c, b', rfl, hclear, hmark, hc⟩ := exists_of_not_clear hnot
  rw [cutAt?_append hclear hmark hc] at h
  cases h
  exact ⟨c, rfl, hclear, hmark⟩

theorem clearFrom_append_delims {more : Text} {s : State} {t : Text} :
    clearFrom (delims ++ more) s t = true ↔
      clearFrom delims s t = true ∧ clearFrom more s t = true := by
  induction t generalizing s with
  | nil => exact ⟨fun _ => ⟨rfl, rfl⟩, fun _ => rfl⟩
  | cons c t ih =>
    rw [clearFrom_cons, clearFrom_cons, clearFrom_cons, ih]
    simp only [List.contains_append, Bool.or_eq_true]
    grind

/-- What stands before a cut in a nested text is nested. -/
theorem Nested.of_cutAt? {t a b : Text} (ht : Nested t) (h : cutAt? delims t = some (a, b)) :
    Nested a := by
  obtain ⟨c, rfl, -, hmark⟩ := exists_of_cutAt? h
  obtain ⟨hmode, -, hdepth⟩ := State.mark_eq_some hmark
  exact ⟨(noStrayFrom_append.mp ht.noStray).1, hdepth, hmode⟩

/-! ## What cutting leaves -/

theorem sublist_of_mem_pieces {t u : Text} (h : u ∈ pieces delims t) : u.Sublist t := by
  obtain ⟨q, hq, rfl⟩ := List.mem_map.mp (List.mem_filter.mp h).1
  exact (Text.sublist_trim q).trans (sublist_of_mem_split hq)

section Count

-- the characters that count may be all, or those that are not blank
variable {p : Char → Bool} {t : Text} (hp : ∀ c ∈ t, delims.contains c = true → p c = true)
include hp

/-- Cutting loses the delimiters and nothing else. -/
theorem countP_splitFrom (s : State) (limit : Option Nat) :
    (splitFrom delims s limit t).1.countP p + (splitFrom delims s limit t).2.flatten.countP p +
      (splitFrom delims s limit t).2.length = t.countP p := by
  induction t generalizing s limit with
  | nil => rfl
  | cons c t ih =>
    obtain ⟨hc, ht⟩ := List.forall_mem_cons.mp hp
    rw [splitFrom]
    split
    · rename_i hcut
      have := ih ht (s.step c) (spend limit)
      simp only [List.countP_nil, List.flatten_cons, List.countP_append, List.length_cons,
        List.countP_cons_of_pos (hc hcut.2.1)]
      omega
    · have := ih ht (s.step c) limit
      simp only [List.countP_cons]
      omega

/-- A text that is cut somewhere has more than each of its pieces. -/
theorem countP_lt_of_mem_pieces (hbar : clearFrom delims .start t = false) {u : Text}
    (h : u ∈ pieces delims t) : u.countP p < t.countP p := by
  obtain ⟨q, hq, rfl⟩ := List.mem_map.mp (List.mem_filter.mp h).1
  refine Nat.lt_of_le_of_lt ((Text.sublist_trim q).countP_le) ?_
  have hsum := countP_splitFrom hp .start none
  have hcut : 0 < (splitFrom delims .start none t).2.length := by
    obtain ⟨a, c, b, rfl, ha, hm, hc⟩ := exists_of_not_clear hbar
    rw [splitFrom_append_of_clear ha, splitFrom_delim hm hc rfl]
    simp
  rw [split_eq] at hq
  rcases List.mem_cons.mp hq with rfl | hq
  · omega
  · have hle : q.countP p ≤ (splitFrom delims .start none t).2.flatten.countP p :=
      (List.sublist_flatten_of_mem hq).countP_le
    omega

/-- A cut gives back all but the delimiter. -/
theorem countP_cutAt? {a b : Text} (h : cutAt? delims t = some (a, b)) :
    a.countP p + b.countP p + 1 ≤ t.countP p := by
  unfold cutAt? at h
  have hsum := countP_splitFrom hp .start (some 1)
  generalize splitFrom delims .start (some 1) t = r at h hsum
  obtain ⟨q, qs⟩ := r
  cases qs with
  | nil => cases h
  | cons q qs =>
    cases h
    simp only [List.flatten_cons, List.countP_append, List.length_cons] at hsum
    omega

end Count

theorem length_lt_of_mem_pieces {t u : Text} (hbar : clearFrom delims .start t = false)
    (h : u ∈ pieces delims t) : u.length < t.length := by
  simpa only [List.countP_true] using
    countP_lt_of_mem_pieces (p := fun _ => true) (fun _ _ _ => rfl) hbar h

theorem length_cutAt? {t a b : Text} (h : cutAt? delims t = some (a, b)) :
    a.length + b.length + 1 ≤ t.length := by
  simpa only [List.countP_true] using countP_cutAt? (p := fun _ => true) (fun _ _ _ => rfl) h

theorem length_enclosed? {o : Char} (ho : isOpener o = true) {t inner : Text}
    (h : enclosed? o t = some inner) : inner.length + 2 = t.length := by
  obtain ⟨c, rfl, -⟩ := (enclosed?_eq_some_iff ho).mp h
  simp

end ExportSchema.Bracket
