import ExportSchema.Proofs.Bracket.Nesting
import ExportSchema.Proofs.Text.Trim

/-!
# What stands at the top level

Cutting and searching only see the characters at depth zero outside literals.

* `clearFrom`: no delimiter stands at the top level, from a state on.
* `pieces`: the trimmed parts of a text that are not empty.
* `Listed`: texts one after the other, with delimiters between them in any style.

Results:
* `hasTopLevel_eq`: a delimiter stands at the top level iff the text is not clear of it.
* `clearFrom_group`: the inside of a group is never at the top level.
* `cutAt?_append`: a text is cut at the first delimiter behind a clear text.
* `split_append`, `pieces_append`: at a delimiter behind text that ends at the top level, the parts
  of the whole are the parts of the two sides.
* `pieces_join`: the pieces of nested texts put together with a separator are the pieces of each.
* `pieces_listed`: so are the pieces of listed texts.
* `find?_arrow_append`: an arrow is found behind a text that is clear of equals signs.
* `clearFrom_of_trim`, `find?_arrow_of_trim`: blanks at the ends hide nothing.
* `clearFrom_of_class`, `settled_of_class`: texts of characters that are no brackets or quotes.
-/

namespace ExportSchema.Bracket

open Text (trim isBlank)

/-! ## Clear texts -/

/-- Does no delimiter stand at the top level, from the state `s` on? -/
def clearFrom (delims : Text) (s : State) : Text → Bool
  | [] => true
  | c :: cs => !(s.mark c = some 0 && delims.contains c) && clearFrom delims (s.step c) cs

variable {delims : Text}

theorem clearFrom_cons {s : State} {c : Char} {t : Text} :
    clearFrom delims s (c :: t) = true ↔
      ¬ (s.mark c = some 0 ∧ delims.contains c = true) ∧ clearFrom delims (s.step c) t = true := by
  simp only [clearFrom, Bool.and_eq_true, Bool.not_eq_true', Bool.and_eq_false_iff,
    decide_eq_false_iff_not, not_and, Bool.not_eq_true, or_iff_not_imp_left, not_not]

theorem clearFrom_append {s : State} {t u : Text} :
    clearFrom delims s (t ++ u) = true ↔
      clearFrom delims s t = true ∧ clearFrom delims (s.run t) u = true := by
  induction t generalizing s with
  | nil => simp [clearFrom]
  | cons c t ih =>
    rw [List.cons_append, clearFrom_cons, clearFrom_cons, ih, State.run_cons, and_assoc]

/-- A text without any delimiter is clear. -/
theorem clearFrom_of_forall {t : Text} (h : ∀ c ∈ t, delims.contains c = false) (s : State) :
    clearFrom delims s t = true := by
  induction t generalizing s with
  | nil => rfl
  | cons c t ih =>
    refine clearFrom_cons.mpr ⟨fun hc => ?_, ih (fun x hx => h x (List.mem_cons_of_mem c hx)) _⟩
    rw [h c List.mem_cons_self] at hc
    cases hc.2

/-- A text that is clear of some characters is clear of fewer. -/
theorem clearFrom_mono {more : Text} (hd : ∀ c ∈ delims, c ∈ more) {s : State} {t : Text}
    (h : clearFrom more s t = true) : clearFrom delims s t = true := by
  induction t generalizing s with
  | nil => rfl
  | cons c t ih =>
    obtain ⟨hc, ht⟩ := clearFrom_cons.mp h
    refine clearFrom_cons.mpr ⟨fun hm => hc ⟨hm.1, ?_⟩, ih ht⟩
    exact List.contains_iff_mem.mpr (hd c (List.contains_iff_mem.mp hm.2))

/-- Below the top level every text without stray brackets is clear. -/
theorem clearFrom_lift {s : State} {t : Text} (h : noStrayFrom s t = true) (k : Nat) :
    clearFrom delims (s.lift (k + 1)) t = true := by
  induction t generalizing s with
  | nil => rfl
  | cons c t ih =>
    obtain ⟨hc, ht⟩ := noStrayFrom_cons.mp h
    refine clearFrom_cons.mpr ⟨fun hm => ?_, by rw [State.step_lift hc]; exact ih ht⟩
    have hd := (State.mark_eq_some hm.1).2.2
    rw [State.lift_depth] at hd
    omega

/-- **The inside of a group is never at the top level.** -/
theorem clearFrom_group {o : Char} (ho : isOpener o = true) {inner : Text} {c : Char}
    (h : ClosesBehind .start inner c) (hd : delims.contains o = false) (e : Bool) :
    clearFrom delims (.code 0 e) (o :: (inner ++ [c])) = true := by
  refine clearFrom_cons.mpr ⟨fun hm => absurd (hd.symm.trans hm.2) Bool.false_ne_true, ?_⟩
  have hs : State.code (0 + 1) false = State.start.lift 1 := rfl
  rw [step_opener ho, hs]
  refine clearFrom_append.mpr ⟨clearFrom_lift h.noStray 0, clearFrom_cons.mpr ⟨fun hm => ?_, rfl⟩⟩
  rw [run_lift h.noStray] at hm
  have hz := (State.mark_eq_some hm.1).2.2
  rw [State.lift_depth] at hz
  omega

theorem Settled.clear_append {t u : Text} (ht : Settled t)
    (hc : clearFrom delims .start t = true) (hu : clearFrom delims .start u = true) :
    clearFrom delims .start (t ++ u) = true :=
  clearFrom_append.mpr ⟨hc, by rw [ht.run]; exact hu⟩

/-! ## Cutting -/

theorem split_eq (t : Text) (limit : Option Nat) :
    split delims t limit =
      (splitFrom delims .start limit t).1 :: (splitFrom delims .start limit t).2 := rfl

/-- A clear text goes to the first part whole. -/
theorem splitFrom_append_of_clear {s : State} {t : Text} (h : clearFrom delims s t = true)
    (limit : Option Nat) (u : Text) :
    splitFrom delims s limit (t ++ u) =
      (t ++ (splitFrom delims (s.run t) limit u).1, (splitFrom delims (s.run t) limit u).2) := by
  induction t generalizing s with
  | nil => rfl
  | cons c t ih =>
    obtain ⟨hc, ht⟩ := clearFrom_cons.mp h
    have hn : ¬ (s.mark c = some 0 ∧ delims.contains c = true ∧ mayCut limit = true) :=
      fun hx => hc ⟨hx.1, hx.2.1⟩
    rw [List.cons_append, splitFrom, if_neg hn, ih ht]
    rfl

theorem splitFrom_of_clear {s : State} {t : Text} (h : clearFrom delims s t = true)
    (limit : Option Nat) : splitFrom delims s limit t = (t, []) := by
  have := splitFrom_append_of_clear h limit []
  rw [List.append_nil] at this
  rw [this, splitFrom, List.append_nil]

/-- After the last cut that may be made, the rest stays whole. -/
theorem splitFrom_spent (s : State) (t : Text) : splitFrom delims s (some 0) t = (t, []) := by
  induction t generalizing s with
  | nil => rfl
  | cons c t ih =>
    have hn : ¬ (s.mark c = some 0 ∧ delims.contains c = true ∧ mayCut (some 0) = true) :=
      fun hx => by cases hx.2.2
    rw [splitFrom, if_neg hn, ih]

theorem splitFrom_delim {s : State} {c : Char} (hm : s.mark c = some 0)
    (hc : delims.contains c = true) {limit : Option Nat} (hl : mayCut limit = true) (t : Text) :
    splitFrom delims s limit (c :: t) =
      ([], (splitFrom delims (s.step c) (spend limit) t).1 ::
        (splitFrom delims (s.step c) (spend limit) t).2) := by
  rw [splitFrom, if_pos ⟨hm, hc, hl⟩]

/-- Delimiters that do not stand at the top level make no difference. -/
theorem splitFrom_append_delims {s : State} {t : Text} (h : clearFrom delims s t = true)
    (more : Text) (limit : Option Nat) :
    splitFrom (delims ++ more) s limit t = splitFrom more s limit t := by
  induction t generalizing s limit with
  | nil => rfl
  | cons c t ih =>
    obtain ⟨hc, ht⟩ := clearFrom_cons.mp h
    have hcond : (s.mark c = some 0 ∧ (delims ++ more).contains c = true ∧ mayCut limit = true) ↔
        (s.mark c = some 0 ∧ more.contains c = true ∧ mayCut limit = true) := by
      refine and_congr_right fun hm => and_congr_left fun _ => ?_
      rw [List.contains_iff_mem, List.contains_iff_mem, List.mem_append]
      refine or_iff_right fun hd => hc ⟨hm, ?_⟩
      exact List.contains_iff_mem.mpr hd
    simp only [splitFrom, hcond, ih ht]

/-- **A text is cut at the first delimiter** behind a clear text that ends at the top level. -/
theorem cutAt?_append {a b : Text} {c : Char} (ha : clearFrom delims .start a = true)
    (hm : (State.start.run a).mark c = some 0) (hc : delims.contains c = true) :
    cutAt? delims (a ++ c :: b) = some (a, b) := by
  unfold cutAt?
  rw [splitFrom_append_of_clear ha, splitFrom_delim hm hc rfl]
  simp only [spend, Option.map_some, Nat.sub_self, splitFrom_spent, List.append_nil]

theorem cutAt?_of_clear {t : Text} (h : clearFrom delims .start t = true) :
    cutAt? delims t = none := by
  unfold cutAt?
  rw [splitFrom_of_clear h]

theorem split_of_clear {t : Text} (h : clearFrom delims .start t = true) (limit : Option Nat) :
    split delims t limit = [t] := by
  unfold split
  rw [splitFrom_of_clear h]

/-- The text up to the first delimiter at the top level, when there is one. -/
theorem exists_of_not_clear {s : State} {t : Text} (h : clearFrom delims s t = false) :
    ∃ a c b, t = a ++ c :: b ∧ clearFrom delims s a = true ∧ (s.run a).mark c = some 0 ∧
      delims.contains c = true := by
  induction t generalizing s with
  | nil => cases h
  | cons c t ih =>
    by_cases hc : s.mark c = some 0 ∧ delims.contains c = true
    · exact ⟨[], c, t, rfl, rfl, hc.1, hc.2⟩
    · have ht : clearFrom delims (s.step c) t = false := by
        rw [← Bool.not_eq_true] at h ⊢
        exact fun ht => h (clearFrom_cons.mpr ⟨hc, ht⟩)
      obtain ⟨a, d, b, rfl, ha, hm, hd⟩ := ih ht
      exact ⟨c :: a, d, b, rfl, clearFrom_cons.mpr ⟨hc, ha⟩, hm, hd⟩

/-- **A delimiter stands at the top level** iff the text is not clear of it. -/
theorem hasTopLevel_eq (t : Text) : hasTopLevel delims t = !clearFrom delims .start t := by
  unfold hasTopLevel
  cases h : clearFrom delims .start t with
  | true => rw [split_of_clear h]; rfl
  | false =>
    obtain ⟨a, c, b, rfl, ha, hm, hc⟩ := exists_of_not_clear h
    unfold split
    rw [splitFrom_append_of_clear ha, splitFrom_delim hm hc rfl]
    simp

/-! ## Cutting everywhere -/

/-- A plain character other than the equals sign leads back to the start of a scan. -/
theorem step_separator {c : Char} (hp : isPlain c = true) (hne : c ≠ '=') (e : Bool) :
    (State.code 0 e).step c = .start := by
  rw [step_plain hp, decide_eq_false hne]
  rfl

theorem isQuote_of_isPlain {c : Char} (h : isPlain c = true) : isQuote c = false := by
  simp only [isPlain, Bool.and_eq_true, Bool.not_eq_true'] at h
  exact h.1.1

theorem isOpener_of_isPlain {c : Char} (h : isPlain c = true) : isOpener c = false := by
  simp only [isPlain, Bool.and_eq_true, Bool.not_eq_true'] at h
  exact h.1.2

/-- At a delimiter behind a text that ends at the top level, the parts of the whole are those of
the two sides. -/
theorem splitFrom_append {s : State} {a : Text} {e : Bool} (ha : s.run a = .code 0 e) {c : Char}
    (hp : isPlain c = true) (hne : c ≠ '=') (hc : delims.contains c = true) (b : Text) :
    splitFrom delims s none (a ++ c :: b) =
      ((splitFrom delims s none a).1,
        (splitFrom delims s none a).2 ++ split delims b none) := by
  induction a generalizing s with
  | nil =>
    have hs : s = .code 0 e := ha
    subst hs
    rw [List.nil_append, splitFrom_delim (mark_code (isQuote_of_isPlain hp) 0 e) hc rfl,
      step_separator hp hne]
    rfl
  | cons x a ih =>
    have ih := ih ha
    rw [List.cons_append, splitFrom, splitFrom]
    split
    · simp only [spend, Option.map_none, ih, List.cons_append]
    · simp only [ih]

/-- **Splitting at a delimiter behind text that ends at the top level** splits the two sides. -/
theorem split_append {a : Text} (ha : EndsAtTop a) {c : Char} (hp : isPlain c = true)
    (hne : c ≠ '=') (hc : delims.contains c = true) (b : Text) :
    split delims (a ++ c :: b) none = split delims a none ++ split delims b none := by
  unfold split
  rw [splitFrom_append ha.run_start hp hne hc]
  rfl

/-- A plain character that is no delimiter goes to the first part. -/
theorem split_cons {c : Char} (hp : isPlain c = true) (hne : c ≠ '=')
    (hc : delims.contains c = false) (t : Text) :
    split delims (c :: t) none =
      (c :: (splitFrom delims .start none t).1) :: (splitFrom delims .start none t).2 := by
  have hn : ¬ (State.start.mark c = some 0 ∧ delims.contains c = true ∧ mayCut none = true) :=
    fun hx => by rw [hc] at hx; cases hx.2.1
  have hs : State.start.step c = .start := step_separator hp hne false
  unfold split
  rw [splitFrom, if_neg hn, hs]

/-- A character that is no delimiter goes to the last part. -/
theorem splitFrom_concat {c : Char} (hc : delims.contains c = false) (s : State) (t : Text) :
    (splitFrom delims s none (t ++ [c]) =
        ((splitFrom delims s none t).1 ++ [c], []) ∧ (splitFrom delims s none t).2 = []) ∨
      ∃ ps p, (splitFrom delims s none t).2 = ps ++ [p] ∧
        splitFrom delims s none (t ++ [c]) = ((splitFrom delims s none t).1, ps ++ [p ++ [c]]) := by
  induction t generalizing s with
  | nil =>
    have hn : ¬ (s.mark c = some 0 ∧ delims.contains c = true ∧ mayCut none = true) :=
      fun hx => by rw [hc] at hx; cases hx.2.1
    refine Or.inl ⟨?_, rfl⟩
    show splitFrom delims s none [c] = ([c], [])
    simp only [splitFrom, if_neg hn]
  | cons x t ih =>
    rw [List.cons_append, splitFrom, splitFrom]
    split
    · refine Or.inr ?_
      simp only [spend, Option.map_none]
      obtain ⟨h, hnil⟩ | ⟨ps, p, hps, h⟩ := ih (s.step x)
      · exact ⟨[], (splitFrom delims (s.step x) none t).1, by rw [hnil]; rfl, by rw [h]; rfl⟩
      · exact ⟨(splitFrom delims (s.step x) none t).1 :: ps, p, by rw [hps]; rfl, by rw [h]; rfl⟩
    · obtain ⟨h, hnil⟩ | ⟨ps, p, hps, h⟩ := ih (s.step x)
      · exact Or.inl ⟨by rw [h]; rfl, hnil⟩
      · exact Or.inr ⟨ps, p, hps, by rw [h]⟩

/-! ## Pieces -/

/-- The trimmed parts of a text, without the empty ones. -/
def pieces (delims t : Text) : List Text :=
  ((split delims t none).map trim).filter (!·.isEmpty)

theorem isPlain_of_isBlank {c : Char} (h : isBlank c = true) : isPlain c = true :=
  isPlain_of_class (by decide) h

theorem ne_eq_of_isBlank {c : Char} (h : isBlank c = true) : c ≠ '=' := by
  rintro rfl
  exact absurd h (by decide)

@[simp] theorem pieces_nil : pieces delims [] = [] := rfl

theorem pieces_eq_trim {t : Text} (h : clearFrom delims .start t = true) (hne : trim t ≠ []) :
    pieces delims t = [trim t] := by
  unfold pieces
  rw [split_of_clear h, List.map_singleton, List.filter_cons_of_pos (by simpa using hne)]
  rfl

theorem pieces_of_clear {t : Text} (h : clearFrom delims .start t = true) (ht : trim t = t)
    (hne : t ≠ []) : pieces delims t = [t] := by
  rw [pieces_eq_trim h (by rw [ht]; exact hne), ht]

theorem pieces_append_delims {t : Text} (h : clearFrom delims .start t = true) (more : Text) :
    pieces (delims ++ more) t = pieces more t := by
  unfold pieces split
  rw [splitFrom_append_delims h]

/-- The first piece of a text that starts with no blank and no delimiter. -/
theorem pieces_of_head {t : Text} {c : Char} (hc : t.head? = some c) (hb : isBlank c = false)
    (hd : delims.contains c = false) :
    pieces delims t = trim (splitFrom delims .start none t).1 ::
        ((splitFrom delims .start none t).2.map trim).filter (!·.isEmpty) ∧
      (splitFrom delims .start none t).1.head? = some c := by
  cases t with
  | nil => cases hc
  | cons x t =>
    cases hc
    have hn : ¬ (State.start.mark c = some 0 ∧ delims.contains c = true ∧ mayCut none = true) :=
      fun h => by rw [hd] at h; cases h.2.1
    have hhead : (splitFrom delims .start none (c :: t)).1.head? = some c := by
      rw [splitFrom, if_neg hn]
      rfl
    refine ⟨?_, hhead⟩
    have hne := Text.trim_ne_nil_of_head hhead hb
    unfold pieces
    rw [split_eq, List.map_cons, List.filter_cons_of_pos (by simpa using hne)]

/-- **Settled text in front** goes to the first piece. -/
theorem pieces_append_settled {a t : Text} {c : Char} (ha : Settled a)
    (hclear : clearFrom delims .start a = true) (hhead : ∀ x, a.head? = some x → isBlank x = false)
    (hc : t.head? = some c) (hb : isBlank c = false) (hd : delims.contains c = false) :
    ∃ first rest, pieces delims t = first :: rest ∧ trim first = first ∧
      pieces delims (a ++ t) = (a ++ first) :: rest := by
  obtain ⟨ht, hfirst⟩ := pieces_of_head hc hb hd
  have hsplit := splitFrom_append_of_clear hclear none t
  rw [ha.run] at hsplit
  have htrim := Text.trim_append hhead hfirst hb
  refine ⟨_, _, ht, Text.trim_trim _, ?_⟩
  unfold pieces
  rw [split_eq, hsplit, List.map_cons, htrim, List.filter_cons_of_pos]
  simp [Text.trim_ne_nil_of_head hfirst hb]

/-- **Pieces on both sides of a delimiter** behind nested text. -/
theorem pieces_append {a : Text} (ha : Nested a) {c : Char} (hp : isPlain c = true) (hne : c ≠ '=')
    (hc : delims.contains c = true) (b : Text) :
    pieces delims (a ++ c :: b) = pieces delims a ++ pieces delims b := by
  unfold pieces
  rw [split_append ha.endsAtTop hp hne hc, List.map_append, List.filter_append]

/-- Blanks in front do not count. -/
theorem pieces_cons_blank {c : Char} (hb : isBlank c = true) (hc : delims.contains c = false)
    (t : Text) : pieces delims (c :: t) = pieces delims t := by
  unfold pieces
  rw [split_cons (isPlain_of_isBlank hb) (ne_eq_of_isBlank hb) hc, List.map_cons,
    Text.trim_cons hb]
  rfl

/-- Blanks behind do not count. -/
theorem pieces_concat_blank {c : Char} (hb : isBlank c = true) (hc : delims.contains c = false)
    (t : Text) : pieces delims (t ++ [c]) = pieces delims t := by
  have hmap : (split delims (t ++ [c]) none).map trim = (split delims t none).map trim := by
    rw [split_eq, split_eq]
    obtain ⟨h, hnil⟩ | ⟨ps, p, hps, h⟩ := splitFrom_concat hc .start t
    · rw [h, hnil, List.map_cons, List.map_cons, Text.trim_concat hb]
    · rw [h, hps, List.map_cons, List.map_cons, List.map_append, List.map_append, List.map_cons,
        List.map_cons, Text.trim_concat hb]
  unfold pieces
  rw [hmap]

theorem pieces_append_left {b : Text} (hb : ∀ c ∈ b, isBlank c = true)
    (hd : ∀ c ∈ b, delims.contains c = false) (t : Text) :
    pieces delims (b ++ t) = pieces delims t := by
  induction b with
  | nil => rfl
  | cons c b ih =>
    rw [List.cons_append, pieces_cons_blank (hb c List.mem_cons_self) (hd c List.mem_cons_self)]
    exact ih (fun x hx => hb x (List.mem_cons_of_mem c hx))
      (fun x hx => hd x (List.mem_cons_of_mem c hx))

theorem pieces_append_right {b : Text} (hb : ∀ c ∈ b, isBlank c = true)
    (hd : ∀ c ∈ b, delims.contains c = false) (t : Text) :
    pieces delims (t ++ b) = pieces delims t := by
  induction b using List.reverseRecOn with
  | nil => rw [List.append_nil]
  | append_singleton b c ih =>
    rw [← List.append_assoc, pieces_concat_blank (hb c (by simp)) (hd c (by simp))]
    exact ih (fun x hx => hb x (by simp [hx])) (fun x hx => hd x (by simp [hx]))

/-- A delimiter with blanks around it. -/
structure Separator (delims sep : Text) : Prop where
  parts : ∃ a c b, sep = a ++ c :: b ∧ isPlain c = true ∧ c ≠ '=' ∧ delims.contains c = true ∧
    (∀ x ∈ a, isBlank x = true ∧ delims.contains x = false) ∧
    (∀ x ∈ b, isBlank x = true ∧ delims.contains x = false)

/-- **The pieces of joined texts** are the pieces of each, one after the other. -/
theorem pieces_join {sep : Text} (hsep : Separator delims sep) :
    ∀ {ps : List Text}, (∀ p ∈ ps, Nested p) →
      pieces delims (Text.join sep ps) = ps.flatMap (pieces delims)
  | [], _ => rfl
  | [p], _ => by simp [Text.join]
  | p :: q :: ps, h => by
    obtain ⟨a, c, b, hs, hp, hne, hc, ha, hb⟩ := hsep.parts
    have hpa : Nested (p ++ a) := (h p List.mem_cons_self).append
      (nested_plain fun x hx => isPlain_of_isBlank (ha x hx).1)
    have hjoin : Text.join sep (p :: q :: ps) =
        (p ++ a) ++ c :: (b ++ Text.join sep (q :: ps)) := by
      simp only [Text.join, hs, List.append_assoc, List.cons_append]
    rw [hjoin, pieces_append hpa hp hne hc,
      pieces_append_right (fun x hx => (ha x hx).1) (fun x hx => (ha x hx).2),
      pieces_append_left (fun x hx => (hb x hx).1) (fun x hx => (hb x hx).2),
      pieces_join hsep fun x hx => h x (List.mem_cons_of_mem p hx)]
    rfl

/-- Texts that are clear, trimmed and not empty come back as they were. -/
theorem pieces_join_of_clear {sep : Text} (hsep : Separator delims sep) {ps : List Text}
    (h : ∀ p ∈ ps, Nested p ∧ clearFrom delims .start p = true ∧ trim p = p ∧ p ≠ []) :
    pieces delims (Text.join sep ps) = ps := by
  rw [pieces_join hsep fun p hp => (h p hp).1]
  have hone : ∀ p ∈ ps, pieces delims p = [p] := fun p hp =>
    pieces_of_clear (h p hp).2.1 (h p hp).2.2.1 (h p hp).2.2.2
  clear h
  induction ps with
  | nil => rfl
  | cons p ps ih =>
    rw [List.flatMap_cons, hone p List.mem_cons_self,
      ih fun q hq => hone q (List.mem_cons_of_mem p hq)]
    rfl

/-- The texts `ts` stand in `u` one after the other: blanks and delimiters may stand around them, and
at least one delimiter stands between two of them. -/
inductive Listed (delims : Text) : List Text → Text → Prop where
  | nil : Listed delims [] []
  | filler (c : Char) {ts : List Text} {u : Text} :
    isBlank c = true ∨ delims.contains c = true → Listed delims ts u → Listed delims ts (c :: u)
  | last (t gap : Text) :
    (∀ x ∈ gap, isBlank x = true ∧ delims.contains x = false) → Listed delims [t] (t ++ gap)
  | cons (t gap : Text) (c : Char) {ts : List Text} {u : Text} :
    (∀ x ∈ gap, isBlank x = true ∧ delims.contains x = false) → delims.contains c = true →
      Listed delims ts u → Listed delims (t :: ts) (t ++ gap ++ c :: u)

section Listed

variable {ts : List Text} {u : Text} (hd : ∀ c ∈ delims, isPlain c = true ∧ c ≠ '=')
  (h : Listed delims ts u) (hts : ∀ t ∈ ts, Nested t)
include hd h hts

/-- **The pieces of listed texts** are the pieces of each, whatever stands between them. -/
theorem pieces_listed : pieces delims u = ts.flatMap (pieces delims) := by
  have hdelim : ∀ c, delims.contains c = true → isPlain c = true ∧ c ≠ '=' := fun c hc =>
    hd c (List.contains_iff_mem.mp hc)
  induction h with
  | nil => rfl
  | filler c hc _ ih =>
    by_cases hin : delims.contains c = true
    · obtain ⟨hp, hne⟩ := hdelim c hin
      rw [← ih hts]
      exact pieces_append nested_nil hp hne hin _
    · rw [pieces_cons_blank (hc.resolve_right hin) (by simpa using hin), ih hts]
  | last t gap hgap =>
    rw [pieces_append_right (fun x hx => (hgap x hx).1) fun x hx => (hgap x hx).2]
    simp
  | cons t gap c hgap hc _ ih =>
    obtain ⟨ht, hrest⟩ := List.forall_mem_cons.mp hts
    obtain ⟨hp, hne⟩ := hdelim c hc
    have hfront : Nested (t ++ gap) :=
      ht.append (nested_plain fun x hx => isPlain_of_isBlank (hgap x hx).1)
    rw [pieces_append hfront hp hne hc, ih hrest,
      pieces_append_right (fun x hx => (hgap x hx).1) fun x hx => (hgap x hx).2, List.flatMap_cons]

theorem nested_listed : Nested u := by
  have hone : ∀ c, isPlain c = true → Nested [c] := fun c hc => nested_plain (by simpa using hc)
  induction h with
  | nil => exact nested_nil
  | filler c hc _ ih =>
    have hplain : isPlain c = true :=
      hc.elim isPlain_of_isBlank fun hin => (hd c (List.contains_iff_mem.mp hin)).1
    exact (hone c hplain).append (ih hts)
  | last t gap hgap =>
    exact (hts t List.mem_cons_self).append
      (nested_plain fun x hx => isPlain_of_isBlank (hgap x hx).1)
  | cons t gap c hgap hc _ ih =>
    obtain ⟨ht, hrest⟩ := List.forall_mem_cons.mp hts
    have hfront : Nested (t ++ gap) :=
      ht.append (nested_plain fun x hx => isPlain_of_isBlank (hgap x hx).1)
    have hplain : isPlain c = true := (hd c (List.contains_iff_mem.mp hc)).1
    exact hfront.append ((hone c hplain).append (ih hrest))

end Listed

theorem join_bar_cons (t u : Text) (ts : List Text) :
    Text.join " | ".toList (t :: u :: ts) =
      t ++ ' ' :: '|' :: ' ' :: Text.join " | ".toList (u :: ts) := by
  show t ++ [' ', '|', ' '] ++ _ = _
  simp

/-- Between two nested texts a bar stands at the top level. -/
theorem clearFrom_bar_join {ts : List Text} (htwo : 2 ≤ ts.length) (h : ∀ t ∈ ts, Nested t) :
    clearFrom ['|'] .start (Text.join " | ".toList ts) = false := by
  match ts, htwo, h with
  | t :: u :: ts, _, h =>
    have hrun := (h t List.mem_cons_self).run_start
    rw [join_bar_cons, ← Bool.not_eq_true, clearFrom_append, hrun, clearFrom_cons, clearFrom_cons]
    exact fun hc => hc.2.2.1 ⟨rfl, rfl⟩

/-! ## Searching -/

/-- Behind a text that is clear of its first character, a token is found where it stands in the
rest. -/
theorem findFrom_append_of_clear {x : Char} {s : State} {t : Text}
    (h : clearFrom [x] s t = true) (token u : Text) :
    findFrom (x :: token) s (t ++ u) =
      (findFrom (x :: token) (s.run t) u).map (· + t.length) := by
  induction t generalizing s with
  | nil =>
    rw [List.nil_append, State.run_nil]
    cases findFrom (x :: token) s u <;> rfl
  | cons c t ih =>
    obtain ⟨hc, ht⟩ := clearFrom_cons.mp h
    have hn : ¬ (s.mark c = some 0 ∧ Text.startsWith (x :: token) (c :: (t ++ u)) = true) := by
      rintro ⟨hm, hs⟩
      simp only [Text.startsWith, List.isPrefixOf, Bool.and_eq_true, beq_iff_eq] at hs
      exact hc ⟨hm, by simp [hs.1]⟩
    rw [List.cons_append, findFrom, if_neg hn, ih ht, Option.map_map, State.run_cons]
    congr 1

theorem findFrom_of_clear {x : Char} {s : State} {t : Text} (h : clearFrom [x] s t = true)
    (token : Text) : findFrom (x :: token) s t = none := by
  have := findFrom_append_of_clear h token []
  rw [List.append_nil] at this
  rw [this]
  rfl

/-- The two characters of an arrow. -/
abbrev arrow : Text := ['=', '>']

theorem startsWith_arrow_cons {c : Char} {t : Text} :
    Text.startsWith arrow (c :: t) = true ↔ c = '=' ∧ t.head? = some '>' := by
  cases t with
  | nil => simp [Text.startsWith, List.isPrefixOf]
  | cons d t =>
    simp only [Text.startsWith, List.isPrefixOf, Bool.and_eq_true, beq_iff_eq, Bool.and_true,
      List.head?_cons, Option.some.injEq]
    exact and_congr eq_comm eq_comm

/-- Two texts without an arrow have none together, unless one is made where they meet. -/
theorem findFrom_arrow_append {s : State} {t u : Text} (ht : findFrom arrow s t = none)
    (hu : findFrom arrow (s.run t) u = none) (hj : u.head? ≠ some '>') :
    findFrom arrow s (t ++ u) = none := by
  induction t generalizing s with
  | nil => exact hu
  | cons c t ih =>
    rw [findFrom] at ht
    split at ht
    · cases ht
    · rename_i hc
      have hn : ¬ (s.mark c = some 0 ∧ Text.startsWith arrow (c :: (t ++ u)) = true) := by
        rintro ⟨hm, hs⟩
        obtain ⟨rfl, hh⟩ := startsWith_arrow_cons.mp hs
        cases t with
        | nil => exact hj hh
        | cons d t => exact hc ⟨hm, startsWith_arrow_cons.mpr ⟨rfl, hh⟩⟩
      have htail := Option.map_eq_none_iff.mp ht
      rw [List.cons_append, findFrom, if_neg hn, ih htail hu]
      rfl

/-- A text in which a token is not found has none in its start and none in its rest. -/
theorem findFrom_of_append {token : Text} {s : State} {t u : Text}
    (h : findFrom token s (t ++ u) = none) :
    findFrom token s t = none ∧ findFrom token (s.run t) u = none := by
  induction t generalizing s with
  | nil => exact ⟨rfl, h⟩
  | cons c t ih =>
    rw [List.cons_append, findFrom] at h
    split at h
    · cases h
    · rename_i hc
      obtain ⟨ht, hu⟩ := ih (Option.map_eq_none_iff.mp h)
      have hn : ¬ (s.mark c = some 0 ∧ Text.startsWith token (c :: t) = true) := by
        rintro ⟨hm, hs⟩
        refine hc ⟨hm, List.isPrefixOf_iff_prefix.mpr ?_⟩
        exact (List.isPrefixOf_iff_prefix.mp hs).trans (List.prefix_append (c :: t) u)
      rw [findFrom, if_neg hn, ht]
      exact ⟨rfl, hu⟩

/-- A separator without brackets, quotes and equals signs leads back to the start of a scan. -/
theorem run_separator {sep : Text} (hne : sep ≠ []) (hsep : ∀ c ∈ sep, isPlain c = true ∧ c ≠ '=')
    (e : Bool) : (State.code 0 e).run sep = .start := by
  cases sep with
  | nil => exact absurd rfl hne
  | cons c sep =>
    obtain ⟨hc, hrest⟩ := List.forall_mem_cons.mp hsep
    rw [State.run_cons, step_separator hc.1 hc.2]
    exact run_plain_settled (fun x hx => (hrest x hx).1) (fun x hx => (hrest x hx).2) 0

/-- Texts with separators between them have an arrow at the top level iff one of them has. -/
theorem find?_arrow_join_of_plain {sep : Text} (hne : sep ≠ [])
    (hsep : ∀ c ∈ sep, isPlain c = true ∧ c ≠ '=') {ts : List Text} (h : ∀ t ∈ ts, EndsAtTop t) :
    find? arrow (Text.join sep ts) = none ↔ ∀ t ∈ ts, find? arrow t = none := by
  match ts, h with
  | [], _ => exact ⟨fun _ t ht => absurd ht List.not_mem_nil, fun _ => rfl⟩
  | [t], _ => simp [Text.join]
  | t :: u :: ts, h =>
    have hrest := find?_arrow_join_of_plain hne hsep fun x hx => h x (List.mem_cons_of_mem t hx)
    have hclear : clearFrom ['='] (State.start.run t) sep = true :=
      clearFrom_of_forall (fun c hc => by simp [(hsep c hc).2]) _
    have hback : findFrom arrow (State.start.run t) (sep ++ Text.join sep (u :: ts)) = none ↔
        find? arrow (Text.join sep (u :: ts)) = none := by
      have hstart : (State.start.run t).run sep = .start := by
        rw [(h t List.mem_cons_self).run_start, run_separator hne hsep]
      rw [findFrom_append_of_clear hclear, hstart, Option.map_eq_none_iff]
      rfl
    have hhead : (sep ++ Text.join sep (u :: ts)).head? ≠ some '>' := by
      obtain ⟨c, rest, rfl⟩ := List.exists_cons_of_ne_nil hne
      rintro ⟨⟩
      exact absurd (hsep '>' List.mem_cons_self).1 (by decide)
    rw [Text.join, List.append_assoc, List.forall_mem_cons, ← hrest, ← hback]
    constructor
    · exact findFrom_of_append
    · exact fun hboth => findFrom_arrow_append hboth.1 hboth.2 hhead

/-- Texts with bars between them have an arrow at the top level iff one of them has. -/
theorem find?_arrow_join {ts : List Text} (h : ∀ t ∈ ts, Nested t) :
    find? arrow (Text.join " | ".toList ts) = none ↔ ∀ t ∈ ts, find? arrow t = none :=
  find?_arrow_join_of_plain (by decide) (by decide) fun t ht => (h t ht).endsAtTop

/-- Where a token is found, it stands. -/
theorem startsWith_of_findFrom {token : Text} {s : State} {t : Text} {i : Nat}
    (h : findFrom token s t = some i) : Text.startsWith token (t.drop i) = true := by
  induction t generalizing s i with
  | nil => cases h
  | cons c t ih =>
    rw [findFrom] at h
    split at h
    · rename_i hc
      cases h
      exact hc.2
    · obtain ⟨j, hj, rfl⟩ := Option.map_eq_some_iff.mp h
      exact ih hj

/-- The text at an arrow that was found. -/
theorem drop_of_findFrom_arrow {s : State} {t : Text} {i : Nat} (h : findFrom arrow s t = some i) :
    ∃ rest, t.drop i = '=' :: '>' :: rest := by
  have hs := startsWith_of_findFrom h
  obtain ⟨rest, hr⟩ := List.isPrefixOf_iff_prefix.mp hs
  exact ⟨rest, hr.symm⟩

/-- An arrow is found behind a text that is clear of equals signs. -/
theorem find?_arrow_append {a : Text} (h : clearFrom ['='] .start a = true)
    (hm : (State.start.run a).mark '=' = some 0) (b : Text) :
    find? arrow (a ++ '=' :: '>' :: b) = some a.length := by
  unfold find?
  rw [findFrom_append_of_clear h, findFrom,
    if_pos ⟨hm, startsWith_arrow_cons.mpr ⟨rfl, rfl⟩⟩]
  simp

/-! ## Blanks at the ends -/

theorem run_blank {b : Text} (hb : ∀ c ∈ b, isBlank c = true) : State.start.run b = .start :=
  run_plain_settled (fun c hc => isPlain_of_isBlank (hb c hc))
    (fun c hc => ne_eq_of_isBlank (hb c hc)) 0

/-- A text is clear of what is neither blank nor in the suffix `u` when its trimmed form is. -/
theorem clearFrom_of_trim {t u : Text} (hd : ∀ c, isBlank c = true → delims.contains c = false)
    (hu : ∀ c ∈ u, delims.contains c = false) (h : clearFrom delims .start (trim t) = true) :
    clearFrom delims .start (t ++ u) = true := by
  obtain ⟨a, b, ht, ha, hb⟩ := Text.trim_eq_append t
  rw [ht, List.append_assoc, List.append_assoc]
  refine clearFrom_append.mpr ⟨clearFrom_of_forall (fun c hc => hd c (ha c hc)) _, ?_⟩
  rw [run_blank ha]
  refine clearFrom_append.mpr ⟨h, clearFrom_of_forall (fun c hc => ?_) _⟩
  exact (List.mem_append.mp hc).elim (fun hc => hd c (hb c hc)) (hu c)

/-- A text has no arrow before the suffix `u`, nor in it, when its trimmed form has none. -/
theorem find?_arrow_of_trim {t u : Text} (hu : ∀ c ∈ u, c ≠ '=' ∧ c ≠ '>')
    (h : find? arrow (trim t) = none) : find? arrow (t ++ u) = none := by
  obtain ⟨a, b, ht, ha, hb⟩ := Text.trim_eq_append t
  have hclear : ∀ c ∈ b ++ u, List.contains ['='] c = false := by
    intro c hc
    rcases List.mem_append.mp hc with hc | hc
    · simp [ne_eq_of_isBlank (hb c hc)]
    · simp [(hu c hc).1]
  have hjoin : (b ++ u).head? ≠ some '>' := by
    intro hh
    rcases List.mem_append.mp (List.mem_of_head? hh) with hc | hc
    · exact absurd (hb _ hc) (by decide)
    · exact (hu _ hc).2 rfl
  have ha' : clearFrom ['='] .start a = true :=
    clearFrom_of_forall (fun c hc => by simp [ne_eq_of_isBlank (ha c hc)]) _
  rw [ht, List.append_assoc, List.append_assoc]
  unfold find? at h ⊢
  rw [findFrom_append_of_clear ha', run_blank ha,
    findFrom_arrow_append h (findFrom_of_clear (clearFrom_of_forall hclear _) _) hjoin]
  rfl

/-! ## Texts of one class of characters -/

section Class

variable {p : Char → Bool} {t : Text} (h : ∀ c ∈ t, p c = true)
include h

theorem not_mem_of_class {c : Char} (hc : p c = false) : c ∉ t := by
  intro hmem
  rw [h c hmem] at hc
  cases hc

theorem clearFrom_of_class (hd : ∀ c ∈ delims, p c = false) (s : State) :
    clearFrom delims s t = true := by
  refine clearFrom_of_forall (fun c hc => ?_) s
  rw [← Bool.not_eq_true, List.contains_iff_mem]
  exact fun hmem => not_mem_of_class h (hd c hmem) hc

theorem settled_of_class (hp : ∀ c ∈ special, p c = false) (heq : p '=' = false) : Settled t := by
  refine settled_plain (fun c hc => isPlain_of_class hp (h c hc)) fun c hc => ?_
  rintro rfl
  exact not_mem_of_class h heq hc

theorem trim_of_class (hp : ∀ n ∈ Text.blankCodes, p (Char.ofNat n) = false) : trim t = t :=
  Text.trim_eq_self (fun c hc => Text.isBlank_of_class hp (h c (List.mem_of_head? hc)))
    (fun c hc => Text.isBlank_of_class hp (h c (List.mem_of_getLast? hc)))

end Class

end ExportSchema.Bracket
