import ExportSchema.Bracket.Split
import Mathlib.Data.List.Basic

/-!
# Properly nested text

A text is nested when every bracket and every quote in it is matched inside it: no bracket closes
that was not opened before, and the scan ends at depth zero outside literals. Nothing of a nested
text can be seen from outside, so it may stand at any depth.

* `noStrayFrom`: no bracket closes that was not opened, from a state on.
* `EndsAtTop`: nothing is open at the end of the text.
* `Nested`: all brackets and quotes are matched.
* `State.lift`: the same place, some brackets deeper.
* `Settled`: nested, and the last character is no equals sign that counts.

Results:
* `run_lift`, `marksFrom_lift`: the scan of a text without stray brackets is the same at every
  depth, with the depths raised.
* `run_nested`: a nested text leaves depth and mode as they were.
* `closeFrom_eq_some_iff`, `close?_eq_some_iff`: the bracket that closes a group is the one after
  the longest nested text behind its opener.
* `close?_around_iff`, `enclosed?_eq_some_iff`: a text is one group iff what stands between its ends
  is nested.
* `settled_group`, `Settled.append`: how settled texts are put together.
-/

namespace ExportSchema.Bracket

/-! ## Depth -/

/-- The same place, `k` brackets deeper. -/
def State.lift (k : Nat) (s : State) : State := { s with depth := s.depth + k }

@[simp] theorem State.lift_depth (k : Nat) (s : State) : (s.lift k).depth = s.depth + k := rfl

@[simp] theorem State.lift_mode (k : Nat) (s : State) : (s.lift k).mode = s.mode := rfl

@[simp] theorem State.lift_closes (k : Nat) (s : State) (c : Char) :
    (s.lift k).closes c = s.closes c := rfl

@[simp] theorem State.mark_lift (k : Nat) (s : State) (c : Char) :
    (s.lift k).mark c = (s.mark c).map (· + k) := by
  unfold State.mark State.lift
  cases s.mode with
  | code => simp only; split <;> rfl
  | quoted q => rfl
  | escaped q => rfl

/-- The scanner outside literals, at a depth, with or without an equals sign before. -/
abbrev State.code (d : Nat) (e : Bool) : State := ⟨d, .code, e⟩

theorem step_quote {c : Char} (h : isQuote c = true) {d : Nat} {e : Bool} :
    (State.code d e).step c = ⟨d, .quoted c, false⟩ := by
  simp only [State.step, h, if_true]

theorem isQuote_of_isOpener {c : Char} (h : isOpener c = true) : isQuote c = false := by
  simp only [isOpener, Bool.or_eq_true, decide_eq_true_eq] at h
  obtain ((rfl | rfl) | rfl) | rfl := h <;> rfl

theorem isQuote_of_isCloser {c : Char} (h : isCloser c = true) : isQuote c = false := by
  simp only [isCloser, Bool.or_eq_true, decide_eq_true_eq] at h
  obtain ((rfl | rfl) | rfl) | rfl := h <;> rfl

theorem isOpener_of_isCloser {c : Char} (h : isCloser c = true) : isOpener c = false := by
  simp only [isCloser, Bool.or_eq_true, decide_eq_true_eq] at h
  obtain ((rfl | rfl) | rfl) | rfl := h <;> rfl

theorem State.isCloser_of_closes {s : State} {c : Char} (h : s.closes c = true) :
    isCloser c = true := by
  simp only [State.closes, Bool.and_eq_true] at h
  exact h.1

theorem step_opener {c : Char} (h : isOpener c = true) {d : Nat} {e : Bool} :
    (State.code d e).step c = .code (d + 1) false := by
  simp only [State.step, isQuote_of_isOpener h, h, if_true, Bool.false_eq_true, if_false]

theorem step_closes {c : Char} {d : Nat} {e : Bool} (h : State.closes (.code d e) c = true) :
    (State.code d e).step c = .code (d - 1) false := by
  have hc := State.isCloser_of_closes h
  simp only [State.step, isQuote_of_isCloser hc, isOpener_of_isCloser hc, h, if_true,
    Bool.false_eq_true, if_false]

theorem step_other {c : Char} {d : Nat} {e : Bool} (hq : ¬ isQuote c = true)
    (ho : ¬ isOpener c = true) (hc : ¬ State.closes (.code d e) c = true) :
    (State.code d e).step c = .code d (c = '=') := by
  simp only [State.step, if_neg hq, if_neg ho, if_neg hc]

/-- A character that is neither bracket nor quote. -/
def isPlain (c : Char) : Bool := !isQuote c && !isOpener c && !isCloser c

/-- The brackets and quotes. -/
def special : Text := ['"', '\'', '\x60', '<', '(', '{', '[', '>', ')', '}', ']']

theorem mem_special_of_not_isPlain {c : Char} (h : isPlain c = false) : c ∈ special := by
  simp only [isPlain, isQuote, isOpener, isCloser, Bool.and_eq_false_iff, Bool.not_eq_false',
    Bool.or_eq_true, decide_eq_true_eq] at h
  obtain (((rfl | rfl) | rfl) | ((rfl | rfl) | rfl) | rfl) | ((rfl | rfl) | rfl) | rfl := h <;>
    decide

/-- A character class that holds neither bracket nor quote is plain. -/
theorem isPlain_of_class {p : Char → Bool} (hp : ∀ c ∈ special, p c = false) {c : Char}
    (h : p c = true) : isPlain c = true := by
  by_contra hc
  rw [Bool.not_eq_true] at hc
  rw [hp c (mem_special_of_not_isPlain hc)] at h
  cases h

theorem step_plain {c : Char} (h : isPlain c = true) {d : Nat} {e : Bool} :
    (State.code d e).step c = .code d (c = '=') := by
  simp only [isPlain, Bool.and_eq_true, Bool.not_eq_true'] at h
  obtain ⟨⟨hq, ho⟩, hc⟩ := h
  exact step_other (by simp [hq]) (by simp [ho]) (by simp [State.closes, hc])

theorem mark_code {c : Char} (h : isQuote c = false) (d : Nat) (e : Bool) :
    (State.code d e).mark c = some d := by
  simp only [State.mark, h, Bool.false_eq_true, if_false]

/-- Is `c` a bracket that closes though none is open? -/
def State.stray (s : State) (c : Char) : Bool := s.mode = .code && s.closes c && s.depth = 0

theorem State.stray_iff {s : State} {c : Char} :
    s.stray c = true ↔ s.mode = .code ∧ s.closes c = true ∧ s.depth = 0 := by
  simp only [State.stray, Bool.and_eq_true, decide_eq_true_eq, and_assoc]

/-- Does no bracket close that was not opened, from the state `s` on? -/
def noStrayFrom (s : State) : Text → Bool
  | [] => true
  | c :: cs => !s.stray c && noStrayFrom (s.step c) cs

theorem State.step_lift {s : State} {c : Char} (h : s.stray c = false) (k : Nat) :
    (s.lift k).step c = (s.step c).lift k := by
  obtain ⟨d, m, e⟩ := s
  cases m with
  | escaped q => rfl
  | quoted q =>
    simp only [State.step, State.lift]
    split
    · rfl
    · split <;> rfl
  | code =>
    show (State.code (d + k) e).step c = ((State.code d e).step c).lift k
    by_cases hq : isQuote c = true
    · rw [step_quote hq, step_quote hq]; rfl
    by_cases ho : isOpener c = true
    · rw [step_opener ho, step_opener ho, State.lift, Nat.add_right_comm]
    by_cases hc : State.closes (.code d e) c = true
    · have hc' : State.closes (.code (d + k) e) c = true := hc
      have hd : d ≠ 0 := by simpa [State.stray, hc] using h
      have hsub : d + k - 1 = d - 1 + k := by omega
      rw [step_closes hc, step_closes hc', State.lift, hsub]
    · have hc' : ¬ State.closes (.code (d + k) e) c = true := hc
      rw [step_other hq ho hc, step_other hq ho hc', State.lift]

@[simp] theorem noStrayFrom_nil (s : State) : noStrayFrom s [] = true := rfl

theorem noStrayFrom_cons {s : State} {c : Char} {t : Text} :
    noStrayFrom s (c :: t) = true ↔ s.stray c = false ∧ noStrayFrom (s.step c) t = true := by
  simp [noStrayFrom]

theorem noStrayFrom_append {s : State} {t u : Text} :
    noStrayFrom s (t ++ u) = true ↔ noStrayFrom s t = true ∧ noStrayFrom (s.run t) u = true := by
  induction t generalizing s with
  | nil => simp
  | cons c t ih => rw [List.cons_append, noStrayFrom_cons, noStrayFrom_cons, ih, State.run_cons,
      and_assoc]

/-- **A text without stray brackets may stand deeper**: the scan ends in the same place. -/
theorem run_lift {s : State} {t : Text} (h : noStrayFrom s t = true) (k : Nat) :
    (s.lift k).run t = (s.run t).lift k := by
  induction t generalizing s with
  | nil => rfl
  | cons c t ih =>
    obtain ⟨hc, ht⟩ := noStrayFrom_cons.mp h
    rw [State.run_cons, State.run_cons, State.step_lift hc, ih ht]

theorem marksFrom_lift {s : State} {t : Text} (h : noStrayFrom s t = true) (k : Nat) :
    marksFrom (s.lift k) t = (marksFrom s t).map (Option.map (· + k)) := by
  induction t generalizing s with
  | nil => rfl
  | cons c t ih =>
    obtain ⟨hc, ht⟩ := noStrayFrom_cons.mp h
    simp only [marksFrom, State.mark_lift, State.step_lift hc, ih ht, List.map_cons]

/-! ## Literals are opened by quotes -/

/-- A literal that the scanner is in was opened by a quote. -/
def State.OpenedByQuote (s : State) : Prop :=
  match s.mode with
  | .code => True
  | .quoted q | .escaped q => isQuote q = true

theorem State.OpenedByQuote.step {s : State} (h : s.OpenedByQuote) (c : Char) :
    (s.step c).OpenedByQuote := by
  obtain ⟨d, m, e⟩ := s
  cases m with
  | escaped q => exact h
  | quoted q =>
    simp only [State.step]
    split
    · exact h
    · split
      · trivial
      · exact h
  | code =>
    simp only [State.step]
    split
    · assumption
    · split
      · trivial
      · split <;> trivial

theorem State.OpenedByQuote.run {s : State} (h : s.OpenedByQuote) (t : Text) :
    (s.run t).OpenedByQuote := by
  induction t generalizing s with
  | nil => exact h
  | cons c t ih => exact ih (h.step c)

/-! ## Nested texts -/

/-- No bracket and no quote is open at the end of the text. Brackets that close nothing may stand in
it. -/
structure EndsAtTop (t : Text) : Prop where
  depth_end : (State.start.run t).depth = 0
  mode_end : (State.start.run t).mode = .code

instance (t : Text) : Decidable (EndsAtTop t) :=
  decidable_of_iff ((State.start.run t).depth = 0 ∧ (State.start.run t).mode = .code)
    ⟨fun ⟨a, b⟩ => ⟨a, b⟩, fun ⟨a, b⟩ => ⟨a, b⟩⟩

/-- The end of the scan of a text that ends at the top level. -/
theorem EndsAtTop.run_start {t : Text} (h : EndsAtTop t) :
    State.start.run t = State.code 0 (State.start.run t).afterEq := by
  have hd := h.depth_end
  have hm := h.mode_end
  generalize State.start.run t = s at hd hm
  obtain ⟨d, m, e⟩ := s
  simp only at hd hm
  rw [hd, hm]

theorem endsAtTop_of_run {t : Text} {e : Bool} (h : State.start.run t = .code 0 e) :
    EndsAtTop t :=
  ⟨by rw [h], by rw [h]⟩

/-- Every bracket and every quote of the text is matched inside it. -/
structure Nested (t : Text) : Prop where
  noStray : noStrayFrom .start t = true
  depth_end : (State.start.run t).depth = 0
  mode_end : (State.start.run t).mode = .code

theorem Nested.endsAtTop {t : Text} (h : Nested t) : EndsAtTop t := ⟨h.depth_end, h.mode_end⟩

instance (t : Text) : Decidable (Nested t) :=
  decidable_of_iff (noStrayFrom .start t = true ∧ (State.start.run t).depth = 0 ∧
    (State.start.run t).mode = .code) ⟨fun ⟨a, b, c⟩ => ⟨a, b, c⟩, fun ⟨a, b, c⟩ => ⟨a, b, c⟩⟩

theorem nested_nil : Nested [] := ⟨rfl, rfl, rfl⟩

/-- An equals sign before a character matters to `>` only. -/
theorem State.step_afterEq {c : Char} (hc : c ≠ '>') (d : Nat) (e e' : Bool) :
    (State.code d e).step c = (State.code d e').step c := by
  have : State.closes (State.code d e) c = State.closes (State.code d e') c := by
    simp [State.closes, hc]
  simp only [State.step, this]

theorem Nested.head_ne {t : Text} (h : Nested t) {c : Char} (hc : t.head? = some c) : c ≠ '>' := by
  rintro rfl
  cases t with
  | nil => cases hc
  | cons d t =>
    cases hc
    have := (noStrayFrom_cons.mp h.noStray).1
    simp [State.stray, State.start, State.closes, isCloser] at this

/-- The end of the scan of a nested text, from the start. -/
theorem Nested.run_start {t : Text} (h : Nested t) :
    State.start.run t = State.code 0 (State.start.run t).afterEq :=
  h.endsAtTop.run_start

/-- **A nested text leaves depth and mode as they were.** -/
theorem run_nested {t : Text} (h : Nested t) (d : Nat) (e : Bool) :
    ∃ e', (State.code d e).run t = State.code d e' := by
  cases t with
  | nil => exact ⟨e, rfl⟩
  | cons c t =>
    have hlift : (State.code d e).step c = ((State.start).lift d).step c := by
      rw [State.step_afterEq (h.head_ne rfl) d e false]
      simp [State.lift, State.start]
    refine ⟨(State.start.run (c :: t)).afterEq, ?_⟩
    rw [State.run_cons, hlift, ← State.run_cons, run_lift h.noStray, h.run_start]
    simp [State.lift]

theorem noStrayFrom_lift {s : State} {t : Text} (h : noStrayFrom s t = true) (k : Nat) :
    noStrayFrom (s.lift k) t = true := by
  induction t generalizing s with
  | nil => rfl
  | cons c t ih =>
    obtain ⟨hc, ht⟩ := noStrayFrom_cons.mp h
    refine noStrayFrom_cons.mpr ⟨?_, by rw [State.step_lift hc]; exact ih ht⟩
    rw [← Bool.not_eq_true, State.stray_iff] at hc ⊢
    exact fun ⟨hm, hcl, hd⟩ => hc ⟨hm, hcl, by rw [State.lift_depth] at hd; omega⟩

/-- A nested text has no stray bracket, wherever it stands. -/
theorem Nested.noStray_code {t : Text} (h : Nested t) (d : Nat) (e : Bool) :
    noStrayFrom (.code d e) t = true := by
  cases t with
  | nil => rfl
  | cons c t =>
    have hs : State.code d false = State.start.lift d := by simp [State.lift, State.start]
    have hl := noStrayFrom_cons.mp (noStrayFrom_lift h.noStray d)
    rw [← hs, State.step_afterEq (h.head_ne rfl) d false e] at hl
    refine noStrayFrom_cons.mpr ⟨?_, hl.2⟩
    have hcl : State.closes (.code d e) c = State.closes (.code d false) c := by
      simp [State.closes, h.head_ne rfl]
    have := hl.1
    simp only [State.stray, hcl] at this ⊢
    exact this

theorem Nested.append {t u : Text} (ht : Nested t) (hu : Nested u) : Nested (t ++ u) := by
  obtain ⟨e, he⟩ := run_nested hu 0 (State.start.run t).afterEq
  have hrun : State.start.run (t ++ u) = .code 0 e := by
    rw [State.run_append, ht.run_start, he]
  refine ⟨noStrayFrom_append.mpr ⟨ht.noStray, ?_⟩, by rw [hrun], by rw [hrun]⟩
  rw [ht.run_start]
  exact hu.noStray_code 0 _

/-- A nested text does not end in an opening bracket. -/
theorem Nested.getLast_not_opener {t : Text} (h : Nested t) {c : Char} (hl : t.getLast? = some c) :
    isOpener c = false := by
  by_contra hc
  rw [Bool.not_eq_false] at hc
  obtain ⟨u, rfl⟩ := List.getLast?_eq_some_iff.mp hl
  have hd := h.depth_end
  have hm := h.mode_end
  have hq : (State.start.run u).OpenedByQuote :=
    State.OpenedByQuote.run (s := State.start) trivial u
  rw [State.run_append, State.run_cons, State.run_nil] at hd hm
  generalize State.start.run u = s at hd hm hq
  obtain ⟨d, m, e⟩ := s
  cases m with
  | code =>
    have hs : State.step ⟨d, .code, e⟩ c = .code (d + 1) false := step_opener hc
    rw [hs] at hd
    cases hd
  | escaped q => cases hm
  | quoted q =>
    simp only [State.step] at hm
    split at hm
    · cases hm
    · split at hm
      · rename_i hcq
        subst hcq
        have hq : isQuote c = true := hq
        rw [isQuote_of_isOpener hc] at hq
        cases hq
      · cases hm

/-! ## Plain characters and literals -/

/-- The last character of a plain text tells whether an equals sign is left behind. -/
theorem run_plain {t : Text} (h : ∀ c ∈ t, isPlain c = true) (d : Nat) (e : Bool) :
    ∃ e', (State.code d e).run t = .code d e' := by
  induction t generalizing e with
  | nil => exact ⟨e, rfl⟩
  | cons c t ih =>
    rw [State.run_cons, step_plain (h c List.mem_cons_self)]
    exact ih (fun x hx => h x (List.mem_cons_of_mem c hx)) _

theorem stray_plain {c : Char} (h : isPlain c = true) (s : State) : s.stray c = false := by
  simp only [isPlain, Bool.and_eq_true, Bool.not_eq_true'] at h
  simp [State.stray, State.closes, h.2]

theorem nested_plain {t : Text} (h : ∀ c ∈ t, isPlain c = true) : Nested t := by
  obtain ⟨e, he⟩ := run_plain h 0 false
  have hrun : State.start.run t = .code 0 e := he
  refine ⟨?_, by rw [hrun], by rw [hrun]⟩
  clear he hrun
  generalize State.start = s
  induction t generalizing s with
  | nil => rfl
  | cons c t ih =>
    exact noStrayFrom_cons.mpr ⟨stray_plain (h c List.mem_cons_self) s,
      ih (fun x hx => h x (List.mem_cons_of_mem c hx)) _⟩

/-- Plain text without an equals sign leaves the scanner as it found it. -/
theorem run_plain_settled {t : Text} (h : ∀ c ∈ t, isPlain c = true) (heq : ∀ c ∈ t, c ≠ '=')
    (d : Nat) : (State.code d false).run t = .code d false := by
  induction t with
  | nil => rfl
  | cons c t ih =>
    rw [State.run_cons, step_plain (h c List.mem_cons_self),
      decide_eq_false (heq c List.mem_cons_self)]
    exact ih (fun x hx => h x (List.mem_cons_of_mem c hx))
      (fun x hx => heq x (List.mem_cons_of_mem c hx))

/-- Inside a literal nothing counts but its quote and the backslash. -/
theorem run_quoted {q : Char} {body : Text} (hq : q ∉ body) (hb : '\\' ∉ body) (d : Nat) (e : Bool) :
    State.run ⟨d, .quoted q, e⟩ body = ⟨d, .quoted q, e⟩ := by
  induction body with
  | nil => rfl
  | cons c body ih =>
    rw [List.mem_cons, not_or] at hq hb
    rw [State.run_cons]
    simp only [State.step, if_neg (Ne.symm hb.1), if_neg (Ne.symm hq.1)]
    exact ih hq.2 hb.2

theorem ne_backslash_of_isQuote {q : Char} (h : isQuote q = true) : q ≠ '\\' := by
  rintro rfl
  cases h

/-- A string literal leaves the scanner as it found it. -/
theorem run_literal {q : Char} {body : Text} (hqq : isQuote q = true) (hq : q ∉ body)
    (hb : '\\' ∉ body) (d : Nat) (e : Bool) :
    (State.code d e).run (q :: (body ++ [q])) = .code d false := by
  rw [State.run_cons, step_quote hqq, State.run_append, run_quoted hq hb, State.run_cons,
    State.run_nil]
  simp only [State.step, if_neg (ne_backslash_of_isQuote hqq), if_true]

theorem noStrayFrom_quoted {q : Char} {body : Text} (hq : q ∉ body) (hb : '\\' ∉ body) (d : Nat)
    (e : Bool) : noStrayFrom ⟨d, .quoted q, e⟩ body = true := by
  induction body with
  | nil => rfl
  | cons c body ih =>
    rw [List.mem_cons, not_or] at hq hb
    refine noStrayFrom_cons.mpr ⟨by simp [State.stray], ?_⟩
    simp only [State.step, if_neg (Ne.symm hb.1), if_neg (Ne.symm hq.1)]
    exact ih hq.2 hb.2

theorem nested_literal {q : Char} {body : Text} (hqq : isQuote q = true) (hq : q ∉ body)
    (hb : '\\' ∉ body) : Nested (q :: (body ++ [q])) := by
  have hrun : State.start.run (q :: (body ++ [q])) = .code 0 false :=
    run_literal hqq hq hb 0 false
  refine ⟨?_, by rw [hrun], by rw [hrun]⟩
  have hcl : isCloser q = false := by
    by_contra h
    rw [isQuote_of_isCloser (by simpa using h)] at hqq
    cases hqq
  refine noStrayFrom_cons.mpr ⟨by simp [State.stray, State.closes, hcl], ?_⟩
  have hs : State.start.step q = ⟨0, .quoted q, false⟩ := step_quote hqq
  rw [hs]
  refine noStrayFrom_append.mpr ⟨noStrayFrom_quoted hq hb _ _, ?_⟩
  rw [run_quoted hq hb]
  exact noStrayFrom_cons.mpr ⟨by simp [State.stray], rfl⟩

/-! ## Groups -/

/-- A group closes behind the text `inner` from the state `s` on: `inner` matches its own brackets,
and the character `c` after it closes one more. -/
structure ClosesBehind (s : State) (inner : Text) (c : Char) : Prop where
  noStray : noStrayFrom s inner = true
  depth_end : (s.run inner).depth = 0
  mode_end : (s.run inner).mode = .code
  closes : (s.run inner).closes c = true

theorem State.mark_of_code {s : State} (h : s.mode = .code) {c : Char} (hc : isQuote c = false) :
    s.mark c = some s.depth := by
  simp only [State.mark, h, hc, Bool.false_eq_true, if_false]

theorem State.mark_eq_some {s : State} {c : Char} {d : Nat} (h : s.mark c = some d) :
    s.mode = .code ∧ isQuote c = false ∧ s.depth = d := by
  unfold State.mark at h
  cases hm : s.mode with
  | code =>
    rw [hm] at h
    simp only at h
    split at h
    · cases h
    · rename_i hq
      cases h
      exact ⟨rfl, by simpa using hq, rfl⟩
  | quoted q => rw [hm] at h; cases h
  | escaped q => rw [hm] at h; cases h

/-- Where a character is outside literals, the scanner is. -/
theorem State.eq_code_of_mark {s : State} {c : Char} {d : Nat} (h : s.mark c = some d) :
    s = .code d s.afterEq := by
  obtain ⟨hmode, -, hdepth⟩ := State.mark_eq_some h
  rw [State.code, ← hmode, ← hdepth]

/-- The scan for a closing bracket at depth `d + 1` stops where a bracket closes that the text
behind the opener did not open. -/
theorem mark_lift_closes_iff {s : State} {d : Nat} {c : Char} :
    ((s.lift (d + 1)).mark c = some (d + 1) ∧ (s.lift (d + 1)).closes c = true) ↔
      s.stray c = true := by
  rw [State.stray_iff]
  constructor
  · rintro ⟨hm, hc⟩
    obtain ⟨hmode, -, hd⟩ := State.mark_eq_some hm
    rw [State.lift_depth] at hd
    exact ⟨hmode, hc, by omega⟩
  · rintro ⟨hmode, hc, hd⟩
    refine ⟨?_, hc⟩
    rw [State.mark_lift, State.mark_of_code hmode
      (isQuote_of_isCloser (State.isCloser_of_closes hc)), hd]
    simp

/-- **The closing bracket** is the first one that the text behind the opener did not open. -/
theorem closeFrom_eq_some_iff {d : Nat} {s : State} {t : Text} {j : Nat} :
    closeFrom (d + 1) (s.lift (d + 1)) t = some j ↔
      ∃ inner c rest, t = inner ++ c :: rest ∧ inner.length = j ∧ ClosesBehind s inner c := by
  induction t generalizing s j with
  | nil => simp [closeFrom]
  | cons c t ih =>
    rw [closeFrom]
    split
    · rename_i h
      have hs := mark_lift_closes_iff.mp h
      constructor
      · rintro ⟨⟩
        obtain ⟨hm, hc, hd⟩ := State.stray_iff.mp hs
        exact ⟨[], c, t, rfl, rfl, rfl, hd, hm, hc⟩
      · rintro ⟨inner, c', rest, he, rfl, hb⟩
        cases inner with
        | nil => rfl
        | cons x inner =>
          cases he
          have := (noStrayFrom_cons.mp hb.noStray).1
          rw [hs] at this
          cases this
    · rename_i h
      have hs : s.stray c = false := by
        rw [← Bool.not_eq_true]
        exact fun hs => h (mark_lift_closes_iff.mpr hs)
      rw [State.step_lift hs, Option.map_eq_some_iff]
      constructor
      · rintro ⟨i, hi, rfl⟩
        obtain ⟨inner, c', rest, rfl, rfl, hb⟩ := ih.mp hi
        exact ⟨c :: inner, c', rest, rfl, rfl, noStrayFrom_cons.mpr ⟨hs, hb.noStray⟩, hb.depth_end,
          hb.mode_end, hb.closes⟩
      · rintro ⟨inner, c', rest, he, rfl, hb⟩
        cases inner with
        | nil =>
          cases he
          have hd : s.depth = 0 := hb.depth_end
          have hm : s.mode = .code := hb.mode_end
          have hc : s.closes c = true := hb.closes
          rw [State.stray_iff.mpr ⟨hm, hc, hd⟩] at hs
          cases hs
        | cons x inner =>
          cases he
          have hns := noStrayFrom_cons.mp hb.noStray
          exact ⟨inner.length, ih.mpr ⟨inner, c', rest, rfl, rfl, hns.2, hb.depth_end, hb.mode_end,
            hb.closes⟩, rfl⟩

theorem ClosesBehind.nested {inner : Text} {c : Char} (h : ClosesBehind .start inner c) :
    Nested inner :=
  ⟨h.noStray, h.depth_end, h.mode_end⟩

theorem ClosesBehind.isCloser {s : State} {inner : Text} {c : Char} (h : ClosesBehind s inner c) :
    isCloser c = true :=
  State.isCloser_of_closes h.closes

/-- A bracket closes behind a nested text, unless it is the second half of an arrow. -/
theorem Nested.closesBehind {inner : Text} (h : Nested inner) {c : Char}
    (hc : Bracket.isCloser c = true) (he : c = '>' → (State.start.run inner).afterEq = false) :
    ClosesBehind .start inner c := by
  refine ⟨h.noStray, h.depth_end, h.mode_end, ?_⟩
  simp only [State.closes, hc, Bool.true_and, Bool.not_eq_true', Bool.and_eq_false_iff,
    decide_eq_false_iff_not]
  by_cases hgt : c = '>'
  · exact Or.inr (he hgt)
  · exact Or.inl hgt

/-- A group leaves the depth as it was. -/
theorem run_group {o : Char} (ho : isOpener o = true) {inner : Text} {c : Char}
    (h : ClosesBehind .start inner c) (d : Nat) (e : Bool) :
    (State.code d e).run (o :: (inner ++ [c])) = .code d false := by
  have hs : State.code (d + 1) false = State.start.lift (d + 1) := by
    simp [State.lift, State.start]
  have hend : (State.start.lift (d + 1)).run inner =
      .code (d + 1) (State.start.run inner).afterEq := by
    rw [run_lift h.noStray, h.nested.run_start]
    simp [State.lift]
  have hcl : State.closes (.code (d + 1) (State.start.run inner).afterEq) c = true := h.closes
  rw [State.run_cons, step_opener ho, State.run_append, hs, hend, State.run_cons, step_closes hcl]
  rfl

theorem nested_group {o : Char} (ho : isOpener o = true) {inner : Text} {c : Char}
    (h : ClosesBehind .start inner c) : Nested (o :: (inner ++ [c])) := by
  have hrun : State.start.run (o :: (inner ++ [c])) = .code 0 false := run_group ho h 0 false
  refine ⟨?_, by rw [hrun], by rw [hrun]⟩
  have hs : State.start.step o = State.start.lift 1 := step_opener ho
  have hcl : isCloser o = false := by
    by_contra hc
    rw [isOpener_of_isCloser (by simpa using hc)] at ho
    cases ho
  refine noStrayFrom_cons.mpr ⟨by simp [State.stray, State.closes, hcl], ?_⟩
  rw [hs]
  refine noStrayFrom_append.mpr ⟨noStrayFrom_lift h.noStray 1, noStrayFrom_cons.mpr ⟨?_, rfl⟩⟩
  rw [run_lift h.noStray, ← Bool.not_eq_true, State.stray_iff]
  rintro ⟨-, -, hd⟩
  rw [State.lift_depth] at hd
  omega

/-- The bracket behind `a` is closed in the rest `t`, if it opens outside literals. -/
theorem close?_append_cons (a t : Text) (o : Char) :
    close? (a ++ o :: t) a.length =
      if isOpener o = true ∧ (State.start.run a).mode = .code then
        (closeFrom ((State.start.run a).depth + 1) ((State.start.run a).step o) t).map
          (· + (a.length + 1))
      else none := by
  have hadd : (a.length + 1 + ·) = (· + (a.length + 1)) := funext fun i => Nat.add_comm _ i
  simp only [close?, List.drop_left, List.take_left, hadd]

theorem close?_cons {o : Char} (ho : isOpener o = true) (t : Text) :
    close? (o :: t) 0 = (closeFrom 1 (State.start.lift 1) t).map (· + 1) := by
  have hs : State.start.step o = State.start.lift 1 := step_opener ho
  have h := close?_append_cons [] t o
  rwa [if_pos ⟨ho, rfl⟩, State.run_nil, hs] at h

/-- **The group at the start of a text** ends behind the nested text after its opener. -/
theorem close?_eq_some_iff {o : Char} (ho : isOpener o = true) {t : Text} {k : Nat} :
    close? (o :: t) 0 = some k ↔
      ∃ inner c rest, t = inner ++ c :: rest ∧ inner.length + 1 = k ∧
        ClosesBehind .start inner c := by
  rw [close?_cons ho, Option.map_eq_some_iff]
  constructor
  · rintro ⟨i, hi, rfl⟩
    obtain ⟨inner, c, rest, ht, rfl, hb⟩ := closeFrom_eq_some_iff.mp hi
    exact ⟨inner, c, rest, ht, rfl, hb⟩
  · rintro ⟨inner, c, rest, ht, rfl, hb⟩
    exact ⟨inner.length, closeFrom_eq_some_iff.mpr ⟨inner, c, rest, ht, rfl, hb⟩, rfl⟩

theorem close?_group {o : Char} (ho : isOpener o = true) {inner : Text} {c : Char}
    (h : ClosesBehind .start inner c) (rest : Text) :
    close? (o :: (inner ++ c :: rest)) 0 = some (inner.length + 1) :=
  (close?_eq_some_iff ho).mpr ⟨inner, c, rest, rfl, rfl, h⟩

/-- **Brackets around a text match** iff the text is nested. -/
theorem close?_around_iff {o c : Char} (ho : isOpener o = true) (hc : isCloser c = true)
    (hgt : c ≠ '>') {t : Text} : close? (o :: (t ++ [c])) 0 = some (t.length + 1) ↔ Nested t := by
  rw [close?_eq_some_iff ho]
  constructor
  · rintro ⟨inner, d, rest, happ, hlen, hb⟩
    obtain ⟨rfl, -⟩ := List.append_inj happ (by omega)
    exact hb.nested
  · intro h
    exact ⟨t, c, [], rfl, rfl, h.closesBehind hc fun heq => absurd heq hgt⟩

/-- **A text is one group** iff what stands between its ends is nested and its end closes it. -/
theorem enclosed?_eq_some_iff {o : Char} (ho : isOpener o = true) {t inner : Text} :
    enclosed? o t = some inner ↔
      ∃ c, t = o :: (inner ++ [c]) ∧ ClosesBehind .start inner c := by
  cases t with
  | nil => simp [enclosed?]
  | cons x t =>
    simp only [enclosed?]
    constructor
    · intro h
      split at h
      · rename_i hx
        obtain ⟨rfl, hclose⟩ := hx
        cases t with
        | nil => simp [close?_cons ho, closeFrom] at hclose
        | cons y t =>
          obtain ⟨inner', c, rest, he, hl, hb⟩ := (close?_eq_some_iff ho).mp hclose
          have hrest : rest = [] := by
            have := congrArg List.length he
            simp only [List.length_cons, List.length_append] at this hl
            exact List.length_eq_zero_iff.mp (by omega)
          subst hrest
          rw [he] at h ⊢
          rw [List.dropLast_concat] at h
          cases h
          exact ⟨c, rfl, hb⟩
      · cases h
    · rintro ⟨c, he, hb⟩
      cases he
      rw [if_pos ⟨rfl, by rw [close?_group ho hb []]; simp⟩, List.dropLast_concat]

/-! ## Settled texts -/

/-- A nested text that leaves no equals sign behind: the scanner ends where it started. -/
structure Settled (t : Text) : Prop where
  nested : Nested t
  run : State.start.run t = .start

theorem Settled.append {t u : Text} (ht : Settled t) (hu : Settled u) : Settled (t ++ u) :=
  ⟨ht.nested.append hu.nested, by rw [State.run_append, ht.run, hu.run]⟩

theorem settled_plain {t : Text} (h : ∀ c ∈ t, isPlain c = true) (heq : ∀ c ∈ t, c ≠ '=') :
    Settled t :=
  ⟨nested_plain h, run_plain_settled h heq 0⟩

theorem settled_literal {q : Char} {body : Text} (hqq : isQuote q = true) (hq : q ∉ body)
    (hb : '\\' ∉ body) : Settled (q :: (body ++ [q])) :=
  ⟨nested_literal hqq hq hb, run_literal hqq hq hb 0 false⟩

/-- A group is settled, whatever stands in it. -/
theorem settled_group {o : Char} (ho : isOpener o = true) {inner : Text} {c : Char}
    (h : ClosesBehind .start inner c) : Settled (o :: (inner ++ [c])) :=
  ⟨nested_group ho h, run_group ho h 0 false⟩

theorem Settled.closesBehind {inner : Text} (h : Settled inner) {c : Char}
    (hc : Bracket.isCloser c = true) : ClosesBehind .start inner c :=
  h.nested.closesBehind hc fun _ => by rw [h.run]; rfl

/-- What holds of nothing, of a separator and of two texts together holds of joined texts. -/
theorem join_induction {P : Text → Prop} (hnil : P []) (happ : ∀ {t u}, P t → P u → P (t ++ u))
    {sep : Text} (hsep : P sep) : ∀ {ps : List Text}, (∀ p ∈ ps, P p) → P (Text.join sep ps)
  | [], _ => hnil
  | [p], h => h p List.mem_cons_self
  | p :: q :: ps, h => by
    rw [Text.join]
    exact happ (happ (h p List.mem_cons_self) hsep)
      (join_induction hnil happ hsep fun x hx => h x (List.mem_cons_of_mem p hx))

theorem nested_join {sep : Text} (hsep : Nested sep) {ps : List Text} (h : ∀ p ∈ ps, Nested p) :
    Nested (Text.join sep ps) :=
  join_induction nested_nil Nested.append hsep h

end ExportSchema.Bracket
