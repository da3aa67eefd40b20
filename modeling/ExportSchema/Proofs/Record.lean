import ExportSchema.Record

/-!
# Work that keeps the record

Work keeps the record of names when the record is the same afterwards, whatever was entered and
taken out meanwhile.

* `RecordT.Keeps`: work that has an outcome and leaves the record as it was.

Results:
* `Keeps.bind`, `Keeps.mapM`, `Keeps.foldlM`: work made of pieces that keep the record keeps it.
* `Keeps.recording`: a name that was not in the record is taken out again.
-/

namespace ExportSchema.RecordT

variable {m : Type → Type} [Monad m] {α β : Type} {s : List Text}

/-- Started with the record `s`, the work has the given outcome, and the record is `s` again. -/
def Keeps (s : List Text) (work : RecordT m α) (outcome : α) : Prop :=
  work.run s = Pure.pure (outcome, s)

namespace Keeps

theorem pure (a : α) : Keeps s (Pure.pure a : RecordT m α) a := rfl

variable [LawfulMonad m]

theorem bind {x : RecordT m α} {a : α} {f : α → RecordT m β} {b : β} (hx : Keeps s x a)
    (hf : Keeps s (f a) b) : Keeps s (x >>= f) b := by
  unfold Keeps at *
  rw [StateT.run_bind, hx, pure_bind]
  exact hf

/-- Work that looks at the record sees the record it was started with. -/
theorem get {f : List Text → RecordT m α} {a : α} (h : Keeps s (f s) a) :
    Keeps s (MonadState.get >>= f) a :=
  bind (x := MonadState.get) rfl h

theorem mapM {f : α → RecordT m β} {g : α → β} {l : List α} (h : ∀ a ∈ l, Keeps s (f a) (g a)) :
    Keeps s (l.mapM f) (l.map g) := by
  induction l with
  | nil => exact pure []
  | cons a l ih =>
    rw [List.mapM_cons, List.map_cons]
    refine bind (h a List.mem_cons_self) ?_
    exact bind (ih fun a ha => h a (List.mem_cons_of_mem _ ha)) (pure _)

theorem foldlM {f : β → α → RecordT m β} {g : β → α → β} {l : List α}
    (h : ∀ b, ∀ a ∈ l, Keeps s (f b a) (g b a)) (b : β) :
    Keeps s (l.foldlM f b) (l.foldl g b) := by
  induction l generalizing b with
  | nil => exact pure b
  | cons a l ih =>
    rw [List.foldlM_cons, List.foldl_cons]
    refine bind (h b a List.mem_cons_self) ?_
    exact ih (fun b a ha => h b a (List.mem_cons_of_mem _ ha)) (g b a)

/-- **A name that was not in the record is taken out again.** -/
theorem recording {name : Text} {x : RecordT m α} {a : α} (hx : Keeps (name :: s) x a)
    (hs : s.contains name = false) : Keeps s (RecordT.recording name x) a := by
  have hfilter : (name :: s).filter (· ≠ name) = s := by
    rw [List.filter_cons_of_neg (by simp)]
    refine List.filter_eq_self.mpr fun b hb => ?_
    have hne : b ≠ name := fun h => by simp [← h, hb] at hs
    simpa using hne
  unfold Keeps RecordT.recording at *
  simp only [StateT.run_bind, StateT.run_modify, pure_bind, hx, hfilter, StateT.run_pure]

end Keeps

end ExportSchema.RecordT
