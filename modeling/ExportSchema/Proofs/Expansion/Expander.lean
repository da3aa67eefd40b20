import ExportSchema.Expander
import ExportSchema.Proofs.Record

/-!
# An expander is as it was

Every name that an expander enters into its record leaves it again, however the local types refer to
each other. So an expander that has answered is the expander it was before, and it answers as if it
had not been asked anything.

Results:
* `keeps_expandNode`, `keeps_localNode`: replacing names keeps the record when resolving them does.
* `keeps_resolveDepth`: resolving a name keeps the record.
* `expand_eq`: expanding a text gives the type that the plain rules give, and the same expander.
-/

namespace ExportSchema.Expander

open Expansion (Collected Place)
open RecordT (Keeps)

variable {s : List Text} {resolve : Resolve} {plain : Text → Option TypeNode}

theorem keeps_named? (h : ∀ name, Keeps s (resolve name) (plain name)) (raw : Text) :
    Keeps s (named? resolve raw) (Expansion.named? plain raw) := by
  unfold named? Expansion.named?
  split
  · exact h _
  · exact Keeps.pure none

mutual
/-- **Replacing names keeps the record** when resolving them does. -/
theorem keeps_expandNode (h : ∀ name, Keeps s (resolve name) (plain name)) (place : Place)
    (n : TypeNode) :
    Keeps s (expandNode resolve place n) (Expansion.expandNode plain place n) := by
  obtain ⟨text, nullable, shape⟩ := n
  cases shape with
  | verbatim raw =>
    unfold expandNode Expansion.expandNode
    cases place with
    | outside => exact Keeps.pure _
    | insideProps =>
      refine Keeps.bind (keeps_named? h raw) ?_
      cases Expansion.named? plain raw <;> exact Keeps.pure _
  | component props =>
    obtain ⟨propsText, propsNullable, propsShape⟩ := props
    have hprops := keeps_expandNode h .insideProps ⟨propsText, propsNullable, propsShape⟩
    cases propsShape with
    | verbatim raw =>
      unfold expandNode Expansion.expandNode
      exact Keeps.bind (keeps_named? h raw) (Keeps.pure _)
    | _ =>
      unfold expandNode Expansion.expandNode
      exact Keeps.bind hprops (Keeps.pure _)
  | primitive name => exact Keeps.pure _
  | literal raw => exact Keeps.pure _
  | array element =>
    unfold expandNode Expansion.expandNode
    exact Keeps.bind (keeps_expandNode h place element) (Keeps.pure _)
  | object properties additional =>
    unfold expandNode Expansion.expandNode
    refine Keeps.bind (keeps_expandProperties h place properties) ?_
    exact Keeps.bind (keeps_expandOption h place additional) (Keeps.pure _)
  | union members =>
    unfold expandNode Expansion.expandNode
    exact Keeps.bind (keeps_expandNodes h place members) (Keeps.pure _)
  | function params returns =>
    unfold expandNode Expansion.expandNode
    refine Keeps.bind (keeps_expandParams h place params) ?_
    exact Keeps.bind (keeps_expandNode h place returns) (Keeps.pure _)
theorem keeps_expandNodes (h : ∀ name, Keeps s (resolve name) (plain name)) (place : Place)
    (ns : List TypeNode) :
    Keeps s (expandNodes resolve place ns) (Expansion.expandNodes plain place ns) := by
  cases ns with
  | nil => exact Keeps.pure []
  | cons n ns =>
    unfold expandNodes Expansion.expandNodes
    refine Keeps.bind (keeps_expandNode h place n) ?_
    exact Keeps.bind (keeps_expandNodes h place ns) (Keeps.pure _)
theorem keeps_expandProperties (h : ∀ name, Keeps s (resolve name) (plain name)) (place : Place)
    (ps : List (Property TypeNode)) :
    Keeps s (expandProperties resolve place ps) (Expansion.expandProperties plain place ps) := by
  cases ps with
  | nil => exact Keeps.pure []
  | cons p ps =>
    obtain ⟨name, type, optional⟩ := p
    unfold expandProperties Expansion.expandProperties
    refine Keeps.bind (keeps_expandNode h place type) ?_
    exact Keeps.bind (keeps_expandProperties h place ps) (Keeps.pure _)
theorem keeps_expandParams (h : ∀ name, Keeps s (resolve name) (plain name)) (place : Place)
    (ps : List (Param TypeNode)) :
    Keeps s (expandParams resolve place ps) (Expansion.expandParams plain place ps) := by
  cases ps with
  | nil => exact Keeps.pure []
  | cons p ps =>
    obtain ⟨name, type⟩ := p
    unfold expandParams Expansion.expandParams
    refine Keeps.bind (keeps_expandNode h place type) ?_
    exact Keeps.bind (keeps_expandParams h place ps) (Keeps.pure _)
theorem keeps_expandOption (h : ∀ name, Keeps s (resolve name) (plain name)) (place : Place)
    (n : Option TypeNode) :
    Keeps s (expandOption resolve place n) (Expansion.expandOption plain place n) := by
  cases n with
  | none => exact Keeps.pure none
  | some n =>
    unfold expandOption Expansion.expandOption
    exact Keeps.bind (keeps_expandNode h place n) (Keeps.pure _)
end

theorem keeps_localNode (h : ∀ name, Keeps s (resolve name) (plain name)) (type : LocalType) :
    Keeps s (localNode resolve type) (Expansion.localNode plain type) := by
  cases type with
  | typeAlias value => exact keeps_expandNode h .insideProps _
  | interface members parents =>
    unfold localNode interfaceNode Expansion.localNode Expansion.interfaceNode
    have hparents := Keeps.foldlM (l := parents) (f := fun c parent => return c.takeOver (← resolve parent))
      (g := fun (c : Collected) parent => c.takeOver (plain parent))
      (fun c parent _ => Keeps.bind (h parent) (Keeps.pure _)) ⟨[], none⟩
    refine Keeps.bind hparents ?_
    refine Keeps.bind (Keeps.mapM fun m _ => ?_) (Keeps.pure _)
    exact Keeps.bind (keeps_expandNode h .insideProps _) (Keeps.pure _)

/-- **Resolving a name keeps the record**: every name that is entered was not in it before. -/
theorem keeps_resolveDepth (types : List (Text × LocalType)) (depth : Nat) (s : List Text)
    (name : Text) :
    Keeps s (resolveDepth types depth name) (Expansion.resolveDepth types depth s name) := by
  induction depth generalizing s name with
  | zero =>
    unfold resolveDepth Expansion.resolveDepth
    cases types.lookup name with
    | none => exact Keeps.pure none
    | some type =>
      refine Keeps.get ?_
      cases s.contains name <;> exact Keeps.pure _
  | succ depth ih =>
    unfold resolveDepth Expansion.resolveDepth
    cases types.lookup name with
    | none => exact Keeps.pure none
    | some type =>
      refine Keeps.get ?_
      cases hin : s.contains name with
      | true => exact Keeps.pure _
      | false =>
        refine Keeps.recording ?_ hin
        exact Keeps.bind (keeps_localNode (ih (name :: s)) type) (Keeps.pure _)

theorem run_of_keeps {α : Type} {e : Expander} {work : Work α} {a : α}
    (h : Keeps e.expanding work a) : e.run work = (a, e) := by
  unfold Keeps at h
  unfold run
  rw [h]
  rfl

/-- **An expander is as it was** after it has expanded a text. -/
theorem expand_eq (e : Expander) (t : Text) :
    e.expand t = (Expansion.expandNode
      (Expansion.resolveDepth e.types e.types.length e.expanding) .outside (.parse t), e) :=
  run_of_keeps (keeps_expandNode (keeps_resolveDepth e.types e.types.length e.expanding) _ _)

theorem expand_fresh (ds : List Declaration) (t : Text) :
    (fresh ds).expand t = (Expansion.expand ds t, fresh ds) :=
  expand_eq (fresh ds) t

end ExportSchema.Expander
