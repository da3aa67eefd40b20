import ExportSchema.Proofs.Module.Session
import Mathlib.Logic.Relation

/-!
# What the type of a name depends on

The type of a name is told from its symbol, which may ask for the types of other names, and so on.
Two modules that agree on all the names that a name leads to tell the same type for it, whatever
else they declare. And the bounds on the depth of the rules do not count, as long as they are high
enough.

* `Symbol.asks`: the names that a symbol may ask about.
* `LeadsTo`: a name leads to the names that its symbol asks about, and on from there.
* `SameOn`: names on which two tables of symbols agree, and which lead to no other names.

Results:
* `Work.Yields.unique`: rules that yield the outcomes of the same work agree.
* `inferType_eq`: the type of an expression by the types of smaller ones.
* `mergedDepth_eq`, `typeOfDepth_eq`: how deep the rules may go does not count.
* `SameOn.interfaceText_eq`, `SameOn.typeIn_eq`: interfaces and names that lead to nothing else have
  the same types in both tables.
-/

namespace ExportSchema.Module

open Fields (pending pending_le_length)
open Relation (ReflTransGen)
open Work (Yields)

variable {symbols symbols' : Symbols} {infer infer' : Infer (Except Fault)}
  {lookup lookup' : Lookup (Except Fault)} {t : Tree} {s : List Text} {α : Type}

/-! ## Rules that ask for the same -/

theorem Work.Yields.unique {work : Work α} {x y : Except Fault α} (hx : Yields s work x)
    (hy : Yields s work y) : x = y :=
  congrArg Prod.fst (Option.some.inj (hx.symm.trans hy))

/-- A rule as work that does not look at the record. -/
def worked {β : Type} (rule : β → Except Fault α) (b : β) : Work α := MonadExcept.ofExcept (rule b)

theorem yields_worked {β : Type} {rule rule' : β → Except Fault α} {b : β}
    (h : rule b = rule' b) : Yields s (worked rule b) (rule' b) := by
  rw [← h]
  unfold worked
  cases rule b with
  | error f => exact Yields.throw f
  | ok a => exact Yields.pure a

theorem inferStep_congr (h : ∀ u ∈ t.descendants, infer u = infer' u)
    (hl : ∀ name ∈ t.mentioned, lookup name = lookup' name) :
    inferStep infer lookup t = inferStep infer' lookup' t := by
  have hsame : Yields [] (inferStep (worked infer) (worked lookup) t) (inferStep infer lookup t) :=
    yields_inferStep (fun u _ => yields_worked rfl) fun name _ => yields_worked rfl
  refine hsame.unique (yields_inferStep (fun u hu => ?_) fun name hname => ?_)
  · exact yields_worked (h u hu)
  · exact yields_worked (hl name hname)

theorem interfaceMembers_congr (h : ∀ u ∈ t.descendants, infer u = infer' u) :
    interfaceMembers infer t = interfaceMembers infer' t := by
  have hsame : Yields [] (interfaceMembers (worked infer) t) (interfaceMembers infer t) :=
    yields_interfaceMembers fun u _ => yields_worked rfl
  exact hsame.unique (yields_interfaceMembers fun u hu => yields_worked (h u hu))

theorem symbolText_congr {interface interface' : Infer (Except Fault)} {x : Symbol}
    (h : ∀ u ∈ x.tree.nodes, infer u = infer' u) (hi : interface x.tree = interface' x.tree) :
    symbolText infer interface x = symbolText infer' interface' x := by
  have hsame : Yields [] (symbolText (worked infer) (worked interface) x)
      (symbolText infer interface x) :=
    yields_symbolText (fun u _ => yields_worked rfl) (yields_worked rfl)
  exact hsame.unique (yields_symbolText (fun u hu => yields_worked (h u hu)) (yields_worked hi))

/-- The type of an expression depends on the names that it mentions. -/
theorem inferDepth_congr (depth : Nat) (hl : ∀ name ∈ t.mentioned, lookup name = lookup' name) :
    inferDepth lookup depth t = inferDepth lookup' depth t := by
  induction depth generalizing t with
  | zero => rfl
  | succ depth ih =>
    refine inferStep_congr (fun u hu => ih fun name hname => hl name ?_) hl
    exact Tree.mentioned_subset (Tree.mem_nodes_of_mem_descendants hu) hname

theorem inferType_congr (hl : ∀ name ∈ t.mentioned, lookup name = lookup' name) :
    inferType lookup t = inferType lookup' t :=
  inferDepth_congr t.height hl

/-! ## How deep the rules may go -/

/-- **The bound on expressions does not count** when it is at least the height. -/
theorem inferDepth_eq {depth depth' : Nat} (h : t.height ≤ depth) (h' : t.height ≤ depth') :
    inferDepth lookup depth t = inferDepth lookup depth' t := by
  induction depth generalizing depth' t with
  | zero =>
    rw [Tree.height_eq] at h
    exact absurd h (Nat.not_succ_le_zero _)
  | succ depth ih =>
    have hheight := Tree.height_eq t
    obtain ⟨depth', rfl⟩ : ∃ k, depth' = k + 1 := ⟨depth' - 1, by omega⟩
    refine inferStep_congr (fun u hu => ?_) fun _ _ => rfl
    have hlt := Tree.height_lt_of_mem_descendants hu
    exact ih (by omega) (by omega)

/-- **The type of an expression** by the types of smaller ones. -/
theorem inferType_eq (lookup : Lookup (Except Fault)) (t : Tree) :
    inferType lookup t = inferStep (inferType lookup) lookup t := by
  have hheight := Tree.height_eq t
  unfold inferType
  rw [hheight]
  refine inferStep_congr (fun u hu => ?_) fun _ _ => rfl
  have hlt := Tree.height_lt_of_mem_descendants hu
  exact inferDepth_eq (by omega) (Nat.le_refl _)

/-- **The bound on visits does not count** when it is above the number of interfaces to see. -/
theorem mergedDepth_eq (infer : Infer (Except Fault)) {depth depth' : Nat} {seen : List Text}
    (h : pending symbols seen < depth) (h' : pending symbols seen < depth') (t : Tree) :
    mergedDepth infer symbols depth seen t = mergedDepth infer symbols depth' seen t := by
  induction depth generalizing depth' seen t with
  | zero => exact absurd h (Nat.not_lt_zero _)
  | succ depth ih =>
    obtain ⟨depth', rfl⟩ : ∃ k, depth' = k + 1 := ⟨depth' - 1, by omega⟩
    have hsame : Yields [] (mergedStep (worked infer) symbols
        (fun seen => worked (mergedDepth infer symbols depth seen)) seen t)
        (mergedDepth infer symbols (depth + 1) seen t) :=
      yields_mergedStep (fun u _ => yields_worked rfl) (fun seen u _ _ => yields_worked rfl)
        (pending_mergedDepth_le depth)
    refine hsame.unique (yields_mergedStep (fun u _ => yields_worked rfl) ?_
      (pending_mergedDepth_le depth'))
    exact fun seen' u hlt _ => yields_worked (ih (by omega) (by omega) u)

/-- **The bound on names does not count** when it is at least the number of names to enter. -/
theorem typeOfDepth_eq {depth depth' : Nat} (h : pending symbols s ≤ depth)
    (h' : pending symbols s ≤ depth') (name : Text) :
    typeOfDepth symbols depth s name = typeOfDepth symbols depth' s name :=
  have hclock := Nat.lt_succ_self (pending symbols s * ticksPerName symbols)
  ((settles symbols _).type name h hclock).unique ((settles symbols _).type name h' hclock)

/-! ## Names that a name leads to -/

/-- The names that a symbol may ask about: those that its tree mentions, and its parents. -/
def Symbol.asks (x : Symbol) : List Text := x.tree.mentioned ++ interfaceParents x.tree

/-- The symbol of a name asks about another name. -/
def Asks (symbols : Symbols) (n k : Text) : Prop := ∃ x, symbols.get? n = some x ∧ k ∈ x.asks

/-- A name leads to itself and to all that is asked about on the way. -/
def LeadsTo (symbols : Symbols) : Text → Text → Prop := ReflTransGen (Asks symbols)

/-- Two tables agree on the names of `C`, and these ask about no other names. -/
structure SameOn (C : Text → Prop) (symbols symbols' : Symbols) : Prop where
  same : ∀ n, C n → symbols.get? n = symbols'.get? n
  closed : ∀ n k, C n → Asks symbols n k → C k

namespace SameOn

variable {C : Text → Prop} (h : SameOn C symbols symbols')
include h

theorem interfaceTree?_eq {n : Text} (hn : C n) :
    interfaceTree? symbols n = interfaceTree? symbols' n := by
  unfold interfaceTree?
  rw [h.same n hn]

theorem parent_eq {visit visit' : List Text → Tree → Except Fault Visit} {q : Text} (hq : C q)
    (hvisit : ∀ seen u, interfaceTree? symbols q = some u → visit seen u = visit' seen u)
    (v : Visit) : v.parent symbols visit q = v.parent symbols' visit' q := by
  unfold Visit.parent
  rw [← h.interfaceTree?_eq hq]
  cases hu : interfaceTree? symbols q with
  | none => rfl
  | some u => simp only [hvisit _ u hu]

/-- The parents of an interface are visited alike when each of them is. -/
theorem parents_eq (visit visit' : List Text → Tree → Except Fault Visit) {ps : List Text}
    (hps : ∀ q ∈ ps, C q ∧
      ∀ seen u, interfaceTree? symbols q = some u → visit seen u = visit' seen u) (v : Visit) :
    ps.foldlM (Visit.parent symbols visit) v = ps.foldlM (Visit.parent symbols' visit') v := by
  induction ps generalizing v with
  | nil => rfl
  | cons q ps ih =>
    obtain ⟨hq, hps⟩ := List.forall_mem_cons.mp hps
    rw [List.foldlM_cons, List.foldlM_cons, h.parent_eq hq.1 hq.2]
    exact congrArg _ (funext fun w => ih hps w)

variable (hinfer : ∀ u : Tree, (∀ k ∈ u.mentioned, C k) → infer u = infer' u)
include hinfer

theorem mergedDepth_eq (depth : Nat) (seen : List Text) (ht : ∀ k ∈ t.mentioned, C k)
    (hps : ∀ q ∈ interfaceParents t, C q) :
    mergedDepth infer symbols depth seen t = mergedDepth infer' symbols' depth seen t := by
  induction depth generalizing seen t with
  | zero => rfl
  | succ depth ih =>
    have hparents := h.parents_eq (mergedDepth infer symbols depth)
      (mergedDepth infer' symbols' depth) (fun q hq => ⟨hps q hq, fun seen u hu => ?_⟩) ⟨[], seen⟩
    · have hown : interfaceMembers infer t = interfaceMembers infer' t :=
        interfaceMembers_congr fun u hu => hinfer u fun k hk => ht k <|
          Tree.mentioned_subset (Tree.mem_nodes_of_mem_descendants hu) hk
      rw [mergedDepth, mergedDepth, mergedStep, mergedStep, hparents, hown]
    · have hasks : ∀ k ∈ u.mentioned ++ interfaceParents u, C k := fun k hk =>
        h.closed q k (hps q hq) ⟨_, get?_of_interfaceTree? hu, hk⟩
      exact ih seen (fun k hk => hasks k (List.mem_append_left _ hk))
        fun k hk => hasks k (List.mem_append_right _ hk)

/-- **An interface that leads to names of `C` only** is printed alike. -/
theorem interfaceText_eq (ht : ∀ k ∈ t.mentioned, C k) (hps : ∀ q ∈ interfaceParents t, C q) :
    interfaceText infer symbols t = interfaceText infer' symbols' t := by
  have hle := pending_le_length symbols []
  have hle' := pending_le_length symbols' []
  -- the two tables may bound the visits differently
  let depth := symbols.length + symbols'.length + 1
  rw [Module.interfaceText_eq, Module.interfaceText_eq,
    Module.mergedDepth_eq infer (Nat.lt_succ_of_le hle) (show _ < depth by omega),
    Module.mergedDepth_eq infer' (Nat.lt_succ_of_le hle') (show _ < depth by omega),
    h.mergedDepth_eq hinfer depth [] ht hps]

omit hinfer

/-- **A name of `C`** has the same type in both tables. -/
theorem typeOfDepth_eq (depth : Nat) (s : List Text) {name : Text} (hname : C name) :
    typeOfDepth symbols depth s name = typeOfDepth symbols' depth s name := by
  induction depth generalizing s name with
  | zero =>
    unfold typeOfDepth
    rw [← h.same name hname]
  | succ depth ih =>
    have hinfer : ∀ u : Tree, (∀ k ∈ u.mentioned, C k) →
        inferType (typeOfDepth symbols depth (name :: s)) u =
          inferType (typeOfDepth symbols' depth (name :: s)) u :=
      fun u hu => inferType_congr fun k hk => ih _ (hu k hk)
    unfold typeOfDepth
    rw [← h.same name hname]
    cases hx : symbols.get? name with
    | none => rfl
    | some x =>
      have hasks : ∀ k ∈ x.asks, C k := fun k hk => h.closed name k hname ⟨x, hx, hk⟩
      have hmentioned : ∀ k ∈ x.tree.mentioned, C k :=
        fun k hk => hasks k (List.mem_append_left _ hk)
      have htext := symbolText_congr (x := x)
        (fun u hu => hinfer u fun k hk => hmentioned k (Tree.mentioned_subset hu hk))
        (h.interfaceText_eq hinfer hmentioned fun k hk => hasks k (List.mem_append_right _ hk))
      simp only [htext]

end SameOn

/-- The type of a name, where the types of the names of `s` are being told already. -/
def typeIn (symbols : Symbols) (s : List Text) : Lookup (Except Fault) :=
  typeOfDepth symbols symbols.length s

theorem SameOn.typeIn_eq {C : Text → Prop} (h : SameOn C symbols symbols') (s : List Text)
    {name : Text} (hname : C name) : typeIn symbols s name = typeIn symbols' s name := by
  have hle := pending_le_length symbols s
  have hle' := pending_le_length symbols' s
  let depth := symbols.length + symbols'.length
  rw [typeIn, typeIn, Module.typeOfDepth_eq hle (show _ ≤ depth by omega),
    Module.typeOfDepth_eq hle' (show _ ≤ depth by omega), h.typeOfDepth_eq depth s hname]

/-- The names that do not lead to `p`, in two tables that differ in `p` only. -/
theorem sameOn_of_agree {p : Text} (h : ∀ n, n ≠ p → symbols.get? n = symbols'.get? n) :
    SameOn (fun n => ¬ LeadsTo symbols n p) symbols symbols' where
  same n hn := h n fun hp => hn (hp ▸ .refl)
  closed _ _ hn hask hk := hn (.head hask hk)

end ExportSchema.Module
