import ExportSchema.Module.Session
import ExportSchema.Proofs.Fields
import ExportSchema.Proofs.Record
import ExportSchema.Proofs.Tree

/-!
# Rules that keep the record

Each rule for expressions and symbols is stated for any monad. Run on the record of names, a rule
has the outcome that it has on its own, and leaves the record as it was, as long as the work it asks
for does. A rule only asks about nodes below its own, and about names that are mentioned there.

* `Tree.mentioned`: the names that an expression asks about.
* `Work.Yields`: work that has an outcome and leaves the record as it was.

Results:
* `mem_descendants_of_firstReturn`: a value that is returned is below.
* `yields_inferStep`, `yields_mergedStep`, `yields_symbolText`: the rules for expressions,
  interfaces and symbols.
-/

namespace ExportSchema

/-- The names that an expression asks about, in its own node or below. -/
def Tree.mentioned (t : Tree) : List Text :=
  let asking := t.nodes.filter fun u =>
    u.kind = .identifier ∨ u.kind = .shorthandPropertyIdentifier
  asking.map (·.text)

theorem Tree.mentioned_subset {t u : Tree} (h : u ∈ t.nodes) {name : Text}
    (hname : name ∈ u.mentioned) : name ∈ t.mentioned := by
  obtain ⟨v, hv, rfl⟩ := List.mem_map.mp hname
  obtain ⟨hv, hkind⟩ := List.mem_filter.mp hv
  exact List.mem_map_of_mem (List.mem_filter.mpr ⟨Tree.mem_nodes_trans h hv, hkind⟩)

theorem Tree.text_mem_mentioned {t : Tree}
    (h : t.kind = .identifier ∨ t.kind = .shorthandPropertyIdentifier) : t.text ∈ t.mentioned :=
  List.mem_map_of_mem (List.mem_filter.mpr ⟨t.mem_nodes_self, by simpa using h⟩)

namespace Module

theorem mem_descendants_of_returnedValue? {t u : Tree} (h : returnedValue? t = some u) :
    u ∈ t.descendants :=
  Tree.mem_descendants_of_mem_namedChildren (List.mem_filter.mp (List.mem_of_head? h)).1

mutual
/-- A value that is returned below a node is below the node. -/
theorem mem_descendants_of_firstReturn {t u : Tree} (h : firstReturn t = some u) :
    u ∈ t.descendants := by
  obtain ⟨kind, named, field, text, children⟩ := t
  rw [firstReturn] at h
  exact mem_nodesList_of_firstReturnIn h
theorem mem_nodesList_of_firstReturnIn {ts : List Tree} {u : Tree} (h : firstReturnIn ts = some u) :
    u ∈ Tree.nodesList ts := by
  cases ts with
  | nil => cases h
  | cons t ts =>
    have hhead : u ∈ t.descendants → u ∈ Tree.nodesList (t :: ts) := fun hu => by
      rw [Tree.nodesList]
      exact List.mem_append_left _ (Tree.mem_nodes_of_mem_descendants hu)
    have htail : firstReturnIn ts = some u → u ∈ Tree.nodesList (t :: ts) := fun hu => by
      rw [Tree.nodesList]
      exact List.mem_append_right _ (mem_nodesList_of_firstReturnIn hu)
    rw [firstReturnIn] at h
    split at h
    · exact htail h
    · split at h
      · rcases Option.or_eq_some_iff.mp h with h | ⟨-, h⟩
        · exact hhead (mem_descendants_of_returnedValue? h)
        · exact htail h
      · split at h
        · exact htail h
        · rcases Option.or_eq_some_iff.mp h with h | ⟨-, h⟩
          · exact hhead (mem_descendants_of_firstReturn h)
          · exact htail h
end

variable {α β : Type} {s : List Text}

/-! ## Outcomes -/

theorem exists_ok_of_bind {ε : Type} {x : Except ε α} {f : α → Except ε β} {b : β}
    (h : x >>= f = .ok b) : ∃ a, x = .ok a ∧ f a = .ok b := by
  cases x with
  | error e => cases h
  | ok a => exact ⟨a, rfl, h⟩

/-- What every step of a fold keeps holds where the fold ends. -/
theorem keeps_foldlM (P : β → Prop) {g : β → α → Except Fault β} {l : List α}
    (hkeep : ∀ b, P b → ∀ a ∈ l, ∀ c, g b a = .ok c → P c) {b c : β} (hb : P b)
    (h : l.foldlM g b = .ok c) : P c := by
  induction l generalizing b with
  | nil =>
    cases h
    exact hb
  | cons a l ih =>
    rw [List.foldlM_cons] at h
    obtain ⟨d, hd, hrest⟩ := exists_ok_of_bind h
    exact ih (fun b hb a ha => hkeep b hb a (List.mem_cons_of_mem _ ha))
      (hkeep b hb a List.mem_cons_self d hd) hrest

theorem exists_ok_foldlM {g : β → α → Except Fault β} {l : List α}
    (h : ∀ b, ∀ a ∈ l, ∃ c, g b a = .ok c) (b : β) : ∃ c, l.foldlM g b = .ok c := by
  induction l generalizing b with
  | nil => exact ⟨b, rfl⟩
  | cons a l ih =>
    obtain ⟨c, hc⟩ := h b a List.mem_cons_self
    rw [List.foldlM_cons, hc]
    exact ih (fun b a ha => h b a (List.mem_cons_of_mem _ ha)) c

/-! ## Work that keeps the record -/

/-- Started with the record `s`, the work has the given outcome, and the record is `s` again. -/
def Work.Yields (s : List Text) (work : Work α) (outcome : Except Fault α) : Prop :=
  RecordT.Keeps s work.run outcome

namespace Work.Yields

theorem pure (a : α) : Yields s (Pure.pure a) (Pure.pure a) := rfl

theorem throw (f : Fault) : Yields (α := α) s (MonadExcept.throw f) (MonadExcept.throw f) := rfl

theorem ofExcept (e : Except Fault α) :
    Yields s (MonadExcept.ofExcept e) (MonadExcept.ofExcept e) := by
  cases e with
  | error f => exact throw f
  | ok a => exact pure a

theorem bind {x : Work α} {y : Except Fault α} {f : α → Work β} {g : α → Except Fault β}
    (hx : Yields s x y) (hf : ∀ a, y = .ok a → Yields s (f a) (g a)) :
    Yields s (x >>= f) (y >>= g) := by
  unfold Yields
  rw [ExceptT.run_bind]
  refine RecordT.Keeps.bind hx ?_
  cases y with
  | error e => exact RecordT.Keeps.pure _
  | ok a => exact hf a rfl

/-- Work that looks at the record sees the record it was started with. -/
theorem get {f : List Text → Work α} {y : Except Fault α} (h : Yields s (f s) y) :
    Yields s (MonadState.get >>= f) y :=
  RecordT.Keeps.get (f := fun r => (f r).run) h

theorem mapM {f : α → Work β} {g : α → Except Fault β} {l : List α}
    (h : ∀ a ∈ l, Yields s (f a) (g a)) : Yields s (l.mapM f) (l.mapM g) := by
  induction l with
  | nil => exact pure []
  | cons a l ih =>
    rw [List.mapM_cons, List.mapM_cons]
    refine bind (h a List.mem_cons_self) fun b _ => ?_
    refine bind (ih fun a ha => h a (List.mem_cons_of_mem _ ha)) fun bs _ => ?_
    exact pure (b :: bs)

/-- A fold yields its outcome when each step does from where the steps before lead. -/
theorem foldlM (P : β → Prop) {f : β → α → Work β} {g : β → α → Except Fault β} {l : List α}
    (hstep : ∀ b, P b → ∀ a ∈ l, Yields s (f b a) (g b a))
    (hkeep : ∀ b, P b → ∀ a ∈ l, ∀ c, g b a = .ok c → P c) (b : β) (hb : P b) :
    Yields s (l.foldlM f b) (l.foldlM g b) := by
  induction l generalizing b with
  | nil => exact pure b
  | cons a l ih =>
    rw [List.foldlM_cons, List.foldlM_cons]
    refine bind (hstep b hb a List.mem_cons_self) fun c hc => ?_
    exact ih (fun b hb a ha => hstep b hb a (List.mem_cons_of_mem _ ha))
      (fun b hb a ha => hkeep b hb a (List.mem_cons_of_mem _ ha)) c
      (hkeep b hb a List.mem_cons_self c hc)

/-- Work with a name in the record that was not there before takes the name out again, with a
fault as well. -/
theorem recording {name : Text} {x : Work α} {y : Except Fault α} (hx : Yields (name :: s) x y)
    (hs : s.contains name = false) : Yields s (Work.recording name x) y :=
  RecordT.Keeps.recording hx hs

end Work.Yields

/-! ## Rules for expressions -/

open Fields (pending pending_cons_lt)
open Work (Yields)
open ExportSchema.Tree (descendants_subset mem_descendants_of_child?
  mem_descendants_of_mem_namedChildren mem_nodes_of_mem_descendants mentioned_subset)

variable {infer : Infer Work} {infer' : Infer (Except Fault)} {lookup : Lookup Work}
  {lookup' : Lookup (Except Fault)} {t : Tree}

/-- Whatever is asked about nodes below `t` yields its outcome. -/
def YieldsBelow (s : List Text) (t : Tree) (infer : Infer Work) (infer' : Infer (Except Fault)) :
    Prop :=
  ∀ u ∈ t.descendants, Yields s (infer u) (infer' u)

theorem YieldsBelow.mono {u : Tree} (h : YieldsBelow s t infer infer') (hu : u ∈ t.nodes) :
    YieldsBelow s u infer infer' :=
  fun v hv => h v (descendants_subset hu hv)

/-- Whatever is asked about names that `t` mentions yields its outcome. -/
def YieldsNames (s : List Text) (t : Tree) (lookup : Lookup Work)
    (lookup' : Lookup (Except Fault)) : Prop :=
  ∀ name ∈ t.mentioned, Yields s (lookup name) (lookup' name)

theorem YieldsNames.mono {u : Tree} (h : YieldsNames s t lookup lookup') (hu : u ∈ t.nodes) :
    YieldsNames s u lookup lookup' :=
  fun name hname => h name (mentioned_subset hu hname)

theorem yields_parameterText (h : YieldsBelow s t infer infer') :
    Yields s (parameterText infer t) (parameterText infer' t) := by
  unfold parameterText
  cases t.child? .type with
  | some mark => exact Yields.bind (Yields.pure _) fun type _ => Yields.pure _
  | none =>
    cases hv : t.child? .value with
    | some value =>
      exact Yields.bind (h value (mem_descendants_of_child? hv)) fun type _ => Yields.pure _
    | none => exact Yields.bind (Yields.pure _) fun type _ => Yields.pure _

theorem yields_parametersText (h : YieldsBelow s t infer infer') :
    Yields s (parametersText infer t) (parametersText infer' t) := by
  unfold parametersText
  cases t.child? .parameter with
  | some single => exact Yields.pure _
  | none =>
    cases hps : t.child? .parameters with
    | none => exact Yields.pure _
    | some ps =>
      refine Yields.bind (Yields.mapM fun p hp => ?_) fun texts _ => Yields.pure _
      have hbelow := mem_descendants_of_mem_namedChildren (List.mem_filter.mp hp).1
      refine yields_parameterText (h.mono (mem_nodes_of_mem_descendants ?_))
      exact descendants_subset (mem_nodes_of_mem_descendants (mem_descendants_of_child? hps)) hbelow

theorem yields_resultText (h : YieldsBelow s t infer infer') :
    Yields s (resultText infer t) (resultText infer' t) := by
  unfold resultText
  cases hb : t.child? .body with
  | none => exact Yields.pure _
  | some body =>
    have hbody := mem_descendants_of_child? hb
    dsimp only
    split
    · cases hr : firstReturn body with
      | none => exact Yields.pure _
      | some value =>
        refine h value (descendants_subset (mem_nodes_of_mem_descendants hbody) ?_)
        exact mem_descendants_of_firstReturn hr
    · exact h body hbody

theorem yields_returnsText (h : YieldsBelow s t infer infer') :
    Yields s (returnsText infer t) (returnsText infer' t) := by
  unfold returnsText
  cases t.child? .returnType with
  | some mark => exact Yields.pure _
  | none => exact Yields.bind (yields_resultText h) fun result _ => Yields.pure _

theorem yields_signatureText (h : YieldsBelow s t infer infer') :
    Yields s (signatureText infer t) (signatureText infer' t) := by
  unfold signatureText
  refine Yields.bind (yields_returnsText h) fun returns _ => ?_
  exact Yields.bind (yields_parametersText h) fun params _ => Yields.pure _

theorem yields_elementTypes (h : YieldsBelow s t infer infer') :
    Yields s (elementTypes infer t) (elementTypes infer' t) := by
  unfold elementTypes
  refine Yields.bind (Yields.mapM fun e he => ?_) fun types _ => Yields.pure _
  unfold elementType
  split
  · exact Yields.pure _
  · exact h e (mem_descendants_of_mem_namedChildren (List.mem_filter.mp he).1)

theorem yields_objectMember? (h : YieldsBelow s t infer infer')
    (hl : YieldsNames s t lookup lookup') :
    Yields s (objectMember? infer lookup t) (objectMember? infer' lookup' t) := by
  unfold objectMember?
  cases hk : t.kind with
  | pair =>
    cases t.child? .key with
    | none => exact Yields.pure _
    | some key =>
      dsimp only
      split
      · exact Yields.pure _
      · cases hv : t.child? .value with
        | none => exact Yields.throw _
        | some value =>
          exact Yields.bind (h value (mem_descendants_of_child? hv)) fun type _ => Yields.pure _
  | shorthandPropertyIdentifier =>
    exact Yields.bind (hl t.text (Tree.text_mem_mentioned (Or.inr hk))) fun type _ => Yields.pure _
  | methodDefinition =>
    cases t.child? .name with
    | none => exact Yields.pure _
    | some name => exact Yields.bind (yields_signatureText h) fun type _ => Yields.pure _
  | _ => exact Yields.pure _

theorem yields_objectText (h : YieldsBelow s t infer infer')
    (hl : YieldsNames s t lookup lookup') :
    Yields s (objectText infer lookup t) (objectText infer' lookup' t) := by
  unfold objectText
  refine Yields.bind (Yields.mapM fun u hu => ?_) fun parts _ => Yields.pure _
  have hnode := mem_nodes_of_mem_descendants (mem_descendants_of_mem_namedChildren hu)
  exact yields_objectMember? (h.mono hnode) (hl.mono hnode)

theorem yields_assertionText (h : YieldsBelow s t infer infer') :
    Yields s (assertionText infer t) (assertionText infer' t) := by
  unfold assertionText
  cases t.children.getLast? with
  | none => exact Yields.throw _
  | some target =>
    dsimp only
    split
    · cases hc : t.namedChildren with
      | nil => exact Yields.throw _
      | cons e es => exact h e (mem_descendants_of_mem_namedChildren (hc ▸ List.mem_cons_self))
    · exact Yields.pure _

/-- **The rule for expressions keeps the record**, when asking about the nodes below and about the
names that are mentioned does. -/
theorem yields_inferStep (h : YieldsBelow s t infer infer') (hl : YieldsNames s t lookup lookup') :
    Yields s (inferStep infer lookup t) (inferStep infer' lookup' t) := by
  unfold inferStep
  cases hk : t.kind with
  | identifier =>
    dsimp only
    split
    · exact Yields.pure _
    · exact Yields.bind (hl t.text (Tree.text_mem_mentioned (Or.inl hk))) fun type _ =>
        Yields.pure _
  | array => exact Yields.bind (yields_elementTypes h) fun types _ => Yields.pure _
  | object => exact yields_objectText h hl
  | arrowFunction | functionExpression | functionKeyword | generatorFunction =>
    exact yields_signatureText h
  | asExpression => exact yields_assertionText h
  | satisfiesExpression | nonNullExpression | parenthesizedExpression =>
    dsimp only
    cases hc : t.namedChildren with
    | nil => exact Yields.pure _
    | cons e es => exact h e (mem_descendants_of_mem_namedChildren (hc ▸ List.mem_cons_self))
  | _ => exact Yields.pure _

/-! ## Rules for interfaces and symbols -/

theorem yields_interfaceMember? (h : YieldsBelow s t infer infer') :
    Yields s (interfaceMember? infer t) (interfaceMember? infer' t) := by
  unfold interfaceMember?
  cases t.child? .name with
  | none => exact Yields.pure _
  | some name =>
    cases t.kind with
    | methodSignature => exact Yields.bind (yields_signatureText h) fun type _ => Yields.pure _
    | _ => exact Yields.pure _

theorem yields_interfaceMembers (h : YieldsBelow s t infer infer') :
    Yields s (interfaceMembers infer t) (interfaceMembers infer' t) := by
  unfold interfaceMembers
  cases hb : t.child? .body with
  | none => exact Yields.pure _
  | some body =>
    refine Yields.bind (Yields.mapM fun u hu => ?_) fun members _ => Yields.pure _
    refine yields_interfaceMember? (h.mono (mem_nodes_of_mem_descendants ?_))
    exact descendants_subset (mem_nodes_of_mem_descendants (mem_descendants_of_child? hb))
      (mem_descendants_of_mem_namedChildren hu)

/-- The tree of a symbol is no higher than the highest of the module. -/
theorem height_le_symbolHeight {symbols : Symbols} {name : Text} {x : Symbol}
    (h : symbols.get? name = some x) : x.tree.height ≤ symbolHeight symbols := by
  refine Tree.height_le_heightList (List.mem_map_of_mem ?_)
  exact List.mem_map_of_mem (Fields.mem_of_lookup h)

theorem get?_of_interfaceTree? {symbols : Symbols} {name : Text} {tree : Tree}
    (h : interfaceTree? symbols name = some tree) : symbols.get? name = some ⟨.interface, tree⟩ := by
  unfold interfaceTree? at h
  split at h
  · cases h
    assumption
  · cases h

variable {symbols : Symbols} {visit : List Text → Tree → Work Visit}
  {visit' : List Text → Tree → Except Fault Visit} {seen : List Text}

/-- Adding a parent leaves no more interfaces to see. -/
theorem pending_parent_le
    (hseen : ∀ seen t v, visit' seen t = .ok v → pending symbols v.seen ≤ pending symbols seen)
    {v w : Visit} {name : Text} (h : v.parent symbols visit' name = .ok w) :
    pending symbols w.seen ≤ pending symbols v.seen := by
  unfold Visit.parent at h
  cases hi : interfaceTree? symbols name with
  | none =>
    simp only [hi] at h
    cases h
    exact Nat.le_refl _
  | some tree =>
    simp only [hi] at h
    split at h
    · cases h
      exact Nat.le_refl _
    · rename_i hc
      obtain ⟨inner, hv, hw⟩ := exists_ok_of_bind h
      cases hw
      have hlt := pending_cons_lt (get?_of_interfaceTree? hi) (by simpa using hc)
      exact Nat.le_trans (hseen _ _ inner hv) (Nat.le_of_lt hlt)

/-- Merging an interface with its parents leaves no more interfaces to see. -/
theorem pending_mergedStep_le
    (hseen : ∀ seen t v, visit' seen t = .ok v → pending symbols v.seen ≤ pending symbols seen)
    {v : Visit} (h : mergedStep infer' symbols visit' seen t = .ok v) :
    pending symbols v.seen ≤ pending symbols seen := by
  unfold mergedStep at h
  obtain ⟨inherited, hparents, hown⟩ := exists_ok_of_bind h
  obtain ⟨own, -, hv⟩ := exists_ok_of_bind hown
  cases hv
  refine keeps_foldlM (fun v => pending symbols v.seen ≤ pending symbols seen) ?_ (Nat.le_refl _)
    hparents
  intro v hv name _ w hw
  exact Nat.le_trans (pending_parent_le hseen hw) hv

theorem yields_parent {v : Visit} {name : Text}
    (hvisit : ∀ seen' u, pending symbols seen' < pending symbols v.seen →
      u.height ≤ symbolHeight symbols → Yields s (visit seen' u) (visit' seen' u)) :
    Yields s (v.parent symbols visit name) (v.parent symbols visit' name) := by
  unfold Visit.parent
  cases hi : interfaceTree? symbols name with
  | none => exact Yields.pure _
  | some tree =>
    have hget := get?_of_interfaceTree? hi
    dsimp only
    split
    · exact Yields.pure _
    · rename_i hc
      refine Yields.bind (hvisit _ _ (pending_cons_lt hget (by simpa using hc)) ?_) fun inner _ =>
        Yields.pure _
      exact height_le_symbolHeight hget

/-- **The rule for interfaces keeps the record**, when asking about the nodes below and visiting
interfaces with more names seen does. -/
theorem yields_mergedStep (h : YieldsBelow s t infer infer')
    (hvisit : ∀ seen' u, pending symbols seen' < pending symbols seen →
      u.height ≤ symbolHeight symbols → Yields s (visit seen' u) (visit' seen' u))
    (hseen : ∀ seen t v, visit' seen t = .ok v → pending symbols v.seen ≤ pending symbols seen) :
    Yields s (mergedStep infer symbols visit seen t) (mergedStep infer' symbols visit' seen t) := by
  unfold mergedStep
  refine Yields.bind ?_ fun inherited _ =>
    Yields.bind (yields_interfaceMembers h) fun own _ => Yields.pure _
  -- along the parents, the interfaces left to see never get more
  refine Yields.foldlM (fun v => pending symbols v.seen ≤ pending symbols seen) ?_ ?_ _
    (Nat.le_refl _)
  · intro v hv name _
    exact yields_parent fun seen' u hlt => hvisit seen' u (Nat.lt_of_lt_of_le hlt hv)
  · intro v hv name _ w hw
    exact Nat.le_trans (pending_parent_le hseen hw) hv

/-- **The rule for symbols keeps the record**, when asking about its nodes and about interfaces
does. An anonymous default export is asked about itself. -/
theorem yields_symbolText {interface : Infer Work} {interface' : Infer (Except Fault)} {x : Symbol}
    (h : ∀ u ∈ x.tree.nodes, Yields s (infer u) (infer' u))
    (hi : Yields s (interface x.tree) (interface' x.tree)) :
    Yields s (symbolText infer interface x) (symbolText infer' interface' x) := by
  have hbelow : YieldsBelow s x.tree infer infer' :=
    fun u hu => h u (mem_nodes_of_mem_descendants hu)
  unfold symbolText
  cases x.kind with
  | var =>
    cases x.tree.child? .type with
    | some mark => exact Yields.pure _
    | none =>
      cases hv : x.tree.child? .value with
      | some value => exact hbelow value (mem_descendants_of_child? hv)
      | none => exact Yields.pure _
  | function => exact yields_signatureText hbelow
  | classType =>
    refine Yields.bind ?_ fun name _ => Yields.pure _
    cases x.tree.child? .name with
    | none => exact Yields.throw _
    | some name => exact Yields.pure _
  | interface => exact hi
  | typeAlias => exact Yields.pure _
  | enumType => exact Yields.ofExcept _
  | expression => exact h x.tree x.tree.mem_nodes_self

end Module

end ExportSchema
