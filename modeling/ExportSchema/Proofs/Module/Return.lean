import ExportSchema.Module.Inference
import ExportSchema.Proofs.Tree
import Mathlib.Data.List.Lex

/-!
# The return statement of a function

A function without an annotated result has the type of the first value that its body returns. The
search for it passes by the functions and classes inside the body, but it goes into the methods of
object literals and into class expressions. So what it finds is the function's own iff no method and
no class expression stands around it.

A place in a tree is the way down to it, child by child. Places are ordered as lists are, so that a
node comes in front of what is below it and of what stands behind it.

* `Tree.way?`: the nodes on the way to a place.
* `ReturnsAt`, `FirstReturnAt`: the return statements with a value that no scope keeps in, and the
  first of them.
* `returns`: all of them, in source order.

Results:
* `mem_returns`, `sorted_returns`: the list of return statements is complete and in order.
* `firstReturn_eq`: the search finds the first one.
* `first_return_own_iff`: when it is the function's own.
-/

namespace ExportSchema

/-- The nodes on the way down to a place, the node at the place last. -/
def Tree.way? : Tree → List Nat → Option (List Tree)
  | _, [] => some []
  | t, i :: p => t.children[i]?.bind fun u => (u.way? p).map (u :: ·)

namespace Module

variable {opens : Kind → Bool} {t u v : Tree} {p q : List Nat} {ts : List Tree} {i : Nat}

/-! ## Return statements -/

/-- Functions, methods and classes have return statements of their own. -/
def opensFunction (k : Kind) : Bool :=
  opensScope k || k = .methodDefinition || k = .classExpression

/-- At the place `p` below `t` the value `v` is returned, and no node on the way opens a scope. -/
def ReturnsAt (opens : Kind → Bool) (t : Tree) (p : List Nat) (v : Tree) : Prop :=
  ∃ between r, t.way? p = some (between ++ [r]) ∧ (∀ u ∈ between, opens u.kind = false) ∧
    r.kind = .returnStatement ∧ returnedValue? r = some v

/-- Of the values that are returned below `t`, the one at the place `p` is the first. -/
def FirstReturnAt (opens : Kind → Bool) (t : Tree) (p : List Nat) (v : Tree) : Prop :=
  ReturnsAt opens t p v ∧ ∀ q w, ReturnsAt opens t q w → ¬ q < p

theorem not_returnsAt_nil : ¬ ReturnsAt opens t [] v := by
  rintro ⟨between, r, hway, -⟩
  cases between <;> cases hway

theorem returnsAt_cons : ReturnsAt opens t (i :: p) v ↔ ∃ u, t.children[i]? = some u ∧
    ((p = [] ∧ u.kind = .returnStatement ∧ returnedValue? u = some v) ∨
      (opens u.kind = false ∧ ReturnsAt opens u p v)) := by
  constructor
  · rintro ⟨between, r, hway, hopens, hr⟩
    obtain ⟨u, hu, hway⟩ := Option.bind_eq_some_iff.mp hway
    obtain ⟨way, hway, hsplit⟩ := Option.map_eq_some_iff.mp hway
    refine ⟨u, hu, ?_⟩
    cases between with
    | nil =>
      cases hsplit
      refine Or.inl ⟨?_, hr⟩
      cases p with
      | nil => rfl
      | cons j p =>
        obtain ⟨w, -, hw⟩ := Option.bind_eq_some_iff.mp hway
        obtain ⟨_, -, hw⟩ := Option.map_eq_some_iff.mp hw
        cases hw
    | cons b between =>
      cases hsplit
      obtain ⟨hb, hopens⟩ := List.forall_mem_cons.mp hopens
      exact Or.inr ⟨hb, between, r, hway, hopens, hr⟩
  · rintro ⟨u, hu, ⟨rfl, hr⟩ | ⟨hopen, between, r, hway, hopens, hr⟩⟩
    · exact ⟨[], u, by rw [Tree.way?, hu]; rfl, by simp, hr⟩
    · refine ⟨u :: between, r, ?_, List.forall_mem_cons.mpr ⟨hopen, hopens⟩, hr⟩
      rw [Tree.way?, hu, Option.bind_some, hway]
      rfl

theorem ReturnsAt.mono {opens' : Kind → Bool} (h : ReturnsAt opens t p v)
    (hle : ∀ k, opens k = false → opens' k = false) : ReturnsAt opens' t p v := by
  obtain ⟨between, r, hway, hopens, hr⟩ := h
  exact ⟨between, r, hway, fun u hu => hle _ (hopens u hu), hr⟩

/-! ## All return statements in source order -/

/-- The values that are returned at the child `t`, which is number `i`, or below it; `inner` are
those below. -/
def childReturns (opens : Kind → Bool) (i : Nat) (t : Tree) (inner : List (List Nat × Tree)) :
    List (List Nat × Tree) :=
  (if t.kind = .returnStatement then (returnedValue? t).toList.map ([i], ·) else []) ++
    (if opens t.kind then [] else inner.map fun e => (i :: e.1, e.2))

mutual
/-- The values that are returned below a node, each with its place. -/
def returns (opens : Kind → Bool) : Tree → List (List Nat × Tree)
  | ⟨_, _, _, _, children⟩ => returnsFrom opens 0 children
/-- The values that are returned in children from number `i` on. -/
def returnsFrom (opens : Kind → Bool) (i : Nat) : List Tree → List (List Nat × Tree)
  | [] => []
  | t :: ts => childReturns opens i t (returns opens t) ++ returnsFrom opens (i + 1) ts
end

theorem returns_eq (t : Tree) : returns opens t = returnsFrom opens 0 t.children := by
  cases t
  rw [returns]

theorem mem_childReturns {inner : List (List Nat × Tree)}
    (h : ∀ q v, (q, v) ∈ inner ↔ ReturnsAt opens t q v) :
    (p, v) ∈ childReturns opens i t inner ↔ ∃ q, p = i :: q ∧
      ((q = [] ∧ t.kind = .returnStatement ∧ returnedValue? t = some v) ∨
        (opens t.kind = false ∧ ReturnsAt opens t q v)) := by
  have hself : (p, v) ∈ (if t.kind = .returnStatement then
      (returnedValue? t).toList.map ([i], ·) else []) ↔
      p = [i] ∧ t.kind = .returnStatement ∧ returnedValue? t = some v := by
    split
    · simp [*, eq_comm, and_comm]
    · simp [*]
  have hinner : (p, v) ∈ (if opens t.kind then [] else inner.map fun e => (i :: e.1, e.2)) ↔
      ∃ q, p = i :: q ∧ opens t.kind = false ∧ ReturnsAt opens t q v := by
    split
    · simp [*]
    · simp only [List.mem_map, Prod.exists, Prod.mk.injEq, h]
      constructor
      · rintro ⟨q, w, hq, rfl, rfl⟩
        exact ⟨q, rfl, by simpa using ‹¬ opens t.kind = true›, hq⟩
      · rintro ⟨q, rfl, -, hq⟩
        exact ⟨q, v, hq, rfl, rfl⟩
  rw [childReturns, List.mem_append, hself, hinner]
  constructor
  · rintro (⟨rfl, hr⟩ | ⟨q, rfl, hq⟩)
    · exact ⟨[], rfl, Or.inl ⟨rfl, hr⟩⟩
    · exact ⟨q, rfl, Or.inr hq⟩
  · rintro ⟨q, rfl, ⟨rfl, hr⟩ | hq⟩
    · exact Or.inl ⟨rfl, hr⟩
    · exact Or.inr ⟨q, rfl, hq⟩

mutual
/-- **The list of return statements is complete.** -/
theorem mem_returns {t v : Tree} {p : List Nat} :
    (p, v) ∈ returns opens t ↔ ReturnsAt opens t p v := by
  obtain ⟨kind, named, field, text, children⟩ := t
  rw [returns, mem_returnsFrom]
  constructor
  · rintro ⟨k, u, q, hu, rfl, h⟩
    exact returnsAt_cons.mpr ⟨u, by rwa [Nat.zero_add], h⟩
  · intro h
    cases p with
    | nil => exact absurd h not_returnsAt_nil
    | cons i p =>
      obtain ⟨u, hu, h⟩ := returnsAt_cons.mp h
      exact ⟨i, u, p, hu, by rw [Nat.zero_add], h⟩
theorem mem_returnsFrom {ts : List Tree} {v : Tree} {p : List Nat} {i : Nat} :
    (p, v) ∈ returnsFrom opens i ts ↔ ∃ k u q, ts[k]? = some u ∧ p = (i + k) :: q ∧
      ((q = [] ∧ u.kind = .returnStatement ∧ returnedValue? u = some v) ∨
        (opens u.kind = false ∧ ReturnsAt opens u q v)) := by
  cases ts with
  | nil => simp [returnsFrom]
  | cons t ts =>
    rw [returnsFrom, List.mem_append, mem_childReturns fun q w => mem_returns, mem_returnsFrom]
    constructor
    · rintro (⟨q, rfl, h⟩ | ⟨k, u, q, hu, rfl, h⟩)
      · exact ⟨0, t, q, rfl, rfl, h⟩
      · exact ⟨k + 1, u, q, by simpa using hu, by rw [Nat.add_assoc, Nat.add_comm 1], h⟩
    · rintro ⟨k, u, q, hu, rfl, h⟩
      cases k with
      | zero =>
        obtain rfl : t = u := by simpa using hu
        exact Or.inl ⟨q, rfl, h⟩
      | succ k =>
        exact Or.inr ⟨k, u, q, by simpa using hu, by rw [Nat.add_assoc, Nat.add_comm 1], h⟩
end

theorem sorted_childReturns {inner : List (List Nat × Tree)} (h : inner.Pairwise (·.1 < ·.1))
    (hinner : ∀ e ∈ inner, e.1 ≠ []) : (childReturns opens i t inner).Pairwise (·.1 < ·.1) := by
  rw [childReturns, List.pairwise_append]
  refine ⟨?_, ?_, ?_⟩
  · split
    · cases returnedValue? t <;> simp
    · exact .nil
  · split
    · exact .nil
    · exact List.pairwise_map.mpr (h.imp fun hlt => List.cons_lt_cons_iff.mpr (Or.inr ⟨rfl, hlt⟩))
  · intro a ha b hb
    split at ha
    · split at hb
      · cases hb
      · obtain ⟨w, -, rfl⟩ := List.mem_map.mp ha
        obtain ⟨e, he, rfl⟩ := List.mem_map.mp hb
        obtain ⟨j, q, hq⟩ := List.exists_cons_of_ne_nil (hinner e he)
        refine List.cons_lt_cons_iff.mpr (Or.inr ⟨rfl, ?_⟩)
        rw [hq]
        exact List.nil_lt_cons j q
    · cases ha

mutual
/-- **The return statements stand in source order.** -/
theorem sorted_returns (opens : Kind → Bool) (t : Tree) :
    (returns opens t).Pairwise (·.1 < ·.1) := by
  obtain ⟨kind, named, field, text, children⟩ := t
  rw [returns]
  exact sorted_returnsFrom opens 0 children
theorem sorted_returnsFrom (opens : Kind → Bool) (i : Nat) (ts : List Tree) :
    (returnsFrom opens i ts).Pairwise (·.1 < ·.1) := by
  cases ts with
  | nil => exact .nil
  | cons t ts =>
    rw [returnsFrom, List.pairwise_append]
    refine ⟨sorted_childReturns (sorted_returns opens t) ?_, sorted_returnsFrom opens _ ts, ?_⟩
    · rintro ⟨q, w⟩ he rfl
      exact not_returnsAt_nil (mem_returns.mp he)
    · rintro ⟨p, v⟩ hp ⟨q, w⟩ hq
      obtain ⟨p, rfl, -⟩ := (mem_childReturns fun q w => mem_returns).mp hp
      obtain ⟨k, u, q, -, rfl, -⟩ := mem_returnsFrom.mp hq
      exact List.cons_lt_cons_iff.mpr (Or.inl (by omega))
end

/-- The first return statement is the head of the list. -/
theorem firstReturnAt_iff : FirstReturnAt opens t p v ↔ (returns opens t).head? = some (p, v) := by
  have hsorted := sorted_returns opens t
  have hmem : ∀ q w, (q, w) ∈ returns opens t ↔ ReturnsAt opens t q w := fun q w => mem_returns
  unfold FirstReturnAt
  simp only [← hmem]
  cases hl : returns opens t with
  | nil => simp
  | cons e es =>
    rw [hl] at hsorted
    obtain ⟨hfirst, -⟩ := List.pairwise_cons.mp hsorted
    rw [List.head?_cons, Option.some.injEq]
    constructor
    · rintro ⟨hp, hmin⟩
      rcases List.mem_cons.mp hp with hp | hp
      · exact hp.symm
      · exact absurd (hfirst _ hp) (hmin e.1 e.2 List.mem_cons_self)
    · rintro rfl
      refine ⟨List.mem_cons_self, fun q w hq => ?_⟩
      rcases List.mem_cons.mp hq with hq | hq
      · cases hq
        exact List.lt_irrefl _
      · exact List.lt_asymm (hfirst _ hq)

/-! ## What the search finds -/

/-- Punctuation, keywords and comments have nothing below them, as in every tree of a parser. -/
def LeafTokens (t : Tree) : Prop :=
  ∀ u ∈ t.nodes, (u.named = false ∨ u.kind = .comment) → u.children = []

theorem returns_of_leaf (h : t.children = []) : returns opens t = [] := by
  rw [returns_eq, h, returnsFrom]

theorem returnedValue?_of_leaf (h : t.children = []) : returnedValue? t = none := by
  unfold returnedValue? Tree.namedChildren
  rw [h]
  rfl

theorem childReturns_of_leaf (h : t.children = []) :
    childReturns opens i t (returns opens t) = [] := by
  rw [childReturns, returns_of_leaf h, returnedValue?_of_leaf h]
  simp

/-- Nothing is returned below a return statement without a value: it holds comments only. -/
theorem returns_of_noValue (hleaf : LeafTokens t) (h : returnedValue? t = none) :
    returns opens t = [] := by
  have hchildren : ∀ u ∈ t.children, u.children = [] := by
    intro u hu
    refine hleaf u (Tree.mem_nodes_of_mem_descendants (Tree.mem_descendants_of_mem hu)) ?_
    have hnone := List.filter_eq_nil_iff.mp (List.head?_eq_none_iff.mp h) u
    cases hnamed : u.named with
    | false => exact Or.inl rfl
    | true => exact Or.inr (by simpa using hnone (List.mem_filter.mpr ⟨hu, hnamed⟩))
  have hfrom : ∀ i, ∀ ts : List Tree, (∀ u ∈ ts, u.children = []) →
      returnsFrom opens i ts = [] := by
    intro i ts hts
    induction ts generalizing i with
    | nil => rw [returnsFrom]
    | cons u ts ih =>
      obtain ⟨hu, hts⟩ := List.forall_mem_cons.mp hts
      rw [returnsFrom, childReturns_of_leaf hu, ih _ hts, List.append_nil]
  rw [returns_eq, hfrom 0 t.children hchildren]

theorem LeafTokens.mono (h : LeafTokens t) (hu : u ∈ t.nodes) : LeafTokens u :=
  fun w hw => h w (Tree.mem_nodes_trans hu hw)

mutual
/-- **The search finds the first return statement** with a value outside the functions and classes
that it passes by. -/
theorem firstReturn_eq {t : Tree} (h : LeafTokens t) :
    firstReturn t = (returns opensScope t).head?.map (·.2) := by
  obtain ⟨kind, named, field, text, children⟩ := t
  rw [firstReturn, returns]
  refine firstReturnIn_eq 0 fun u hu => h.mono ?_
  exact Tree.mem_nodes_of_mem_descendants (Tree.mem_descendants_of_mem hu)
theorem firstReturnIn_eq {ts : List Tree} (i : Nat) (h : ∀ t ∈ ts, LeafTokens t) :
    firstReturnIn ts = (returnsFrom opensScope i ts).head?.map (·.2) := by
  cases ts with
  | nil => rw [firstReturnIn, returnsFrom]; rfl
  | cons t ts =>
    obtain ⟨ht, hts⟩ := List.forall_mem_cons.mp h
    have hrest := firstReturnIn_eq (i + 1) hts
    have hbelow := firstReturn_eq ht
    rw [firstReturnIn, returnsFrom, List.head?_append, Option.map_or, ← hrest]
    split
    · rename_i hnamed
      have hleaf := ht t t.mem_nodes_self (Or.inl (by simpa using hnamed))
      rw [childReturns_of_leaf hleaf]
      rfl
    · split
      · rename_i hkind
        refine congrArg (Option.or · (firstReturnIn ts)) ?_
        cases hv : returnedValue? t with
        | none =>
          rw [childReturns, hv, returns_of_noValue ht hv]
          simp
        | some v => simp [childReturns, hkind, hv]
      · rename_i hkind
        split
        · rename_i hopens
          simp [childReturns, hkind, hopens]
        · rename_i hopens
          rw [hbelow]
          simp [childReturns, hkind, hopens, List.head?_map, Option.map_map, Function.comp_def]
end

/-! ## The function's own return statement -/

theorem opensFunction_eq_false_iff {k : Kind} : opensFunction k = false ↔
    opensScope k = false ∧ k ≠ .methodDefinition ∧ k ≠ .classExpression := by
  simp [opensFunction, and_assoc]

/-- Without a method and a class expression on the way, a return statement is the function's own. -/
theorem returnsAt_own_iff (h : ReturnsAt opensScope t p v) : ReturnsAt opensFunction t p v ↔
    ∀ way, t.way? p = some way →
      ∀ u ∈ way, u.kind ≠ .methodDefinition ∧ u.kind ≠ .classExpression := by
  obtain ⟨between, r, hway, hopens, hkind, hv⟩ := h
  constructor
  · rintro ⟨between', r', hway', hown, hkind', -⟩ way hsame u hu
    cases hway'.symm.trans hsame
    rcases List.mem_append.mp hu with hu | hu
    · exact (opensFunction_eq_false_iff.mp (hown u hu)).2
    · rw [List.mem_singleton.mp hu, hkind']
      decide
  · intro hall
    refine ⟨between, r, hway, fun u hu => ?_, hkind, hv⟩
    refine opensFunction_eq_false_iff.mpr ⟨hopens u hu, ?_⟩
    exact hall _ hway u (List.mem_append_left _ hu)

/-- **When the value that is found is returned by the function itself.** What is found is the first
value that is returned outside the functions and classes that are passed by. It is the first value
that the function returns iff no method and no class expression is on the way to it. When nothing is
found, the function returns no value. -/
theorem first_return_own_iff {body : Tree} (h : LeafTokens body) :
    (∀ v, firstReturn body = some v ↔ ∃ p, FirstReturnAt opensScope body p v) ∧
    (∀ p v, FirstReturnAt opensScope body p v →
      (FirstReturnAt opensFunction body p v ↔ ∀ way, body.way? p = some way →
        ∀ u ∈ way, u.kind ≠ .methodDefinition ∧ u.kind ≠ .classExpression)) ∧
    (firstReturn body = none → ∀ p v, ¬ ReturnsAt opensFunction body p v) := by
  have hfound := firstReturn_eq h
  have hwider : ∀ p v, ReturnsAt opensFunction body p v → ReturnsAt opensScope body p v :=
    fun p v hv => hv.mono fun k hk => (opensFunction_eq_false_iff.mp hk).1
  refine ⟨fun v => ?_, fun p v hfirst => ?_, fun hnone p v hv => ?_⟩
  · simp only [firstReturnAt_iff, hfound, Option.map_eq_some_iff, Prod.exists, exists_eq_right]
  · rw [← returnsAt_own_iff hfirst.1]
    exact ⟨And.left, fun hown => ⟨hown, fun q w hq => hfirst.2 q w (hwider q w hq)⟩⟩
  · rw [hfound, Option.map_eq_none_iff, List.head?_eq_none_iff] at hnone
    have hmem := mem_returns.mpr (hwider p v hv)
    rw [hnone] at hmem
    cases hmem

/-- In `{ const g = () => { return 1 }; if (c) { return /* */ } return 'x' }` the arrow function and
the return statement without a value are passed by. -/
theorem first_return_own_of_nested :
    let token (text : String) : Tree := ⟨.other, false, none, text.toList, []⟩
    let node (kind : Kind) (field : Option Field) (children : List Tree) : Tree :=
      ⟨kind, true, field, [], children⟩
    let one := node .number none []
    let x := node .string none [token "'", node .other none [], token "'"]
    let block (field : Option Field) (statements : List Tree) : Tree :=
      node .statementBlock field (token "\x7b" :: statements ++ [token "\x7d"])
    let arrow := node .arrowFunction (some .value) [node .other (some .parameters) [], token "=>",
      block (some .body) [node .returnStatement none [token "return", one]]]
    let body := block (some .body) [
      node .lexicalDeclaration none [token "const",
        node .variableDeclarator none [node .identifier (some .name) [], token "=", arrow]],
      node .other none [token "if", node .parenthesizedExpression none [],
        block none [node .returnStatement none [token "return", node .comment none []]]],
      node .returnStatement none [token "return", x]]
    LeafTokens body ∧ firstReturn body = some x ∧ FirstReturnAt opensFunction body [3] x := by
  intro token node one x block arrow body
  have hleaf : LeafTokens body := by
    unfold LeafTokens
    decide
  have hfirst : FirstReturnAt opensScope body [3] x := firstReturnAt_iff.mpr rfl
  obtain ⟨hfound, hown, -⟩ := first_return_own_iff hleaf
  refine ⟨hleaf, (hfound x).mpr ⟨_, hfirst⟩, (hown _ _ hfirst).mpr fun way hway => ?_⟩
  cases hway
  decide

/-- **The return statement of a method is found**: the search in
`{ const o = { m() { return 1 } }; return 'x' }` finds `1`, but the first value that the function
returns is `'x'`. -/
theorem first_return_of_method :
    let token (text : String) : Tree := ⟨.other, false, none, text.toList, []⟩
    let node (kind : Kind) (field : Option Field) (children : List Tree) : Tree :=
      ⟨kind, true, field, [], children⟩
    let one := node .number none []
    let x := node .string none [token "'", node .other none [], token "'"]
    let block (statements : List Tree) : Tree :=
      node .statementBlock (some .body) (token "\x7b" :: statements ++ [token "\x7d"])
    let method := node .methodDefinition none [node .propertyIdentifier (some .name) [],
      node .other (some .parameters) [token "(", token ")"],
      block [node .returnStatement none [token "return", one]]]
    let body := block [
      node .lexicalDeclaration none [token "const",
        node .variableDeclarator none [node .identifier (some .name) [], token "=",
          node .object (some .value) [token "\x7b", method, token "\x7d"]], token ";"],
      node .returnStatement none [token "return", x]]
    LeafTokens body ∧ firstReturn body = some one ∧ FirstReturnAt opensFunction body [2] x ∧
      ¬ ∃ p, FirstReturnAt opensFunction body p one := by
  intro token node one x block method body
  have hleaf : LeafTokens body := by
    unfold LeafTokens
    decide
  have hown : (returns opensFunction body).head? = some ([2], x) := rfl
  refine ⟨hleaf, rfl, firstReturnAt_iff.mpr hown, ?_⟩
  rintro ⟨p, hp⟩
  rw [firstReturnAt_iff, hown] at hp
  have hkind : Kind.string = .number := congrArg (·.2.kind) (Option.some.inj hp)
  cases hkind

end Module

end ExportSchema
