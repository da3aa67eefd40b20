import ExportSchema.Tree.Basic

/-!
# The nodes of a tree

* `Tree.nodes`: a node and all nodes below it, in source order.
* `Tree.descendants`: the nodes below it.

Results:
* `mem_nodes_trans`, `descendants_subset`: what is below a node of a tree is below the tree.
* `mem_descendants_of_child?`, `mem_descendants_of_mem_namedChildren`: what is found among the
  children is below.
* `height_lt_of_mem_descendants`: what is below is lower.
-/

namespace ExportSchema.Tree

mutual
/-- A node and all nodes below it, in source order. -/
def nodes : Tree → List Tree
  | ⟨kind, named, field, text, children⟩ =>
    ⟨kind, named, field, text, children⟩ :: nodesList children
/-- The nodes of several trees. -/
def nodesList : List Tree → List Tree
  | [] => []
  | t :: ts => nodes t ++ nodesList ts
end

/-- The nodes below a node, in source order. -/
def descendants (t : Tree) : List Tree := nodesList t.children

variable {t u v : Tree} {ts : List Tree}

theorem nodes_eq (t : Tree) : t.nodes = t :: t.descendants := by
  cases t
  rw [nodes]
  rfl

theorem mem_nodesList : u ∈ nodesList ts ↔ ∃ t ∈ ts, u ∈ t.nodes := by
  induction ts with
  | nil => simp [nodesList]
  | cons t ts ih => simp [nodesList, ih]

theorem mem_descendants : u ∈ t.descendants ↔ ∃ c ∈ t.children, u ∈ c.nodes := mem_nodesList

theorem mem_nodes : u ∈ t.nodes ↔ u = t ∨ u ∈ t.descendants := by
  rw [nodes_eq, List.mem_cons]

theorem mem_nodes_self (t : Tree) : t ∈ t.nodes := mem_nodes.mpr (Or.inl rfl)

theorem mem_nodes_of_mem_descendants (h : u ∈ t.descendants) : u ∈ t.nodes :=
  mem_nodes.mpr (Or.inr h)

theorem mem_descendants_of_mem (h : u ∈ t.children) : u ∈ t.descendants :=
  mem_descendants.mpr ⟨u, h, mem_nodes_self u⟩

theorem mem_descendants_of_child? {f : Field} (h : t.child? f = some u) : u ∈ t.descendants :=
  mem_descendants_of_mem (List.mem_of_find?_eq_some h)

theorem mem_descendants_of_mem_namedChildren (h : u ∈ t.namedChildren) : u ∈ t.descendants :=
  mem_descendants_of_mem (List.mem_filter.mp h).1

mutual
/-- The nodes of a node of a tree are nodes of the tree. -/
theorem mem_nodes_trans {t u v : Tree} (hu : u ∈ t.nodes) (hv : v ∈ u.nodes) : v ∈ t.nodes := by
  obtain ⟨kind, named, field, text, children⟩ := t
  rw [nodes] at hu ⊢
  rcases List.mem_cons.mp hu with rfl | hu
  · rwa [nodes] at hv
  · exact List.mem_cons_of_mem _ (mem_nodesList_trans hu hv)
theorem mem_nodesList_trans {ts : List Tree} {u v : Tree} (hu : u ∈ nodesList ts)
    (hv : v ∈ u.nodes) : v ∈ nodesList ts := by
  cases ts with
  | nil => cases hu
  | cons t ts =>
    rw [nodesList] at hu ⊢
    rcases List.mem_append.mp hu with hu | hu
    · exact List.mem_append_left _ (mem_nodes_trans hu hv)
    · exact List.mem_append_right _ (mem_nodesList_trans hu hv)
end

theorem mem_descendants_trans (hu : u ∈ t.descendants) (hv : v ∈ u.nodes) : v ∈ t.descendants :=
  mem_nodesList_trans hu hv

/-- What is below a node of a tree is below the tree. -/
theorem descendants_subset (hu : u ∈ t.nodes) (hv : v ∈ u.descendants) : v ∈ t.descendants := by
  rcases mem_nodes.mp hu with rfl | hu
  · exact hv
  · exact mem_descendants_trans hu (mem_nodes_of_mem_descendants hv)

/-! ## Heights -/

theorem height_le_heightList (h : t ∈ ts) : t.height ≤ heightList ts := by
  induction ts with
  | nil => cases h
  | cons u us ih =>
    rw [heightList]
    rcases List.mem_cons.mp h with rfl | h
    · exact Nat.le_max_left _ _
    · exact Nat.le_trans (ih h) (Nat.le_max_right _ _)

theorem height_eq (t : Tree) : t.height = heightList t.children + 1 := by
  cases t
  rw [height]

mutual
theorem height_le_of_mem_nodes {t u : Tree} (h : u ∈ t.nodes) : u.height ≤ t.height := by
  obtain ⟨kind, named, field, text, children⟩ := t
  rw [nodes] at h
  rcases List.mem_cons.mp h with rfl | h
  · exact Nat.le_refl _
  · rw [height]
    exact Nat.le_succ_of_le (height_le_of_mem_nodesList h)
theorem height_le_of_mem_nodesList {ts : List Tree} {u : Tree} (h : u ∈ nodesList ts) :
    u.height ≤ heightList ts := by
  cases ts with
  | nil => cases h
  | cons t ts =>
    rw [nodesList] at h
    rw [heightList]
    rcases List.mem_append.mp h with h | h
    · exact Nat.le_trans (height_le_of_mem_nodes h) (Nat.le_max_left _ _)
    · exact Nat.le_trans (height_le_of_mem_nodesList h) (Nat.le_max_right _ _)
end

theorem height_lt_of_mem_descendants (h : u ∈ t.descendants) : u.height < t.height := by
  rw [height_eq t]
  exact Nat.lt_succ_of_le (height_le_of_mem_nodesList h)

end ExportSchema.Tree
