import Mathlib.Data.List.Sigma
import Mathlib.Data.Set.Insert

/-!
# Prefix trees

A prefix tree has a value at every node and its children under keys.  Two
updates reach a node along a path: `update` creates the nodes that are missing,
with a given empty value, and `updateExisting` stops without a change at the
first one that is missing.

What such a tree stands for is the function `valueAt`, from paths to values,
where a missing node counts as an empty one.  Both updates change this function
at their own path and nowhere else (`valueAt_update`, `valueAt_updateExisting`):
prefixes and extensions of the path keep their values.  The paths that reach a
node are `nodes`: only `update` adds to them, all prefixes of its path
(`nodes_update`, `nodes_updateExisting`).
-/

universe u v

/-- A tree with a value of type `ν` at each node. -/
inductive PrefixTree (κ : Type u) (ν : Type v)
  | node (children : List (Σ _ : κ, PrefixTree κ ν)) (value : ν)

namespace PrefixTree

variable {κ : Type u} {ν : Type v}

/-- A node without children. -/
def leaf (value : ν) : PrefixTree κ ν := node [] value

variable [DecidableEq κ]

/-- The value of the node at the end of a path, if there is one. -/
def find : List κ → PrefixTree κ ν → Option ν
  | [], node _ value => some value
  | k :: path, node children _ =>
    match children.dlookup k with
    | none => none
    | some child => find path child

/-- Changes the value at the end of a path, on nodes created on demand. -/
def update (empty : ν) (f : ν → ν) : List κ → PrefixTree κ ν → PrefixTree κ ν
  | [], node children value => node children (f value)
  | k :: path, node children value =>
    node (children.kinsert k (update empty f path ((children.dlookup k).getD (leaf empty)))) value

/-- Changes the value at the end of a path, if the path exists. -/
def updateExisting (f : ν → ν) : List κ → PrefixTree κ ν → PrefixTree κ ν
  | [], node children value => node children (f value)
  | k :: path, node children value =>
    match children.dlookup k with
    | none => node children value
    | some child => node (children.kinsert k (updateExisting f path child)) value

/-- The value at a path, a missing node counting as an empty one. -/
def valueAt (empty : ν) (t : PrefixTree κ ν) (path : List κ) : ν := (find path t).getD empty

@[simp] theorem valueAt_nil (empty : ν) (children : List (Σ _ : κ, PrefixTree κ ν)) (value : ν) :
    valueAt empty (node children value) [] = value := rfl

theorem valueAt_leaf (empty : ν) : ∀ path : List κ, valueAt empty (leaf empty) path = empty := by
  intro path
  cases path with
  | nil => rfl
  | cons k path => rfl

theorem valueAt_cons (empty : ν) (children : List (Σ _ : κ, PrefixTree κ ν)) (value : ν) (k : κ)
    (path : List κ) : valueAt empty (node children value) (k :: path)
      = valueAt empty ((children.dlookup k).getD (leaf empty)) path := by
  cases h : children.dlookup k with
  | none =>
    rw [Option.getD_none, valueAt_leaf]
    simp [valueAt, find, h]
  | some child => simp [valueAt, find, h]

theorem dlookup_kinsert_other {k k' : κ} (h : k' ≠ k) (child : PrefixTree κ ν)
    (children : List (Σ _ : κ, PrefixTree κ ν)) :
    (children.kinsert k child).dlookup k' = children.dlookup k' :=
  List.dlookup_kinsert_ne h

/-- **`update` changes the value at its own path only.** -/
theorem valueAt_update (empty : ν) (f : ν → ν) : ∀ (path path' : List κ) (t : PrefixTree κ ν),
    valueAt empty (update empty f path t) path'
      = if path' = path then f (valueAt empty t path) else valueAt empty t path' := by
  intro path
  induction path with
  | nil =>
    intro path' t
    obtain ⟨children, value⟩ := t
    cases path' with
    | nil => simp [update]
    | cons k rest => rw [update, valueAt_cons, if_neg (by simp), valueAt_cons]
  | cons k path ih =>
    intro path' t
    obtain ⟨children, value⟩ := t
    cases path' with
    | nil => rw [update, if_neg (by simp)]; rfl
    | cons k' rest =>
      rw [update, valueAt_cons, valueAt_cons, valueAt_cons]
      by_cases hk : k' = k
      · subst hk
        rw [List.dlookup_kinsert, Option.getD_some, ih]
        simp
      · rw [dlookup_kinsert_other hk, if_neg (by simp [hk])]

/-- **`updateExisting` changes the value at its own path only**, for a change that
leaves the empty value alone. -/
theorem valueAt_updateExisting {empty : ν} {f : ν → ν} (hf : f empty = empty) :
    ∀ (path path' : List κ) (t : PrefixTree κ ν),
      valueAt empty (updateExisting f path t) path'
        = if path' = path then f (valueAt empty t path) else valueAt empty t path' := by
  intro path
  induction path with
  | nil =>
    intro path' t
    obtain ⟨children, value⟩ := t
    cases path' with
    | nil => simp [updateExisting]
    | cons k rest => rw [updateExisting, valueAt_cons, if_neg (by simp), valueAt_cons]
  | cons k path ih =>
    intro path' t
    obtain ⟨children, value⟩ := t
    rw [updateExisting]
    cases hc : children.dlookup k with
    | none =>
      -- the path leaves the tree, so the value there is the empty one
      have hempty : valueAt empty (node children value) (k :: path) = empty := by
        rw [valueAt_cons, hc, Option.getD_none, valueAt_leaf]
      by_cases hp : path' = k :: path
      · rw [if_pos hp, hp, hempty, hf]
      · rw [if_neg hp]
    | some child =>
      dsimp only
      cases path' with
      | nil => rw [if_neg (by simp)]; rfl
      | cons k' rest =>
        rw [valueAt_cons, valueAt_cons, valueAt_cons]
        by_cases hk : k' = k
        · subst hk
          rw [List.dlookup_kinsert, hc, Option.getD_some, Option.getD_some, ih]
          simp
        · rw [dlookup_kinsert_other hk, if_neg (by simp [hk])]

/-! ### Nodes -/

/-- The nodes of a tree, as the paths that reach them. -/
def nodes (t : PrefixTree κ ν) : Set (List κ) := { path | (find path t).isSome }

theorem nil_mem_nodes (t : PrefixTree κ ν) : [] ∈ t.nodes := by
  obtain ⟨children, value⟩ := t
  rfl

theorem cons_mem_nodes {children : List (Σ _ : κ, PrefixTree κ ν)} {value : ν} {k : κ}
    {path : List κ} : k :: path ∈ (node children value).nodes
      ↔ ∃ child, children.dlookup k = some child ∧ path ∈ child.nodes := by
  rw [nodes, Set.mem_ofPred_eq, find]
  cases children.dlookup k with
  | none => simp
  | some child => simp [nodes]

theorem nodes_leaf (value : ν) : (leaf value : PrefixTree κ ν).nodes = {[]} := by
  ext path
  cases path with
  | nil => exact iff_of_true (nil_mem_nodes _) rfl
  | cons k path => rw [leaf, cons_mem_nodes]; simp

/-- **`update` makes the nodes along its path**, and takes none away. -/
theorem nodes_update (empty : ν) (f : ν → ν) : ∀ (path : List κ) (t : PrefixTree κ ν),
    (update empty f path t).nodes = t.nodes ∪ { path' | path' <+: path } := by
  intro path
  induction path with
  | nil =>
    rintro ⟨children, value⟩
    ext path'
    cases path' with
    | nil => exact iff_of_true (nil_mem_nodes _) (.inl (nil_mem_nodes _))
    | cons k rest => rw [update, cons_mem_nodes, Set.mem_union, cons_mem_nodes]; simp
  | cons k path ih =>
    rintro ⟨children, value⟩
    ext path'
    cases path' with
    | nil => exact iff_of_true (nil_mem_nodes _) (.inl (nil_mem_nodes _))
    | cons k' rest =>
      rw [update, cons_mem_nodes, Set.mem_union, cons_mem_nodes, Set.mem_ofPred_eq,
        List.cons_prefix_cons]
      by_cases hk : k' = k
      · subst hk
        rw [List.dlookup_kinsert]
        cases children.dlookup k' with
        | none =>
          -- a child made here has the root only, a prefix of every path
          simp only [Option.getD_none, Option.some.injEq, exists_eq_left', ih, nodes_leaf]
          simp only [Set.mem_union, Set.mem_singleton_iff, Set.mem_ofPred_eq, reduceCtorEq,
            false_and, exists_false, false_or, true_and, or_iff_right_iff_imp]
          rintro rfl
          exact List.nil_prefix
        | some child => simp [ih]
      · rw [dlookup_kinsert_other hk]
        simp [hk]

/-- `updateExisting` neither makes nor takes away a node. -/
theorem nodes_updateExisting (f : ν → ν) : ∀ (path : List κ) (t : PrefixTree κ ν),
    (updateExisting f path t).nodes = t.nodes := by
  intro path
  induction path with
  | nil =>
    rintro ⟨children, value⟩
    ext path'
    cases path' with
    | nil => exact iff_of_true (nil_mem_nodes _) (nil_mem_nodes _)
    | cons k rest => rw [updateExisting, cons_mem_nodes, cons_mem_nodes]
  | cons k path ih =>
    rintro ⟨children, value⟩
    rw [updateExisting]
    cases hc : children.dlookup k with
    | none => rfl
    | some child =>
      ext path'
      cases path' with
      | nil => exact iff_of_true (nil_mem_nodes _) (nil_mem_nodes _)
      | cons k' rest =>
        rw [cons_mem_nodes, cons_mem_nodes]
        by_cases hk : k' = k
        · subst hk
          simp [hc, ih]
        · rw [dlookup_kinsert_other hk]

end PrefixTree
