import Mathlib.Data.Finmap

/-!
# `std::unordered_map`

A `std::unordered_map` is a finite map: `find` is `lookup`, `m[k] = v` is
`insert`, `erase` is `erase`, `size` is the number of keys.  What a map does not
fix is the order in which a loop over it visits the entries.  `Enumerates l m`
says that `l` is one such order, and a program that iterates is given the order
from outside.

Inserting the entries one after the other, in any order, builds the map again
(`Enumerates.foldl_insert`).
-/

namespace Cpp

abbrev UnorderedMap (κ ν : Type*) := Finmap fun _ : κ => ν

variable {κ ν : Type*}

namespace UnorderedMap

/-- `m.size()`. -/
def size (m : UnorderedMap κ ν) : Nat := m.keys.card

/-- `l` lists the entries of `m`, in the order some iteration visits them. -/
def Enumerates (l : List (Σ _ : κ, ν)) (m : UnorderedMap κ ν) : Prop :=
  (l : Multiset (Σ _ : κ, ν)) = m.entries

instance [DecidableEq κ] [DecidableEq ν] (l : List (Σ _ : κ, ν)) (m : UnorderedMap κ ν) :
    Decidable (Enumerates l m) :=
  inferInstanceAs (Decidable ((l : Multiset (Σ _ : κ, ν)) = m.entries))

theorem Enumerates.nodupKeys {l : List (Σ _ : κ, ν)} {m : UnorderedMap κ ν}
    (h : Enumerates l m) : l.NodupKeys := by
  have := m.nodupKeys
  rw [← h] at this
  exact Multiset.coe_nodupKeys.mp this

variable [DecidableEq κ]

theorem Enumerates.dlookup {l : List (Σ _ : κ, ν)} {m : UnorderedMap κ ν}
    (h : Enumerates l m) (k : κ) : l.dlookup k = m.lookup k := by
  have hm : m = (⟨l, h.nodupKeys⟩ : AList fun _ : κ => ν).toFinmap :=
    Finmap.ext h.symm
  rw [hm, Finmap.lookup_toFinmap]
  rfl

theorem Enumerates.mem_iff {l : List (Σ _ : κ, ν)} {m : UnorderedMap κ ν}
    (h : Enumerates l m) (k : κ) (v : ν) : (⟨k, v⟩ : Σ _ : κ, ν) ∈ l ↔ m.lookup k = some v := by
  rw [← h.dlookup k, ← Option.mem_def, List.mem_dlookup_iff h.nodupKeys]

theorem filter_key (k : κ) : ∀ l : List (Σ _ : κ, ν),
    (l.filter fun e => e.1 = k) = (l.lookupAll k).map (Sigma.mk k) := by
  intro l
  induction l with
  | nil => rfl
  | cons e l ih =>
    obtain ⟨a, b⟩ := e
    by_cases hk : k = a
    · subst hk
      rw [List.lookupAll_cons_eq, List.map_cons, ← ih, List.filter_cons_of_pos (by simp)]
    · rw [List.lookupAll_cons_ne l ⟨a, b⟩ hk, List.filter_cons_of_neg (by simpa using Ne.symm hk), ih]

/-- A loop over the map meets a key once if it is there, and otherwise not at all. -/
theorem Enumerates.filter_key {l : List (Σ _ : κ, ν)} {m : UnorderedMap κ ν}
    (h : Enumerates l m) (k : κ) :
    (l.filter fun e => e.1 = k) = (m.lookup k).toList.map (Sigma.mk k) := by
  rw [UnorderedMap.filter_key, List.lookupAll_eq_dlookup k h.nodupKeys, h.dlookup]

theorem mem_keys_iff {m : UnorderedMap κ ν} {k : κ} : k ∈ m.keys ↔ m.lookup k ≠ none := by
  rw [Finmap.mem_keys, ← Finmap.lookup_isSome, Option.isSome_iff_ne_none]

theorem size_eq_zero_iff {m : UnorderedMap κ ν} : size m = 0 ↔ ∀ k, m.lookup k = none := by
  rw [size, Finset.card_eq_zero, Finset.eq_empty_iff_forall_notMem]
  exact forall_congr' fun k => by rw [mem_keys_iff, not_not]

theorem size_insert {m : UnorderedMap κ ν} {k : κ} (h : m.lookup k = none) (v : ν) :
    size (m.insert k v) = size m + 1 := by
  have hk : k ∉ m.keys := fun hmem => mem_keys_iff.mp hmem h
  have hkeys : (m.insert k v).keys = Insert.insert k m.keys := by
    ext a
    rw [Finset.mem_insert, Finmap.mem_keys, Finmap.mem_keys, Finmap.mem_insert]
  rw [size, hkeys, Finset.card_insert_of_notMem hk, size]

theorem size_erased {m m' : UnorderedMap κ ν} {ks : List κ} (hnodup : ks.Nodup)
    (hmem : ∀ k ∈ ks, m.lookup k ≠ none)
    (h : ∀ k, m'.lookup k = if k ∈ ks then none else m.lookup k) :
    size m' + ks.length = size m := by
  have hsub : ks.toFinset ⊆ m.keys := by
    intro k hk
    exact mem_keys_iff.mpr (hmem k (List.mem_toFinset.mp hk))
  have hkeys : m'.keys = m.keys \ ks.toFinset := by
    ext k
    rw [Finset.mem_sdiff, mem_keys_iff, mem_keys_iff, h, List.mem_toFinset]
    split <;> simp_all
  rw [size, size, hkeys, ← List.toFinset_card_of_nodup hnodup]
  exact Finset.card_sdiff_add_card_eq_card hsub

theorem lookup_insert_empty {k a : κ} {v b : ν} :
    (Finmap.insert a b (∅ : UnorderedMap κ ν)).lookup k = some v ↔ k = a ∧ v = b := by
  by_cases hk : k = a
  · subst hk
    rw [Finmap.lookup_insert]
    simp [eq_comm]
  · rw [Finmap.lookup_insert_of_ne _ hk]
    simp [hk]

/-- `for (auto &e : l) m[e.first] = e.second`. -/
def insertAll (l : List (Σ _ : κ, ν)) (m : UnorderedMap κ ν) : UnorderedMap κ ν :=
  l.foldl (fun m e => m.insert e.1 e.2) m

theorem lookup_insertAll : ∀ (l : List (Σ _ : κ, ν)) (m : UnorderedMap κ ν) (k : κ),
    (insertAll l m).lookup k = (l.reverse.dlookup k).or (m.lookup k) := by
  intro l
  induction l with
  | nil => intro m k; rfl
  | cons e r ih =>
    intro m k
    rw [show insertAll (e :: r) m = insertAll r (m.insert e.1 e.2) from rfl, ih, List.reverse_cons,
      List.dlookup_append]
    obtain ⟨a, b⟩ := e
    by_cases hk : k = a
    · subst hk
      rw [Finmap.lookup_insert, List.dlookup_cons_eq, Option.or_assoc]
      rfl
    · have hne : List.dlookup k [(⟨a, b⟩ : Σ _ : κ, ν)] = none :=
        List.dlookup_cons_ne [] (⟨a, b⟩ : Σ _ : κ, ν) hk
      rw [Finmap.lookup_insert_of_ne m hk, hne, Option.or_none]

/-- **Inserting the entries in any order builds the map again.** -/
theorem Enumerates.foldl_insert {l : List (Σ _ : κ, ν)} {m : UnorderedMap κ ν}
    (h : Enumerates l m) : insertAll l ∅ = m := by
  refine Finmap.ext_lookup fun k => ?_
  have hr : Enumerates l.reverse m := by
    rw [Enumerates, Multiset.coe_reverse]
    exact h
  rw [lookup_insertAll, hr.dlookup, Finmap.lookup_empty, Option.or_none]

end UnorderedMap
end Cpp
