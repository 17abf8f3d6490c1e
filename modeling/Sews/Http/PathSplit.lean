import Mathlib.Data.Fintype.EquivFin
import Sews.Http.TrieRouter
import Sews.Lib.Runs

/-!
# The segments of a path

`TrieRouter::split` reads a path with `getline` at each slash and keeps the pieces
that are not empty.  These are the runs of the path between slashes (`split_eq`),
whether the path ends in a slash or not.  So a slash cuts the segments of a path, and
two paths lead to the same node of a trie exactly when they are equal up to slashes
at the ends and repeated slashes (`split_paths`).
-/

namespace Sews.Http.TrieRouter

open Cpp IStringStream UnorderedMap

variable {H : Type*}

/-- The body of the loop of `split`. -/
def keepSegment (segment : Bytes) (segments : List Bytes) : ForInStep (List Bytes) :=
  .yield (if segment = [] then segments else segments ++ [segment])

theorem foldLines_keepSegment (path : Bytes) : ∀ segments : List Bytes,
    (foldLines keepSegment segments (linesOf slash path)).1 = segments ++ path.runs (· == slash) := by
  induction path using List.sep_induction slash with
  | last segment hno =>
    -- the last segment, without a slash after it
    intro segments
    by_cases hnil : segment = []
    · rw [hnil, List.runs_nil, List.append_nil]
      rfl
    · rw [linesOf_last hno hnil, List.runs_of_not_mem hnil hno, foldLines, keepSegment, if_neg hnil]
      rfl
  | more segment rest hno ih =>
    intro segments
    rw [linesOf_append hno, foldLines, keepSegment, List.runs_append_sep]
    dsimp only
    rw [ih]
    by_cases hnil : segment = []
    · rw [if_pos hnil, hnil, List.runs_nil, List.nil_append]
    · rw [if_neg hnil, List.runs_of_not_mem hnil hno, List.append_assoc]

/-- **`split` appends the runs of the path.** -/
theorem split_eq (segments : List Bytes) (path : Bytes) :
    split segments path = segments ++ path.runs (· == slash) := by
  have hloop := (whileGetline_spec (settled_ofBytes path) slash keepSegment segments).1
  rw [split]
  exact hloop.trans (foldLines_keepSegment path segments)

theorem split_nil_eq (path : Bytes) : split [] path = path.runs (· == slash) := by
  rw [split_eq, List.nil_append]

/-- Equality of paths up to leading, trailing and repeated slashes. -/
def SameUpToSlashes (p q : Bytes) : Prop := List.SameUpToSep slash p q

theorem sameUpToSlashes_iff {p q : Bytes} : SameUpToSlashes p q ↔ split [] p = split [] q := by
  rw [SameUpToSlashes, List.sameUpToSep_iff, split_nil_eq, split_nil_eq]

/-! ### The nodes of a trie -/

/-- The paths lead to one node of the trie: a handler that is added at `p`, under
whatever method, is found at `q`. -/
def SameNode (root : Node H) (p q : Bytes) : Prop :=
  ∀ method handler, ((add root method p handler).valueAt ∅ (split [] q)).lookup method = some handler

theorem exists_free_method (handlers : Handlers H) : ∃ method, handlers.lookup method = none := by
  obtain ⟨method, hfree⟩ := Infinite.exists_notMem_finset handlers.keys
  refine ⟨method, ?_⟩
  rw [Finmap.mem_keys] at hfree
  exact Finmap.lookup_eq_none.mpr hfree

/-- **The node of a path is known from its segments.** -/
theorem sameNode_iff (root : Node H) {p q : Bytes} : SameNode root p q ↔ split [] p = split [] q := by
  constructor
  · intro h
    by_contra hne
    -- a method that is free at the node of `q` stays free when it is added at `p`
    obtain ⟨method, hfree⟩ := exists_free_method (root.valueAt ∅ (split [] q))
    have hadded := h method none
    rw [add, PrefixTree.valueAt_update, if_neg (Ne.symm hne), hfree] at hadded
    cases hadded
  · intro heq method handler
    rw [add, PrefixTree.valueAt_update, if_pos heq.symm]
    exact Finmap.lookup_insert _

/-- **Path splitting.**  `split` appends the maximal runs of a path that have no
slash; a slash between two paths puts their segments one after the other; and two
paths have the same segments, and so lead to the same node of any trie, if and only
if they are equal up to leading, trailing and repeated slashes. -/
theorem split_paths (root : Node H) :
    (∀ segments path, split segments path = segments ++ path.runs (· == slash)) ∧
    (∀ p q, split [] (p ++ slash :: q) = split [] p ++ split [] q) ∧ split [] [] = [] ∧
    (∀ segment, segment ≠ [] → slash ∉ segment → split [] segment = [segment]) ∧
    (∀ p q, split [] p = split [] q ↔ SameUpToSlashes p q) ∧
    (∀ p q, SameNode root p q ↔ SameUpToSlashes p q) := by
  refine ⟨split_eq, fun p q => ?_, rfl, fun segment hne hno => ?_, fun p q => sameUpToSlashes_iff.symm,
    fun p q => ?_⟩
  · rw [split_nil_eq, split_nil_eq, split_nil_eq, List.runs_append_sep]
  · rw [split_nil_eq, List.runs_of_not_mem hne hno]
  · rw [sameNode_iff, sameUpToSlashes_iff]

end Sews.Http.TrieRouter
