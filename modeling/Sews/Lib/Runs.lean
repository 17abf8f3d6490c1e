import Mathlib.Logic.Relation

/-!
# The runs of a list

`runs p l` is the maximal non-empty runs of elements of `l` that are no separators,
where `p` says what a separator is.  A separator cuts the runs of a list in those
before it and those after it (`runs_append_cons`).

With one separator a list is known from its runs up to separators at its ends and
repeated separators: `SameUpToSep` is that equality, and `sameUpToSep_iff` says that
it is having the same runs.  `sep_induction` goes through such a list piece by piece.
-/

namespace List

variable {α : Type*} {p : α → Bool}

/-- **Induction on the pieces** of a list between separators. -/
theorem sep_induction (sep : α) {motive : List α → Prop} (last : ∀ run, sep ∉ run → motive run)
    (more : ∀ run rest, sep ∉ run → motive rest → motive (run ++ sep :: rest)) (l : List α) :
    motive l := by
  have hbound : ∀ (n : Nat) (l : List α), l.length ≤ n → motive l := by
    intro n
    induction n with
    | zero =>
      intro l hlen
      rw [length_eq_zero_iff.mp (Nat.le_zero.mp hlen)]
      exact last [] not_mem_nil
    | succ n ih =>
      intro l hlen
      by_cases hmem : sep ∈ l
      · obtain ⟨run, rest, rfl, hno⟩ := eq_append_cons_of_mem hmem
        rw [length_append, length_cons] at hlen
        exact more run rest hno (ih rest (by omega))
      · exact last l hmem
  exact hbound l.length l (Nat.le_refl _)

/-! ### Runs -/

/-- The maximal runs without a separator. -/
def runs (p : α → Bool) (l : List α) : List (List α) := (l.splitOnP p).filter fun run => run ≠ []

@[simp] theorem runs_nil : runs p ([] : List α) = [] := by simp [runs]

theorem ne_nil_of_mem_runs {l run : List α} (h : run ∈ runs p l) : run ≠ [] := by
  rw [runs, mem_filter] at h
  simpa using h.2

theorem runs_append_cons (xs ys : List α) {c : α} (hc : p c = true) :
    runs p (xs ++ c :: ys) = runs p xs ++ runs p ys := by
  rw [runs, splitOnP_append_cons xs ys hc, filter_append]
  rfl

theorem runs_cons {c : α} (hc : p c = true) (l : List α) : runs p (c :: l) = runs p l := by
  have h := runs_append_cons [] l hc
  rwa [runs_nil, nil_append, nil_append] at h

theorem runs_of_run {run : List α} (hne : run ≠ []) (h : ∀ b ∈ run, p b = false) : runs p run = [run] := by
  rw [runs, splitOnP_eq_singleton h]
  simp [hne]

/-! ### One separator -/

variable {sep : α} {l m : List α}

/-- A separator at an end, or one of two, is left out. -/
inductive SepStep (sep : α) : List α → List α → Prop
  | leading (l : List α) : SepStep sep (sep :: l) l
  | trailing (l : List α) : SepStep sep (l ++ [sep]) l
  | repeated (l m : List α) : SepStep sep (l ++ sep :: sep :: m) (l ++ sep :: m)

/-- Equality up to separators at the ends and repeated separators. -/
def SameUpToSep (sep : α) : List α → List α → Prop := Relation.EqvGen (SepStep sep)

/-- What stands after a separator may be replaced. -/
theorem SameUpToSep.after (h : SameUpToSep sep l m) (run : List α) :
    SameUpToSep sep (run ++ sep :: l) (run ++ sep :: m) := by
  induction h with
  | rel l m h =>
    refine .rel _ _ ?_
    cases h with
    | leading => exact .repeated run m
    | trailing =>
      rw [← cons_append, ← append_assoc]
      exact .trailing (run ++ sep :: m)
    | repeated l m =>
      rw [← cons_append, ← append_assoc, ← cons_append, ← append_assoc]
      exact .repeated (run ++ sep :: l) m
  | refl l => exact .refl _
  | symm l m _ ih => exact .symm _ _ ih
  | trans l m n _ _ ih ih' => exact .trans _ _ _ ih ih'

variable [DecidableEq α]

theorem runs_append_sep (xs ys : List α) :
    runs (· == sep) (xs ++ sep :: ys) = runs (· == sep) xs ++ runs (· == sep) ys :=
  runs_append_cons (p := (· == sep)) xs ys (beq_self_eq_true sep)

theorem runs_cons_sep (l : List α) : runs (· == sep) (sep :: l) = runs (· == sep) l :=
  runs_cons (p := (· == sep)) (beq_self_eq_true sep) l

theorem runs_of_not_mem {run : List α} (hne : run ≠ []) (hno : sep ∉ run) :
    runs (· == sep) run = [run] :=
  runs_of_run hne fun _ hb => beq_eq_false_iff_ne.mpr fun heq => hno (heq ▸ hb)

theorem SepStep.runs_eq (h : SepStep sep l m) : runs (· == sep) l = runs (· == sep) m := by
  cases h with
  | leading => exact runs_cons_sep m
  | trailing => rw [runs_append_sep, runs_nil, append_nil]
  | repeated l m => rw [runs_append_sep, runs_append_sep, runs_cons_sep]

theorem SameUpToSep.runs_eq (h : SameUpToSep sep l m) : runs (· == sep) l = runs (· == sep) m := by
  induction h with
  | rel l m h => exact h.runs_eq
  | refl l => rfl
  | symm l m _ ih => exact ih.symm
  | trans l m n _ _ ih ih' => exact ih.trans ih'

/-- **A list is its runs, joined by single separators**, up to separators. -/
theorem sameUpToSep_intercalate (sep : α) (l : List α) :
    SameUpToSep sep l ([sep].intercalate (runs (· == sep) l)) := by
  induction l using sep_induction sep with
  | last run hno =>
    by_cases hnil : run = []
    · rw [hnil, runs_nil]
      exact .refl _
    · rw [runs_of_not_mem hnil hno, intercalate_singleton]
      exact .refl _
  | more run rest hno ih =>
    rw [runs_append_sep]
    by_cases hnil : run = []
    · subst hnil
      exact .trans _ _ _ (.rel _ _ (.leading rest)) ih
    · rw [runs_of_not_mem hnil hno]
      have hafter := ih.after run
      cases hruns : runs (· == sep) rest with
      | nil =>
        rw [hruns, intercalate_nil] at hafter
        rw [append_nil, intercalate_singleton]
        exact .trans _ _ _ hafter (.rel _ _ (.trailing run))
      | cons first more =>
        rw [hruns] at hafter
        rw [singleton_append, intercalate_cons_cons]
        simpa using hafter

/-- **Equality up to separators is having the same runs.** -/
theorem sameUpToSep_iff : SameUpToSep sep l m ↔ runs (· == sep) l = runs (· == sep) m := by
  refine ⟨SameUpToSep.runs_eq, fun heq => ?_⟩
  have hl := sameUpToSep_intercalate sep l
  have hm := sameUpToSep_intercalate sep m
  rw [heq] at hl
  exact .trans _ _ _ hl (.symm _ _ hm)

end List
