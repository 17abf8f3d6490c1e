import Sews.Lib.Run
import Mathlib.Order.Filter.AtTopBot.Basic

/-!
# Runs that never end

An `Execution` is a run without an end: a state and a label for each time, every
step meeting `ok`.  Its finite parts are runs (`Execution.run`), so what is proved of
runs holds at all times.

Two rules lead from what happens again and again to what happens at all.
`Execution.reaches`: a measure that goes down as long as the aim is missed does not go
down for ever.  `Execution.exists_countP`: what happens again and again happens any
number of times from any time on.

`Execution.lasso` is the execution that goes along one run and then round another for
ever.
-/

open Filter

variable {σ ι : Type*} {step : σ → ι → Option σ} {ok : σ → ι → Prop} {s₀ s t : σ}

structure Execution (step : σ → ι → Option σ) (ok : σ → ι → Prop) (s₀ : σ) where
  state : ℕ → σ
  label : ℕ → ι
  start : state 0 = s₀
  meets : ∀ n, ok (state n) (label n)
  steps : ∀ n, step (state n) (label n) = some (state (n + 1))

namespace Execution

variable (e : Execution step ok s₀)

/-- The `k` labels from time `n` on. -/
def labels (n k : ℕ) : List ι := (List.range' n k).map e.label

/-- The `k` steps from time `n` on. -/
def made (n k : ℕ) : List (σ × ι) := (List.range' n k).map fun i => (e.state i, e.label i)

theorem labels_succ (n k : ℕ) : e.labels n (k + 1) = e.labels n k ++ [e.label (n + k)] := by
  rw [labels, List.range'_concat, List.map_append, Nat.one_mul]
  rfl

theorem made_succ (n k : ℕ) : e.made n (k + 1) = e.made n k ++ [(e.state (n + k), e.label (n + k))] := by
  rw [made, List.range'_concat, List.map_append, Nat.one_mul]
  rfl

theorem run (n k : ℕ) : Run step ok (e.state n) (e.labels n k) (e.state (n + k)) := by
  induction k with
  | zero => exact .nil
  | succ k ih =>
    rw [labels_succ]
    exact ih.snoc (e.meets _) (e.steps _)

theorem run_start (n : ℕ) : Run step ok s₀ (e.labels 0 n) (e.state n) := by
  have hrun := e.run 0 n
  rwa [e.start, Nat.zero_add] at hrun

theorem history (n k : ℕ) : Run.history step (e.state n) (e.labels n k) = e.made n k := by
  induction k with
  | zero => rfl
  | succ k ih =>
    rw [labels_succ, made_succ, (e.run n k).history_append, ih, Run.history_one (e.steps _)]

theorem history_start (n : ℕ) : Run.history step s₀ (e.labels 0 n) = e.made 0 n := by
  have hmade := e.history 0 n
  rwa [e.start] at hmade

/-- An execution meets weaker assumptions too. -/
def mono {ok' : σ → ι → Prop} (hle : ∀ s label, ok s label → ok' s label) : Execution step ok' s₀ where
  state := e.state
  label := e.label
  start := e.start
  meets n := hle _ _ (e.meets n)
  steps := e.steps

/-- **A measure that goes down until the aim is reached.** -/
theorem reaches (aim : σ → Prop) (μ : σ → ℕ)
    (hdown : ∀ n, ¬ aim (e.state n) → μ (e.state (n + 1)) < μ (e.state n)) (n : ℕ) :
    ∃ m, n ≤ m ∧ aim (e.state m) := by
  induction hμ : μ (e.state n) using Nat.strong_induction_on generalizing n with
  | _ k ih =>
    by_cases haim : aim (e.state n)
    · exact ⟨n, le_rfl, haim⟩
    · obtain ⟨m, hm, haim'⟩ := ih _ (hμ ▸ hdown n haim) (n + 1) rfl
      exact ⟨m, by omega, haim'⟩

/-- **What happens again and again happens any number of times.** -/
theorem exists_countP {p : σ × ι → Bool} (h : ∃ᶠ n in atTop, p (e.state n, e.label n) = true)
    (n count : ℕ) : ∃ k, count ≤ (e.made n k).countP p := by
  induction count with
  | zero => exact ⟨0, Nat.zero_le _⟩
  | succ count ih =>
    obtain ⟨k, hk⟩ := ih
    obtain ⟨m, hm, hp⟩ := frequently_atTop.mp h (n + k)
    have hsplit : e.made n (m - n + 1) = e.made n k ++ (e.made (n + k) (m - (n + k)) ++
        [(e.state m, e.label m)]) := by
      have hlength : m - n = k + (m - (n + k)) := by omega
      have hlast : n + (m - n) = m := by omega
      rw [made_succ, hlast, hlength, made, List.range'_append_1.symm, List.map_append, List.append_assoc]
      rfl
    refine ⟨m - n + 1, ?_⟩
    rw [hsplit, List.countP_append, List.countP_append, List.countP_singleton, if_pos hp]
    omega

end Execution

/-! ### Round and round -/

/-- One step, with the labels that are left; after the last of them `cycle` is left. -/
def lassoNext (step : σ → ι → Option σ) (cycle : List ι) : σ × List ι → σ × List ι
  | (s, []) => (s, [])
  | (s, [label]) => ((step s label).getD s, cycle)
  | (s, label :: rest) => ((step s label).getD s, rest)

section
variable {labels cycle : List ι}

theorem lassoNext_cons {label : ι} {rest : List ι} (hrest : rest ≠ []) (h : step s label = some t) :
    lassoNext step cycle (s, label :: rest) = (t, rest) := by
  cases rest with
  | nil => exact absurd rfl hrest
  | cons label' rest =>
    rw [lassoNext, h]
    · rfl
    · simp

/-- The labels of a run are left behind one by one. -/
theorem iterate_lassoNext {rest : List ι} (hrest : rest ≠ []) (h : Run step ok s labels t) :
    (lassoNext step cycle)^[labels.length] (s, labels ++ rest) = (t, rest) := by
  induction labels generalizing s with
  | nil =>
    obtain rfl := Option.some.inj h.foldlM_eq
    rfl
  | cons label labels ih =>
    obtain ⟨u, -, hs, hr⟩ := Run.cons_iff.mp h
    rw [List.length_cons, Function.iterate_succ_apply, List.cons_append,
      lassoNext_cons (by simp [hrest]) hs]
    exact ih hr

/-- What is left leads to where the next round begins. -/
theorem lassoNext_run (hcycle : cycle ≠ []) (hround : Run step ok t cycle t) {pair : σ × List ι}
    (hne : pair.2 ≠ []) (h : Run step ok pair.1 pair.2 t) :
    (lassoNext step cycle pair).2 ≠ [] ∧
      Run step ok (lassoNext step cycle pair).1 (lassoNext step cycle pair).2 t ∧
      ok pair.1 (pair.2.head hne) ∧
      step pair.1 (pair.2.head hne) = some (lassoNext step cycle pair).1 := by
  obtain ⟨s, rest⟩ := pair
  cases rest with
  | nil => exact absurd rfl hne
  | cons label rest =>
    obtain ⟨u, hok, hs, hr⟩ := Run.cons_iff.mp h
    cases rest with
    | nil =>
      obtain rfl := Option.some.inj hr.foldlM_eq
      have hnext : lassoNext step cycle (s, [label]) = (u, cycle) := by
        rw [lassoNext, hs]
        rfl
      rw [hnext]
      exact ⟨hcycle, hround, hok, hs⟩
    | cons label' rest =>
      rw [lassoNext_cons (List.cons_ne_nil _ _) hs]
      exact ⟨List.cons_ne_nil _ _, hr, hok, hs⟩

theorem iterate_lassoNext_run (hcycle : cycle ≠ []) (hround : Run step ok t cycle t) (pair : σ × List ι)
    (hne : pair.2 ≠ []) (h : Run step ok pair.1 pair.2 t) (n : ℕ) :
    ((lassoNext step cycle)^[n] pair).2 ≠ [] ∧
      Run step ok ((lassoNext step cycle)^[n] pair).1 ((lassoNext step cycle)^[n] pair).2 t := by
  induction n with
  | zero => exact ⟨hne, h⟩
  | succ n ih =>
    obtain ⟨hne', hrun, -⟩ := lassoNext_run hcycle hround ih.1 ih.2
    rw [Function.iterate_succ_apply']
    exact ⟨hne', hrun⟩

/-- The execution that goes along `labels` and then round `cycle` for ever. -/
def Execution.lasso (h : Run step ok s₀ labels t) (hround : Run step ok t cycle t) (hcycle : cycle ≠ []) :
    Execution step ok s₀ :=
  have hinv : ∀ n, ((lassoNext step cycle)^[n] (s₀, labels ++ cycle)).2 ≠ [] ∧
      Run step ok ((lassoNext step cycle)^[n] (s₀, labels ++ cycle)).1
        ((lassoNext step cycle)^[n] (s₀, labels ++ cycle)).2 t :=
    iterate_lassoNext_run hcycle hround _ (by simp [hcycle]) (h.append hround)
  { state := fun n => ((lassoNext step cycle)^[n] (s₀, labels ++ cycle)).1
    label := fun n => ((lassoNext step cycle)^[n] (s₀, labels ++ cycle)).2.head (hinv n).1
    start := rfl
    meets := fun n => (lassoNext_run hcycle hround (hinv n).1 (hinv n).2).2.2.1
    steps := fun n => by
      rw [Function.iterate_succ_apply']
      exact (lassoNext_run hcycle hround (hinv n).1 (hinv n).2).2.2.2 }

theorem iterate_lassoNext_round (hcycle : cycle ≠ []) (hround : Run step ok t cycle t) (n : ℕ) :
    ∃ before, before ++ ((lassoNext step cycle)^[n] (t, cycle)).2 = cycle ∧
      Run step ok t before ((lassoNext step cycle)^[n] (t, cycle)).1 := by
  induction n with
  | zero => exact ⟨[], rfl, .nil⟩
  | succ n ih =>
    obtain ⟨before, hsplit, hrun⟩ := ih
    obtain ⟨hne, hrest⟩ := iterate_lassoNext_run hcycle hround (t, cycle) hcycle hround n
    rw [Function.iterate_succ_apply']
    generalize (lassoNext step cycle)^[n] (t, cycle) = pair at hsplit hrun hne hrest ⊢
    obtain ⟨s, rest⟩ := pair
    cases rest with
    | nil => exact absurd rfl hne
    | cons label rest =>
      obtain ⟨u, hok, hs, hr⟩ := Run.cons_iff.mp hrest
      cases rest with
      | nil =>
        -- the round is complete
        obtain rfl := Option.some.inj hr.foldlM_eq
        rw [lassoNext, hs]
        exact ⟨[], rfl, .nil⟩
      | cons label' rest =>
        rw [lassoNext_cons (List.cons_ne_nil _ _) hs]
        exact ⟨before ++ [label], by simpa using hsplit, hrun.snoc hok hs⟩

theorem Execution.lasso_state {before : List ι} {u : σ} (h : Run step ok s₀ (before ++ labels) t)
    (hround : Run step ok t cycle t) (hcycle : cycle ≠ []) (hu : Run step ok s₀ before u) :
    (lasso h hround hcycle).state before.length = u := by
  show ((lassoNext step cycle)^[before.length] (s₀, before ++ labels ++ cycle)).1 = u
  rw [List.append_assoc, iterate_lassoNext (by simp [hcycle]) hu]

theorem Execution.lasso_round (h : Run step ok s₀ labels t) (hround : Run step ok t cycle t)
    (hcycle : cycle ≠ []) {n : ℕ} (hn : labels.length ≤ n) :
    ∃ before rest, before ++ rest = cycle ∧ rest ≠ [] ∧
      Run step ok t before ((lasso h hround hcycle).state n) := by
  have hstate : (lasso h hround hcycle).state n
      = ((lassoNext step cycle)^[n - labels.length] (t, cycle)).1 := by
    show ((lassoNext step cycle)^[n] (s₀, labels ++ cycle)).1 = _
    rw [← Nat.sub_add_cancel hn, Function.iterate_add_apply, iterate_lassoNext hcycle h,
      Nat.add_sub_cancel]
  obtain ⟨before, hsplit, hrun⟩ := iterate_lassoNext_round hcycle hround (n - labels.length)
  rw [hstate]
  exact ⟨before, _, hsplit, (iterate_lassoNext_run hcycle hround (t, cycle) hcycle hround _).1, hrun⟩

end
