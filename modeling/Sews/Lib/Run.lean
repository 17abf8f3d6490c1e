import Mathlib.Tactic.Common

/-!
# Runs of a labelled step function

A system is a partial function `step` from a state and a label to the next
state; a label carries everything the outside world decides in that step.  What
is assumed of the outside world is a predicate `ok` on the state before a step
and its label.  `Run step ok s₀ labels s` says that `labels` lead from `s₀` to
`s`, every step meeting `ok`.

`Run.inv` is the invariant rule.  `Run.invWith` lets the step use an invariant
proved before, `Run.invHistory` lets the invariant speak of the steps made so far,
and `Run.mono` passes to weaker assumptions.
-/

variable {σ ι : Type*}

inductive Run (step : σ → ι → Option σ) (ok : σ → ι → Prop) (s₀ : σ) : List ι → σ → Prop
  | nil : Run step ok s₀ [] s₀
  | snoc {labels : List ι} {s s' : σ} {label : ι} : Run step ok s₀ labels s → ok s label →
      step s label = some s' → Run step ok s₀ (labels ++ [label]) s'

namespace Run

variable {step : σ → ι → Option σ} {ok : σ → ι → Prop} {s₀ s : σ} {labels : List ι}

/-- **What holds at the start and survives every step holds in every run.** -/
theorem inv {I : σ → Prop} (h : Run step ok s₀ labels s) (h0 : I s₀)
    (hstep : ∀ s label s', I s → ok s label → step s label = some s' → I s') : I s := by
  induction h with
  | nil => exact h0
  | snoc _ hok hs ih => exact hstep _ _ _ ih hok hs

/-- An invariant whose step needs another one that is known already. -/
theorem invWith {I J : σ → Prop} (h : Run step ok s₀ labels s)
    (hJ : ∀ labels s, Run step ok s₀ labels s → J s) (h0 : I s₀)
    (hstep : ∀ s label s', J s → I s → ok s label → step s label = some s' → I s') : I s := by
  induction h with
  | nil => exact h0
  | snoc hr hok hs ih => exact hstep _ _ _ (hJ _ _ hr) ih hok hs

theorem mono {ok' : σ → ι → Prop} (hle : ∀ s label, ok s label → ok' s label)
    (h : Run step ok s₀ labels s) : Run step ok' s₀ labels s := by
  induction h with
  | nil => exact nil
  | snoc _ hok hs ih => exact snoc ih (hle _ _ hok) hs

/-- A run of another step function, whose labels stand for labels of this one. -/
theorem map {κ : Type*} {step' : σ → κ → Option σ} {ok' : σ → κ → Prop} {labels : List κ} (f : κ → ι)
    (hstep : ∀ s label, step' s label = step s (f label)) (hok : ∀ s label, ok' s label → ok s (f label))
    (h : Run step' ok' s₀ labels s) : Run step ok s₀ (labels.map f) s := by
  induction h with
  | nil => exact nil
  | snoc _ hmet hs ih =>
    rw [List.map_append]
    exact snoc ih (hok _ _ hmet) (by rw [← hstep, hs])

/-- A run of a larger system, seen through its part `f`. -/
theorem project {τ : Type*} {step' : τ → ι → Option τ} {ok' : τ → ι → Prop} {t₀ t : τ} (f : τ → σ)
    (hstep : ∀ t label t', ok' t label → step' t label = some t' →
      ok (f t) label ∧ step (f t) label = some (f t'))
    (h : Run step' ok' t₀ labels t) : Run step ok (f t₀) labels (f t) := by
  induction h with
  | nil => exact nil
  | snoc _ hmet hs ih =>
    obtain ⟨hok, hs'⟩ := hstep _ _ _ hmet hs
    exact snoc ih hok hs'

theorem and_mem {p : ι → Prop} (h : Run step ok s₀ labels s) (hp : ∀ label ∈ labels, p label) :
    Run step (fun s label => ok s label ∧ p label) s₀ labels s := by
  induction h with
  | nil => exact nil
  | snoc _ hok hs ih =>
    refine snoc (ih fun label hmem => hp label (List.mem_append_left _ hmem)) ⟨hok, hp _ ?_⟩ hs
    exact List.mem_append_right _ List.mem_cons_self

theorem append {labels' : List ι} {s' : σ} (h : Run step ok s₀ labels s)
    (h' : Run step ok s labels' s') : Run step ok s₀ (labels ++ labels') s' := by
  induction h' with
  | nil => rwa [List.append_nil]
  | snoc _ hok hs ih => rw [← List.append_assoc]; exact snoc ih hok hs

/-- A run is what its labels lead to, one after the other. -/
theorem foldlM_eq (h : Run step ok s₀ labels s) : labels.foldlM step s₀ = some s := by
  induction h with
  | nil => rfl
  | snoc _ _ hs ih =>
    rw [List.foldlM_append, ih]
    simp [hs]

theorem cons_iff {label : ι} {s' : σ} : Run step ok s (label :: labels) s' ↔
    ∃ t, ok s label ∧ step s label = some t ∧ Run step ok t labels s' := by
  constructor
  · intro h
    generalize hall : label :: labels = all at h
    induction h generalizing labels with
    | nil => cases hall
    | @snoc before t t' last hr hok hs ih =>
      cases before with
      | nil =>
        cases hall
        obtain rfl := Option.some.inj hr.foldlM_eq
        exact ⟨t', hok, hs, nil⟩
      | cons first before =>
        obtain ⟨rfl, rfl⟩ := List.cons.inj hall
        obtain ⟨u, hok', hs', hr'⟩ := ih rfl
        exact ⟨u, hok', hs', hr'.snoc hok hs⟩
  · rintro ⟨t, hok, hs, h⟩
    exact (nil.snoc hok hs).append h

theorem append_iff {labels' : List ι} {s' : σ} : Run step ok s (labels ++ labels') s' ↔
    ∃ t, Run step ok s labels t ∧ Run step ok t labels' s' := by
  induction labels generalizing s with
  | nil =>
    constructor
    · exact fun h => ⟨s, nil, h⟩
    · rintro ⟨t, hr, h⟩
      obtain rfl := Option.some.inj hr.foldlM_eq
      exact h
  | cons label labels ih =>
    simp only [List.cons_append, cons_iff, ih]
    constructor
    · rintro ⟨u, hok, hs, t, hr, h⟩
      exact ⟨t, ⟨u, hok, hs, hr⟩, h⟩
    · rintro ⟨t, ⟨u, hok, hs, hr⟩, h⟩
      exact ⟨u, hok, hs, t, hr, h⟩

/-- The labels of a run decide where it ends. -/
theorem unique {ok' : σ → ι → Prop} {s' : σ} (h : Run step ok s₀ labels s)
    (h' : Run step ok' s₀ labels s') : s = s' :=
  Option.some.inj (h.foldlM_eq.symm.trans h'.foldlM_eq)

/-- A run that another one goes beyond: the next step can be made. -/
theorem step_of_longer {ok' : σ → ι → Prop} {s' : σ} {label : ι} {more : List ι}
    (h : Run step ok s₀ labels s) (h' : Run step ok' s₀ (labels ++ label :: more) s') :
    step s label ≠ none := by
  have heq := h'.foldlM_eq
  rw [List.foldlM_append, h.foldlM_eq] at heq
  intro hnone
  simp [hnone] at heq

/-- The steps of a run: every label with the state it found. -/
def history (step : σ → ι → Option σ) : σ → List ι → List (σ × ι)
  | _, [] => []
  | s, label :: labels =>
    (s, label) :: match step s label with
      | none => []
      | some s' => history step s' labels

theorem history_append (h : Run step ok s₀ labels s) :
    ∀ more, history step s₀ (labels ++ more) = history step s₀ labels ++ history step s more := by
  induction h with
  | nil => exact fun more => rfl
  | @snoc labels s s' label _ _ hs ih =>
    have hone : ∀ more, history step s (label :: more) = (s, label) :: history step s' more := by
      intro more
      rw [history, hs]
    intro more
    rw [List.append_assoc, List.singleton_append, ih, ih, hone, hone, history, List.append_assoc]
    rfl

theorem history_one {s' : σ} {label : ι} (hs : step s label = some s') :
    history step s [label] = [(s, label)] := by
  rw [history, hs]
  rfl

/-- Every step of the history was made in a run, after the steps before it. -/
theorem of_mem_history (h : Run step ok s₀ labels s) {made : σ × ι}
    (hmem : made ∈ history step s₀ labels) :
    ∃ before s', Run step ok s₀ before made.1 ∧ history step s₀ before <+: history step s₀ labels ∧
      made.2 ∈ labels ∧ ok made.1 made.2 ∧ step made.1 made.2 = some s' := by
  induction h with
  | nil => cases hmem
  | @snoc labels s s' label hr hok hs ih =>
    rw [hr.history_append] at hmem ⊢
    rcases List.mem_append.mp hmem with hold | hnew
    · obtain ⟨before, t, hb, hpre, hin, hstep⟩ := ih hold
      exact ⟨before, t, hb, hpre.trans (List.prefix_append _ _), List.mem_append_left _ hin, hstep⟩
    · rw [history_one hs, List.mem_singleton] at hnew
      subst hnew
      exact ⟨labels, s', hr, List.prefix_append _ _, List.mem_append_right _ List.mem_cons_self, hok, hs⟩

/-- **The invariant rule with the past.**  What holds at the start, and is kept by
every step, may speak of the steps made so far. -/
theorem invHistory {I : List (σ × ι) → σ → Prop} (h : Run step ok s₀ labels s) (h0 : I [] s₀)
    (hstep : ∀ past s label s', I past s → ok s label → step s label = some s' →
      I (past ++ [(s, label)]) s') : I (history step s₀ labels) s := by
  induction h with
  | nil => exact h0
  | @snoc labels s s' label hr hok hs ih =>
    rw [hr.history_append, history_one hs]
    exact hstep _ _ _ _ ih hok hs

/-- Running a list of labels, every step of which has to meet `ok`. -/
def exec (step : σ → ι → Option σ) (ok : σ → ι → Prop) [∀ s label, Decidable (ok s label)] :
    σ → List ι → Option σ
  | s, [] => some s
  | s, label :: labels =>
    if ok s label then
      match step s label with
      | none => none
      | some s' => exec step ok s' labels
    else none

theorem of_exec [∀ s label, Decidable (ok s label)] :
    ∀ (labels : List ι) (s₀ : σ), exec step ok s₀ labels = some s → Run step ok s₀ labels s := by
  intro labels
  induction labels with
  | nil =>
    intro s₀ h
    cases h
    exact nil
  | cons label labels ih =>
    intro s₀ h
    unfold exec at h
    split at h
    · rename_i hok
      split at h
      · cases h
      · rename_i s' hs
        exact (nil.snoc hok hs).append (ih s' h)
    · cases h

end Run
