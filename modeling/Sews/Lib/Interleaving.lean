import Mathlib.Data.List.Basic

/-!
# Interleavings

Every item of a list has a key.  The items of one key are a track of the list, and two
lists with the same tracks are interleavings of the same sequences (`Interleaved`).

`foldlM_interleaved` is what makes the order of an interleaving irrelevant: if two steps
with different keys commute, in the states that an invariant allows, then two
interleavings of the same tracks lead to the same state, or neither leads to one.
-/

variable {α κ σ : Type*} [DecidableEq κ] {key : α → κ}

/-- The items of the key `k`. -/
def track (key : α → κ) (k : κ) (items : List α) : List α := items.filter fun x => key x = k

/-- The lists are interleavings of the same tracks. -/
def Interleaved (key : α → κ) (items items' : List α) : Prop := ∀ k, track key k items = track key k items'

namespace Interleaved

variable {items items' : List α} {x : α}

theorem mem_iff (h : Interleaved key items items') (x : α) : x ∈ items ↔ x ∈ items' := by
  have htrack : ∀ items : List α, x ∈ track key (key x) items ↔ x ∈ items := fun items => by simp [track]
  rw [← htrack items, h (key x), htrack]

theorem eq_nil (h : Interleaved key [] items) : items = [] := by
  cases items with
  | nil => rfl
  | cons y items =>
    have hy := h (key y)
    simp [track] at hy

/-- The first item stands in the other list with no item of its key before it. -/
theorem exists_cons (h : Interleaved key (x :: items) items') :
    ∃ front back, items' = front ++ x :: back ∧ (∀ y ∈ front, key y ≠ key x) ∧
      Interleaved key items (front ++ back) := by
  have hx : track key (key x) items' = x :: track key (key x) items := by
    rw [← h (key x)]
    simp [track]
  obtain ⟨front, back, rfl, hfront, -, -⟩ := List.filter_eq_cons_iff.mp hx
  have hne : ∀ y ∈ front, key y ≠ key x := fun y hy => by simpa using hfront y hy
  refine ⟨front, back, rfl, hne, fun k => ?_⟩
  have hk := h k
  by_cases hkey : key x = k
  · subst hkey
    have hnil : front.filter (fun y => key y = key x) = [] := by
      rw [List.filter_eq_nil_iff]
      intro y hy
      simpa using hne y hy
    simpa [track, hnil] using hk
  · simpa [track, hkey] using hk

end Interleaved

section
variable {step : σ → α → Option σ} {I : σ → Prop}

omit [DecidableEq κ] in
/-- An item can be moved before items of other keys. -/
theorem foldlM_move (hkeep : ∀ s x s', I s → step s x = some s' → I s')
    (hcomm : ∀ s x y, I s → key x ≠ key y → (step s x).bind (step · y) = (step s y).bind (step · x))
    {x : α} (back : List α) : ∀ (front : List α) (s : σ), I s → (∀ y ∈ front, key y ≠ key x) →
      (front ++ x :: back).foldlM step s = (x :: (front ++ back)).foldlM step s := by
  intro front
  induction front with
  | nil => exact fun s _ _ => rfl
  | cons y front ih =>
    intro s hs hne
    obtain ⟨hy, hfront⟩ := List.forall_mem_cons.mp hne
    have hswap := hcomm s y x hs hy
    rw [List.cons_append, List.foldlM_cons]
    calc (step s y >>= fun s' => (front ++ x :: back).foldlM step s')
        = (step s y).bind fun s' => (step s' x).bind ((front ++ back).foldlM step) := by
          refine Option.bind_congr fun s' hs' => ?_
          exact ih s' (hkeep s y s' hs hs') hfront
      _ = ((step s y).bind (step · x)).bind ((front ++ back).foldlM step) := by rw [Option.bind_assoc]
      _ = ((step s x).bind (step · y)).bind ((front ++ back).foldlM step) := by rw [hswap]
      _ = (x :: (y :: front ++ back)).foldlM step s := by
          rw [Option.bind_assoc]
          rfl

/-- **The order of an interleaving is irrelevant** if steps with different keys commute. -/
theorem foldlM_interleaved (hkeep : ∀ s x s', I s → step s x = some s' → I s')
    (hcomm : ∀ s x y, I s → key x ≠ key y → (step s x).bind (step · y) = (step s y).bind (step · x)) :
    ∀ {items items' : List α} {s : σ}, I s → Interleaved key items items' →
      items.foldlM step s = items'.foldlM step s := by
  intro items
  induction items with
  | nil =>
    intro items' s _ h
    rw [h.eq_nil]
  | cons x items ih =>
    intro items' s hs h
    obtain ⟨front, back, rfl, hne, hrest⟩ := h.exists_cons
    rw [foldlM_move hkeep hcomm back front s hs hne, List.foldlM_cons, List.foldlM_cons]
    exact Option.bind_congr fun s' hs' => ih (hkeep s x s' hs hs') hrest

end
