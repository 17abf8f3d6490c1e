import Sews.Runtime.Protocol

/-!
# What an event leaves alone

An event for another channel leaves a connection as it is: its object, its entry
in the table and its mark, what was sent to it and what was done on it, and the
events that are still to come for it.
-/

namespace Sews.Runtime

open Cpp Sews.Http Sews.Connection Sews.Reactor Sews.Telemetry Dispatcher

variable {H : Type} {s s' : State H} {id : ChannelId}

/-- The step from `s` to `s'` leaves the connection `id` as it is. -/
structure Untouched (s s' : State H) (id : ChannelId) : Prop where
  object : s'.objects id = s.objects id
  managed : s'.Managed id ↔ s.Managed id
  marked : s'.Marked id ↔ s.Marked id
  sent : s'.kernel.sent id = s.kernel.sent id
  acts : s'.acts id = s.acts id
  pending : s'.phase ≠ .threw → s'.pending id = s.pending id
  born : id < s'.nextId ↔ id < s.nextId

theorem pendingOf_cons_ne {flag : EventFlag} {id' : ChannelId} (h : id' ≠ id) (events : List Event) :
    pendingOf (⟨flag, id'⟩ :: events) id = pendingOf events id := by
  simp [pendingOf, h]

theorem Untouched.pending_nil (hu : Untouched s s' id) (h : s.pending id = []) : s'.pending id = [] := by
  by_cases hthrew : s'.phase = .threw
  · exact pending_eq_nil (by simp [hthrew]) id
  · rw [hu.pending hthrew, h]

/-- **An event for another channel.** -/
theorem untouched {a : Answers H} (h : Owned s) (hm : Moves s (.event a) s') (hid : id ≠ serverChannel)
    (hnew : id = s.nextId → s'.nextId = s.nextId) (hother : ∀ e ∈ s.events.head?, e.channel ≠ id) :
    Untouched s s' id := by
  cases hm with
  | refused _ flag events hphase hneg =>
    refine ⟨rfl, Iff.rfl, Iff.rfl, rfl, rfl, fun _ => ?_, Iff.rfl⟩
    rw [@pending_batch _ { s with phase := .batch events } _ rfl, pending_batch hphase,
      pendingOf_cons_ne hid.symm]
  | accepted _ flag events hphase hpos hfree =>
    have hold : id ≠ s.nextId := fun heq => Nat.succ_ne_self _ (hnew heq)
    refine ⟨Function.update_of_ne hold _ _, ?_, h.marked_welcome hfree events id,
      congrFun (Owned.sent_welcome a events) id, ?_, fun _ => ?_, ?_⟩
    · rw [h.managed_welcome hfree]
      simp only [hold, false_or]
    · rw [Owned.acts_welcome, if_neg hold, List.append_nil]
    · rw [@pending_batch _ (s.welcome events a) events rfl, pending_batch hphase,
        pendingOf_cons_ne hid.symm]
    · exact ⟨fun hlt => Nat.lt_of_le_of_ne (Nat.le_of_lt_succ hlt) hold, Nat.lt_succ_of_lt⟩
  | client _ flag id' events channel e s' hphase hm hobj he ha =>
    have hne : id' ≠ id := by
      refine hother ⟨flag, id'⟩ ?_
      rw [State.events, hphase]
      rfl
    refine ⟨?_, ha.managed id, ?_, ?_, ?_, fun hthrew => ?_, by rw [ha.nextId]⟩
    · rw [ha.objects, Function.update_of_ne hne.symm]
    · rw [ha.marked_iff hm]
      simp [hne.symm]
    · rw [ha.sent, Function.update_of_ne hne.symm]
    · rw [ha.acts, if_neg hne.symm, List.append_nil]
    · have hthrows : e.throws = false := by
        by_contra ht
        rw [Bool.not_eq_false] at ht
        rw [ha.phase, ht] at hthrew
        exact hthrew rfl
      have hphase' : s'.phase = .batch events := by
        rw [ha.phase, hthrows]
        rfl
      rw [pending_batch hphase', pending_batch hphase, pendingOf_cons_ne hne]

end Sews.Runtime
