import Sews.Runtime.Bystander

/-!
# The turns of a client

A `Turn` is the handling of one event on a client, with the state it found and the
answers it got.  What a run does on a connection is what its turns do, one after the
other, besides the accept and the closing (`turn_or_untouched`).

Nothing that handles an event on a client reads the closed list of the manager: with any
other list it does the same, and puts the same descriptor at the end of that one
(`Turn.Blind`).
-/

namespace Sews.Runtime

open Cpp Sews.Http Sews.Connection Sews.Reactor Sews.Telemetry Dispatcher

variable {H : Type} {s s' : State H} {label : Label H} {id : ChannelId}

structure Turn (H : Type) where
  before : State H
  id : ChannelId
  flag : EventFlag
  answers : Answers H

/-- The turn that a step is, if it handles an event on a client. -/
def turnOf : State H × Label H → Option (Turn H)
  | (s, .event a) =>
    match s.events with
    | [] => none
    | event :: _ =>
      if s.getFd event.channel = s.getFd serverChannel then none
      else some ⟨s, event.channel, event.flag, a⟩
  | _ => none

/-- The turns in the steps `past`, in order. -/
def turns (past : List (State H × Label H)) : List (Turn H) := past.filterMap turnOf

/-- The turns of the client `id`. -/
def turnsOn (id : ChannelId) (past : List (State H × Label H)) : List (Turn H) :=
  (turns past).filter fun turn => turn.id = id

theorem turns_append (past more : List (State H × Label H)) :
    turns (past ++ more) = turns past ++ turns more := List.filterMap_append

theorem turnsOn_append (past more : List (State H × Label H)) :
    turnsOn id (past ++ more) = turnsOn id past ++ turnsOn id more := by
  rw [turnsOn, turns_append, List.filter_append]
  rfl

theorem eq_of_turnOf {made : State H × Label H} {turn : Turn H} (h : turnOf made = some turn) :
    made = (turn.before, .event turn.answers) ∧
      (∃ events, turn.before.phase = .batch (⟨turn.flag, turn.id⟩ :: events)) ∧
      turn.before.getFd turn.id ≠ turn.before.getFd serverChannel := by
  obtain ⟨s, label⟩ := made
  cases label with
  | poll | cleanup | stop => cases h
  | event a =>
    rw [turnOf] at h
    split at h
    · cases h
    · rename_i event events hevents
      split at h
      · cases h
      · rename_i hclient
        cases h
        refine ⟨rfl, ⟨events, ?_⟩, hclient⟩
        rw [State.events] at hevents
        split at hevents
        · rename_i all hphase
          rw [hphase, hevents]
        · cases hevents

theorem turnsOn_quiet (h : ∀ a, label ≠ .event a) : turnsOn id [(s, label)] = [] := by
  cases label with
  | event a => exact absurd rfl (h a)
  | poll | cleanup | stop => rfl

/-- What a turn does on its connection: what its flag, the channel and the answers say. -/
def Turn.acts (turn : Turn H) : List (Act H) :=
  match turn.before.objects turn.id with
  | none => []
  | some channel =>
    match effect channel turn.flag turn.answers with
    | none => []
    | some e => e.acts

/-! ### The closed list -/

/-- The state with another closed list. -/
def State.withMarks (s : State H) (marks : List Fd) : State H :=
  { s with manager := { s.manager with closedChannels := marks } }

/-- The turn does the same whatever is marked for closure. -/
def Turn.Blind (turn : Turn H) : Prop :=
  ∃ s' marked, step turn.before (.event turn.answers) = some s' ∧
    ∀ marks, step (turn.before.withMarks marks) (.event turn.answers)
      = some (s'.withMarks (marks ++ marked))

theorem apply_withMarks (s : State H) (flag : EventFlag) (a : Answers H) (e : Effect H) (marks : List Fd) :
    ((s.withMarks marks).scratch flag a).apply id a.memory e
      = ((s.scratch flag a).apply id a.memory e).withMarks
        (marks ++ if e.marks then [s.getFd id] else []) := by
  have hfd : ((s.withMarks marks).scratch flag a).getFd id = s.getFd id := by
    unfold State.scratch
    split <;> rfl
  have hfd' : (s.scratch flag a).getFd id = s.getFd id := by
    unfold State.scratch
    split <;> rfl
  rw [State.apply, State.apply, hfd, hfd']
  cases flag with
  | READ =>
    cases hread : a.read with
    | none => cases e.marks <;> simp [State.scratch, State.withMarks, hread, Manager.remove]
    | some bytes => cases e.marks <;> simp [State.scratch, State.withMarks, hread, Manager.remove]
  | WRITE | HANGUP | ERROR => cases e.marks <;> simp [State.scratch, State.withMarks, Manager.remove]

/-! ### The turn that an event is -/

theorem Owned.pending_nil (h : Owned s) (hid : id ≠ serverChannel) (hnm : ¬ s.Managed id) :
    s.pending id = [] :=
  pendingOf_eq_nil fun e he heq =>
    (h.pending e he).elim (fun hserver => hid (heq.symm.trans hserver)) fun hm => hnm (heq ▸ hm)

theorem turnOf_head {flag : EventFlag} {events : List Event} {a : Answers H}
    (hphase : s.phase = .batch (⟨flag, id⟩ :: events)) (hne : s.getFd id ≠ s.getFd serverChannel) :
    turnOf (s, .event a) = some ⟨s, id, flag, a⟩ := by
  have hevents : s.events = ⟨flag, id⟩ :: events := by rw [State.events, hphase]
  simp only [turnOf, hevents]
  exact if_neg hne

/-- The event that is handled is a turn of its client. -/
theorem turnsOn_head {flag : EventFlag} {events : List Event} {a : Answers H}
    (hphase : s.phase = .batch (⟨flag, id⟩ :: events)) (hne : s.getFd id ≠ s.getFd serverChannel) :
    turnsOn id [(s, .event a)] = [⟨s, id, flag, a⟩] := by
  simp [turnsOn, turns, turnOf_head hphase hne]

theorem turnsOn_other {event : Event} {events : List Event} {a : Answers H}
    (hphase : s.phase = .batch (event :: events)) (hne : event.channel ≠ id) :
    turnsOn id [(s, .event a)] = [] := by
  have hevents : s.events = event :: events := by rw [State.events, hphase]
  refine List.filter_eq_nil_iff.mpr fun turn hmem => ?_
  rw [turns, List.filterMap_cons] at hmem
  simp only [turnOf, hevents] at hmem
  split at hmem
  · cases hmem
  · rename_i turn' hturn
    split at hturn
    · cases hturn
    · cases hturn
      rw [List.filterMap_nil, List.mem_singleton] at hmem
      rw [hmem]
      simpa using hne

/-- **An event and a connection.**  Either the event leaves the connection as it is, or it
is a turn of the connection. -/
theorem turn_or_untouched {a : Answers H} (h : Owned s) (hm : Moves s (.event a) s')
    (hid : id ≠ serverChannel) (hlt : id < s.nextId) :
    (turnsOn id [(s, .event a)] = [] ∧ Untouched s s' id) ∨
    ∃ flag events channel e, s.phase = .batch (⟨flag, id⟩ :: events) ∧ s.Managed id ∧
      turnsOn id [(s, .event a)] = [⟨s, id, flag, a⟩] ∧ s.objects id = some channel ∧
      effect channel flag a = some e ∧ Affected s id events a.memory e s' := by
  have huntouched : (∀ e ∈ s.events.head?, e.channel ≠ id) → Untouched s s' id :=
    untouched h hm hid fun heq => absurd heq (Nat.ne_of_lt hlt)
  have hother : ∀ event events, s.phase = .batch (event :: events) → event.channel ≠ id →
      turnsOn id [(s, .event a)] = [] ∧ Untouched s s' id := by
    intro event events hphase hne
    refine ⟨turnsOn_other hphase hne, huntouched fun e he => ?_⟩
    rw [State.events, hphase, List.head?_cons, Option.mem_some_iff] at he
    rwa [← he]
  cases hm with
  | refused _ flag events hphase hneg => exact Or.inl (hother _ _ hphase hid.symm)
  | accepted _ flag events hphase hpos hfree => exact Or.inl (hother _ _ hphase hid.symm)
  | client _ flag id' events channel e s' hphase hm hobj he ha =>
    rcases eq_or_ne id' id with rfl | hne
    · exact Or.inr ⟨flag, events, channel, e, hphase, hm, turnsOn_head hphase (h.getFd_ne_server hm),
        hobj, he, ha⟩
    · exact Or.inl (hother _ _ hphase hne)

theorem blind_of_event {flag : EventFlag} {events : List Event} {a : Answers H} (h : Owned s)
    (hm : s.Managed id) (hphase : s.phase = .batch (⟨flag, id⟩ :: events))
    (hs : step s (.event a) = some s') : Turn.Blind ⟨s, id, flag, a⟩ := by
  obtain ⟨channel, hobj, hfd⟩ := h.object hm
  have hne : channel.fd ≠ s.getFd serverChannel := by
    rw [hfd]
    exact h.getFd_ne_server hm
  have hstep : step s (.event a) = handleEvent { s with phase := .batch events } ⟨flag, id⟩ a := by
    simp only [step, hphase]
  have hs' := hs
  rw [hstep, @handleEvent_client _ { s with phase := .batch events } id channel a flag hobj hne] at hs
  obtain ⟨e, he, happly⟩ := Option.map_eq_some_iff.mp hs
  refine ⟨s', if e.marks then [s.getFd id] else [], hs', fun marks => ?_⟩
  have hstep' : step (s.withMarks marks) (.event a)
      = handleEvent (State.withMarks { s with phase := .batch events } marks) ⟨flag, id⟩ a := by
    simp only [step, State.withMarks, hphase]
  rw [hstep', @handleEvent_client _ (State.withMarks { s with phase := .batch events } marks) id channel a
    flag hobj hne, he, ← happly]
  exact congrArg some (apply_withMarks { s with phase := .batch events } flag a e marks)

end Sews.Runtime
