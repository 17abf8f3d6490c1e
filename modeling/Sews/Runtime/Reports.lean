import Sews.Runtime.Registration

/-!
# What becomes of a report

`poll` turns a report of epoll into up to four events, on the channel it finds under
the reported descriptor, and drops it where it finds none; the loop then takes the
events of its batch one by one, and an exception drops what is left of it.  `reported`
is what a poll was told, put on the connection that has the descriptor, and `taken`
the event that a step takes.

Over a whole run the two are the same list, up to what is still to come
(`reports_taken`): no report is lost, doubled or overtaken by a later one, whatever is
accepted, closed and numbered anew in between.
-/

namespace Sews.Runtime

open Cpp Sews.Http Sews.Connection Sews.Reactor Sews.Telemetry Dispatcher

variable {H : Type} {s s' : State H} {label : Label H} {listenFd : Fd}
  {past : List (State H × Label H)}

/-- Epoll reports only what it watches. -/
def Notified (s : State H) (label : Label H) : Prop :=
  Registering s label ∧
  match label with
  | .poll _ ready => ∀ r ∈ ready, s.kernel.interest r.fd ≠ none
  | _ => True

instance (s : State H) : (label : Label H) → Decidable (Notified s label)
  | .poll order ready => inferInstanceAs (Decidable (Registering s (.poll order ready) ∧
      ∀ r ∈ ready, s.kernel.interest r.fd ≠ none))
  | .event a => inferInstanceAs (Decidable (Registering s (.event a) ∧ True))
  | .cleanup granted => inferInstanceAs (Decidable (Registering s (.cleanup granted) ∧ True))
  | .stop order granted => inferInstanceAs (Decidable (Registering s (.stop order granted) ∧ True))

/-- Whose descriptor it is: a connection's, or else the listener's. -/
def State.holder (s : State H) (fd : Fd) : ChannelId :=
  (s.manager.channels.lookup fd).getD serverChannel

/-- The events that epoll reports in a step. -/
def reported (made : State H × Label H) : List Event :=
  match made.2 with
  | .poll _ ready => ready.flatMap fun r => SocketLoop.eventsOf r.events (made.1.holder r.fd)
  | _ => []

/-- The event that a step handles. -/
def taken (made : State H × Label H) : List Event :=
  match made.2 with
  | .event _ => made.1.events.head?.toList
  | _ => []

/-- What was taken is what was reported, up to the events to come.  Only an exception
drops any. -/
structure Taken (past : List (State H × Label H)) (s : State H) : Prop where
  order : past.flatMap taken <+: past.flatMap reported
  all : s.phase ≠ .threw → past.flatMap taken ++ s.events = past.flatMap reported

theorem InStep.holder_eq (hi : InStep listenFd s) (h : Owned s) {fd : Fd} {id : ChannelId}
    (howner : (id = serverChannel ∧ fd = listenFd) ∨ s.manager.channels.lookup fd = some id) :
    s.holder fd = id := by
  rcases howner with ⟨rfl, rfl⟩ | hl
  · -- the listener's descriptor is open, and no connection's
    have hnone : s.manager.channels.lookup fd = none := by
      by_contra hne
      obtain ⟨id, hid⟩ := Option.ne_none_iff_exists'.mp hne
      have hm := h.managed_of_lookup hid
      refine h.getFd_ne_server hm ?_
      rw [(h.entry fd id hid).2.2.2.2, hi.listener]
    rw [State.holder, hnone, Option.getD_none]
  · rw [State.holder, hl, Option.getD_some]

namespace Taken

theorem of_all (hall : past.flatMap taken ++ s.events = past.flatMap reported) : Taken past s :=
  ⟨⟨s.events, hall⟩, fun _ => hall⟩

theorem initial (listenFd : Fd) (memory : Bool) (metrics : Metrics) :
    Taken [] (Dispatcher.initial listenFd memory metrics : State H) := of_all rfl

theorem poll (ht : Taken past s) (hi : InStep listenFd s) (h : Owned s)
    {order : List (Σ _ : Fd, ChannelId)} (horder : UnorderedMap.Enumerates order s.manager.channels)
    {ready : List EpollEvent} (hready : ∀ r ∈ ready, s.kernel.interest r.fd ≠ none) (htop : s.phase = .top) :
    Taken (past ++ [(s, .poll order ready)])
      { s with phase := .batch (SocketLoop.poll s.getFd (serverChannel :: order.map (·.2)) ready) } := by
  obtain ⟨owner, howner, hpoll⟩ := hi.poll_eq h horder hready
  have hall := ht.all (by simp [htop])
  rw [State.events, htop, List.append_nil] at hall
  refine of_all ?_
  rw [List.flatMap_append, List.flatMap_append, hall]
  simp only [taken, reported, List.flatMap_cons, List.flatMap_nil, List.append_nil, State.events, hpoll]
  congr 1
  refine List.flatMap_congr fun r hr => ?_
  rw [hi.holder_eq h (howner r hr)]

theorem event (ht : Taken past s) {a : Answers H} {event : Event} {events : List Event}
    (hphase : s.phase = .batch (event :: events)) (hnext : s'.phase ≠ .threw → s'.phase = .batch events) :
    Taken (past ++ [(s, .event a)]) s' := by
  have hall := ht.all (by simp [hphase])
  have htaken : (past ++ [(s, Label.event a)]).flatMap taken ++ events
      = (past ++ [(s, Label.event a)]).flatMap reported := by
    rw [State.events, hphase] at hall
    rw [List.flatMap_append, List.flatMap_append, ← hall]
    simp [taken, reported, State.events, hphase]
  refine ⟨⟨events, htaken⟩, fun hthrew => ?_⟩
  rw [State.events, hnext hthrew]
  exact htaken

theorem quiet (ht : Taken past s) (hthrew : s.phase ≠ .threw) (hevents : s.events = [])
    (hevents' : s'.events = []) (htaken : taken (s, label) = []) (hreported : reported (s, label) = []) :
    Taken (past ++ [(s, label)]) s' := by
  have hall := ht.all hthrew
  rw [hevents] at hall
  refine of_all ?_
  rw [List.flatMap_append, List.flatMap_append, hevents']
  simpa [htaken, hreported] using hall

theorem moves (ht : Taken past s) (hi : InStep listenFd s) (h : Owned s) (hok : Notified s label)
    (hm : Moves s label s') : Taken (past ++ [(s, label)]) s' := by
  cases hm with
  | poll order ready htop horder => exact ht.poll hi h horder hok.2 htop
  | refused a flag events hphase hneg => exact ht.event hphase fun _ => rfl
  | accepted a flag events hphase hpos hfree => exact ht.event hphase fun _ => rfl
  | client a flag id events channel e s' hphase hm hobj he ha =>
    refine ht.event hphase fun hthrew => ?_
    rw [ha.phase] at hthrew ⊢
    split at hthrew
    · exact absurd rfl hthrew
    · rename_i hthrows
      rw [if_neg hthrows]
  | cleanup granted s' hphase hw =>
    exact ht.quiet (by simp [hphase]) (by rw [State.events, hphase]) (by rw [State.events, hw.phase]) rfl rfl
  | stop order granted s' htop hstop =>
    exact ht.quiet (by simp [htop]) (by rw [State.events, htop]) (by rw [State.events, hstop.phase]) rfl rfl

end Taken

/-- **Every report is taken once, in its turn.**  The events handled in a run, and then
the ones still to come, are the events of all reports that epoll made in the run, each
for the connection that had the descriptor when it was reported.  Only an exception
leaves any of them out, and only at the end. -/
theorem reports_taken {metrics : Metrics} {labels : List (Label H)} (hfd : 0 ≤ listenFd)
    (h : Run step Notified (initial listenFd true metrics) labels s) :
    (Run.history step (initial listenFd true metrics) labels).flatMap taken
        <+: (Run.history step (initial listenFd true metrics) labels).flatMap reported ∧
      (s.phase ≠ .threw →
        (Run.history step (initial listenFd true metrics) labels).flatMap taken ++ s.events
          = (Run.history step (initial listenFd true metrics) labels).flatMap reported) := by
  have hinv := Run.invHistory (I := fun past (s : State H) =>
    (s.phase ≠ .returned → Owned s ∧ InStep listenFd s) ∧ Taken past s) h
    ⟨fun _ => ⟨owned_initial hfd true metrics, .initial listenFd metrics⟩, .initial listenFd true metrics⟩ ?_
  · exact ⟨hinv.2.order, hinv.2.all⟩
  · rintro past s label s' ⟨hrunning, ht⟩ hok hs
    obtain ⟨hown, hi⟩ := hrunning (running_of_step hs)
    have hm := moves_of_step hown hok.1.1 hs
    exact ⟨fun hrun' => ⟨hown.moves hm hrun', hi.moves hown hok.1 hm hrun'⟩, ht.moves hi hown hok hm⟩

theorem reports_taken_reregistered :
    (Run.history step (initial 3 true ∅ : State Unit) reuseLabels).flatMap taken
      = [⟨.READ, 0⟩, ⟨.ERROR, 1⟩, ⟨.HANGUP, 1⟩, ⟨.READ, 0⟩] := by
  have hsome : (Run.exec step Notified (initial 3 true ∅) reuseLabels).isSome := by decide +kernel
  obtain ⟨s, hs⟩ := Option.isSome_iff_exists.mp hsome
  have htop : s.phase = .top := by
    have heq : (Run.exec step Notified (initial 3 true ∅) reuseLabels).map (·.phase) = some .top := by
      decide +kernel
    rw [hs] at heq
    exact Option.some.inj heq
  have hall := (reports_taken (by decide) (Run.of_exec reuseLabels _ hs)).2 (by simp [htop])
  rw [State.events, htop, List.append_nil] at hall
  rw [hall]
  decide +kernel

end Sews.Runtime
