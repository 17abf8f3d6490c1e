import Sews.Runtime.Lifetime

/-!
# Epoll and the table

The descriptors epoll watches and the keys of the manager's table are changed at
different places: `registerChannel` and `add` when a connection is accepted,
`unregisterChannel` and `clear` at the end of the batch, where a descriptor that
is marked twice is unregistered twice and erased once.  `InStep` says that the
two agree all the same, apart from the listener, which only epoll has.

So every report of epoll has a channel among the watched ones (`find_watched`),
and the event it makes is still for that channel when its turn comes
(`epoll_in_step`).
-/

namespace Sews.Runtime

open Cpp Sews.Http Sews.Connection Sews.Reactor Sews.Telemetry Dispatcher

variable {H : Type} {s s' : State H} {label : Label H} {listenFd : Fd}

/-- `accept` returns no open descriptor, and epoll takes in a new connection. -/
def Registering (s : State H) (label : Label H) : Prop :=
  Fresh s label ∧
  match label with
  | .event a => ∀ event ∈ s.events.head?, event.channel = serverChannel → a.memory = true
  | _ => True

instance (s : State H) : (label : Label H) → Decidable (Registering s label)
  | .event a => inferInstanceAs (Decidable (Fresh s (.event a) ∧
      ∀ event ∈ s.events.head?, event.channel = serverChannel → a.memory = true))
  | .poll order ready => inferInstanceAs (Decidable (Fresh s (.poll order ready) ∧ True))
  | .cleanup granted => inferInstanceAs (Decidable (Fresh s (.cleanup granted) ∧ True))
  | .stop order granted => inferInstanceAs (Decidable (Fresh s (.stop order granted) ∧ True))

/-- Epoll watches the listener and what is in the table. -/
structure InStep (listenFd : Fd) (s : State H) : Prop where
  listener : s.getFd serverChannel = listenFd
  registered : ∀ fd, s.kernel.interest fd ≠ none ↔
    fd = listenFd ∨ s.manager.channels.lookup fd ≠ none

namespace InStep

theorem initial (listenFd : Fd) (metrics : Metrics) :
    InStep listenFd (Dispatcher.initial listenFd true metrics : State H) where
  listener := rfl
  registered fd := by
    have hinterest : (Dispatcher.initial listenFd true metrics : State H).kernel.interest
        = Function.update (fun _ => none) listenFd (some SocketLoop.readMask) := by
      simp [Dispatcher.initial, SocketLoop.registerChannel, Kernel.ctlAdd]
    rw [lookup_initial, hinterest, Function.update_apply]
    split <;> simp_all

theorem welcome (hi : InStep listenFd s) (h : Owned s) {a : Answers H} (events : List Event)
    (hfree : s.kernel.files a.accepted = none) (hmem : a.memory = true) :
    InStep listenFd (s.welcome events a) := by
  refine ⟨?_, fun fd => ?_⟩
  · rw [Owned.getFd_welcome, if_neg (h.fresh s.nextId le_rfl).2.2.2.symm]
    exact hi.listener
  · rw [Owned.lookup_welcome]
    rcases eq_or_ne fd a.accepted with rfl | hfd
    · rw [h.interest_welcome hfree hmem, if_pos rfl]
      simp
    · rw [Owned.interest_welcome_ne hfd, if_neg hfd]
      exact hi.registered fd

theorem affected (hi : InStep listenFd s) {id : ChannelId} {events : List Event} {memory : Bool}
    {e : Effect H} (ha : Affected s id events memory e s') : InStep listenFd s' := by
  refine ⟨(ha.getFd _).trans hi.listener, fun fd => ?_⟩
  rw [ne_eq, ha.interest_none, ha.channels]
  exact hi.registered fd

theorem swept (hi : InStep listenFd s) (h : Owned s) (hw : Swept s s') : InStep listenFd s' := by
  have hserver := h.server_unmarked
  refine ⟨?_, fun fd => ?_⟩
  · rw [hw.getFd, if_neg fun hmark => hserver hmark.2]
    exact hi.listener
  · rw [hw.interest, hw.lookup]
    split
    · rename_i hfd
      -- the descriptor of a connection that is closed
      have hne : fd ≠ listenFd := by
        rintro rfl
        rw [hi.listener] at hserver
        exact hserver hfd
      simp [hne]
    · exact hi.registered fd

theorem moves (hi : InStep listenFd s) (h : Owned s) (hreg : Registering s label)
    (hm : Moves s label s') (hrun : s'.phase ≠ .returned) : InStep listenFd s' := by
  cases hm with
  | poll order ready htop horder => exact ⟨hi.listener, hi.registered⟩
  | refused a flag events hphase hneg => exact ⟨hi.listener, hi.registered⟩
  | accepted a flag events hphase hpos hfree =>
    refine hi.welcome h events hfree (hreg.2 ⟨flag, serverChannel⟩ ?_ rfl)
    rw [State.events, hphase]
    rfl
  | client a flag id events channel e s' hphase hm hobj he ha => exact hi.affected ha
  | cleanup granted s' hphase hw => exact hi.swept h hw
  | stop order granted s' htop hstop => exact absurd hstop.phase hrun

/-- Every watched descriptor has an owner among the channels that `poll` is
given. -/
theorem find_watched (hi : InStep listenFd s) (h : Owned s) {order : List (Σ _ : Fd, ChannelId)}
    (horder : UnorderedMap.Enumerates order s.manager.channels) {fd : Fd}
    (hfd : s.kernel.interest fd ≠ none) :
    ∃ id, (serverChannel :: order.map (·.2)).find? (fun channel => decide (s.getFd channel = fd)) = some id ∧
      ((id = serverChannel ∧ fd = listenFd) ∨ s.manager.channels.lookup fd = some id) := by
  have hfound : ∃ id ∈ serverChannel :: order.map (·.2), s.getFd id = fd := by
    rcases (hi.registered fd).mp hfd with rfl | hl
    · exact ⟨serverChannel, List.mem_cons_self, hi.listener⟩
    · obtain ⟨id, hid⟩ := Option.ne_none_iff_exists'.mp hl
      refine ⟨id, List.mem_cons_of_mem _ ?_, (h.entry fd id hid).2.2.2.2⟩
      exact List.mem_map.mpr ⟨⟨fd, id⟩, (horder.mem_iff fd id).mpr hid, rfl⟩
  cases hfind : (serverChannel :: order.map (·.2)).find? (fun channel => decide (s.getFd channel = fd)) with
  | none =>
    obtain ⟨id, hmem, heq⟩ := hfound
    exact absurd (decide_eq_true heq) (List.find?_eq_none.mp hfind id hmem)
  | some id =>
    obtain ⟨heq, rfl | hl⟩ := h.of_find horder hfind
    · exact ⟨serverChannel, rfl, Or.inl ⟨rfl, heq.symm.trans hi.listener⟩⟩
    · exact ⟨id, rfl, Or.inr hl⟩

/-- `poll` drops no report of a watched descriptor. -/
theorem poll_eq (hi : InStep listenFd s) (h : Owned s) {order : List (Σ _ : Fd, ChannelId)}
    (horder : UnorderedMap.Enumerates order s.manager.channels) {ready : List EpollEvent}
    (hready : ∀ r ∈ ready, s.kernel.interest r.fd ≠ none) :
    ∃ owner : Fd → ChannelId,
      (∀ r ∈ ready, (owner r.fd = serverChannel ∧ r.fd = listenFd) ∨
        s.manager.channels.lookup r.fd = some (owner r.fd)) ∧
      SocketLoop.poll s.getFd (serverChannel :: order.map (·.2)) ready
        = ready.flatMap fun r => SocketLoop.eventsOf r.events (owner r.fd) := by
  have hwatched := fun fd (hfd : s.kernel.interest fd ≠ none) => hi.find_watched h horder hfd
  choose! owner hfind howner using hwatched
  refine ⟨owner, fun r hr => howner r.fd (hready r hr), ?_⟩
  refine List.flatMap_congr fun r hr => ?_
  rw [hfind r.fd (hready r hr)]

end InStep

theorem inStep_of_run {metrics : Metrics} {labels : List (Label H)} (hfd : 0 ≤ listenFd)
    (h : Run step Registering (initial listenFd true metrics) labels s) (hrun : s.phase ≠ .returned) :
    Owned s ∧ InStep listenFd s := by
  refine ⟨owned_of_run hfd (h.mono fun _ _ hok => hok.1) hrun, ?_⟩
  refine inv_of_run hfd (fun _ _ hok => hok.1) h hrun (.initial listenFd metrics) ?_
  exact fun s label s' hown hi hreg hm hrun' => hi.moves hown hreg hm hrun'

/-! ### A batch -/

/-- The events to come are for channels under the descriptors of `ready`. -/
def Covered (ready : List EpollEvent) (s : State H) : Prop :=
  ∀ e ∈ s.events, ∃ r ∈ ready, r.fd = s.getFd e.channel

theorem Covered.poll (watched : List ChannelId) (ready : List EpollEvent) :
    Covered ready { s with phase := .batch (SocketLoop.poll s.getFd watched ready) } := by
  intro e he
  obtain ⟨-, r, hr, heq, -⟩ := SocketLoop.mem_poll he
  exact ⟨r, hr, heq⟩

theorem Covered.event {ready : List EpollEvent} {a : Answers H} (hc : Covered ready s) (h : Owned s)
    (hm : Moves s (.event a) s') : Covered ready s' := by
  cases hm with
  | refused _ flag events hphase hneg => exact fun e he => hc e (Owned.mem_events hphase he)
  | accepted _ flag events hphase hpos hfree =>
    intro e he
    have hmem := Owned.mem_events hphase he
    have hold : e.channel ≠ s.nextId := by
      rcases h.pending e hmem with hserver | hm
      · rw [hserver]
        exact (h.fresh s.nextId le_rfl).2.2.2.symm
      · exact h.ne_nextId hm
    rw [Owned.getFd_welcome, if_neg hold]
    exact hc e hmem
  | client _ flag id events channel e s' hphase hm hobj he ha =>
    intro ev hev
    rw [ha.getFd]
    exact hc ev (Owned.mem_events hphase (ha.mem_events hev))

/-- What a batch keeps, however much of it is handled. -/
theorem covered_of_batch {ready : List EpollEvent} (h : Owned s) (hc : Covered ready s)
    (hrun : s.phase ≠ .returned) {answers : List (Answers H)} {t : State H}
    (hbatch : Run step Registering s (answers.map .event) t) :
    t.phase ≠ .returned ∧ Owned t ∧ Covered ready t := by
  have hevents : ∀ label ∈ answers.map Label.event, ∃ a : Answers H, label = .event a := by
    intro label hmem
    obtain ⟨a, -, rfl⟩ := List.mem_map.mp hmem
    exact ⟨a, rfl⟩
  refine Run.inv (I := fun t : State H => t.phase ≠ .returned ∧ Owned t ∧ Covered ready t)
    (hbatch.and_mem hevents) ⟨hrun, h, hc⟩ ?_
  rintro t label t' ⟨-, hown, hcov⟩ ⟨hreg, a, rfl⟩ hs
  have hm := moves_of_step hown hreg.1 hs
  have hrun' := (running_of_event hm).2
  exact ⟨hrun', hown.moves hm hrun', hcov.event hown hm⟩

/-- **Epoll and the connection table stay in step.**  At the top of the loop the
descriptors epoll watches are the listener's and the keys of the table.  So `poll`
finds a channel for every report of a watched descriptor and drops none, and each
event of the batch, when its turn comes, is for the listener or for the connection
that the table still has under the reported descriptor. -/
theorem epoll_in_step {metrics : Metrics} {labels : List (Label H)} (hfd : 0 ≤ listenFd)
    (h : Run step Registering (initial listenFd true metrics) labels s) (hrun : s.phase ≠ .returned) :
    (s.phase = .top → ∀ fd, s.kernel.interest fd ≠ none ↔
      fd = listenFd ∨ s.manager.channels.lookup fd ≠ none) ∧
    ∀ order ready s', step s (.poll order ready) = some s' →
      (∀ r ∈ ready, s.kernel.interest r.fd ≠ none) →
      (∃ owner : Fd → ChannelId,
        (∀ r ∈ ready, (owner r.fd = serverChannel ∧ r.fd = listenFd) ∨
          s.manager.channels.lookup r.fd = some (owner r.fd)) ∧
        s'.events = ready.flatMap fun r => SocketLoop.eventsOf r.events (owner r.fd)) ∧
      ∀ (answers : List (Answers H)) (t : State H), Run step Registering s' (answers.map .event) t →
        ∀ e ∈ t.events, ∃ r ∈ ready, r.fd = t.getFd e.channel ∧
          ((e.channel = serverChannel ∧ r.fd = listenFd) ∨
            t.manager.channels.lookup r.fd = some e.channel) := by
  obtain ⟨hown, hstep⟩ := inStep_of_run hfd h hrun
  refine ⟨fun _ => hstep.registered, fun order ready s' hs hready => ?_⟩
  have hrun' : Run step Registering (initial listenFd true metrics) (labels ++ [.poll order ready]) s' :=
    h.snoc ⟨trivial, trivial⟩ hs
  have hfresh : Fresh s (.poll order ready) := trivial
  cases moves_of_step hown hfresh hs with
  | poll _ _ htop horder =>
    refine ⟨hstep.poll_eq hown horder hready, fun answers t hbatch e he => ?_⟩
    obtain ⟨hrunning, hown', hcov⟩ :=
      covered_of_batch (hown.poll horder ready) (.poll _ ready) (by simp) hbatch
    obtain ⟨r, hr, heq⟩ := hcov e he
    have hlistener := (inStep_of_run hfd (hrun'.append hbatch) hrunning).2.listener
    refine ⟨r, hr, heq, ?_⟩
    rcases hown'.pending e he with hserver | hm
    · rw [hserver, hlistener] at heq
      exact Or.inl ⟨hserver, heq⟩
    · rw [heq]
      exact Or.inr hm

/-- Two connections under one descriptor, one after the other, the first marked
twice. -/
def reregistered : State Unit :=
  (Run.exec step Registering (initial 3 true ∅) reuseLabels).get (by decide +kernel)

theorem epoll_in_step_reregistered :
    (∀ fd, reregistered.kernel.interest fd ≠ none ↔
      fd = 3 ∨ reregistered.manager.channels.lookup fd ≠ none) ∧
    reregistered.manager.channels.lookup 4 = some 2 := by
  have hrun : Run step Registering (initial 3 true ∅) reuseLabels reregistered :=
    Run.of_exec reuseLabels _ (Option.some_get _).symm
  have htop : reregistered.phase = .top := by decide +kernel
  exact ⟨(epoll_in_step (by decide) hrun (by decide +kernel)).1 htop, by decide +kernel⟩

end Sews.Runtime
