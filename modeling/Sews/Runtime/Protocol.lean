import Sews.Runtime.Lifetime

/-!
# The two states of a connection

A connection either waits for a request, with epoll asked for `READ` and nothing
in its write buffer, or it sends a response, with epoll asked for `WRITE` and an
offset inside the buffer.  Nothing in the code says so, and the code does not
check it: the five branches that queue a response overwrite the buffer, and
`flush` trusts the offset, which the constructor leaves unassigned.

What makes it work is epoll.  A report holds flags that the descriptor was
watched for, and a descriptor has one report in a wait (`Watching`), so that a
batch has at most one of `READ` and `WRITE` for a connection, and the one its
state allows.  `Protocol` is this invariant in the middle of a batch, and
`two_state_protocol` what it says at the top of the loop and on the events
handled.
-/

namespace Sews.Runtime

open Cpp Sews.Http Sews.Connection Sews.Reactor Sews.Telemetry Dispatcher

variable {H : Type} {s s' : State H} {label : Label H}

/-! ### What is assumed of the kernel -/

/-- One report at most for a descriptor, with the failure flags and flags that it
is watched for. -/
def Watching (k : Kernel) (ready : List EpollEvent) : Prop :=
  (ready.map (·.fd)).Nodup ∧
  ∀ r ∈ ready, (r.events.epollin = true → ((k.interest r.fd).getD {}).epollin = true) ∧
    (r.events.epollout = true → ((k.interest r.fd).getD {}).epollout = true)

/-- The writes on the channel of the next event take between one byte and all
they are offered, or fail. -/
def SaneWrites (s : State H) (writes : List WriteResult) : Prop :=
  ∀ event ∈ s.events.head?, ∀ channel ∈ s.objects event.channel,
    PlainTextChannel.GoodWrites (channel.writeBuffer.length - channel.writeOffset) writes

/-- A step in which epoll and `write` behave as they should, `epoll_ctl` has
memory, and `accept` returns no open descriptor. -/
def Regular (s : State H) (label : Label H) : Prop :=
  Fresh s label ∧
  match label with
  | .poll _ ready => Watching s.kernel ready
  | .event a => a.memory = true ∧ SaneWrites s a.writes
  | _ => True

instance (k : Kernel) (ready : List EpollEvent) : Decidable (Watching k ready) :=
  inferInstanceAs (Decidable (_ ∧ _))

instance (s : State H) (writes : List WriteResult) : Decidable (SaneWrites s writes) :=
  inferInstanceAs (Decidable (∀ event ∈ s.events.head?, ∀ channel ∈ s.objects event.channel, _))

instance (s : State H) : (label : Label H) → Decidable (Regular s label)
  | .poll order ready =>
    inferInstanceAs (Decidable (Fresh s (.poll order ready) ∧ Watching s.kernel ready))
  | .event a =>
    inferInstanceAs (Decidable (Fresh s (.event a) ∧ (a.memory = true ∧ SaneWrites s a.writes)))
  | .cleanup granted => inferInstanceAs (Decidable (Fresh s (.cleanup granted) ∧ True))
  | .stop order granted => inferInstanceAs (Decidable (Fresh s (.stop order granted) ∧ True))

theorem SaneWrites.good {writes : List WriteResult} (h : SaneWrites s writes) {flag : EventFlag}
    {id : ChannelId} {events : List Event} (hphase : s.phase = .batch (⟨flag, id⟩ :: events))
    {channel : PlainTextChannel} (hobj : s.objects id = some channel) :
    PlainTextChannel.GoodWrites (channel.writeBuffer.length - channel.writeOffset) writes := by
  refine h ⟨flag, id⟩ ?_ channel hobj
  rw [State.events, hphase]
  rfl

/-! ### The events of one connection -/

/-- The flags of the events of one channel. -/
def pendingOf (events : List Event) (id : ChannelId) : List EventFlag :=
  (events.filter fun e => e.channel = id).map (·.flag)

/-- The flags still to be handled on a connection. -/
def State.pending (s : State H) (id : ChannelId) : List EventFlag := pendingOf s.events id

/-- The order in which `poll` makes the events of a report. -/
def flagOrder : List EventFlag := [.ERROR, .HANGUP, .READ, .WRITE]

theorem pendingOf_cons_self (flag : EventFlag) (id : ChannelId) (events : List Event) :
    pendingOf (⟨flag, id⟩ :: events) id = flag :: pendingOf events id := by
  simp [pendingOf]

theorem pendingOf_append (events events' : List Event) (id : ChannelId) :
    pendingOf (events ++ events') id = pendingOf events id ++ pendingOf events' id := by
  simp [pendingOf]

theorem pendingOf_eq_nil {events : List Event} {id : ChannelId} (h : ∀ e ∈ events, e.channel ≠ id) :
    pendingOf events id = [] := by
  rw [pendingOf, List.filter_eq_nil_iff.mpr]
  · rfl
  · intro e he
    simpa using h e he

theorem pendingOf_eventsOf (flags : EpollFlags) (id : ChannelId) :
    (pendingOf (SocketLoop.eventsOf flags id) id).Sublist flagOrder ∧
      (.READ ∈ pendingOf (SocketLoop.eventsOf flags id) id → flags.epollin = true) ∧
      (.WRITE ∈ pendingOf (SocketLoop.eventsOf flags id) id → flags.epollout = true) := by
  obtain ⟨epollin, epollout, epollerr, epollhup⟩ := flags
  cases epollin <;> cases epollout <;> cases epollerr <;> cases epollhup <;>
    simp [SocketLoop.eventsOf, pendingOf, flagOrder]

theorem pendingOf_poll_nil {getFd : ChannelId → Fd} {id : ChannelId} {ready : List EpollEvent}
    (h : ∀ r ∈ ready, r.fd ≠ getFd id) (watched : List ChannelId) :
    pendingOf (SocketLoop.poll getFd watched ready) id = [] := by
  refine pendingOf_eq_nil fun e he heq => ?_
  obtain ⟨-, r, hr, hfd, -⟩ := SocketLoop.mem_poll he
  rw [heq] at hfd
  exact h r hr hfd

theorem poll_cons (getFd : ChannelId → Fd) (watched : List ChannelId) (r : EpollEvent)
    (ready : List EpollEvent) : SocketLoop.poll getFd watched (r :: ready)
      = SocketLoop.poll getFd watched [r] ++ SocketLoop.poll getFd watched ready := by
  simp [SocketLoop.poll]

/-- The events of a channel in one wait come from one report. -/
theorem pendingOf_poll (getFd : ChannelId → Fd) (watched : List ChannelId) (id : ChannelId) :
    ∀ ready : List EpollEvent, (ready.map (·.fd)).Nodup →
      pendingOf (SocketLoop.poll getFd watched ready) id = [] ∨
      ∃ r ∈ ready, r.fd = getFd id ∧
        pendingOf (SocketLoop.poll getFd watched ready) id
          = pendingOf (SocketLoop.eventsOf r.events id) id := by
  intro ready
  induction ready with
  | nil => exact fun _ => Or.inl rfl
  | cons r ready ih =>
    intro hnodup
    rw [List.map_cons, List.nodup_cons] at hnodup
    rw [poll_cons, pendingOf_append]
    by_cases hfd : r.fd = getFd id
    · have hrest : pendingOf (SocketLoop.poll getFd watched ready) id = [] := by
        refine pendingOf_poll_nil (fun r' hr' hfd' => ?_) watched
        exact hnodup.1 (List.mem_map.mpr ⟨r', hr', hfd'.trans hfd.symm⟩)
      rw [hrest, List.append_nil]
      cases hfind : watched.find? fun channel => decide (getFd channel = r.fd) with
      | none =>
        refine Or.inl ?_
        simp [SocketLoop.poll, hfind, pendingOf]
      | some channel =>
        rcases eq_or_ne channel id with rfl | hne
        · refine Or.inr ⟨r, List.mem_cons_self, hfd, ?_⟩
          simp [SocketLoop.poll, hfind]
        · refine Or.inl (pendingOf_eq_nil fun e he heq => hne ?_)
          rw [SocketLoop.poll, List.flatMap_cons, List.flatMap_nil, List.append_nil, hfind] at he
          exact (SocketLoop.channel_of_mem_eventsOf he).symm.trans heq
    · have hfirst : pendingOf (SocketLoop.poll getFd watched [r]) id = [] := by
        refine pendingOf_poll_nil (fun r' hr' => ?_) watched
        rwa [List.mem_singleton.mp hr']
      rw [hfirst, List.nil_append]
      rcases ih hnodup.2 with hnil | ⟨r', hr', hfd', heq⟩
      · exact Or.inl hnil
      · exact Or.inr ⟨r', List.mem_cons_of_mem _ hr', hfd', heq⟩

/-! ### The invariant -/

/-- The connection waits for a request. -/
def Reading (s : State H) (channel : PlainTextChannel) : Prop :=
  s.kernel.interest channel.fd = some { epollin := true } ∧ channel.writeBuffer = []

/-- The connection sends a response. -/
def Writing (s : State H) (channel : PlainTextChannel) : Prop :=
  s.kernel.interest channel.fd = some { epollout := true } ∧ channel.offsetAssigned = true ∧
    channel.writeOffset ≤ channel.writeBuffer.length

/-- The state of a connection together with the events that are still to come
for it.  After a failed read or write neither state holds, but the connection is
marked and has no `READ` or `WRITE` to come. -/
def Mode (s : State H) (id : ChannelId) (channel : PlainTextChannel) : Prop :=
  (s.pending id).Sublist flagOrder ∧
  ((Reading s channel ∧ .WRITE ∉ s.pending id) ∨
    (Writing s channel ∧ .READ ∉ s.pending id) ∨
    (s.Marked id ∧ .READ ∉ s.pending id ∧ .WRITE ∉ s.pending id))

/-- Every connection of the table is in one of its states. -/
def Protocol (s : State H) : Prop :=
  ∀ id channel, s.Managed id → s.objects id = some channel → Mode s id channel

theorem Mode.weaken {id : ChannelId} {channel : PlainTextChannel} (h : Mode s id channel)
    (hint : s'.kernel.interest channel.fd = s.kernel.interest channel.fd)
    (hmark : s.Marked id → s'.Marked id) (hp : (s'.pending id).Sublist (s.pending id)) :
    Mode s' id channel := by
  obtain ⟨hsub, hmode⟩ := h
  refine ⟨hp.trans hsub, ?_⟩
  rcases hmode with ⟨hr, hw⟩ | ⟨hw, hr⟩ | ⟨hm, hr, hw⟩
  · exact Or.inl ⟨⟨hint.trans hr.1, hr.2⟩, fun hmem => hw (hp.subset hmem)⟩
  · exact Or.inr (Or.inl ⟨⟨hint.trans hw.1, hw.2⟩, fun hmem => hr (hp.subset hmem)⟩)
  · exact Or.inr (Or.inr ⟨hmark hm, fun hmem => hr (hp.subset hmem), fun hmem => hw (hp.subset hmem)⟩)

/-- With a `READ` event at hand the connection waits for a request, and no other
`READ` or `WRITE` is to come. -/
theorem Mode.of_read {id : ChannelId} {channel : PlainTextChannel} {rest : List EventFlag}
    (h : Mode s id channel) (hp : s.pending id = .READ :: rest) :
    Reading s channel ∧ .READ ∉ rest ∧ .WRITE ∉ rest := by
  obtain ⟨hsub, hmode⟩ := h
  rw [hp] at hsub hmode
  have hnodup : (EventFlag.READ :: rest).Nodup := hsub.nodup (by decide)
  rcases hmode with ⟨hr, hw⟩ | ⟨-, hr⟩ | ⟨-, hr, -⟩
  · exact ⟨hr, (List.nodup_cons.mp hnodup).1, fun hmem => hw (List.mem_cons_of_mem _ hmem)⟩
  · exact absurd List.mem_cons_self hr
  · exact absurd List.mem_cons_self hr

/-- With a `WRITE` event at hand the connection sends a response, and no other
`READ` or `WRITE` is to come. -/
theorem Mode.of_write {id : ChannelId} {channel : PlainTextChannel} {rest : List EventFlag}
    (h : Mode s id channel) (hp : s.pending id = .WRITE :: rest) :
    Writing s channel ∧ .READ ∉ rest ∧ .WRITE ∉ rest := by
  obtain ⟨hsub, hmode⟩ := h
  rw [hp] at hsub hmode
  have hnodup : (EventFlag.WRITE :: rest).Nodup := hsub.nodup (by decide)
  rcases hmode with ⟨-, hw⟩ | ⟨hw, hr⟩ | ⟨-, -, hw⟩
  · exact absurd List.mem_cons_self hw
  · exact ⟨hw, fun hmem => hr (List.mem_cons_of_mem _ hmem), (List.nodup_cons.mp hnodup).1⟩
  · exact absurd List.mem_cons_self hw

/-! ### Every step keeps it -/

theorem pending_batch {events : List Event} (hphase : s.phase = .batch events) (id : ChannelId) :
    s.pending id = pendingOf events id := by
  rw [State.pending, State.events, hphase]

theorem pending_eq_nil (h : ∀ event events, s.phase ≠ .batch (event :: events)) (id : ChannelId) :
    s.pending id = [] := by
  rw [State.pending, State.events]
  split
  · rename_i events hphase
    cases events with
    | nil => rfl
    | cons event events => exact absurd hphase (h event events)
  · rfl

theorem pending_cons {flag : EventFlag} {id : ChannelId} {events : List Event}
    (hphase : s.phase = .batch (⟨flag, id⟩ :: events)) :
    s.pending id = flag :: pendingOf events id ∧
      ∀ id', (pendingOf events id').Sublist (s.pending id') := by
  refine ⟨?_, fun id' => ?_⟩
  · rw [pending_batch hphase, pendingOf_cons_self]
  · rw [pending_batch hphase]
    exact ((List.sublist_cons_self _ _).filter _).map _

theorem Owned.pendingOf_nextId (h : Owned s) {first : Event} {events : List Event}
    (hphase : s.phase = .batch (first :: events)) : pendingOf events s.nextId = [] := by
  refine pendingOf_eq_nil fun e he heq => ?_
  rcases h.pending e (Owned.mem_events hphase he) with hserver | hm
  · exact (h.fresh s.nextId le_rfl).2.2.2 (heq.symm.trans hserver)
  · exact h.ne_nextId hm heq

theorem pending_affected {id : ChannelId} {events : List Event} {memory : Bool} {e : Effect H}
    (ha : Affected s id events memory e s') (id' : ChannelId) :
    (s'.pending id').Sublist (pendingOf events id') := by
  cases ht : e.throws with
  | true =>
    have hphase : s'.phase = .threw := by rw [ha.phase, ht]; rfl
    rw [pending_eq_nil (by simp [hphase])]
    exact List.nil_sublist _
  | false =>
    have hphase : s'.phase = .batch events := by rw [ha.phase, ht]; rfl
    rw [pending_batch hphase]

namespace Protocol

theorem initial (listenFd : Fd) (memory : Bool) (metrics : Metrics) :
    Protocol (Dispatcher.initial listenFd memory metrics : State H) := by
  intro id channel hm
  exact absurd hm (not_managed_initial listenFd memory metrics id)

theorem poll (hp : Protocol s) (h : Owned s) (htop : s.phase = .top) {ready : List EpollEvent}
    (hready : Watching s.kernel ready) (watched : List ChannelId) :
    Protocol { s with phase := .batch (SocketLoop.poll s.getFd watched ready) } := by
  intro id channel hm hobj
  obtain ⟨-, hmode⟩ := hp id channel hm hobj
  have hfd : channel.fd = s.getFd id := (getFd_eq hobj).symm
  have hunmarked := h.not_marked_of_top htop id
  rw [Mode, @pending_batch _ { s with phase := .batch _ } _ rfl]
  rcases pendingOf_poll s.getFd watched id ready hready.1 with hnil | ⟨r, hr, hrfd, heq⟩
  · rw [hnil]
    refine ⟨List.nil_sublist _, ?_⟩
    rcases hmode with ⟨hread, -⟩ | ⟨hwrite, -⟩ | ⟨hmark, -⟩
    · exact Or.inl ⟨hread, List.not_mem_nil⟩
    · exact Or.inr (Or.inl ⟨hwrite, List.not_mem_nil⟩)
    · exact absurd hmark hunmarked
  · obtain ⟨hsub, hin, hout⟩ := pendingOf_eventsOf r.events id
    obtain ⟨hrin, hrout⟩ := hready.2 r hr
    rw [heq]
    refine ⟨hsub, ?_⟩
    rw [hrfd, ← hfd] at hrin hrout
    rcases hmode with ⟨hread, -⟩ | ⟨hwrite, -⟩ | ⟨hmark, -⟩
    · refine Or.inl ⟨hread, fun hmem => ?_⟩
      have hflag := hrout (hout hmem)
      rw [hread.1] at hflag
      cases hflag
    · refine Or.inr (Or.inl ⟨hwrite, fun hmem => ?_⟩)
      have hflag := hrin (hin hmem)
      rw [hwrite.1] at hflag
      cases hflag
    · exact absurd hmark hunmarked

theorem refused (hp : Protocol s) {first : Event} {events : List Event}
    (hphase : s.phase = .batch (first :: events)) : Protocol { s with phase := .batch events } := by
  intro id channel hm hobj
  refine (hp id channel hm hobj).weaken rfl (fun hmark => hmark) ?_
  rw [@pending_batch _ { s with phase := .batch events } _ rfl]
  exact (@pending_cons _ s first.flag first.channel events hphase).2 id

theorem welcome (hp : Protocol s) (h : Owned s) {a : Answers H} {first : Event} {events : List Event}
    (hphase : s.phase = .batch (first :: events)) (hfree : s.kernel.files a.accepted = none)
    (hmem : a.memory = true) : Protocol (s.welcome events a) := by
  intro id channel hm hobj
  rw [h.managed_welcome hfree] at hm
  rw [Owned.objects_welcome] at hobj
  rcases eq_or_ne id s.nextId with rfl | hne
  · rw [if_pos rfl] at hobj
    cases hobj
    have hnil := h.pendingOf_nextId hphase
    refine ⟨?_, Or.inl ⟨⟨?_, rfl⟩, ?_⟩⟩
    · rw [@pending_batch _ (s.welcome events a) events rfl, hnil]
      exact List.nil_sublist _
    · exact h.interest_welcome hfree hmem events
    · rw [@pending_batch _ (s.welcome events a) events rfl, hnil]
      exact List.not_mem_nil
  · rw [if_neg hne] at hobj
    have hm' : s.Managed id := hm.resolve_left hne
    have hfd : channel.fd ≠ a.accepted := by
      rw [← getFd_eq hobj]
      exact h.getFd_ne_of_free hfree hm'
    refine (hp id channel hm' hobj).weaken ?_ (h.marked_welcome hfree events id).mpr ?_
    · exact Owned.interest_welcome_ne hfd events
    · rw [@pending_batch _ (s.welcome events a) events rfl]
      exact (@pending_cons _ s first.flag first.channel events hphase).2 id

theorem mode_of_outcome (hp : Protocol s) {flag : EventFlag} {id : ChannelId}
    {channel : PlainTextChannel} {a : Answers H} {e : Effect H} {events : List Event}
    (hphase : s.phase = .batch (⟨flag, id⟩ :: events)) (hm : s.Managed id)
    (hobj : s.objects id = some channel) (hout : Outcome channel a flag e)
    (ha : Affected s id events a.memory e s') (hmem : a.memory = true)
    (hwrites : SaneWrites s a.writes) : Mode s' id e.channel := by
  have hmode := hp id channel hm hobj
  obtain ⟨hpend, -⟩ := pending_cons hphase
  have hrest := pending_affected ha id
  have hsub : (s'.pending id).Sublist flagOrder := by
    refine (hrest.trans ?_).trans hmode.1
    rw [hpend]
    exact List.sublist_cons_self _ _
  have hfd : s.getFd id = channel.fd := getFd_eq hobj
  have hgood := hwrites.good hphase hobj
  have hmark := ha.marked_iff hm id
  have hint := ha.interest
  rw [hfd] at hint
  cases hout with
  | marked hf =>
    refine hmode.weaken ?_ (fun hmk => hmark.mpr (Or.inl hmk)) ?_
    · cases hi : s.kernel.interest channel.fd with
      | none => exact (ha.interest_none _).mpr hi
      | some flags => exact hint flags hi hmem
    · rw [hpend]
      exact hrest.trans (List.sublist_cons_self _ _)
  | readFailed result hr =>
    obtain ⟨-, hread, hwrite⟩ := hmode.of_read hpend
    exact ⟨hsub, Or.inr (Or.inr ⟨hmark.mpr (Or.inr ⟨rfl, rfl⟩), fun h => hread (hrest.subset h),
      fun h => hwrite (hrest.subset h)⟩)⟩
  | threw raw acts counters hraw hacts hc =>
    obtain ⟨hreading, -, hwrite⟩ := hmode.of_read hpend
    exact ⟨hsub, Or.inl ⟨⟨hint _ hreading.1 hmem, hreading.2⟩, fun h => hwrite (hrest.subset h)⟩⟩
  | answered raw acts counters serialized hraw hacts hc =>
    obtain ⟨hreading, hread, -⟩ := hmode.of_read hpend
    refine ⟨hsub, Or.inr (Or.inl ⟨⟨hint _ hreading.1 hmem, rfl, Nat.zero_le _⟩, fun h => ?_⟩)⟩
    exact hread (hrest.subset h)
  | flushed result channel' bytes flags hf hr =>
    obtain ⟨⟨hi, hassigned, hle⟩, hread, hwrite⟩ := hmode.of_write hpend
    refine ⟨hsub, ?_⟩
    rcases PlainTextChannel.flush_spec _ _ _ _ _ hle hgood hf with ⟨hdone, rfl, -⟩ | ⟨hdone, count, rfl, hlt, -⟩
    · rcases hr with ⟨-, rfl⟩ | ⟨hblock, -⟩
      · exact Or.inl ⟨⟨hint _ hi hmem, rfl⟩, fun h => hwrite (hrest.subset h)⟩
      · rw [hdone] at hblock
        cases hblock
    · rcases hr with ⟨hd, -⟩ | ⟨-, rfl⟩
      · exact absurd hd hdone
      · refine Or.inr (Or.inl ⟨⟨hint _ hi hmem, hassigned, Nat.le_of_lt hlt⟩, fun h => ?_⟩)
        exact hread (hrest.subset h)
  | flushFailed channel' bytes hf =>
    obtain ⟨-, hread, hwrite⟩ := hmode.of_write hpend
    exact ⟨hsub, Or.inr (Or.inr ⟨hmark.mpr (Or.inr ⟨rfl, rfl⟩), fun h => hread (hrest.subset h),
      fun h => hwrite (hrest.subset h)⟩)⟩

theorem affected (hp : Protocol s) {flag : EventFlag} {id : ChannelId}
    {channel : PlainTextChannel} {a : Answers H} {e : Effect H} {events : List Event}
    (hphase : s.phase = .batch (⟨flag, id⟩ :: events)) (hm : s.Managed id)
    (hobj : s.objects id = some channel) (hout : Outcome channel a flag e)
    (ha : Affected s id events a.memory e s') (hmem : a.memory = true)
    (hwrites : SaneWrites s a.writes) : Protocol s' := by
  intro id' channel' hm' hobj'
  rw [ha.managed] at hm'
  rw [ha.objects] at hobj'
  rcases eq_or_ne id' id with rfl | hne
  · rw [Function.update_self] at hobj'
    cases hobj'
    exact hp.mode_of_outcome hphase hm hobj hout ha hmem hwrites
  · rw [Function.update_of_ne hne] at hobj'
    refine (hp id' channel' hm' hobj').weaken (ha.interest_ne _ ?_) (fun hmk => ?_) ?_
    · rw [← getFd_eq hobj']
      exact fun heq => hne (Owned.getFd_inj hm' hm heq)
    · exact (ha.marked_iff hm id').mpr (Or.inl hmk)
    · exact (pending_affected ha id').trans ((pending_cons hphase).2 id')

theorem swept (hp : Protocol s) (hw : Swept s s') : Protocol s' := by
  intro id channel hm hobj
  obtain ⟨hm', hunmarked⟩ := (hw.managed id).mp hm
  have hobj' : s.objects id = some channel := by
    have ho := hw.objects id
    simp only [if_neg hunmarked, Option.map_id'] at ho
    rwa [ho] at hobj
  have hfd : channel.fd ∉ s.manager.closedChannels := by
    intro hmem
    rw [← getFd_eq hobj'] at hmem
    exact hunmarked ⟨hm', hmem⟩
  refine (hp id channel hm' hobj').weaken ?_ (fun hmk => absurd hmk hunmarked) ?_
  · rw [hw.interest, if_neg hfd]
  · rw [pending_eq_nil (by simp [hw.phase])]
    exact List.nil_sublist _

theorem moves (hp : Protocol s) (h : Owned s) (hreg : Regular s label) (hm : Moves s label s')
    (hrun : s'.phase ≠ .returned) : Protocol s' := by
  cases hm with
  | poll order ready htop horder => exact hp.poll h htop hreg.2 _
  | refused a flag events hphase hneg => exact hp.refused hphase
  | accepted a flag events hphase hpos hfree => exact hp.welcome h hphase hfree hreg.2.1
  | client a flag id events channel e s' hphase hm hobj he ha =>
    exact hp.affected hphase hm hobj (outcome_of_effect he) ha hreg.2.1 hreg.2.2
  | cleanup granted s' hphase hw => exact hp.swept hw
  | stop order granted s' htop hstop => exact absurd hstop.phase hrun

end Protocol

theorem protocol_of_run {listenFd : Fd} {memory : Bool} {metrics : Metrics}
    {labels : List (Label H)} (hfd : 0 ≤ listenFd)
    (h : Run step Regular (initial listenFd memory metrics) labels s) (hrun : s.phase ≠ .returned) :
    Owned s ∧ Protocol s := by
  refine ⟨owned_of_run hfd (h.mono fun _ _ hok => hok.1) hrun, ?_⟩
  refine inv_of_run hfd (fun _ _ hok => hok.1) h hrun (.initial listenFd memory metrics) ?_
  exact fun s label s' hown hp hreg hm hrun' => hp.moves hown hreg hm hrun'

/-- **The two-state protocol.**  At the top of the loop every connection is in
exactly one of its two states.  A `READ` event is handled on a channel with
nothing left to send, and `flush` is entered with an assigned offset inside the
buffer. -/
theorem two_state_protocol {listenFd : Fd} {memory : Bool} {metrics : Metrics}
    {labels : List (Label H)} {s : State H} (hfd : 0 ≤ listenFd)
    (h : Run step Regular (initial listenFd memory metrics) labels s) (hrun : s.phase ≠ .returned) :
    (s.phase = .top → ∀ fd id, s.manager.channels.lookup fd = some id →
      ∃ channel, s.objects id = some channel ∧ channel.fd = fd ∧
      Xor (s.kernel.interest channel.fd = some { epollin := true } ∧ channel.writeBuffer = [])
        (s.kernel.interest channel.fd = some { epollout := true } ∧ channel.offsetAssigned = true ∧
          channel.writeOffset ≤ channel.writeBuffer.length)) ∧
    (∀ flag id events, s.phase = .batch (⟨flag, id⟩ :: events) → id ≠ serverChannel →
      ∃ channel, s.objects id = some channel ∧
        (flag = .READ → channel.unsent = []) ∧
        (flag = .WRITE → channel.offsetAssigned = true ∧
          channel.writeOffset ≤ channel.writeBuffer.length)) := by
  obtain ⟨hown, hp⟩ := protocol_of_run hfd h hrun
  refine ⟨fun htop fd id hl => ?_, fun flag id events hphase hid => ?_⟩
  · have hm := hown.managed_of_lookup hl
    obtain ⟨channel, hobj, hself⟩ := hown.object hm
    refine ⟨channel, hobj, hself.trans (hown.entry fd id hl).2.2.2.2, ?_⟩
    rcases (hp id channel hm hobj).2 with ⟨hr, -⟩ | ⟨hw, -⟩ | ⟨hmark, -⟩
    · refine Or.inl ⟨hr, fun hw => ?_⟩
      rw [hr.1] at hw
      cases hw.1
    · refine Or.inr ⟨hw, fun hr => ?_⟩
      rw [hw.1] at hr
      cases hr.1
    · exact absurd hmark (hown.not_marked_of_top htop id)
  · have hm : s.Managed id := (hown.managed_of_head hphase).resolve_left hid
    obtain ⟨channel, hobj, -⟩ := hown.object hm
    have hmode := hp id channel hm hobj
    obtain ⟨hpend, -⟩ := pending_cons hphase
    refine ⟨channel, hobj, ?_, ?_⟩
    · rintro rfl
      rw [PlainTextChannel.unsent, (hmode.of_read hpend).1.2, List.drop_nil]
    · rintro rfl
      exact (hmode.of_write hpend).1.2

/-- A connection whose response is sent in part. -/
def partwayLabels : List (Label Unit) :=
  [.poll [] [⟨{ epollin := true }, 3⟩], .event { app := idleApp, accepted := 4, garbage := 77 },
    .cleanup fun _ => true,
    .poll [⟨4, 1⟩] [⟨{ epollin := true }, 4⟩], .event { app := idleApp, read := some (ascii "GET") },
    .cleanup fun _ => true,
    .poll [⟨4, 1⟩] [⟨{ epollout := true }, 4⟩],
    .event { app := idleApp, writes := [.written 5, .wouldBlock] }, .cleanup fun _ => true]

def partway : State Unit :=
  (Run.exec step Regular (initial 3 true ∅) partwayLabels).get (by decide +kernel)

theorem run_partway : Run step Regular (initial 3 true ∅) partwayLabels partway :=
  Run.of_exec partwayLabels _ (Option.some_get _).symm

theorem two_state_protocol_partway :
    ∃ channel, partway.objects 1 = some channel ∧ channel.fd = 4 ∧
      Xor (partway.kernel.interest channel.fd = some { epollin := true } ∧ channel.writeBuffer = [])
        (partway.kernel.interest channel.fd = some { epollout := true } ∧
          channel.offsetAssigned = true ∧ channel.writeOffset ≤ channel.writeBuffer.length) := by
  have htop : partway.phase = .top := by decide +kernel
  have hprotocol := two_state_protocol (by decide) run_partway (by decide +kernel)
  exact hprotocol.1 htop 4 1 (by decide +kernel)

end Sews.Runtime
