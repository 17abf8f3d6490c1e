import Sews.Runtime.Shutdown

/-!
# The life of the process

`main` opens the listener with `createSocket`, which gives it back when a later call
fails, and returns when there is none.  Then the loop opens its epoll instance, or ends
the process.  After `run` the dispatcher is destroyed, and its members in the reverse of
their order: the connection manager with the channels that are still in its table, the
loop, and the acceptor with the listener's channel.  A channel closes its descriptor when
it is destroyed; the loop does not close that of the epoll instance.

So what the shutdown leaves open (`left_open`) is closed here.  `closed_once` is about
the whole life: the descriptor of the epoll instance is open to the end and the only one
that is, and every connection was closed once, by the cleanup or by the destructor,
whichever found it.
-/

namespace Sews.Runtime

open Cpp Sews.Http Sews.Connection Sews.Reactor Sews.Telemetry Dispatcher

variable {H : Type} {s s' : State H} {label : Label H} {id : ChannelId}
  {order : List (Σ _ : Fd, ChannelId)}

/-! ### The listener -/

/-- What the calls of `createSocket` return: a descriptor, and whether the others succeed. -/
structure SocketCalls where
  socket : Fd
  reuseAddr : Bool
  reusePort : Bool
  bind : Bool
  listen : Bool

/-- The kernel before the program has opened anything. -/
def bareKernel : Kernel where
  files := fun _ => none
  interest := fun _ => none
  sent := fun _ => []

/-- `createSocket`: the descriptor it returns and the kernel it leaves. -/
def createSocket (k : Kernel) (calls : SocketCalls) : Fd × Kernel :=
  if calls.socket < 0 then (-1, k)
  else
    let serverFd := calls.socket
    let k := k.accept serverFd serverChannel
    if ¬ calls.reuseAddr then (-1, k.close serverFd)
    else if ¬ calls.reusePort then (-1, k.close serverFd)
    else if ¬ calls.bind then (-1, k.close serverFd)
    else if ¬ calls.listen then (-1, k.close serverFd)
    else (serverFd, k)

/-- All calls succeed. -/
def SocketCalls.Succeed (calls : SocketCalls) : Prop :=
  0 ≤ calls.socket ∧ calls.reuseAddr ∧ calls.reusePort ∧ calls.bind ∧ calls.listen

theorem close_accept_bareKernel (fd : Fd) : (bareKernel.accept fd serverChannel).close fd = bareKernel := by
  simp [bareKernel, Kernel.accept, Kernel.close]

/-- **`createSocket` returns the listener or leaves nothing behind.** -/
theorem createSocket_eq (calls : SocketCalls) :
    (calls.Succeed ∧ createSocket bareKernel calls = (calls.socket, bareKernel.accept calls.socket serverChannel)) ∨
      (¬ calls.Succeed ∧ createSocket bareKernel calls = (-1, bareKernel)) := by
  obtain ⟨socket, reuseAddr, reusePort, bind, listen⟩ := calls
  by_cases hneg : socket < 0
  · refine Or.inr ⟨fun h => absurd hneg (Int32.not_lt.mpr h.1), ?_⟩
    simp [createSocket, hneg]
  · have hpos : 0 ≤ socket := Int32.not_lt.mp hneg
    cases reuseAddr <;> cases reusePort <;> cases bind <;> cases listen <;>
      simp [createSocket, SocketCalls.Succeed, hneg, hpos, close_accept_bareKernel]

/-! ### The start -/

/-- The process in the loop: its state, and the descriptor of its epoll instance. -/
structure Process (H : Type) where
  epollFd : Fd
  state : State H

/-- A descriptor that is open. -/
def Process.Open (p : Process H) (fd : Fd) : Prop := fd = p.epollFd ∨ p.state.kernel.files fd ≠ none

/-- How far `main` gets. -/
inductive Startup (H : Type)
  /-- no listener: `main` returns `1` -/
  | returned (kernel : Kernel)
  /-- no epoll instance: `exit(EXIT_FAILURE)` -/
  | exited (kernel : Kernel)
  | running (process : Process H)

/-- `SocketLoop::SocketLoop`, when `epoll_create1` returns `epollFd`: `none` stands for
the `exit`. -/
def SocketLoop.construct (epollFd : Fd) : Option Fd := if epollFd < 0 then none else some epollFd

/-- `main` up to the loop. -/
def main (calls : SocketCalls) (epollCreate1 : Fd) (memory : Bool) : Startup H :=
  let (serverFd, k) := createSocket bareKernel calls
  if serverFd < 0 then .returned k
  else
    match SocketLoop.construct epollCreate1 with
    | none => .exited k
    | some epollFd =>
      .running ⟨epollFd, { initial serverFd memory ∅ with kernel := SocketLoop.registerChannel k serverFd memory }⟩

theorem main_returned {calls : SocketCalls} (h : ¬ calls.Succeed) (epollCreate1 : Fd) (memory : Bool) :
    (main calls epollCreate1 memory : Startup H) = .returned bareKernel := by
  obtain ⟨hall, -⟩ | ⟨-, heq⟩ := createSocket_eq calls
  · exact absurd hall h
  · rw [main, heq]
    rfl

/-- With a listener the rest is up to `epoll_create1`. -/
theorem main_eq {calls : SocketCalls} (h : calls.Succeed) (epollCreate1 : Fd) (memory : Bool) :
    (main calls epollCreate1 memory : Startup H) =
      if epollCreate1 < 0 then .exited (bareKernel.accept calls.socket serverChannel)
      else .running ⟨epollCreate1, initial calls.socket memory ∅⟩ := by
  obtain ⟨-, heq⟩ | ⟨hfail, -⟩ := createSocket_eq calls
  · rw [main, heq]
    dsimp only
    rw [if_neg (Int32.not_lt.mpr h.1), SocketLoop.construct]
    by_cases hneg : epollCreate1 < 0
    · rw [if_pos hneg, if_pos hneg]
    · rw [if_neg hneg, if_neg hneg]
      rfl
  · exact absurd h hfail

namespace Process

variable {p p₀ p' : Process H} {labels : List (Label H)}

/-- A step of the loop, which has no business with the epoll descriptor itself. -/
def step (p : Process H) (label : Label H) : Option (Process H) :=
  (Dispatcher.step p.state label).map fun s => { p with state := s }

/-- `accept` never returns a descriptor that is still open, the epoll instance's included. -/
def Fresh (p : Process H) : Label H → Prop
  | .event a => 0 ≤ a.accepted → ¬ p.Open a.accepted
  | _ => True

instance (p : Process H) : (label : Label H) → Decidable (p.Fresh label)
  | .event a => inferInstanceAs
      (Decidable (0 ≤ a.accepted → ¬ (a.accepted = p.epollFd ∨ p.state.kernel.files a.accepted ≠ none)))
  | .poll _ _ | .cleanup _ | .stop _ _ => .isTrue trivial

theorem step_eq (h : p.step label = some p') :
    p'.epollFd = p.epollFd ∧ Dispatcher.step p.state label = some p'.state := by
  obtain ⟨s, hs, rfl⟩ := Option.map_eq_some_iff.mp h
  exact ⟨rfl, hs⟩

theorem Fresh.state (h : p.Fresh label) : Runtime.Fresh p.state label := by
  cases label with
  | event a => exact fun hpos => not_not.mp fun hfile => h hpos (Or.inr hfile)
  | poll | cleanup | stop => trivial

theorem run_state (h : Run step Fresh p₀ labels p) :
    Run Dispatcher.step Runtime.Fresh p₀.state labels p.state :=
  h.project Process.state fun _ _ _ hfresh hs => ⟨hfresh.state, (step_eq hs).2⟩

/-- No channel has the descriptor `epollFd`, so nothing closes it. -/
structure Apart (epollFd : Fd) (s : State H) : Prop where
  getFd : ∀ id, s.getFd id ≠ epollFd
  files : s.kernel.files epollFd = none

theorem Apart.step {epollFd : Fd} (ha : Apart epollFd s) (h : Owned s) (hpos : 0 ≤ epollFd)
    (hne : ∀ a, label = .event a → 0 ≤ a.accepted → a.accepted ≠ epollFd) (hfresh : Runtime.Fresh s label)
    (hs : Dispatcher.step s label = some s') : Apart epollFd s' := by
  have hclosed : (-1 : Fd) ≠ epollFd := by
    rintro rfl
    exact absurd hpos (by decide)
  cases moves_of_step h hfresh hs with
  | poll order ready htop horder => exact ⟨ha.getFd, ha.files⟩
  | refused a flag events hphase hneg => exact ⟨ha.getFd, ha.files⟩
  | accepted a flag events hphase hacc hfree =>
    refine ⟨fun id => ?_, ?_⟩
    · rw [Owned.getFd_welcome]
      split
      · exact hne a rfl hacc
      · exact ha.getFd id
    · rw [Owned.files_welcome, if_neg (hne a rfl hacc).symm, ha.files]
  | client a flag id events channel e s' hphase hm hobj he haff =>
    exact ⟨fun id' => (haff.getFd id').trans_ne (ha.getFd id'), (congrFun haff.files _).trans ha.files⟩
  | cleanup granted s' hphase hw =>
    refine ⟨fun id => ?_, by rw [hw.files, ha.files, ite_self]⟩
    rw [hw.getFd]
    split
    · exact hclosed
    · exact ha.getFd id
  | stop order granted s' htop hstop =>
    refine ⟨fun id => ?_, by rw [hstop.files, ha.files, ite_self]⟩
    obtain ⟨-, rfl⟩ := stop_eq hs
    rcases eq_or_ne id serverChannel with rfl | hid
    · rw [getFd_shutdown h htop]
      exact hclosed
    · rw [getFd_eq_getD, hstop.objects id hid, ← getFd_eq_getD]
      exact ha.getFd id

theorem apart_initial {listenFd epollFd : Fd} (hpos : 0 ≤ epollFd) (hne : epollFd ≠ listenFd) (memory : Bool) :
    Apart epollFd (initial listenFd memory ∅ : State H) where
  getFd id := by
    rcases eq_or_ne id serverChannel with rfl | hid
    · exact hne.symm
    · have hclosed : (initial listenFd memory ∅ : State H).getFd id = -1 := by simp [State.getFd, initial, hid]
      rw [hclosed]
      rintro rfl
      exact absurd hpos (by decide)
  files := by simp [files_initial, hne]

theorem apart_of_run {listenFd epollFd : Fd} {memory : Bool} (hfd : 0 ≤ listenFd) (hpos : 0 ≤ epollFd)
    (hne : epollFd ≠ listenFd) (h : Run step Fresh ⟨epollFd, initial listenFd memory ∅⟩ labels p) :
    p.epollFd = epollFd ∧ Apart epollFd p.state := by
  refine h.invWith (I := fun p => p.epollFd = epollFd ∧ Apart epollFd p.state)
    (J := fun p : Process H => p.state.phase ≠ .returned → Owned p.state)
    (fun labels p hr hrun => owned_of_run hfd (run_state hr) hrun) ⟨rfl, apart_initial hpos hne memory⟩ ?_
  rintro p label p' hown ⟨rfl, ha⟩ hfresh hs
  obtain ⟨hepoll, hs⟩ := step_eq hs
  refine ⟨hepoll, ha.step (hown (running_of_step hs)) hpos ?_ hfresh.state hs⟩
  rintro a rfl hacc heq
  exact hfresh hacc (Or.inl heq)

end Process

/-! ### The end -/

/-- The channels that `~Dispatcher` destroys: those of the connection manager, in the order
`order` of its table, and then the listener's. -/
def destroy (s : State H) (order : List (Σ _ : Fd, ChannelId)) : State H :=
  let s := order.foldl (fun s entry => s.closeChannel entry.2) s
  let s := { s with manager := {} }
  s.closeChannel serverChannel

/-- `~Dispatcher` in the process.  Between the two destructors that close channels there
is `~SocketLoop`, which only logs. -/
def Process.destroy (p : Process H) (order : List (Σ _ : Fd, ChannelId)) : Process H :=
  { p with state := Runtime.destroy p.state order }

/-- How often a channel was closed. -/
def closes (acts : List (Act H)) : Nat :=
  acts.countP fun act =>
    match act with
    | .close => true
    | _ => false

theorem closes_append (acts more : List (Act H)) : closes (acts ++ more) = closes acts + closes more :=
  List.countP_append

theorem closes_eq_zero {acts : List (Act H)} (h : Act.close ∉ acts) : closes acts = 0 := by
  refine List.countP_eq_zero.mpr fun act hmem => ?_
  cases act with
  | close => exact absurd hmem h
  | _ => simp

theorem Ended.closes_eq {acts : List (Act H)} (h : Ended acts) : closes acts = 1 := by
  obtain ⟨before, rfl, hlive, -⟩ := h
  rw [closes_append, closes_eq_zero hlive.1]
  rfl

/-- The listener is closed by the shutdown only: the loop does nothing to it. -/
theorem server_acts_of_run {listenFd : Fd} {memory : Bool} {metrics : Metrics} {labels : List (Label H)}
    (hfd : 0 ≤ listenFd) (h : Run step Fresh (initial listenFd memory metrics) labels s)
    (hrun : s.phase ≠ .returned) : s.acts serverChannel = [] := by
  refine inv_of_run (I := fun s : State H => s.acts serverChannel = []) hfd (fun _ _ hok => hok) h hrun rfl ?_
  intro s label s' hown hnil _ hm hrun'
  cases hm with
  | poll order ready htop horder => exact hnil
  | refused a flag events hphase hneg => exact hnil
  | accepted a flag events hphase hpos hfree =>
    rw [Owned.acts_welcome, hnil, if_neg (hown.fresh s.nextId le_rfl).2.2.2.symm]
    rfl
  | client a flag id events channel e s' hphase hm hobj he ha =>
    rw [ha.acts, hnil, if_neg (hown.ne_server hm).symm]
    rfl
  | cleanup granted s' hphase hw =>
    rw [hw.acts, hnil, if_neg fun hmark => hown.ne_server hmark.1 rfl]
    rfl
  | stop order granted s' htop hstop => exact absurd hstop.phase hrun'

/-- What destroying the channels `ids` leaves of `s`: their descriptors are closed. -/
structure Destroyed (fds : List Fd) (ids : List ChannelId) (s s' : State H) : Prop where
  files : ∀ fd, s'.kernel.files fd = if fd ∈ fds then none else s.kernel.files fd
  interest : ∀ fd, s'.kernel.interest fd = if fd ∈ fds then none else s.kernel.interest fd
  objects : ∀ id, id ∉ ids → s'.objects id = s.objects id
  nextId : s'.nextId = s.nextId
  acts : ∀ id, s'.acts id = s.acts id ++ if id ∈ ids then [.close] else []

theorem Destroyed.one {channel : PlainTextChannel} (hobj : s.objects id = some channel)
    (hpos : 0 ≤ channel.fd) : Destroyed [channel.fd] [id] s (s.closeChannel id) := by
  rw [closeChannel_open hobj hpos]
  refine ⟨fun fd => ?_, fun fd => ?_, fun id' hid' => ?_, rfl, fun id' => ?_⟩
  · simp only [List.mem_singleton]
    exact Function.update_apply ..
  · simp only [List.mem_singleton]
    exact Function.update_apply ..
  · exact Function.update_of_ne (by simpa using hid') _ _
  · refine (actsOf_append s.trace _ id').trans ?_
    simp only [List.mem_singleton]
    exact congrArg (s.acts id' ++ ·) (actsOf_map id id' [.close])

/-- The channels of a table are closed one after the other. -/
theorem destroyed_foldl : ∀ (order : List (Σ _ : Fd, ChannelId)) (s : State H), order.NodupKeys →
    (∀ entry ∈ order, 0 ≤ entry.1 ∧ ∃ channel, s.objects entry.2 = some channel ∧ channel.fd = entry.1) →
    Destroyed (order.map (·.1)) (order.map (·.2)) s (order.foldl (fun s entry => s.closeChannel entry.2) s) := by
  intro order
  induction order with
  | nil => exact fun s _ _ => ⟨by simp, by simp, by simp, rfl, by simp⟩
  | cons entry order ih =>
    intro s hnodup hkeyed
    obtain ⟨fd, id⟩ := entry
    obtain ⟨hpos, channel, hobj, rfl⟩ := hkeyed ⟨fd, id⟩ List.mem_cons_self
    obtain ⟨hnew, hnodup'⟩ := List.nodupKeys_cons.mp hnodup
    -- the other channels have other descriptors
    have hother : ∀ entry ∈ order, entry.2 ≠ id := by
      rintro entry hmem rfl
      obtain ⟨-, channel', hobj', hfd⟩ := hkeyed entry (List.mem_cons_of_mem _ hmem)
      rw [hobj] at hobj'
      cases hobj'
      exact hnew (hfd ▸ List.mem_map_of_mem hmem)
    have hone := Destroyed.one hobj hpos
    have hrest := ih (s.closeChannel id) hnodup' fun entry hmem => by
      obtain ⟨hpos', channel', hobj', hfd⟩ := hkeyed entry (List.mem_cons_of_mem _ hmem)
      exact ⟨hpos', channel', by rw [hone.objects _ (by simpa using hother entry hmem), hobj'], hfd⟩
    have hid : id ∉ order.map (·.2) := by
      intro hmem
      obtain ⟨entry, hentry, heq⟩ := List.mem_map.mp hmem
      exact hother entry hentry heq
    rw [List.foldl_cons]
    refine ⟨fun fd => ?_, fun fd => ?_, fun id' hid' => ?_, hrest.nextId.trans hone.nextId, fun id' => ?_⟩
    · rw [hrest.files, hone.files]
      grind
    · rw [hrest.interest, hone.interest]
      grind
    · rw [List.map_cons, List.mem_cons, not_or] at hid'
      rw [hrest.objects _ hid'.2, hone.objects _ (by simpa using hid'.1)]
    · rw [hrest.acts, hone.acts, List.append_assoc]
      rcases eq_or_ne id' id with rfl | hne
      · simp [hid]
      · simp only [List.map_cons, List.mem_cons, hne, false_or, List.not_mem_nil, if_false, List.nil_append]

theorem closeChannel_closed (h : s.getFd id = -1) : s.closeChannel id = s := by
  rw [State.closeChannel]
  cases hobj : s.objects id with
  | none => rfl
  | some channel =>
    rw [getFd_eq hobj] at h
    dsimp only
    rw [if_neg (by rw [h]; decide)]

/-- When the listener is closed already, only the connections of the table are. -/
theorem destroyed_destroy (hnodup : order.NodupKeys)
    (hkeyed : ∀ entry ∈ order, 0 ≤ entry.1 ∧ ∃ channel, s.objects entry.2 = some channel ∧ channel.fd = entry.1)
    (hserver : serverChannel ∉ order.map (·.2)) (hclosed : s.getFd serverChannel = -1) :
    Destroyed (order.map (·.1)) (order.map (·.2)) s (destroy s order) := by
  have h := destroyed_foldl order s hnodup hkeyed
  have heq : destroy s order
      = { order.foldl (fun s entry => s.closeChannel entry.2) s with manager := {} } := by
    refine closeChannel_closed ((getFd_eq_getD _ _).trans ?_)
    show ((State.objects (order.foldl _ _) serverChannel).map (·.fd)).getD (-1) = -1
    rw [h.objects _ hserver, ← getFd_eq_getD, hclosed]
  rw [heq]
  exact ⟨h.files, h.interest, h.objects, h.nextId, h.acts⟩

/-! ### From the start to the end -/

section
variable {listenFd : Fd} {memory : Bool} {metrics : Metrics} {labels : List (Label H)}

theorem stopped_of_run (hfd : 0 ≤ listenFd) (h : Run step Fresh (initial listenFd memory metrics) labels s)
    (hreturned : s.phase = .returned) : ∃ before t stopOrder granted,
      Run step Fresh (initial listenFd memory metrics) before t ∧ step t (.stop stopOrder granted) = some s := by
  cases h with
  | nil => cases hreturned
  | @snoc before t s label hr hfresh hs =>
    have hm := moves_of_step (owned_of_run hfd hr (running_of_step hs)) hfresh hs
    cases label with
    | stop stopOrder granted => exact ⟨before, t, stopOrder, granted, hr, hs⟩
    | event a => exact absurd hreturned (running_of_event hm).2
    | poll order ready =>
      cases hm
      cases hreturned
    | cleanup granted =>
      cases hm with
      | cleanup _ _ hphase hw =>
        rw [hw.phase] at hreturned
        cases hreturned

theorem server_closes_shutdown (h : Owned s) (htop : s.phase = .top) (hnil : s.acts serverChannel = [])
    (stopOrder : List (Σ _ : Fd, ChannelId)) (granted : Nat → Bool) :
    closes ((shutdown s stopOrder granted).acts serverChannel) = 1 := by
  obtain ⟨channel, hobj⟩ := h.server_object
  obtain ⟨interest, -, heq⟩ := shutdown_eq h htop hobj stopOrder granted
  have hacts : (shutdown s stopOrder granted).acts serverChannel = s.acts serverChannel ++ [.close] := by
    rw [heq]
    exact (actsOf_append s.trace _ _).trans (congrArg (s.acts serverChannel ++ ·)
      (actsOf_map serverChannel serverChannel [.close]))
  rw [hacts, hnil]
  rfl

theorem destroyed_shutdown (h : Owned s) (htop : s.phase = .top)
    (horder : UnorderedMap.Enumerates order s.manager.channels)
    (stopOrder : List (Σ _ : Fd, ChannelId)) (granted : Nat → Bool) :
    Destroyed (order.map (·.1)) (order.map (·.2)) (shutdown s stopOrder granted)
      (destroy (shutdown s stopOrder granted) order) := by
  have hlookup : ∀ entry ∈ order, s.manager.channels.lookup entry.1 = some entry.2 :=
    fun entry hmem => (horder.mem_iff entry.1 entry.2).mp hmem
  refine destroyed_destroy horder.nodupKeys (fun entry hmem => ?_) (fun hmem => ?_)
    (getFd_shutdown h htop stopOrder granted)
  · obtain ⟨hpos, channel, hobj, hself⟩ := h.keyed entry.1 entry.2 (hlookup entry hmem)
    have hne := (h.entry _ _ (hlookup entry hmem)).1
    exact ⟨hpos, channel, by rw [(stopped_shutdown h htop stopOrder granted).objects _ hne, hobj], hself⟩
  · obtain ⟨entry, hentry, heq⟩ := List.mem_map.mp hmem
    exact (h.entry _ _ (hlookup entry hentry)).1 heq

theorem mem_order_iff (h : Owned s) (horder : UnorderedMap.Enumerates order s.manager.channels) :
    id ∈ order.map (·.2) ↔ s.Managed id := by
  constructor
  · intro hmem
    obtain ⟨entry, hentry, rfl⟩ := List.mem_map.mp hmem
    exact h.managed_of_lookup ((horder.mem_iff entry.1 entry.2).mp hentry)
  · intro hm
    exact List.mem_map.mpr ⟨⟨s.getFd id, id⟩, (horder.mem_iff _ _).mpr hm, rfl⟩

/-- What is open at the top of the loop is the listener's or in the table. -/
theorem mem_order_of_file (hfd : 0 ≤ listenFd) (h : Run step Fresh (initial listenFd memory metrics) labels s)
    (hrun : s.phase ≠ .returned) (horder : UnorderedMap.Enumerates order s.manager.channels) {fd : Fd}
    (hfile : s.kernel.files fd = some id) : fd = s.getFd serverChannel ∨ fd ∈ order.map (·.1) := by
  rcases (owned_of_run hfd h hrun).file fd id hfile with rfl | hl
  · exact Or.inl (oneListener_of_run hfd h hrun fd hfile)
  · exact Or.inr (List.mem_map.mpr ⟨⟨fd, id⟩, (horder.mem_iff fd id).mpr hl, rfl⟩)

/-- When `run` has returned and the dispatcher is destroyed, no descriptor is open and
epoll watches nothing, and the listener and every connection were closed once. -/
theorem closed_of_run (hfd : 0 ≤ listenFd) (h : Run step Fresh (initial listenFd memory metrics) labels s)
    (hreturned : s.phase = .returned) (horder : UnorderedMap.Enumerates order s.manager.channels) :
    (∀ fd, (destroy s order).kernel.files fd = none ∧ (destroy s order).kernel.interest fd = none) ∧
      ∀ id, id < s.nextId → closes ((destroy s order).acts id) = 1 := by
  obtain ⟨before, t, stopOrder, granted, hrun, hs⟩ := stopped_of_run hfd h hreturned
  obtain ⟨htop, rfl⟩ := stop_eq hs
  have hrunning := running_of_step hs
  have hown := owned_of_run hfd hrun hrunning
  have hstop := stopped_shutdown hown htop stopOrder granted
  rw [hstop.manager] at horder
  have hgone := destroyed_shutdown hown htop horder stopOrder granted
  refine ⟨fun fd => ⟨?_, ?_⟩, fun id hlt => ?_⟩
  · rw [hgone.files, hstop.files]
    cases hfile : t.kernel.files fd with
    | none => simp
    | some id =>
      rcases mem_order_of_file hfd hrun hrunning horder hfile with hlistener | hmem
      · simp [hlistener]
      · rw [if_pos hmem]
  · rw [hgone.interest]
    split
    · rfl
    · rename_i hno
      refine interest_shutdown hown htop stopOrder granted ?_
      cases hfile : t.kernel.files fd with
      | none => exact Or.inr (hown.interest fd hfile)
      | some id => exact Or.inl ((mem_order_of_file hfd hrun hrunning horder hfile).resolve_right hno)
  · rw [hgone.acts, closes_append]
    simp only [mem_order_iff hown horder]
    rcases eq_or_ne id serverChannel with rfl | hid
    · rw [server_closes_shutdown hown htop (server_acts_of_run hfd hrun hrunning),
        if_neg fun hm => hown.ne_server hm rfl]
      rfl
    · rw [hstop.acts id hid]
      rcases life_of_run hfd hrun hrunning id hid (hstop.nextId ▸ hlt) with ⟨hm, hlive, -⟩ | ⟨hnm, hended, -⟩
      · rw [closes_eq_zero hlive.1, if_pos hm]
        rfl
      · rw [hended.closes_eq, if_neg hnm]
        rfl

/-- **The epoll descriptor is the only one left, and every connection was closed once.**
Either a call of `createSocket` fails, and `main` returns with nothing open; or
`epoll_create1` fails, and the process exits with the listener open; or the process
enters the loop.  No channel ever has the descriptor of the epoll instance then, and once
`run` has returned and the dispatcher is destroyed, that descriptor is the only one that
is open and epoll watches nothing, and the listener and every connection there ever was
were closed exactly once in the life of the process. -/
theorem closed_once (calls : SocketCalls) (epollCreate1 : Fd) (memory : Bool) :
    (¬ calls.Succeed → ∃ k, (main calls epollCreate1 memory : Startup H) = .returned k ∧
      ∀ fd, k.files fd = none) ∧
    (calls.Succeed → epollCreate1 < 0 → ∃ k, (main calls epollCreate1 memory : Startup H) = .exited k ∧
      ∀ fd, k.files fd ≠ none ↔ fd = calls.socket) ∧
    (calls.Succeed → 0 ≤ epollCreate1 → epollCreate1 ≠ calls.socket →
      ∃ p₀ : Process H, main calls epollCreate1 memory = .running p₀ ∧
        ∀ labels p, Run Process.step Process.Fresh p₀ labels p →
          p.epollFd = epollCreate1 ∧ (∀ id, p.state.getFd id ≠ epollCreate1) ∧
          (p.state.phase = .returned → ∀ order, UnorderedMap.Enumerates order p.state.manager.channels →
            (∀ fd, (p.destroy order).Open fd ↔ fd = epollCreate1) ∧
            (∀ fd, (p.destroy order).state.kernel.interest fd = none) ∧
            ∀ id, id < p.state.nextId → closes ((p.destroy order).state.acts id) = 1)) := by
  refine ⟨fun hfail => ⟨_, main_returned hfail _ _, fun fd => rfl⟩,
    fun hall hneg => ⟨_, (main_eq hall _ _).trans (if_pos hneg), fun fd => ?_⟩,
    fun hall hpos hne => ⟨_, (main_eq hall _ _).trans (if_neg (Int32.not_lt.mpr hpos)), fun labels p h => ?_⟩⟩
  · simp [Kernel.accept, bareKernel, Function.update_apply]
  · obtain ⟨hepoll, hapart⟩ := Process.apart_of_run hall.1 hpos hne h
    refine ⟨hepoll, hapart.getFd, fun hreturned order horder => ?_⟩
    obtain ⟨hgone, honce⟩ := closed_of_run hall.1 (Process.run_state h) hreturned horder
    refine ⟨fun fd => ?_, fun fd => (hgone fd).2, honce⟩
    rw [← hepoll]
    exact or_iff_left (not_not.mpr (hgone fd).1)

end

/-- The process with the listener on `3` and the epoll instance on `5`: a connection comes,
and the server is stopped. -/
def stoppedLabels : List (Label Unit) := connectedLabels ++ [.stop [⟨4, 1⟩] fun _ => true]

def stopped : Process Unit :=
  (Run.exec Process.step Process.Fresh ⟨5, initial 3 true ∅⟩ stoppedLabels).get (by decide +kernel)

theorem closed_once_stopped :
    stopped.state.kernel.files 4 = some 1 ∧ (∀ fd, (stopped.destroy [⟨4, 1⟩]).Open fd ↔ fd = 5) ∧
      closes ((stopped.destroy [⟨4, 1⟩]).state.acts 1) = 1 := by
  have hrun : Run Process.step Process.Fresh ⟨5, initial 3 true ∅⟩ stoppedLabels stopped :=
    Run.of_exec stoppedLabels _ (Option.some_get _).symm
  obtain ⟨p₀, hmain, hlife⟩ :=
    (closed_once ⟨3, true, true, true, true⟩ 5 true).2.2 ⟨by decide, rfl, rfl, rfl, rfl⟩ (by decide) (by decide)
  obtain rfl : ⟨5, initial 3 true ∅⟩ = p₀ := Startup.running.inj hmain
  obtain ⟨-, -, hend⟩ := hlife _ _ hrun
  obtain ⟨hopen, -, honce⟩ := hend (by decide +kernel) [⟨4, 1⟩] (by decide +kernel)
  exact ⟨by decide +kernel, hopen, honce 1 (by decide +kernel)⟩

end Sews.Runtime
