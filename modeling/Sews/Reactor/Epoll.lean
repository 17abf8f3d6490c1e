import Mathlib.Logic.Function.Basic
import Sews.Connection.Channel

/-!
# The kernel and the epoll loop

`Kernel` is what the server sees of the operating system: the descriptor table,
with the socket behind each open descriptor, the interest list of its one epoll
instance, and the bytes each socket has taken for sending.  Closing a descriptor
takes it off the interest list.

On top of it stand the four operations of `SocketLoop`.  `poll` turns one ready
report into up to four events, the failure flags first, for the channel that
has the reported descriptor; a report whose descriptor no watched channel has is
dropped.
-/

namespace Sews.Reactor

open Cpp Sews.Connection

/-- The object behind a `Channel *`, and the socket a connection came with. -/
abbrev ChannelId := Nat

/-- The bits of an `epoll_event` mask that the server sets or tests. -/
structure EpollFlags where
  epollin : Bool := false
  epollout : Bool := false
  epollerr : Bool := false
  epollhup : Bool := false
deriving DecidableEq, Repr

structure Kernel where
  files : Fd → Option ChannelId
  interest : Fd → Option EpollFlags
  sent : ChannelId → Bytes

namespace Kernel

/-- `accept(2)` returning `fd`, for a new socket. -/
def accept (k : Kernel) (fd : Fd) (socket : ChannelId) : Kernel :=
  { k with files := Function.update k.files fd (some socket) }

/-- `close(2)`. -/
def close (k : Kernel) (fd : Fd) : Kernel :=
  { k with files := Function.update k.files fd none
           interest := Function.update k.interest fd none }

/-- The bytes the `write(2)` calls on `fd` handed over. -/
def write (k : Kernel) (fd : Fd) (bytes : Bytes) : Kernel :=
  match k.files fd with
  | none => k
  | some socket => { k with sent := Function.update k.sent socket (k.sent socket ++ bytes) }

/-- `EPOLL_CTL_ADD`, which fails on a descriptor that is not open or is on the
list already, and may fail for want of memory. -/
def ctlAdd (k : Kernel) (fd : Fd) (flags : EpollFlags) (memory : Bool) : Kernel :=
  if memory ∧ k.files fd ≠ none ∧ k.interest fd = none then
    { k with interest := Function.update k.interest fd (some flags) }
  else k

/-- `EPOLL_CTL_MOD`, which fails on a descriptor that is not on the list. -/
def ctlMod (k : Kernel) (fd : Fd) (flags : EpollFlags) (memory : Bool) : Kernel :=
  if memory ∧ k.interest fd ≠ none then
    { k with interest := Function.update k.interest fd (some flags) }
  else k

/-- `EPOLL_CTL_DEL`. -/
def ctlDel (k : Kernel) (fd : Fd) (granted : Bool) : Kernel :=
  if granted then { k with interest := Function.update k.interest fd none } else k

@[simp] theorem files_write (k : Kernel) (fd : Fd) (bytes : Bytes) :
    (k.write fd bytes).files = k.files := by
  rw [write]
  split <;> rfl

@[simp] theorem interest_write (k : Kernel) (fd : Fd) (bytes : Bytes) :
    (k.write fd bytes).interest = k.interest := by
  rw [write]
  split <;> rfl

theorem sent_write {k : Kernel} {fd : Fd} {socket : ChannelId} (h : k.files fd = some socket)
    (bytes : Bytes) :
    (k.write fd bytes).sent = Function.update k.sent socket (k.sent socket ++ bytes) := by
  rw [write, h]

@[simp] theorem files_ctlAdd (k : Kernel) (fd : Fd) (flags : EpollFlags) (memory : Bool) :
    (k.ctlAdd fd flags memory).files = k.files := by
  rw [ctlAdd]
  split <;> rfl

@[simp] theorem sent_ctlAdd (k : Kernel) (fd : Fd) (flags : EpollFlags) (memory : Bool) :
    (k.ctlAdd fd flags memory).sent = k.sent := by
  rw [ctlAdd]
  split <;> rfl

theorem interest_ctlAdd_ne {k : Kernel} {fd fd' : Fd} (h : fd' ≠ fd) (flags : EpollFlags)
    (memory : Bool) : (k.ctlAdd fd flags memory).interest fd' = k.interest fd' := by
  rw [ctlAdd]
  split
  · exact Function.update_of_ne h _ _
  · rfl

@[simp] theorem files_ctlMod (k : Kernel) (fd : Fd) (flags : EpollFlags) (memory : Bool) :
    (k.ctlMod fd flags memory).files = k.files := by
  rw [ctlMod]
  split <;> rfl

@[simp] theorem sent_ctlMod (k : Kernel) (fd : Fd) (flags : EpollFlags) (memory : Bool) :
    (k.ctlMod fd flags memory).sent = k.sent := by
  rw [ctlMod]
  split <;> rfl

theorem interest_ctlMod_ne {k : Kernel} {fd fd' : Fd} (h : fd' ≠ fd) (flags : EpollFlags)
    (memory : Bool) : (k.ctlMod fd flags memory).interest fd' = k.interest fd' := by
  rw [ctlMod]
  split
  · exact Function.update_of_ne h _ _
  · rfl

theorem interest_ctlMod_none {k : Kernel} {fd fd' : Fd} {flags : EpollFlags} {memory : Bool} :
    (k.ctlMod fd flags memory).interest fd' = none ↔ k.interest fd' = none := by
  rw [ctlMod]
  split
  · rename_i h
    by_cases hfd : fd' = fd
    · subst hfd
      simp [h.2]
    · simp [Function.update_of_ne hfd]
  · rfl

theorem update_some {interest : Fd → Option EpollFlags} {fd fd' : Fd} {flags flags' : EpollFlags}
    (h : Function.update interest fd (some flags) fd' = some flags') :
    interest fd' = some flags' ∨ flags' = flags := by
  rw [Function.update_apply] at h
  split at h
  · exact Or.inr (Option.some.inj h).symm
  · exact Or.inl h

theorem interest_ctlAdd_some {k : Kernel} {fd fd' : Fd} {flags flags' : EpollFlags} {memory : Bool}
    (h : (k.ctlAdd fd flags memory).interest fd' = some flags') :
    k.interest fd' = some flags' ∨ flags' = flags := by
  unfold ctlAdd at h
  split at h
  · exact update_some h
  · exact Or.inl h

theorem interest_ctlMod_some {k : Kernel} {fd fd' : Fd} {flags flags' : EpollFlags} {memory : Bool}
    (h : (k.ctlMod fd flags memory).interest fd' = some flags') :
    k.interest fd' = some flags' ∨ flags' = flags := by
  unfold ctlMod at h
  split at h
  · exact update_some h
  · exact Or.inl h

theorem interest_ctlDel_ne {k : Kernel} {fd fd' : Fd} (h : fd' ≠ fd) (granted : Bool) :
    (k.ctlDel fd granted).interest fd' = k.interest fd' := by
  rw [ctlDel]
  split
  · exact Function.update_of_ne h _ _
  · rfl

theorem interest_ctlDel_none {k : Kernel} {fd fd' : Fd} (h : k.interest fd' = none)
    (granted : Bool) : (k.ctlDel fd granted).interest fd' = none := by
  by_cases hfd : fd' = fd
  · subst hfd
    rw [ctlDel]
    split
    · exact Function.update_self ..
    · exact h
  · rw [interest_ctlDel_ne hfd, h]

end Kernel

/-! ### Events -/

/-- `core::connection::event::Channel`. -/
inductive EventFlag
  | READ | WRITE | HANGUP | ERROR
deriving DecidableEq, Repr

/-- `core::connection::transport::Event`. -/
structure Event where
  flag : EventFlag
  channel : ChannelId
deriving DecidableEq, Repr

/-- `epoll_event`. -/
structure EpollEvent where
  events : EpollFlags
  fd : Fd
deriving DecidableEq, Repr

namespace SocketLoop

/-- The mask `registerChannel` registers a descriptor with. -/
def readMask : EpollFlags := { epollin := true }

/-- `SocketLoop::registerChannel`.  A failure is only logged. -/
def registerChannel (k : Kernel) (fd : Fd) (memory : Bool) : Kernel := k.ctlAdd fd readMask memory

/-- `SocketLoop::unregisterChannel`. -/
def unregisterChannel (k : Kernel) (fd : Fd) (granted : Bool) : Kernel := k.ctlDel fd granted

/-- The mask of a list of events. -/
def flagsOf (events : List EventFlag) : EpollFlags :=
  events.foldl (fun flags e =>
    match e with
    | .READ => { flags with epollin := true }
    | .WRITE => { flags with epollout := true }
    | .HANGUP => { flags with epollhup := true }
    | .ERROR => { flags with epollerr := true }) {}

/-- `SocketLoop::updateEvents`. -/
def updateEvents (k : Kernel) (fd : Fd) (events : List EventFlag) (memory : Bool) : Kernel :=
  k.ctlMod fd (flagsOf events) memory

/-- The events one ready report makes. -/
def eventsOf (flags : EpollFlags) (channel : ChannelId) : List Event :=
  (if flags.epollerr then [⟨.ERROR, channel⟩] else [])
    ++ (if flags.epollhup then [⟨.HANGUP, channel⟩] else [])
    ++ (if flags.epollin then [⟨.READ, channel⟩] else [])
    ++ (if flags.epollout then [⟨.WRITE, channel⟩] else [])

/-- `SocketLoop::poll`, on the reports of `epoll_wait`; there are none after a
timeout or an error. -/
def poll (getFd : ChannelId → Fd) (watched : List ChannelId) (ready : List EpollEvent) :
    List Event :=
  ready.flatMap fun readyEvent =>
    match watched.find? fun channel => decide (getFd channel = readyEvent.fd) with
    | none => []
    | some channel => eventsOf readyEvent.events channel

theorem channel_of_mem_eventsOf {flags : EpollFlags} {channel : ChannelId} {e : Event}
    (h : e ∈ eventsOf flags channel) : e.channel = channel := by
  unfold eventsOf at h
  simp only [List.mem_append] at h
  rcases h with ((h | h) | h) | h <;> split at h <;> simp_all

theorem mem_poll {getFd : ChannelId → Fd} {watched : List ChannelId} {ready : List EpollEvent}
    {e : Event} (h : e ∈ poll getFd watched ready) :
    e.channel ∈ watched ∧ ∃ r ∈ ready, r.fd = getFd e.channel ∧ e ∈ eventsOf r.events e.channel := by
  obtain ⟨r, hr, he⟩ := List.mem_flatMap.mp h
  cases hf : watched.find? fun channel => decide (getFd channel = r.fd) with
  | none => simp only [hf] at he; cases he
  | some channel =>
    simp only [hf] at he
    have hc := channel_of_mem_eventsOf he
    subst hc
    have hfd := List.find?_some hf
    exact ⟨List.mem_of_find?_eq_some hf, r, hr, (of_decide_eq_true hfd).symm, he⟩

end SocketLoop
end Sews.Reactor
