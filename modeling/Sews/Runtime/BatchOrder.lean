import Sews.Lib.Interleaving
import Sews.Runtime.Accounting

/-!
# The order of a batch

`epoll_wait` reports the ready descriptors in no particular order, and the dispatcher
handles the events in the order of the reports.  `batch_order` says that this order is
nobody's business: if no event throws, then every interleaving of the events of the
single channels leads to the same state after the cleanup.

What the order does leave its mark on is the shared read buffer, the order of the marks,
and how the records of different connections are interleaved.  A `Core` is a state
without these.  The handling of an event is a step on the core, and on cores the steps of
different channels commute (`step_comm`).
-/

namespace Sews.Runtime

open Cpp Sews.Http Sews.Connection Sews.Reactor Sews.Telemetry Dispatcher

variable {H : Type} {s s' : State H} {label : Label H}

/-! ### The core of a state -/

/-- A state without the read buffer, the order of the marks, and the order in which the
acts on different connections were done. -/
structure Core (H : Type) where
  kernel : Kernel
  objects : ChannelId → Option PlainTextChannel
  nextId : ChannelId
  channels : UnorderedMap Fd ChannelId
  marks : Multiset Fd
  metrics : Metrics
  acts : ChannelId → List (Act H)

def State.core (s : State H) : Core H where
  kernel := s.kernel
  objects := s.objects
  nextId := s.nextId
  channels := s.manager.channels
  marks := s.manager.closedChannels
  metrics := s.metrics
  acts := s.acts

/-- The interest of a descriptor after `updateEvents`, if that is called. -/
def updatedInterest (old : Option EpollFlags) (interest : Option (List EventFlag)) (memory : Bool) :
    Option EpollFlags :=
  match interest with
  | none => old
  | some events => if memory ∧ old ≠ none then some (SocketLoop.flagsOf events) else old

/-- The interest of a descriptor after `registerChannel`. -/
def registeredInterest (old : Option EpollFlags) (memory : Bool) : Option EpollFlags :=
  if memory ∧ old = none then some SocketLoop.readMask else old

namespace Core

/-- An effect, carried out on an open connection with the descriptor `fd`. -/
def apply (c : Core H) (id : ChannelId) (fd : Fd) (memory : Bool) (e : Effect H) : Core H :=
  { c with
    kernel := { c.kernel with
      interest := Function.update c.kernel.interest fd (updatedInterest (c.kernel.interest fd) e.interest memory)
      sent := Function.update c.kernel.sent id (c.kernel.sent id ++ e.written) }
    objects := Function.update c.objects id (some e.channel)
    marks := if e.marks then fd ::ₘ c.marks else c.marks
    metrics := e.counters.foldl Metrics.increment c.metrics
    acts := Function.update c.acts id (c.acts id ++ e.acts) }

/-- A connection is accepted under the descriptor `fd`. -/
def welcome (c : Core H) (fd : Fd) (garbage : Nat) (memory : Bool) : Core H :=
  { c with
    kernel := { c.kernel with
      files := Function.update c.kernel.files fd (some c.nextId)
      interest := Function.update c.kernel.interest fd
        (registeredInterest (c.kernel.interest fd) memory) }
    objects := Function.update c.objects c.nextId (some { fd := fd, writeOffset := garbage })
    nextId := c.nextId + 1
    channels := c.channels.insert fd c.nextId
    metrics := c.metrics.increment connectionsTotal
    acts := Function.update c.acts c.nextId (c.acts c.nextId ++ [.accept fd]) }

/-- What an event comes to. -/
inductive Change (H : Type)
  | refused
  | accepted (fd : Fd) (garbage : Nat) (memory : Bool)
  | client (id : ChannelId) (fd : Fd) (memory : Bool) (e : Effect H)

def carry (c : Core H) : Change H → Core H
  | .refused => c
  | .accepted fd garbage memory => c.welcome fd garbage memory
  | .client id fd memory e => c.apply id fd memory e

/-- What an event comes to in a batch in which `first` is the first new connection:
`accept` returns a free descriptor or none, and an event on a connection that is open
has its effect, unless that throws. -/
def change (first : ChannelId) (c : Core H) (item : Event × Answers H) : Option (Change H) :=
  if item.1.channel = serverChannel then
    if item.2.accepted < 0 then some .refused
    else if c.kernel.files item.2.accepted = none then
      some (.accepted item.2.accepted item.2.garbage item.2.memory)
    else none
  else
    match c.objects item.1.channel with
    | none => none
    | some channel =>
      if item.1.channel < first ∧ c.kernel.files channel.fd = some item.1.channel then
        match effect channel item.1.flag item.2 with
        | none => none
        | some e => if e.throws then none else some (.client item.1.channel channel.fd item.2.memory e)
      else none

def step (first : ChannelId) (c : Core H) (item : Event × Answers H) : Option (Core H) :=
  (change first c item).map c.carry

/-! ### Steps of different channels commute -/

theorem increment_comm (metrics : Metrics) (name name' : Bytes) :
    (metrics.increment name).increment name' = (metrics.increment name').increment name := by
  have hlookup : ∀ (metrics : Metrics) (name key : Bytes), (metrics.increment name).lookup key
      = if key = name then (metrics.lookup name).map fun metric => { metric with value := metric.value + 1 }
        else metrics.lookup key := by
    intro metrics name key
    split
    · rename_i hkey
      subst hkey
      cases hl : metrics.lookup key with
      | none => rw [Metrics.increment, hl]; exact hl
      | some metric => exact Metrics.lookup_increment hl
    · rename_i hkey
      exact Metrics.lookup_increment_ne hkey metrics
  rcases eq_or_ne name name' with rfl | hne
  · rfl
  · refine Finmap.ext_lookup fun key => ?_
    simp only [hlookup]
    by_cases hkey : key = name
    · subst hkey
      rw [if_neg hne, if_pos rfl, if_pos rfl, if_neg hne]
    · rw [if_neg hkey, if_neg hkey, if_neg hne.symm]

instance : RightCommutative Metrics.increment := ⟨increment_comm⟩

theorem foldl_increment_comm (metrics : Metrics) (counters counters' : List Bytes) :
    counters'.foldl Metrics.increment (counters.foldl Metrics.increment metrics)
      = counters.foldl Metrics.increment (counters'.foldl Metrics.increment metrics) := by
  rw [← List.foldl_append, ← List.foldl_append]
  exact List.perm_append_comm.foldl_eq metrics

section
variable {c : Core H} {first : ChannelId}

/-- The effects on two connections under different descriptors. -/
theorem apply_comm {id id' : ChannelId} {fd fd' : Fd} (hid : id ≠ id') (hfd : fd ≠ fd')
    (memory memory' : Bool) (e e' : Effect H) :
    (c.apply id fd memory e).apply id' fd' memory' e' = (c.apply id' fd' memory' e').apply id fd memory e := by
  have hmarks : (if e'.marks then fd' ::ₘ (if e.marks then fd ::ₘ c.marks else c.marks)
        else if e.marks then fd ::ₘ c.marks else c.marks)
      = if e.marks then fd ::ₘ (if e'.marks then fd' ::ₘ c.marks else c.marks)
        else if e'.marks then fd' ::ₘ c.marks else c.marks := by
    split_ifs
    · exact Multiset.cons_swap _ _ _
    · rfl
    · rfl
    · rfl
  unfold apply
  dsimp only
  rw [Function.update_of_ne hid.symm, Function.update_of_ne hid, Function.update_of_ne hfd.symm,
    Function.update_of_ne hfd, Function.update_of_ne hid.symm, Function.update_of_ne hid,
    Function.update_comm hid.symm, Function.update_comm hfd.symm, Function.update_comm hid.symm,
    Function.update_comm hid.symm, foldl_increment_comm, hmarks]

/-- An effect on a connection and the welcome of another one. -/
theorem welcome_apply {id : ChannelId} {fd fd' : Fd} (hid : id ≠ c.nextId) (hfd : fd ≠ fd')
    (memory memory' : Bool) (garbage : Nat) (e : Effect H) :
    (c.apply id fd memory e).welcome fd' garbage memory' = (c.welcome fd' garbage memory').apply id fd memory e := by
  have hmetrics := foldl_increment_comm c.metrics e.counters [connectionsTotal]
  unfold apply welcome
  dsimp only [List.foldl_cons, List.foldl_nil] at hmetrics ⊢
  rw [Function.update_of_ne hfd.symm, Function.update_of_ne hfd, Function.update_of_ne hid.symm,
    Function.update_of_ne hid, Function.update_comm hid.symm, Function.update_comm hfd.symm,
    Function.update_comm hid.symm, hmetrics]

theorem change_cases {item : Event × Answers H} {ch : Change H} (h : change first c item = some ch) :
    (item.1.channel = serverChannel ∧ item.2.accepted < 0 ∧ ch = .refused) ∨
    (item.1.channel = serverChannel ∧ ¬ item.2.accepted < 0 ∧ c.kernel.files item.2.accepted = none ∧
      ch = .accepted item.2.accepted item.2.garbage item.2.memory) ∨
    (item.1.channel ≠ serverChannel ∧ item.1.channel < first ∧
      ∃ channel e, c.objects item.1.channel = some channel ∧
        c.kernel.files channel.fd = some item.1.channel ∧ effect channel item.1.flag item.2 = some e ∧
        e.throws = false ∧ ch = .client item.1.channel channel.fd item.2.memory e) := by
  unfold change at h
  split at h
  · rename_i hserver
    split at h
    · rename_i hneg
      cases h
      exact Or.inl ⟨hserver, hneg, rfl⟩
    · rename_i hpos
      split at h
      · rename_i hfree
        cases h
        exact Or.inr (Or.inl ⟨hserver, hpos, hfree, rfl⟩)
      · cases h
  · rename_i hserver
    split at h
    · cases h
    · rename_i channel hobj
      split at h
      · rename_i hopen
        split at h
        · cases h
        · rename_i e he
          split at h
          · cases h
          · rename_i ht
            cases h
            exact Or.inr (Or.inr ⟨hserver, hopen.1, channel, e, hobj, hopen.2, he,
              Bool.eq_false_iff.mpr ht, rfl⟩)
      · cases h

theorem change_carry {x y : Event × Answers H} {ch : Change H} (hfirst : first ≤ c.nextId)
    (hne : x.1.channel ≠ y.1.channel) (h : change first c x = some ch) :
    change first (c.carry ch) y = change first c y := by
  rcases change_cases h with ⟨-, -, rfl⟩ | ⟨hserver, -, hfree, rfl⟩ | ⟨-, -, channel, e, hobj, hfile, -, -, rfl⟩
  · rfl
  · -- a new connection has another number and another descriptor
    unfold change
    rw [if_neg fun hy => hne (hserver.trans hy.symm), if_neg fun hy => hne (hserver.trans hy.symm)]
    show (match Function.update c.objects c.nextId _ y.1.channel with
      | none => none
      | some channel => _) = _
    by_cases hy : y.1.channel = c.nextId
    · have hlate : ¬ c.nextId < first := Nat.not_lt.mpr hfirst
      rw [hy, Function.update_self]
      dsimp only
      rw [if_neg fun hopen => hlate hopen.1]
      cases c.objects c.nextId with
      | none => rfl
      | some channel => exact (if_neg fun hopen => hlate hopen.1).symm
    · rw [Function.update_of_ne hy]
      cases c.objects y.1.channel with
      | none => rfl
      | some channel =>
        have hiff : (y.1.channel < first ∧ Function.update c.kernel.files x.2.accepted (some c.nextId) channel.fd
              = some y.1.channel) ↔ (y.1.channel < first ∧ c.kernel.files channel.fd = some y.1.channel) := by
          rw [Function.update_apply]
          split
          · rename_i hfd
            rw [hfd, hfree]
            simp [Ne.symm hy]
          · rfl
        simp only [carry, welcome, hiff]
  · unfold change
    show (if y.1.channel = serverChannel then _ else
      match Function.update c.objects x.1.channel _ y.1.channel with
      | none => none
      | some channel => _) = _
    rw [Function.update_of_ne hne.symm]
    rfl

/-- What two events on different channels come to may be carried out in any order. -/
theorem carry_comm {x y : Event × Answers H} {ch ch' : Change H} (hfirst : first ≤ c.nextId)
    (hne : x.1.channel ≠ y.1.channel) (h : change first c x = some ch) (h' : change first c y = some ch') :
    (c.carry ch).carry ch' = (c.carry ch').carry ch := by
  have hfds : ∀ {fd fd' : Fd}, c.kernel.files fd ≠ c.kernel.files fd' → fd ≠ fd' := by
    rintro fd _ hfiles rfl
    exact hfiles rfl
  rcases change_cases h with ⟨-, -, rfl⟩ | ⟨hserver, -, hfree, rfl⟩ | ⟨-, hx, channel, e, -, hfile, -, -, rfl⟩
  · rfl
  · rcases change_cases h' with ⟨-, -, rfl⟩ | ⟨hserver', -, -, -⟩ | ⟨-, hy, channel, e, -, hfile, -, -, rfl⟩
    · rfl
    · exact absurd (hserver.trans hserver'.symm) hne
    · refine (welcome_apply (Nat.ne_of_lt (Nat.lt_of_lt_of_le hy hfirst)) (hfds ?_) _ _ _ _).symm
      rw [hfile, hfree]
      simp
  · rcases change_cases h' with ⟨-, -, rfl⟩ | ⟨-, -, hfree, rfl⟩ | ⟨-, -, channel', e', -, hfile', -, -, rfl⟩
    · rfl
    · refine welcome_apply (Nat.ne_of_lt (Nat.lt_of_lt_of_le hx hfirst)) (hfds ?_) _ _ _ _
      rw [hfile, hfree]
      simp
    · refine apply_comm hne (hfds ?_) _ _ _ _
      rw [hfile, hfile']
      simpa using hne

/-- **Events on different channels commute.** -/
theorem step_comm {x y : Event × Answers H} (hfirst : first ≤ c.nextId) (hne : x.1.channel ≠ y.1.channel) :
    (step first c x).bind (step first · y) = (step first c y).bind (step first · x) := by
  have hafter : ∀ {x y : Event × Answers H}, x.1.channel ≠ y.1.channel →
      (step first c x).bind (step first · y)
        = (change first c x).bind fun ch => (change first c y).map fun ch' => (c.carry ch).carry ch' := by
    intro x y hne
    rw [step]
    cases hx : change first c x with
    | none => rfl
    | some ch =>
      show step first (c.carry ch) y = _
      rw [step, change_carry hfirst hne hx]
      rfl
  rw [hafter hne, hafter hne.symm]
  cases hx : change first c x with
  | none => cases change first c y <;> rfl
  | some ch =>
    cases hy : change first c y with
    | none => rfl
    | some ch' => exact congrArg some (carry_comm hfirst hne hx hy)

theorem nextId_step {item : Event × Answers H} {c' : Core H} (hfirst : first ≤ c.nextId)
    (h : step first c item = some c') : first ≤ c'.nextId := by
  obtain ⟨ch, -, rfl⟩ := Option.map_eq_some_iff.mp h
  cases ch with
  | refused | client => exact hfirst
  | accepted fd garbage memory => exact Nat.le_succ_of_le hfirst

/-- **The order of a batch leaves no mark on the core.** -/
theorem foldlM_step {items items' : List (Event × Answers H)} (hfirst : first ≤ c.nextId)
    (h : Interleaved (·.1.channel) items items') :
    items.foldlM (step first) c = items'.foldlM (step first) c := by
  refine foldlM_interleaved (I := fun c : Core H => first ≤ c.nextId) ?_ ?_ hfirst h
  · exact fun _ _ _ hfirst hs => nextId_step hfirst hs
  · exact fun _ _ _ hfirst hne => step_comm hfirst hne

end
end Core
/-! ### The dispatcher takes these steps -/

theorem kernel_effect {k : Kernel} {fd : Fd} {id : ChannelId} (h : k.files fd = some id) (written : Bytes)
    (interest : Option (List EventFlag)) (memory : Bool) :
    (match interest with
      | none => k.write fd written
      | some events => SocketLoop.updateEvents (k.write fd written) fd events memory)
      = { k with
          interest := Function.update k.interest fd (updatedInterest (k.interest fd) interest memory)
          sent := Function.update k.sent id (k.sent id ++ written) } := by
  have hwrite : k.write fd written
      = { k with sent := Function.update k.sent id (k.sent id ++ written) } := by
    rw [Kernel.write, h]
  cases interest with
  | none =>
    dsimp only
    rw [hwrite, updatedInterest, Function.update_eq_self]
  | some events =>
    dsimp only
    rw [hwrite, SocketLoop.updateEvents, Kernel.ctlMod, updatedInterest]
    dsimp only
    split
    · rfl
    · rw [Function.update_eq_self]

theorem acts_log (s : State H) (id : ChannelId) (acts : List (Act H)) :
    actsOf (s.trace ++ acts.map fun act => (id, act))
      = Function.update s.acts id (s.acts id ++ acts) := by
  funext id'
  rw [actsOf_append, actsOf_map, Function.update_apply]
  split
  · rename_i hid
    rw [hid]
    rfl
  · exact List.append_nil _

theorem core_apply {id : ChannelId} {channel : PlainTextChannel} (hobj : s.objects id = some channel)
    (hfile : s.kernel.files channel.fd = some id) (events : List Event) (flag : EventFlag) (a : Answers H)
    (e : Effect H) :
    ((State.scratch { s with phase := .batch events } flag a).apply id a.memory e).core
      = s.core.apply id channel.fd a.memory e := by
  obtain ⟨b, n, hscratch⟩ := scratch_eq { s with phase := .batch events } flag a
  have hfd : s.getFd id = channel.fd := getFd_eq hobj
  have hkernel := kernel_effect hfile e.written e.interest a.memory
  have hmarks : ∀ marks : Bool,
      (((if marks then s.manager.remove channel.fd else s.manager).closedChannels : List Fd) : Multiset Fd)
        = if marks then channel.fd ::ₘ (s.manager.closedChannels : Multiset Fd) else s.manager.closedChannels := by
    intro marks
    cases marks with
    | false => rfl
    | true =>
      show ((s.manager.closedChannels ++ [channel.fd] : List Fd) : Multiset Fd) = _
      rw [if_pos rfl, ← Multiset.coe_add, Multiset.coe_singleton, Multiset.add_comm]
      rfl
  have hchannels : ∀ marks : Bool,
      (if marks then s.manager.remove channel.fd else s.manager).channels = s.manager.channels := by
    intro marks
    cases marks <;> rfl
  rw [hscratch]
  show Core.mk _ _ _ _ _ _ _ = Core.mk _ _ _ _ _ _ _
  congr 1
  · show (match e.interest with
      | none => s.kernel.write (s.getFd id) e.written
      | some events => SocketLoop.updateEvents (s.kernel.write (s.getFd id) e.written) (s.getFd id) events a.memory)
      = _
    rw [hfd]
    exact hkernel
  · show (if e.marks then s.manager.remove (s.getFd id) else s.manager).channels = _
    rw [hfd]
    exact hchannels e.marks
  · show (((if e.marks then s.manager.remove (s.getFd id) else s.manager).closedChannels : List Fd) : Multiset Fd)
      = _
    rw [hfd]
    exact hmarks e.marks
  · exact acts_log s id e.acts

theorem core_welcome (s : State H) (events : List Event) (a : Answers H) :
    (s.welcome events a).core = s.core.welcome a.accepted a.garbage a.memory := by
  have hkernel : SocketLoop.registerChannel (s.kernel.accept a.accepted s.nextId) a.accepted a.memory
      = { s.kernel with
          files := Function.update s.kernel.files a.accepted (some s.nextId)
          interest := Function.update s.kernel.interest a.accepted
            (registeredInterest (s.kernel.interest a.accepted) a.memory) } := by
    rw [SocketLoop.registerChannel, Kernel.ctlAdd, Kernel.accept, registeredInterest]
    dsimp only
    by_cases hadd : a.memory = true ∧ s.kernel.interest a.accepted = none
    · rw [if_pos ⟨hadd.1, by simp, hadd.2⟩, if_pos hadd]
    · rw [if_neg fun hmore => hadd ⟨hmore.1, hmore.2.2⟩, if_neg hadd, Function.update_eq_self]
  show Core.mk _ _ _ _ _ _ _ = Core.mk _ _ _ _ _ _ _
  congr 1
  exact acts_log s s.nextId [.accept a.accepted]

/-- `accept` returns no open descriptor, if it is called. -/
def FreshAccept (s : State H) : Label H → Prop
  | .event a => ∀ event ∈ s.events.head?, event.channel = serverChannel → Fresh s (.event a)
  | _ => True

instance (s : State H) : (label : Label H) → Decidable (FreshAccept s label)
  | .event a => inferInstanceAs (Decidable (∀ event ∈ s.events.head?,
      event.channel = serverChannel → Fresh s (.event a)))
  | .poll _ _ | .cleanup _ | .stop _ _ => .isTrue trivial

theorem freshAccept_iff {event : Event} {events : List Event} {a : Answers H}
    (hphase : s.phase = .batch (event :: events)) :
    FreshAccept s (.event a) ↔ (event.channel = serverChannel → Fresh s (.event a)) := by
  have hhead : s.events.head? = some event := by rw [State.events, hphase]; rfl
  rw [FreshAccept, hhead]
  simp

theorem handleEvent_managed {id : ChannelId} (h : Owned s) (hm : s.Managed id) :
    ∃ channel, s.objects id = some channel ∧ s.kernel.files channel.fd = some id ∧
      ∀ (events : List Event) (flag : EventFlag) (a : Answers H),
        handleEvent { s with phase := .batch events } ⟨flag, id⟩ a = (effect channel flag a).map
          ((State.scratch { s with phase := .batch events } flag a).apply id a.memory) := by
  obtain ⟨channel, hobj, hfd⟩ := h.object hm
  refine ⟨channel, hobj, ?_, fun events flag a => ?_⟩
  · rw [hfd]
    exact (h.entry _ _ hm).2.2.2.1
  · refine @handleEvent_client _ { s with phase := .batch events } id channel a flag hobj ?_
    show channel.fd ≠ s.getFd serverChannel
    rw [hfd]
    exact h.getFd_ne_server hm

/-- For an event on a client `accept` is not called, whatever it would return. -/
theorem moves_of_head {event : Event} {events : List Event} {a : Answers H} (h : Owned s)
    (hphase : s.phase = .batch (event :: events)) (hfresh : FreshAccept s (.event a))
    (hs : step s (.event a) = some s') : ∃ a', Moves s (.event a') s' := by
  by_cases hserver : event.channel = serverChannel
  · exact ⟨a, moves_of_step h ((freshAccept_iff hphase).mp hfresh hserver) hs⟩
  · obtain ⟨flag, id⟩ := event
    have hm : s.Managed id := (h.managed_of_head hphase).resolve_left hserver
    obtain ⟨channel, -, -, hevent⟩ := handleEvent_managed h hm
    have hsame : step s (.event a) = step s (.event { a with accepted := -1 }) := by
      simp only [step, hphase]
      rw [hevent, hevent]
      cases flag <;> rfl
    rw [hsame] at hs
    refine ⟨_, moves_of_step h ?_ hs⟩
    intro hpos
    exact absurd (show (0 : Fd) ≤ -1 from hpos) (by decide)

theorem owned_of_freshAccept {labels : List (Label H)} (h : Owned s) (hrun : Run step FreshAccept s labels s')
    (hphase : s'.phase ≠ .returned) : Owned s' := by
  refine Run.inv (I := fun s : State H => s.phase ≠ .returned → Owned s) hrun (fun _ => h) ?_ hphase
  intro s label s' ih hfresh hs hphase'
  have hown := ih (running_of_step hs)
  cases label with
  | event a =>
    cases hb : s.phase with
    | top | returned | threw =>
      simp only [step, hb] at hs
      cases hs
    | batch events =>
      cases events with
      | nil =>
        simp only [step, hb] at hs
        cases hs
      | cons event events =>
        obtain ⟨a', hm⟩ := moves_of_head hown hb hfresh hs
        exact hown.moves hm hphase'
  | poll order ready =>
    have hm : Moves s (.poll order ready) s' := moves_of_step hown trivial hs
    exact hown.moves hm hphase'
  | cleanup granted =>
    have hm : Moves s (.cleanup granted) s' := moves_of_step hown trivial hs
    exact hown.moves hm hphase'
  | stop order granted =>
    have hm : Moves s (.stop order granted) s' := moves_of_step hown trivial hs
    exact hown.moves hm hphase'

theorem core_accept {first : ChannelId} {event : Event} {events : List Event} {a : Answers H} {c' : Core H}
    (h : Owned s) (hserver : event.channel = serverChannel) :
    Core.step first s.core (event, a) = some c' ↔ Fresh s (.event a) ∧
      ∃ s', handleEvent { s with phase := .batch events } event a = some s' ∧
        s'.phase = .batch events ∧ s'.core = c' := by
  have haccept : handleEvent { s with phase := .batch events } event a
      = some (onAccept { s with phase := .batch events } a) := by
    rw [handleEvent, hserver]
    exact if_pos rfl
  rw [Core.step, Core.change, if_pos hserver, haccept]
  by_cases hneg : a.accepted < 0
  · have hfresh : Fresh s (.event a) := fun hpos => absurd hneg (Int32.not_lt.mpr hpos)
    rw [if_pos hneg, onAccept, if_pos hneg]
    constructor
    · rintro ⟨⟩
      exact ⟨hfresh, _, rfl, rfl, rfl⟩
    · rintro ⟨-, s', ⟨⟩, -, rfl⟩
      rfl
  · have hpos : 0 ≤ a.accepted := Int32.not_lt.mp hneg
    rw [if_neg hneg]
    dsimp only
    by_cases hfree : s.kernel.files a.accepted = none
    · rw [show s.core.kernel.files a.accepted = none from hfree, if_pos rfl,
        onAccept_eq hpos (h.lookup_of_free hfree)]
      have hcore := core_welcome s events a
      constructor
      · rintro ⟨⟩
        exact ⟨fun _ => hfree, _, rfl, rfl, hcore⟩
      · rintro ⟨-, s', ⟨⟩, -, rfl⟩
        rw [hcore]
        rfl
    · rw [if_neg (show ¬ s.core.kernel.files a.accepted = none from hfree)]
      refine iff_of_false (by simp) ?_
      rintro ⟨hfresh, -⟩
      exact hfree (hfresh hpos)

theorem core_client {first id : ChannelId} {flag : EventFlag} {events : List Event} {a : Answers H}
    {c' : Core H} (h : Owned s) (hm : s.Managed id) (hlt : id < first) :
    Core.step first s.core (⟨flag, id⟩, a) = some c' ↔
      ∃ s', handleEvent { s with phase := .batch events } ⟨flag, id⟩ a = some s' ∧
        s'.phase = .batch events ∧ s'.core = c' := by
  obtain ⟨channel, hobj, hfile, hevent⟩ := handleEvent_managed h hm
  have hopen : id < first ∧ s.core.kernel.files channel.fd = some id := ⟨hlt, hfile⟩
  rw [Core.step, Core.change, if_neg (h.ne_server hm), show s.core.objects id = some channel from hobj, hevent]
  dsimp only
  rw [if_pos hopen]
  cases he : effect channel flag a with
  | none => simp
  | some e =>
    dsimp only
    have hcore := core_apply hobj hfile events flag a e
    have hphase := phase_apply s events flag a id e
    cases ht : e.throws with
    | true =>
      refine iff_of_false (by simp) ?_
      rintro ⟨s', ⟨⟩, hbatch, -⟩
      rw [hphase, ht] at hbatch
      cases hbatch
    | false =>
      rw [ht] at hphase
      constructor
      · rintro ⟨⟩
        exact ⟨_, rfl, hphase, hcore⟩
      · rintro ⟨s', ⟨⟩, -, rfl⟩
        rw [hcore]
        rfl

/-- **A step on the core is an event that is handled without an exception.** -/
theorem core_step {first : ChannelId} {event : Event} {events : List Event} {a : Answers H} {c' : Core H}
    (h : Owned s) (hphase : s.phase = .batch (event :: events))
    (hold : event.channel = serverChannel ∨ event.channel < first) :
    Core.step first s.core (event, a) = some c' ↔ FreshAccept s (.event a) ∧
      ∃ s', step s (.event a) = some s' ∧ s'.phase = .batch events ∧ s'.core = c' := by
  have hstep : step s (.event a) = handleEvent { s with phase := .batch events } event a := by
    simp only [step, hphase]
  rw [hstep, freshAccept_iff hphase]
  by_cases hserver : event.channel = serverChannel
  · rw [forall_prop_of_true hserver]
    exact core_accept h hserver
  · have hm : s.Managed event.channel := (h.managed_of_head hphase).resolve_left hserver
    rw [forall_prop_of_false hserver, true_and]
    exact core_client h hm (hold.resolve_left hserver)

/-! ### A whole batch -/

/-- The labels of a batch. -/
def eventLabels (items : List (Event × Answers H)) : List (Label H) := items.map fun item => .event item.2

/-- **The steps on the core are the handling of the batch.** -/
theorem batch_core {first : ChannelId} : ∀ (items : List (Event × Answers H)) {s : State H} {c' : Core H},
    Owned s → s.phase = .batch (items.map (·.1)) →
    (∀ item ∈ items, item.1.channel = serverChannel ∨ item.1.channel < first) →
    (items.foldlM (Core.step first) s.core = some c' ↔
      ∃ s', Run step FreshAccept s (eventLabels items) s' ∧ s'.phase = .batch [] ∧ s'.core = c') := by
  intro items
  induction items with
  | nil =>
    intro s c' _ hphase _
    constructor
    · rintro ⟨⟩
      exact ⟨s, .nil, hphase, rfl⟩
    · rintro ⟨s', hrun, -, rfl⟩
      obtain rfl := Option.some.inj hrun.foldlM_eq
      rfl
  | cons item items ih =>
    intro s c' h hphase hold
    obtain ⟨hhead, htail⟩ := List.forall_mem_cons.mp hold
    obtain ⟨event, a⟩ := item
    have hnext : ∀ {t : State H}, FreshAccept s (.event a) → step s (.event a) = some t → t.phase ≠ .returned →
        Owned t := fun hfresh hs => owned_of_freshAccept h (Run.nil.snoc hfresh hs)
    rw [List.foldlM_cons]
    constructor
    · intro hfold
      obtain ⟨c, hc, hrest⟩ := Option.bind_eq_some_iff.mp hfold
      obtain ⟨hfresh, t, hs, hbatch, rfl⟩ := (core_step h hphase hhead).mp hc
      obtain ⟨s', hrun, hlast, hcore⟩ :=
        (ih (hnext hfresh hs (by rw [hbatch]; simp)) hbatch htail).mp hrest
      exact ⟨s', Run.cons_iff.mpr ⟨t, hfresh, hs, hrun⟩, hlast, hcore⟩
    · rintro ⟨s', hrun, hlast, hcore⟩
      obtain ⟨t, hfresh, hs, hrest⟩ := Run.cons_iff.mp hrun
      -- the batch goes on, so nothing was thrown
      have hgoes : t.phase ≠ .threw ∧ t.phase ≠ .returned := by
        cases items with
        | nil =>
          obtain rfl := Option.some.inj hrest.foldlM_eq
          rw [hlast]
          simp
        | cons item items =>
          obtain ⟨u, -, hs', -⟩ := Run.cons_iff.mp hrest
          exact ⟨not_threw_of_step hs', running_of_step hs'⟩
      obtain ⟨a', hm⟩ := moves_of_head h hphase hfresh hs
      have hbatch := phase_of_head hphase hm hgoes.1
      refine Option.bind_eq_some_iff.mpr ⟨t.core, (core_step h hphase hhead).mpr ⟨hfresh, t, hs, hbatch, rfl⟩, ?_⟩
      exact (ih (hnext hfresh hs hgoes.2) hbatch htail).mpr ⟨s', hrest, hlast, hcore⟩

/-- The cleanup follows the last event. -/
theorem cleanup_eq {granted : Nat → Bool} (hs : step s (.cleanup granted) = some s') :
    s.phase = .batch [] ∧ s' = cleanup s granted := by
  simp only [step] at hs
  split at hs
  · rename_i hphase
    exact ⟨hphase, (Option.some.inj hs).symm⟩
  · cases hs

/-- Some of the pending events are left out, or put in another order. -/
theorem Owned.rephase (h : Owned s) {events : List Event} (hevents : ∀ e ∈ events, e ∈ s.events) :
    Owned ({ s with phase := .batch events } : State H) where
  server := h.server
  entry := h.entry
  file := h.file
  interest := h.interest
  mark := h.mark
  pending e he := h.pending e (hevents e he)
  top htop := by cases htop
  fresh := h.fresh

theorem core_swept {t t' : State H} (hcore : s.core = s'.core) (hw : Swept s t) (hw' : Swept s' t') :
    t.core = t'.core := by
  have hkernel : s.kernel = s'.kernel := congrArg Core.kernel hcore
  have hobjects : s.objects = s'.objects := congrArg Core.objects hcore
  have hchannels : s.manager.channels = s'.manager.channels := congrArg Core.channels hcore
  have hmarks : (s.manager.closedChannels : Multiset Fd) = s'.manager.closedChannels :=
    congrArg Core.marks hcore
  have hmem : ∀ fd, fd ∈ s.manager.closedChannels ↔ fd ∈ s'.manager.closedChannels := by
    intro fd
    rw [← Multiset.mem_coe, hmarks, Multiset.mem_coe]
  have hlength : s.manager.closedChannels.length = s'.manager.closedChannels.length := by
    rw [← Multiset.coe_card, hmarks, Multiset.coe_card]
  have hmarked : ∀ id, s.Marked id ↔ s'.Marked id := by
    intro id
    rw [State.Marked, State.Marked, State.Managed, State.Managed, State.getFd, State.getFd, hobjects, hchannels,
      hmem]
  show Core.mk _ _ _ _ _ _ _ = Core.mk _ _ _ _ _ _ _
  congr 1
  · have hfiles : t.kernel.files = t'.kernel.files := by
      funext fd
      rw [hw.files, hw'.files, hkernel]
      simp only [hmem]
    have hinterest : t.kernel.interest = t'.kernel.interest := by
      funext fd
      rw [hw.interest, hw'.interest, hkernel]
      simp only [hmem]
    have hsent : t.kernel.sent = t'.kernel.sent := by rw [hw.sent, hw'.sent, hkernel]
    calc t.kernel = ⟨t.kernel.files, t.kernel.interest, t.kernel.sent⟩ := rfl
      _ = ⟨t'.kernel.files, t'.kernel.interest, t'.kernel.sent⟩ := by rw [hfiles, hinterest, hsent]
      _ = t'.kernel := rfl
  · funext id
    rw [hw.objects, hw'.objects, hobjects]
    simp only [hmarked]
  · rw [hw.nextId, hw'.nextId]
    exact congrArg Core.nextId hcore
  · refine Finmap.ext_lookup fun fd => ?_
    rw [hw.lookup, hw'.lookup, hchannels]
    simp only [hmem]
  · rw [hw.marks, hw'.marks]
  · rw [hw.metrics, hw'.metrics, hlength, show s.metrics = s'.metrics from congrArg Core.metrics hcore]
  · funext id
    rw [hw.acts, hw'.acts, show s.acts = s'.acts from congrArg Core.acts hcore]
    simp only [hmarked]

/-- **The order of a batch does not matter.**  Let a batch be handled without an
exception, and cleaned up.  Handled in any other order that keeps the order of the events
of every single channel, each event with the same answers, it leads to the same kernel,
objects, connections and metrics, and to the same acts on every connection. -/
theorem batch_order {listenFd : Fd} {memory : Bool} {metrics : Metrics} {labels : List (Label H)}
    (hfd : 0 ≤ listenFd) (h : Run step Fresh (initial listenFd memory metrics) labels s)
    {items items' : List (Event × Answers H)} (hphase : s.phase = .batch (items.map (·.1)))
    (hsame : Interleaved (·.1.channel) items items') {granted : Nat → Bool} {t : State H}
    (hrun : Run step FreshAccept s (eventLabels items ++ [.cleanup granted]) t) (granted' : Nat → Bool) :
    ∃ t', Run step FreshAccept { s with phase := .batch (items'.map (·.1)) }
        (eventLabels items' ++ [.cleanup granted']) t' ∧
      t'.core = t.core ∧ t'.phase = t.phase ∧ t'.bytesRead = t.bytesRead := by
  have hown := owned_of_run hfd h (by rw [hphase]; simp)
  have hevents : ∀ item ∈ items, item.1 ∈ s.events := by
    intro item hitem
    rw [State.events, hphase]
    exact List.mem_map_of_mem hitem
  have hold : ∀ item ∈ items, item.1.channel = serverChannel ∨ item.1.channel < s.nextId := by
    intro item hitem
    exact (hown.pending item.1 (hevents item hitem)).imp_right fun hm => (hown.entry _ _ hm).2.1
  -- the batch in the given order, on the core
  obtain ⟨u, hbatch, hlast⟩ := Run.append_iff.mp hrun
  obtain ⟨v, -, hs, hend⟩ := Run.cons_iff.mp hlast
  obtain rfl := Option.some.inj hend.foldlM_eq
  obtain ⟨hu, rfl⟩ := cleanup_eq hs
  have hfold := (batch_core items hown hphase hold).mpr ⟨u, hbatch, hu, rfl⟩
  rw [Core.foldlM_step (show s.nextId ≤ s.core.nextId from le_rfl) hsame] at hfold
  -- and in the other one, on the core and from there on the state
  have hown' : Owned ({ s with phase := .batch (items'.map (·.1)) } : State H) := by
    refine hown.rephase fun e he => ?_
    obtain ⟨item, hitem, rfl⟩ := List.mem_map.mp he
    exact hevents item ((hsame.mem_iff item).mpr hitem)
  obtain ⟨u', hbatch', hu', hcore⟩ := (batch_core items' hown' rfl fun item hitem =>
    hold item ((hsame.mem_iff item).mpr hitem)).mp hfold
  have hstep : step u' (.cleanup granted') = some (cleanup u' granted') := by simp only [step, hu']
  have hw := swept_cleanup (owned_of_freshAccept hown hbatch (by rw [hu]; simp)) granted
  have hw' := swept_cleanup (owned_of_freshAccept hown' hbatch' (by rw [hu']; simp)) granted'
  exact ⟨_, hbatch'.snoc trivial hstep, core_swept hcore hw' hw, hw'.phase.trans hw.phase.symm, rfl⟩

/-- Two connections with something to read, and a third one that asks. -/
def gatheredLabels : List (Label Unit) :=
  [.poll [] [⟨{ epollin := true }, 3⟩], .event { app := idleApp, accepted := 4 }, .cleanup fun _ => true,
    .poll [⟨4, 1⟩] [⟨{ epollin := true }, 3⟩], .event { app := idleApp, accepted := 5 },
    .cleanup fun _ => true,
    .poll [⟨4, 1⟩, ⟨5, 2⟩] [⟨{ epollin := true }, 4⟩, ⟨{ epollin := true, epollhup := true }, 5⟩,
      ⟨{ epollin := true }, 3⟩]]

def gathered : State Unit :=
  (Run.exec step Fresh (initial 3 true ∅) gatheredLabels).get (by decide +kernel)

/-- The events in the order of the reports. -/
def gatheredItems : List (Event × Answers Unit) :=
  [(⟨.READ, 1⟩, { app := idleApp, read := some (ascii "GET") }), (⟨.HANGUP, 2⟩, { app := idleApp }),
    (⟨.READ, 2⟩, { app := idleApp, read := some [] }), (⟨.READ, 0⟩, { app := idleApp, accepted := 6 })]

/-- The events in another order. -/
def regatheredItems : List (Event × Answers Unit) :=
  [(⟨.READ, 0⟩, { app := idleApp, accepted := 6 }), (⟨.HANGUP, 2⟩, { app := idleApp }),
    (⟨.READ, 1⟩, { app := idleApp, read := some (ascii "GET") }),
    (⟨.READ, 2⟩, { app := idleApp, read := some [] })]

theorem batch_order_gathered :
    ∃ t t', Run step FreshAccept gathered (eventLabels gatheredItems ++ [.cleanup fun _ => true]) t ∧
      Run step FreshAccept { gathered with phase := .batch (regatheredItems.map (·.1)) }
        (eventLabels regatheredItems ++ [.cleanup fun _ => false]) t' ∧
      t'.core = t.core := by
  have hrun : Run step Fresh (initial 3 true ∅) gatheredLabels gathered :=
    Run.of_exec gatheredLabels _ (Option.some_get _).symm
  obtain ⟨t, ht⟩ : ∃ t, Run.exec step FreshAccept gathered
      (eventLabels gatheredItems ++ [.cleanup fun _ => true]) = some t :=
    Option.isSome_iff_exists.mp (by decide +kernel)
  have hsame : Interleaved (·.1.channel) gatheredItems regatheredItems := by
    intro k
    simp only [track, gatheredItems, regatheredItems, List.filter_cons, List.filter_nil]
    by_cases h0 : 0 = k
    · subst h0; rfl
    · by_cases h1 : 1 = k
      · subst h1; rfl
      · simp [h0, h1]
  have hbatch := Run.of_exec _ _ ht
  obtain ⟨t', hrun', hcore, -⟩ :=
    batch_order (by decide) hrun (by decide +kernel) hsame hbatch fun _ => false
  exact ⟨t, t', hbatch, hrun', hcore⟩

end Sews.Runtime
