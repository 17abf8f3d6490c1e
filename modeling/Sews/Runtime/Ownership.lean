import Sews.Runtime.Effect

/-!
# Who owns which descriptor

`Owned` is the invariant that ties the descriptor table of the kernel to the
manager's table: an open descriptor belongs to the listener or to the one
connection that the manager keeps under it, and the marks and the pending events
name such connections only.

Under it every step has a simple form, which `moves_of_step` lists: an event on a
client is an `effect` on its own object, a new connection displaces nobody, and
the cleanup closes exactly the marked connections (`Swept`).
-/

namespace Sews.Runtime

open Cpp Sews.Http Sews.Connection Sews.Reactor Sews.Telemetry

variable {H : Type}

/-- The acts on one connection. -/
def actsOf (trace : List (ChannelId × Act H)) (id : ChannelId) : List (Act H) :=
  trace.filterMap fun entry => if entry.1 = id then some entry.2 else none

theorem actsOf_append (trace more : List (ChannelId × Act H)) (id : ChannelId) :
    actsOf (trace ++ more) id = actsOf trace id ++ actsOf more id :=
  List.filterMap_append

theorem actsOf_map (id id' : ChannelId) (acts : List (Act H)) :
    actsOf (acts.map fun act => (id, act)) id' = if id' = id then acts else [] := by
  rw [actsOf, List.filterMap_map]
  by_cases h : id' = id
  · subst h
    simp
  · simp [h, Ne.symm h]

namespace State

/-- What was done on the connection so far. -/
def acts (s : State H) (id : ChannelId) : List (Act H) := actsOf s.trace id

/-- The events still to be handled. -/
def events (s : State H) : List Event :=
  match s.phase with
  | .batch events => events
  | _ => []

/-- The manager's table has the connection, under its own descriptor. -/
def Managed (s : State H) (id : ChannelId) : Prop :=
  s.manager.channels.lookup (s.getFd id) = some id

instance (s : State H) (id : ChannelId) : Decidable (s.Managed id) :=
  inferInstanceAs (Decidable (s.manager.channels.lookup (s.getFd id) = some id))

/-- The connection is marked for closure. -/
def Marked (s : State H) (id : ChannelId) : Prop :=
  s.Managed id ∧ s.getFd id ∈ s.manager.closedChannels

instance (s : State H) (id : ChannelId) : Decidable (s.Marked id) :=
  inferInstanceAs (Decidable (s.Managed id ∧ s.getFd id ∈ s.manager.closedChannels))

end State

/-! ### The invariant -/

structure Owned (s : State H) : Prop where
  /-- the listener is open -/
  server : 0 ≤ s.getFd serverChannel ∧ s.kernel.files (s.getFd serverChannel) = some serverChannel
  /-- an entry of the table is an open connection under its own descriptor -/
  entry : ∀ fd id, s.manager.channels.lookup fd = some id →
    id ≠ serverChannel ∧ id < s.nextId ∧ 0 ≤ fd ∧ s.kernel.files fd = some id ∧ s.getFd id = fd
  /-- an open descriptor is the listener's or in the table -/
  file : ∀ fd id, s.kernel.files fd = some id →
    id = serverChannel ∨ s.manager.channels.lookup fd = some id
  /-- epoll watches open descriptors only -/
  interest : ∀ fd, s.kernel.files fd = none → s.kernel.interest fd = none
  /-- the marks name connections of the table -/
  mark : ∀ fd ∈ s.manager.closedChannels, s.manager.channels.lookup fd ≠ none
  /-- so do the pending events, apart from the listener's -/
  pending : ∀ e ∈ s.events, e.channel = serverChannel ∨ s.Managed e.channel
  top : s.phase = .top → s.manager.closedChannels = []
  /-- an object that is not made yet has no past -/
  fresh : ∀ id, s.nextId ≤ id →
    s.objects id = none ∧ s.kernel.sent id = [] ∧ s.acts id = [] ∧ id ≠ serverChannel

namespace Owned

variable {s : State H} (h : Owned s)

include h

theorem managed_of_lookup {fd : Fd} {id : ChannelId} (hl : s.manager.channels.lookup fd = some id) :
    s.Managed id := by
  rw [State.Managed, (h.entry fd id hl).2.2.2.2]
  exact hl

theorem ne_server {id : ChannelId} (hm : s.Managed id) : id ≠ serverChannel :=
  (h.entry _ _ hm).1

theorem object {id : ChannelId} (hm : s.Managed id) :
    ∃ channel, s.objects id = some channel ∧ channel.fd = s.getFd id := by
  cases ho : s.objects id with
  | some channel => exact ⟨channel, rfl, (getFd_eq ho).symm⟩
  | none =>
    have hpos := (h.entry _ _ hm).2.2.1
    have hneg : s.getFd id = -1 := by rw [State.getFd, ho]
    rw [hneg] at hpos
    exact absurd hpos (by decide)

theorem server_object : ∃ channel, s.objects serverChannel = some channel := by
  cases ho : s.objects serverChannel with
  | some channel => exact ⟨channel, rfl⟩
  | none =>
    have hpos := h.server.1
    rw [State.getFd, ho] at hpos
    exact absurd hpos (by decide)

theorem getFd_ne_server {id : ChannelId} (hm : s.Managed id) :
    s.getFd id ≠ s.getFd serverChannel := by
  intro heq
  have hfile := (h.entry _ _ hm).2.2.2.1
  rw [heq, h.server.2] at hfile
  exact h.ne_server hm (Option.some.inj hfile).symm

omit h in
theorem getFd_inj {id id' : ChannelId} (hm : s.Managed id) (hm' : s.Managed id')
    (heq : s.getFd id = s.getFd id') : id = id' := by
  rw [State.Managed, heq] at hm
  exact Option.some.inj (hm.symm.trans hm')

theorem lookup_of_free {fd : Fd} (hfree : s.kernel.files fd = none) :
    s.manager.channels.lookup fd = none := by
  cases hl : s.manager.channels.lookup fd with
  | none => rfl
  | some id =>
    rw [(h.entry _ _ hl).2.2.2.1] at hfree
    cases hfree

theorem not_marked_of_top (htop : s.phase = .top) (id : ChannelId) : ¬ s.Marked id := by
  rintro ⟨-, hmem⟩
  rw [h.top htop] at hmem
  cases hmem

theorem managed_of_head {flag : EventFlag} {id : ChannelId} {events : List Event}
    (hphase : s.phase = .batch (⟨flag, id⟩ :: events)) : id = serverChannel ∨ s.Managed id := by
  refine h.pending ⟨flag, id⟩ ?_
  rw [State.events, hphase]
  exact List.mem_cons_self

/-- The channel that `poll` finds under a descriptor is the listener's or the one that
the table has there. -/
theorem of_find {order : List (Σ _ : Fd, ChannelId)}
    (horder : UnorderedMap.Enumerates order s.manager.channels) {fd : Fd} {id : ChannelId}
    (hfind : (serverChannel :: order.map (·.2)).find? (fun channel => decide (s.getFd channel = fd))
      = some id) :
    s.getFd id = fd ∧ (id = serverChannel ∨ s.manager.channels.lookup fd = some id) := by
  have heq : s.getFd id = fd := by simpa using List.find?_some hfind
  refine ⟨heq, ?_⟩
  rcases List.mem_cons.mp (List.mem_of_find?_eq_some hfind) with hserver | hmem
  · exact Or.inl hserver
  · obtain ⟨⟨fd', id'⟩, hentry, rfl⟩ := List.mem_map.mp hmem
    have hl := (horder.mem_iff fd' id').mp hentry
    rw [← heq, (h.entry fd' id' hl).2.2.2.2]
    exact Or.inr hl

theorem marked_of_mem {fd : Fd} (hfd : fd ∈ s.manager.closedChannels) :
    ∃ id, s.Marked id ∧ s.getFd id = fd := by
  obtain ⟨id, hid⟩ := Option.ne_none_iff_exists'.mp (h.mark fd hfd)
  have hself := (h.entry fd id hid).2.2.2.2
  exact ⟨id, ⟨h.managed_of_lookup hid, by rwa [hself]⟩, hself⟩

end Owned

/-! ### The cleanup -/

section
open Dispatcher

/-- Every entry of the table has an object with the descriptor it stands under. -/
def Keyed (s : State H) : Prop :=
  ∀ fd id, s.manager.channels.lookup fd = some id →
    0 ≤ fd ∧ ∃ channel, s.objects id = some channel ∧ channel.fd = fd

theorem Owned.keyed {s : State H} (h : Owned s) : Keyed s := by
  intro fd id hl
  obtain ⟨channel, hobj, hfd⟩ := h.object (h.managed_of_lookup hl)
  have he := h.entry fd id hl
  exact ⟨he.2.2.1, channel, hobj, hfd.trans he.2.2.2.2⟩

/-- What is left of `s` once the connections under the descriptors `fds` are
closed and erased. -/
structure Cleared (fds : List Fd) (s s' : State H) : Prop where
  lookup : ∀ fd, s'.manager.channels.lookup fd
    = if fd ∈ fds then none else s.manager.channels.lookup fd
  marks : s'.manager.closedChannels = s.manager.closedChannels
  files : ∀ fd, s'.kernel.files fd
    = if fd ∈ fds ∧ s.manager.channels.lookup fd ≠ none then none else s.kernel.files fd
  interest : ∀ fd, s'.kernel.interest fd
    = if fd ∈ fds ∧ s.manager.channels.lookup fd ≠ none then none else s.kernel.interest fd
  sent : s'.kernel.sent = s.kernel.sent
  objects : ∀ id, s'.objects id = (s.objects id).map fun channel =>
    if s.Managed id ∧ s.getFd id ∈ fds then { channel with fd := -1 } else channel
  nextId : s'.nextId = s.nextId
  metrics : s'.metrics = s.metrics
  acts : ∀ id, s'.acts id
    = s.acts id ++ if s.Managed id ∧ s.getFd id ∈ fds then [.close, .erase] else []

theorem Cleared.nil (s : State H) : Cleared [] s s where
  lookup fd := by simp
  marks := rfl
  files fd := by simp
  interest fd := by simp
  sent := rfl
  objects id := by simp
  nextId := rfl
  metrics := rfl
  acts id := by simp

theorem closeChannel_open {s : State H} {id : ChannelId} {channel : PlainTextChannel}
    (hobj : s.objects id = some channel) (hpos : 0 ≤ channel.fd) :
    s.closeChannel id =
      { s with kernel := s.kernel.close channel.fd
               objects := Function.update s.objects id (some { channel with fd := -1 })
               trace := s.trace ++ [(id, .close)] } := by
  rw [State.closeChannel, hobj]
  dsimp only
  rw [if_pos hpos]
  rfl

theorem clearOne_none {s : State H} {fd : Fd} (h : s.manager.channels.lookup fd = none) :
    clearOne s fd = s := by
  rw [clearOne, h]

theorem clearOne_some {s : State H} {fd : Fd} {id : ChannelId} {channel : PlainTextChannel}
    (h : s.manager.channels.lookup fd = some id) (hobj : s.objects id = some channel)
    (hfd : channel.fd = fd) (hpos : 0 ≤ fd) :
    clearOne s fd =
      { s with kernel := s.kernel.close fd
               objects := Function.update s.objects id (some { channel with fd := -1 })
               manager := { s.manager with channels := s.manager.channels.erase fd }
               trace := s.trace ++ [Act.close, .erase].map fun act => (id, act) } := by
  subst hfd
  rw [clearOne, h]
  dsimp only
  rw [closeChannel_open hobj hpos]
  simp [State.log]

namespace Cleared

variable {s s' s'' : State H} {xs ys : List Fd}

theorem getFd (hc : Cleared xs s s') (id : ChannelId) :
    s'.getFd id = if s.Managed id ∧ s.getFd id ∈ xs then -1 else s.getFd id := by
  have ho := hc.objects id
  unfold State.getFd at ho ⊢
  cases hs : s.objects id with
  | none =>
    rw [hs] at ho
    simp [ho]
  | some channel =>
    rw [hs] at ho
    simp only [ho, Option.map_some]
    split <;> rfl

theorem managed_iff (hk : Keyed s) (hc : Cleared xs s s') (id : ChannelId) :
    s'.Managed id ↔ s.Managed id ∧ s.getFd id ∉ xs := by
  have hfd := hc.getFd id
  by_cases hx : s.Managed id ∧ s.getFd id ∈ xs
  · rw [if_pos hx] at hfd
    constructor
    · intro hm
      rw [State.Managed, hfd, hc.lookup] at hm
      split at hm
      · cases hm
      · exact absurd (hk _ _ hm).1 (by decide)
    · intro hm
      exact absurd hx.2 hm.2
  · rw [if_neg hx] at hfd
    rw [State.Managed, hfd, hc.lookup]
    split
    · rename_i hmem
      simp [hmem]
    · rename_i hmem
      simp [hmem, State.Managed]

theorem keyed (hk : Keyed s) (hc : Cleared xs s s') : Keyed s' := by
  intro fd id hl
  rw [hc.lookup] at hl
  split at hl
  · cases hl
  · rename_i hmem
    obtain ⟨hpos, channel, hobj, hfd⟩ := hk fd id hl
    refine ⟨hpos, channel, ?_, hfd⟩
    rw [hc.objects, hobj, Option.map_some, if_neg]
    rintro ⟨-, hx⟩
    rw [getFd_eq hobj, hfd] at hx
    exact hmem hx

theorem lookup_ne_none_iff (hc : Cleared xs s s') (fd : Fd) :
    s'.manager.channels.lookup fd ≠ none ↔ fd ∉ xs ∧ s.manager.channels.lookup fd ≠ none := by
  rw [hc.lookup]
  split <;> simp_all

/-- Closing the connections under `xs`, and then those under `ys`. -/
theorem trans (hk : Keyed s) (hc : Cleared xs s s') (hc' : Cleared ys s' s'') :
    Cleared (xs ++ ys) s s'' := by
  have hin : ∀ id, (s'.Managed id ∧ s'.getFd id ∈ ys) ↔
      (s.Managed id ∧ s.getFd id ∉ xs ∧ s.getFd id ∈ ys) := by
    intro id
    rw [hc.managed_iff hk, hc.getFd]
    constructor
    · rintro ⟨⟨hm, hx⟩, hy⟩
      rw [if_neg (fun h => hx h.2)] at hy
      exact ⟨hm, hx, hy⟩
    · rintro ⟨hm, hx, hy⟩
      rw [if_neg (fun h => hx h.2)]
      exact ⟨⟨hm, hx⟩, hy⟩
  refine ⟨fun fd => ?_, hc'.marks.trans hc.marks, fun fd => ?_, fun fd => ?_,
    hc'.sent.trans hc.sent, fun id => ?_, hc'.nextId.trans hc.nextId,
    hc'.metrics.trans hc.metrics, fun id => ?_⟩
  · rw [hc'.lookup, hc.lookup]
    by_cases hx : fd ∈ xs <;> by_cases hy : fd ∈ ys <;> simp [hx, hy]
  · rw [hc'.files, hc.files]
    simp only [hc.lookup_ne_none_iff, List.mem_append]
    by_cases hx : fd ∈ xs <;> by_cases hy : fd ∈ ys <;> simp [hx, hy]
  · rw [hc'.interest, hc.interest]
    simp only [hc.lookup_ne_none_iff, List.mem_append]
    by_cases hx : fd ∈ xs <;> by_cases hy : fd ∈ ys <;> simp [hx, hy]
  · rw [hc'.objects, hc.objects, Option.map_map]
    congr 1
    funext channel
    simp only [Function.comp_apply, hin, List.mem_append]
    by_cases hm : s.Managed id <;> by_cases hx : s.getFd id ∈ xs <;>
      by_cases hy : s.getFd id ∈ ys <;> simp [hm, hx, hy]
  · rw [hc'.acts, hc.acts]
    simp only [hin, List.mem_append, List.append_assoc]
    by_cases hm : s.Managed id <;> by_cases hx : s.getFd id ∈ xs <;>
      by_cases hy : s.getFd id ∈ ys <;> simp [hm, hx, hy]

theorem one (hk : Keyed s) (fd : Fd) : Cleared [fd] s (clearOne s fd) := by
  cases hl : s.manager.channels.lookup fd with
  | none =>
    have hno : ∀ id, ¬ (s.Managed id ∧ s.getFd id ∈ [fd]) := by
      rintro id ⟨hm, hmem⟩
      rw [State.Managed, List.mem_singleton.mp hmem, hl] at hm
      cases hm
    rw [clearOne_none hl]
    refine ⟨fun fd' => ?_, rfl, fun fd' => ?_, fun fd' => ?_, rfl, fun id => ?_, rfl, rfl,
      fun id => ?_⟩
    · rcases eq_or_ne fd' fd with rfl | hfd
      · simp [hl]
      · simp [hfd]
    · rcases eq_or_ne fd' fd with rfl | hfd
      · simp [hl]
      · simp [hfd]
    · rcases eq_or_ne fd' fd with rfl | hfd
      · simp [hl]
      · simp [hfd]
    · simp only [if_neg (hno id), Option.map_id']
    · rw [if_neg (hno id), List.append_nil]
  | some id =>
    obtain ⟨hpos, channel, hobj, hfd⟩ := hk fd id hl
    have hin : ∀ id', (s.Managed id' ∧ s.getFd id' ∈ [fd]) ↔ id' = id := by
      intro id'
      constructor
      · rintro ⟨hm, hmem⟩
        rw [State.Managed, List.mem_singleton.mp hmem, hl] at hm
        exact (Option.some.inj hm).symm
      · rintro rfl
        rw [State.Managed, getFd_eq hobj, hfd]
        exact ⟨hl, List.mem_singleton_self fd⟩
    rw [clearOne_some hl hobj hfd hpos]
    refine ⟨fun fd' => ?_, rfl, fun fd' => ?_, fun fd' => ?_, rfl, fun id' => ?_, rfl, rfl,
      fun id' => ?_⟩
    · by_cases hfd' : fd' = fd
      · subst hfd'
        simp
      · simp [hfd', Finmap.lookup_erase_ne]
    · by_cases hfd' : fd' = fd
      · subst hfd'
        simp [Kernel.close, hl]
      · simp [Kernel.close, hfd']
    · by_cases hfd' : fd' = fd
      · subst hfd'
        simp [Kernel.close, hl]
      · simp [Kernel.close, hfd']
    · simp only [hin]
      by_cases hid : id' = id
      · subst hid
        simp [hobj]
      · simp [hid]
    · simp only [hin]
      show actsOf (s.trace ++ _) id' = _
      rw [actsOf_append, actsOf_map]
      rfl

theorem foldl : ∀ (fds : List Fd) (s : State H), Keyed s → Cleared fds s (fds.foldl clearOne s) := by
  intro fds
  induction fds with
  | nil => exact fun s _ => .nil s
  | cons fd fds ih =>
    intro s hk
    have h1 := one hk fd
    exact h1.trans hk (ih _ (h1.keyed hk))

end Cleared

theorem unregister_eq (s : State H) (fd : Fd) (granted : Bool) :
    unregister s fd granted
      = { s with kernel := { s.kernel with interest := (s.kernel.ctlDel fd granted).interest } } := by
  rw [unregister, SocketLoop.unregisterChannel, Kernel.ctlDel]
  split <;> rfl

/-- `forEachClosed` takes the marked descriptors off epoll's list, as far as the
kernel grants it, and decrements the gauge once for each mark. -/
theorem foldl_unregisterClosed (granted : Nat → Bool) : ∀ (marks : List (Fd × Nat)) (s : State H),
    ∃ interest, marks.foldl (fun s entry => unregisterClosed s entry.1 (granted entry.2)) s
        = { s with kernel := { s.kernel with interest := interest }
                   metrics := (fun m => Metrics.decrement m connectionsTotal)^[marks.length]
                     s.metrics } ∧
      ∀ fd, (s.kernel.interest fd = none → interest fd = none) ∧
        (fd ∉ marks.map Prod.fst → interest fd = s.kernel.interest fd) := by
  intro marks
  induction marks with
  | nil => exact fun s => ⟨s.kernel.interest, rfl, fun fd => ⟨id, fun _ => rfl⟩⟩
  | cons entry marks ih =>
    intro s
    rw [List.foldl_cons, unregisterClosed, unregister_eq]
    obtain ⟨interest, heq, hfd⟩ := ih { s with
      kernel := { s.kernel with interest := (s.kernel.ctlDel entry.1 (granted entry.2)).interest }
      metrics := s.metrics.decrement connectionsTotal }
    refine ⟨interest, heq, fun fd => ⟨fun hnone => (hfd fd).1 (Kernel.interest_ctlDel_none hnone _),
      fun hmem => ?_⟩⟩
    rw [List.map_cons, List.mem_cons, not_or] at hmem
    rw [(hfd fd).2 hmem.2]
    exact Kernel.interest_ctlDel_ne hmem.1 _

/-- Unregistering the connections one after the other changes epoll's list only, and
puts nothing on it. -/
theorem foldl_unregister (granted : Nat → Bool) :
    ∀ (l : List ((Σ _ : Fd, ChannelId) × Nat)) (s : State H),
    ∃ interest, l.foldl (fun s entry => unregister s (s.getFd entry.1.2) (granted entry.2)) s
        = { s with kernel := { s.kernel with interest := interest } } ∧
      ∀ fd, s.kernel.interest fd = none → interest fd = none := by
  intro l
  induction l with
  | nil => exact fun s => ⟨s.kernel.interest, rfl, fun _ => id⟩
  | cons entry l ih =>
    intro s
    rw [List.foldl_cons, unregister_eq]
    obtain ⟨interest, heq, hnone⟩ := ih { s with kernel := { s.kernel with
      interest := (s.kernel.ctlDel (s.getFd entry.1.2) (granted entry.2)).interest } }
    exact ⟨interest, heq, fun fd hfd => hnone fd (Kernel.interest_ctlDel_none hfd _)⟩

/-- What the cleanup at the end of a batch leaves of `s`. -/
structure Swept (s s' : State H) : Prop where
  phase : s'.phase = .top
  marks : s'.manager.closedChannels = []
  lookup : ∀ fd, s'.manager.channels.lookup fd
    = if fd ∈ s.manager.closedChannels then none else s.manager.channels.lookup fd
  files : ∀ fd, s'.kernel.files fd
    = if fd ∈ s.manager.closedChannels then none else s.kernel.files fd
  interest : ∀ fd, s'.kernel.interest fd
    = if fd ∈ s.manager.closedChannels then none else s.kernel.interest fd
  sent : s'.kernel.sent = s.kernel.sent
  objects : ∀ id, s'.objects id = (s.objects id).map fun channel =>
    if s.Marked id then { channel with fd := -1 } else channel
  managed : ∀ id, s'.Managed id ↔ s.Managed id ∧ ¬ s.Marked id
  getFd : ∀ id, s'.getFd id = if s.Marked id then -1 else s.getFd id
  nextId : s'.nextId = s.nextId
  metrics : s'.metrics = (fun m => Metrics.decrement m connectionsTotal)^[s.manager.closedChannels.length]
    s.metrics
  acts : ∀ id, s'.acts id = s.acts id ++ if s.Marked id then [.close, .erase] else []

/-- **The cleanup closes and erases the marked connections, each once.** -/
theorem swept_cleanup {s : State H} (h : Owned s) (granted : Nat → Bool) :
    Swept s (cleanup s granted) := by
  obtain ⟨interest, heq, hint⟩ := foldl_unregisterClosed granted s.manager.closedChannels.zipIdx s
  rw [List.length_zipIdx] at heq
  set t : State H := { s with
    kernel := { s.kernel with interest := interest }
    metrics := (fun m => Metrics.decrement m connectionsTotal)^[s.manager.closedChannels.length]
      s.metrics } with ht
  have hkeyed : Keyed t := h.keyed
  have hc := Cleared.foldl s.manager.closedChannels t hkeyed
  have hin : ∀ fd, (fd ∈ s.manager.closedChannels ∧ s.manager.channels.lookup fd ≠ none) ↔
      fd ∈ s.manager.closedChannels :=
    fun fd => ⟨And.left, fun hfd => ⟨hfd, h.mark fd hfd⟩⟩
  have hcleanup : cleanup s granted = { (s.manager.closedChannels.foldl clearOne t) with
      manager := { (s.manager.closedChannels.foldl clearOne t).manager with closedChannels := [] }
      bytesRead := 0, phase := .top } := by
    rw [cleanup, clear, heq]
  have hunion : ∀ fd, fd ∉ s.manager.closedChannels → interest fd = s.kernel.interest fd := by
    intro fd hfd
    refine (hint fd).2 fun hmem => hfd ?_
    rwa [List.zipIdx_map_fst] at hmem
  rw [hcleanup]
  refine ⟨rfl, rfl, hc.lookup, fun fd => ?_, fun fd => ?_, hc.sent, hc.objects, fun id => ?_,
    hc.getFd, hc.nextId, hc.metrics, hc.acts⟩
  · refine (hc.files fd).trans ?_
    simp only [ht, hin]
  · refine (hc.interest fd).trans ?_
    simp only [ht, hin]
    split
    · rfl
    · rename_i hfd
      exact hunion fd hfd
  · refine (hc.managed_iff hkeyed id).trans ?_
    constructor
    · rintro ⟨hm, hfd⟩
      exact ⟨hm, fun hmark => hfd hmark.2⟩
    · rintro ⟨hm, hmark⟩
      exact ⟨hm, fun hfd => hmark ⟨hm, hfd⟩⟩

/-- What the shutdown leaves of `s`: the connections as they are, and the
listener closed. -/
structure Stopped (s s' : State H) : Prop where
  phase : s'.phase = .returned
  manager : s'.manager = s.manager
  sent : s'.kernel.sent = s.kernel.sent
  objects : ∀ id, id ≠ serverChannel → s'.objects id = s.objects id
  files : ∀ fd, s'.kernel.files fd
    = if fd = s.getFd serverChannel then none else s.kernel.files fd
  nextId : s'.nextId = s.nextId
  metrics : s'.metrics = s.metrics
  acts : ∀ id, id ≠ serverChannel → s'.acts id = s.acts id

/-- The shutdown takes what it can off epoll's list and closes the listener; it
finds nothing marked. -/
theorem shutdown_eq {s : State H} (h : Owned s) (htop : s.phase = .top)
    {channel : PlainTextChannel} (hobj : s.objects serverChannel = some channel)
    (order : List (Σ _ : Fd, ChannelId)) (granted : Nat → Bool) :
    ∃ interest, (∀ fd, s.kernel.interest fd = none → interest fd = none) ∧ shutdown s order granted
      = { s with
          kernel := Kernel.close { s.kernel with interest := interest } channel.fd
          objects := Function.update s.objects serverChannel (some { channel with fd := -1 })
          trace := s.trace ++ [(serverChannel, .close)]
          phase := .returned } := by
  obtain ⟨interest, heq, hnone⟩ := foldl_unregister granted order.zipIdx s
  have hclosed : s.manager.closedChannels = [] := h.top htop
  have hpos : 0 ≤ channel.fd := by
    rw [← getFd_eq hobj]
    exact h.server.1
  rw [shutdown, heq]
  dsimp only
  rw [unregister_eq, clear]
  simp only [hclosed, List.foldl_nil]
  rw [← hclosed, closeChannel_open]
  · exact ⟨_, fun fd hfd => Kernel.interest_ctlDel_none (hnone fd hfd) _, rfl⟩
  · exact hobj
  · exact hpos

theorem stopped_shutdown {s : State H} (h : Owned s) (htop : s.phase = .top)
    (order : List (Σ _ : Fd, ChannelId)) (granted : Nat → Bool) :
    Stopped s (shutdown s order granted) := by
  obtain ⟨channel, hobj⟩ := h.server_object
  obtain ⟨interest, -, heq⟩ := shutdown_eq h htop hobj order granted
  rw [heq]
  refine ⟨rfl, rfl, rfl, fun id hid => Function.update_of_ne hid _ _, fun fd => ?_, rfl, rfl,
    fun id hid => ?_⟩
  · rw [getFd_eq hobj]
    show Function.update s.kernel.files channel.fd none fd = _
    rw [Function.update_apply]
  · refine (actsOf_append s.trace _ id).trans ?_
    rw [show actsOf [(serverChannel, (Act.close : Act H))] id = [] by simp [actsOf, Ne.symm hid]]
    exact List.append_nil _

/-! ### The effect of an event -/

theorem Outcome.fd_eq {channel : PlainTextChannel} {a : Answers H} {flag : EventFlag} {e : Effect H}
    (h : Outcome channel a flag e) : e.channel.fd = channel.fd := by
  cases h with
  | marked | readFailed | threw | answered => rfl
  | flushed _ _ _ _ hf | flushFailed _ _ hf => exact PlainTextChannel.flush_fd _ _ _ _ _ hf

/-- What the effect `e` of an event on the connection `id` leaves of `s`, and
what it leaves alone. -/
structure Affected (s : State H) (id : ChannelId) (events : List Event) (memory : Bool)
    (e : Effect H) (s' : State H) : Prop where
  phase : s'.phase = if e.throws then .threw else .batch events
  channels : s'.manager.channels = s.manager.channels
  marks : s'.manager.closedChannels
    = if e.marks then s.manager.closedChannels ++ [s.getFd id] else s.manager.closedChannels
  files : s'.kernel.files = s.kernel.files
  interest_none : ∀ fd, s'.kernel.interest fd = none ↔ s.kernel.interest fd = none
  interest_ne : ∀ fd, fd ≠ s.getFd id → s'.kernel.interest fd = s.kernel.interest fd
  interest_some : ∀ fd flags, s'.kernel.interest fd = some flags →
    s.kernel.interest fd = some flags ∨
    ∃ events, e.interest = some events ∧ flags = SocketLoop.flagsOf events
  interest : ∀ flags, s.kernel.interest (s.getFd id) = some flags → memory = true →
    s'.kernel.interest (s.getFd id) = some ((e.interest.map SocketLoop.flagsOf).getD flags)
  sent : s'.kernel.sent = Function.update s.kernel.sent id (s.kernel.sent id ++ e.written)
  objects : s'.objects = Function.update s.objects id (some e.channel)
  getFd : ∀ id', s'.getFd id' = s.getFd id'
  managed : ∀ id', s'.Managed id' ↔ s.Managed id'
  nextId : s'.nextId = s.nextId
  metrics : s'.metrics = e.counters.foldl Metrics.increment s.metrics
  acts : ∀ id', s'.acts id' = s.acts id' ++ if id' = id then e.acts else []

theorem Affected.mem_events {s s' : State H} {id : ChannelId} {events : List Event} {memory : Bool}
    {e : Effect H} (he : Affected s id events memory e s') {ev : Event} (hev : ev ∈ s'.events) :
    ev ∈ events := by
  rw [State.events, he.phase] at hev
  cases ht : e.throws with
  | true => rw [ht] at hev; cases hev
  | false => rw [ht] at hev; exact hev

theorem Affected.marked_iff {s s' : State H} {id : ChannelId} {events : List Event} {memory : Bool}
    {e : Effect H} (he : Affected s id events memory e s') (hm : s.Managed id) (id' : ChannelId) :
    s'.Marked id' ↔ s.Marked id' ∨ (id' = id ∧ e.marks = true) := by
  rw [State.Marked, he.managed, he.getFd, he.marks]
  cases e.marks with
  | false => simp [State.Marked]
  | true =>
    rw [if_pos rfl, List.mem_append, List.mem_singleton]
    constructor
    · rintro ⟨hm', hmem | heq⟩
      · exact Or.inl ⟨hm', hmem⟩
      · exact Or.inr ⟨Owned.getFd_inj hm' hm heq, rfl⟩
    · rintro (hmark | ⟨rfl, -⟩)
      · exact ⟨hmark.1, Or.inl hmark.2⟩
      · exact ⟨hm, Or.inr rfl⟩

theorem affected_apply {s : State H} {id : ChannelId} {channel : PlainTextChannel} {e : Effect H}
    (h : Owned s) (hm : s.Managed id) (hobj : s.objects id = some channel)
    (hfd : e.channel.fd = channel.fd) (events : List Event) (flag : EventFlag) (a : Answers H) :
    Affected s id events a.memory e
      ((State.scratch { s with phase := .batch events } flag a).apply id a.memory e) := by
  obtain ⟨b, n, hscratch⟩ := scratch_eq { s with phase := .batch events } flag a
  rw [hscratch]
  set t : State H := ({ s with phase := .batch events, buffer := b, bytesRead := n } : State H).apply
    id a.memory e with ht
  have hfile : s.kernel.files (s.getFd id) = some id := (h.entry _ _ hm).2.2.2.1
  have hgetFd : ∀ id', t.getFd id' = s.getFd id' := by
    intro id'
    have hobjects : t.objects = Function.update s.objects id (some e.channel) := rfl
    rw [getFd_eq_getD, getFd_eq_getD, hobjects]
    rcases eq_or_ne id' id with rfl | hid
    · rw [Function.update_self, hobj]
      exact hfd
    · rw [Function.update_of_ne hid]
  have hchannels : t.manager.channels = s.manager.channels := by
    simp only [ht, State.apply]
    split <;> rfl
  refine ⟨rfl, hchannels, ?_, ?_, fun fd => ?_, fun fd hne => ?_, fun fd flags hint => ?_,
    fun flags hint hmem => ?_, ?_, rfl, hgetFd, fun id' => ?_, rfl, rfl, fun id' => ?_⟩
  · simp only [ht, State.apply]
    split <;> rfl
  · simp only [ht, State.apply]
    split <;> simp [SocketLoop.updateEvents]
  · simp only [ht, State.apply]
    split <;> simp [SocketLoop.updateEvents, Kernel.interest_ctlMod_none]
  · simp only [ht, State.apply]
    split
    · simp
    · exact (Kernel.interest_ctlMod_ne hne _ _).trans (by simp)
  · simp only [ht, State.apply] at hint
    cases hi : e.interest with
    | none =>
      rw [hi] at hint
      exact Or.inl (by simpa using hint)
    | some events' =>
      rw [hi] at hint
      rcases Kernel.interest_ctlMod_some hint with hold | hnew
      · exact Or.inl (by simpa using hold)
      · exact Or.inr ⟨events', rfl, hnew⟩
  · simp only [ht, State.apply]
    cases e.interest with
    | none => simpa using hint
    | some events' =>
      show (Kernel.ctlMod (s.kernel.write (s.getFd id) e.written) (s.getFd id) _ _).interest _ = _
      rw [Kernel.ctlMod, if_pos ⟨hmem, by rw [Kernel.interest_write, hint]; simp⟩]
      simp
  · have hsent := Kernel.sent_write hfile e.written
    simp only [ht, State.apply]
    split
    · exact hsent
    · exact (Kernel.sent_ctlMod _ _ _ _).trans hsent
  · rw [State.Managed, hgetFd, hchannels, State.Managed]
  · show actsOf (s.trace ++ _) id' = _
    rw [actsOf_append, actsOf_map]
    rfl

/-! ### What a step can do -/

/-- The state after `accept` returned a descriptor that no entry of the table
has. -/
def State.welcome (s : State H) (events : List Event) (a : Answers H) : State H :=
  { s with
    kernel := SocketLoop.registerChannel (s.kernel.accept a.accepted s.nextId) a.accepted a.memory
    objects := Function.update s.objects s.nextId (some { fd := a.accepted, writeOffset := a.garbage })
    nextId := s.nextId + 1
    manager := s.manager.add a.accepted s.nextId
    metrics := s.metrics.increment connectionsTotal
    phase := .batch events
    trace := s.trace ++ [Act.accept a.accepted].map fun act => (s.nextId, act) }

/-- The steps from `s`. -/
inductive Moves (s : State H) : Label H → State H → Prop
  | poll (order : List (Σ _ : Fd, ChannelId)) (ready : List EpollEvent) (htop : s.phase = .top)
      (horder : UnorderedMap.Enumerates order s.manager.channels) :
      Moves s (.poll order ready)
        { s with phase := .batch (SocketLoop.poll s.getFd (serverChannel :: order.map (·.2)) ready) }
  | refused (a : Answers H) (flag : EventFlag) (events : List Event)
      (hphase : s.phase = .batch (⟨flag, serverChannel⟩ :: events)) (h : a.accepted < 0) :
      Moves s (.event a) { s with phase := .batch events }
  | accepted (a : Answers H) (flag : EventFlag) (events : List Event)
      (hphase : s.phase = .batch (⟨flag, serverChannel⟩ :: events)) (h : 0 ≤ a.accepted)
      (hfree : s.kernel.files a.accepted = none) :
      Moves s (.event a) (s.welcome events a)
  | client (a : Answers H) (flag : EventFlag) (id : ChannelId) (events : List Event)
      (channel : PlainTextChannel) (e : Effect H) (s' : State H)
      (hphase : s.phase = .batch (⟨flag, id⟩ :: events)) (hm : s.Managed id)
      (hobj : s.objects id = some channel) (he : effect channel flag a = some e)
      (h : Affected s id events a.memory e s') : Moves s (.event a) s'
  | cleanup (granted : Nat → Bool) (s' : State H) (hphase : s.phase = .batch []) (h : Swept s s') :
      Moves s (.cleanup granted) s'
  | stop (order : List (Σ _ : Fd, ChannelId)) (granted : Nat → Bool) (s' : State H)
      (htop : s.phase = .top) (h : Stopped s s') : Moves s (.stop order granted) s'

/-- `accept` never returns a descriptor that is still open. -/
def Fresh (s : State H) : Label H → Prop
  | .event a => 0 ≤ a.accepted → s.kernel.files a.accepted = none
  | _ => True

instance (s : State H) : (label : Label H) → Decidable (Fresh s label)
  | .event a => inferInstanceAs (Decidable (0 ≤ a.accepted → s.kernel.files a.accepted = none))
  | .poll _ _ | .cleanup _ | .stop _ _ => .isTrue trivial

theorem onAccept_eq {s : State H} {a : Answers H} {events : List Event} (h : 0 ≤ a.accepted)
    (hlookup : s.manager.channels.lookup a.accepted = none) :
    onAccept { s with phase := .batch events } a = s.welcome events a := by
  have hneg : ¬ a.accepted < 0 := Int32.not_lt.mpr h
  rw [onAccept, State.welcome, if_neg hneg]
  dsimp only [State.setChannel, State.log]
  rw [hlookup]
  rfl

/-- **The steps from a state whose descriptors are owned.** -/
theorem moves_of_step {s s' : State H} {label : Label H} (h : Owned s) (hfresh : Fresh s label)
    (hs : step s label = some s') : Moves s label s' := by
  cases label with
  | poll order ready =>
    simp only [step] at hs
    split at hs
    · rename_i hc
      cases hs
      exact .poll order ready hc.1 hc.2
    · cases hs
  | event a =>
    simp only [step] at hs
    split at hs
    · rename_i ev events hphase
      obtain ⟨flag, id⟩ := ev
      rcases h.managed_of_head hphase with rfl | hm
      · unfold handleEvent at hs
        rw [if_pos rfl] at hs
        by_cases hneg : a.accepted < 0
        · unfold onAccept at hs
          rw [if_pos hneg] at hs
          cases hs
          exact .refused a flag events hphase hneg
        · have hpos : 0 ≤ a.accepted := Int32.not_lt.mp hneg
          have hfree := hfresh hpos
          rw [onAccept_eq hpos (h.lookup_of_free hfree)] at hs
          cases hs
          exact .accepted a flag events hphase hpos hfree
      · obtain ⟨channel, hobj, hfd⟩ := h.object hm
        have hne : channel.fd ≠ s.getFd serverChannel := by
          rw [hfd]
          exact h.getFd_ne_server hm
        rw [@handleEvent_client _ { s with phase := .batch events } id channel a flag hobj hne] at hs
        cases he : effect channel flag a with
        | none => rw [he] at hs; cases hs
        | some e =>
          rw [he] at hs
          cases hs
          exact .client a flag id events channel e _ hphase hm hobj he
            (affected_apply h hm hobj (outcome_of_effect he).fd_eq events flag a)
    · cases hs
  | cleanup granted =>
    simp only [step] at hs
    split at hs
    · rename_i hphase
      cases hs
      exact .cleanup granted _ hphase (swept_cleanup h granted)
    · cases hs
  | stop order granted =>
    simp only [step] at hs
    split at hs
    · rename_i hc
      cases hs
      exact .stop order granted _ hc.1 (stopped_shutdown h hc.1 order granted)
    · cases hs

end
end Sews.Runtime
