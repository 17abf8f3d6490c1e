import Sews.Runtime.Aftermath
import Sews.Runtime.Bystander
import Sews.Runtime.Segmentation

/-!
# One connection among others

All connections share a read buffer, a table, a list of marks and the batches of
epoll.  `Solo` is a connection that shares nothing: a system of its own, whose
labels are what the outside decides for this one connection (`Input`).  `Mirrors`
says that it is what the server makes of the connection, in any run and with any
other connections beside it, as long as epoll reports a descriptor once in a wait
(`mirrored_of_run`).

So what a connection is sent and when it is closed depend on its own inputs only
(`isolation`), and what is parsed on it is what was read on it.
-/

namespace Sews.Runtime

open Cpp Sews.Http Sews.Connection Sews.Reactor Sews.Telemetry Dispatcher

variable {H : Type} {s s' : State H} {label : Label H} {id : ChannelId}

/-! ### A connection by itself -/

/-- What the outside decides for one connection: the flags that a wait reports for it,
none when there is no report; the bytes that a `read` delivers; and the results of
the `write` calls of a flush. -/
inductive Input
  | wait (flags : EpollFlags)
  | read (result : Option Bytes)
  | write (results : List WriteResult)
deriving DecidableEq

/-- A connection without the server around it. -/
structure Solo where
  channel : PlainTextChannel := { fd := -1, writeOffset := 0 }
  sent : Bytes := []
  marked : Bool := false
  /-- the reads and writes to come in this iteration -/
  pending : List EventFlag := []

namespace Solo

/-- What a `read` leads to. -/
def read (app : App H) (m : Solo) (result : Option Bytes) (pending : List EventFlag) : Solo :=
  match result with
  | none | some [] => { m with marked := true, pending := pending }
  | some raw =>
    { m with channel := (responses app raw).foldl PlainTextChannel.queue m.channel, pending := pending }

def step (app : App H) (m : Solo) : Input → Option Solo
  | .wait flags =>
    if m.marked = true ∨ m.pending ≠ [] then none
    else some { m with
      marked := flags.epollerr || flags.epollhup
      pending := (if flags.epollin then [.READ] else []) ++ if flags.epollout then [.WRITE] else [] }
  | .read result =>
    match m.pending with
    | .READ :: rest => some (m.read app result rest)
    | _ => none
  | .write results =>
    match m.pending, m.channel.flush results with
    | .WRITE :: rest, some (value, channel, bytes) =>
      some { channel := channel, sent := m.sent ++ bytes
             marked := m.marked || decide (value = .FAILED), pending := rest }
    | _, _ => none

end Solo

/-! ### The inputs of a connection -/

/-- The results that `flush` consumes. -/
def consumed (channel : PlainTextChannel) : List WriteResult → List WriteResult
  | [] => []
  | result :: results =>
    if channel.writeOffset < channel.writeBuffer.length then
      match result with
      | .written count =>
        .written count :: consumed { channel with writeOffset := channel.writeOffset + count } results
      | .wouldBlock => [.wouldBlock]
      | .error => [.error]
    else []

/-- The flags that the reports `ready` have for a connection. -/
def flagsFor (s : State H) (id : ChannelId) (ready : List EpollEvent) : EpollFlags :=
  ((ready.find? fun r => decide (r.fd = s.getFd id)).map (·.events)).getD {}

/-- What a step has from the outside for the connection `id`. -/
def inputOf (id : ChannelId) (made : State H × Label H) : Option Input :=
  match made.2 with
  | .poll _ ready => if made.1.Managed id then some (.wait (flagsFor made.1 id ready)) else none
  | .event a =>
    match made.1.events with
    | [] => none
    | event :: _ =>
      if event.channel = id then
        match event.flag, made.1.objects id with
        | .READ, _ => some (.read (Effect.delivered a))
        | .WRITE, some channel => some (.write (consumed channel a.writes))
        | _, _ => none
      else none
  | _ => none

/-- What the steps `past` had from the outside for the connection `id`, in order. -/
def inputs (id : ChannelId) (past : List (State H × Label H)) : List Input :=
  past.filterMap (inputOf id)

theorem inputs_snoc (id : ChannelId) (past : List (State H × Label H)) (made : State H × Label H) :
    inputs id (past ++ [made]) = inputs id past ++ (inputOf id made).toList := by
  rw [inputs, inputs, List.filterMap_append]
  cases h : inputOf id made <;> simp [h]

/-- The texts handed to the decoder. -/
def parsed (acts : List (Act H)) : List Bytes :=
  acts.filterMap fun act =>
    match act with
    | .parse raw => some raw
    | _ => none

theorem parsed_append (acts more : List (Act H)) : parsed (acts ++ more) = parsed acts ++ parsed more :=
  List.filterMap_append

/-- The bytes that the reads of a connection delivered. -/
def received (inputs : List Input) : List Bytes :=
  inputs.filterMap fun input =>
    match input with
    | .read (some (b :: raw)) => some (b :: raw)
    | _ => none

theorem received_append (xs ys : List Input) : received (xs ++ ys) = received xs ++ received ys :=
  List.filterMap_append

/-! ### Channels that send the same -/

/-- The same bytes to be sent.  The offset into an empty buffer does not matter, so
the number that the constructor leaves there does not either. -/
def Similar (c d : PlainTextChannel) : Prop :=
  c.writeBuffer = d.writeBuffer ∧ (c.writeBuffer ≠ [] → c.writeOffset = d.writeOffset)

namespace Similar

variable {c d : PlainTextChannel}

theorem queue (texts : List Bytes) : ∀ {c d : PlainTextChannel}, Similar c d →
    Similar (texts.foldl PlainTextChannel.queue c) (texts.foldl PlainTextChannel.queue d) := by
  induction texts with
  | nil => exact fun h => h
  | cons text texts ih => exact fun _ => ih ⟨rfl, fun _ => rfl⟩

theorem unsent (h : Similar c d) : c.unsent = d.unsent := by
  unfold PlainTextChannel.unsent
  by_cases hempty : c.writeBuffer = []
  · rw [← h.1, hempty, List.drop_nil, List.drop_nil]
  · rw [h.1, h.2 hempty]

theorem lt_iff (h : Similar c d) :
    c.writeOffset < c.writeBuffer.length ↔ d.writeOffset < d.writeBuffer.length := by
  by_cases hempty : c.writeBuffer = []
  · rw [← h.1, hempty]
    simp
  · rw [h.1, h.2 hempty]

theorem flush : ∀ (results : List WriteResult) {c d : PlainTextChannel}, Similar c d →
    ∀ {value : Write} {c' : PlainTextChannel} {bytes : Bytes},
      c.flush results = some (value, c', bytes) →
      ∃ d', d.flush results = some (value, d', bytes) ∧ Similar c' d' := by
  intro results
  induction results with
  | nil =>
    intro c d h value c' bytes hf
    unfold PlainTextChannel.flush at hf ⊢
    split at hf
    · cases hf
    · rename_i hlt
      cases hf
      rw [if_neg (fun hlt' => hlt (h.lt_iff.mpr hlt'))]
      exact ⟨_, rfl, rfl, fun _ => rfl⟩
  | cons result results ih =>
    intro c d h value c' bytes hf
    unfold PlainTextChannel.flush at hf ⊢
    split at hf
    · rename_i hlt
      have hne : c.writeBuffer ≠ [] := by
        intro hempty
        rw [hempty] at hlt
        exact Nat.not_lt_zero _ hlt
      have hoffset := h.2 hne
      rw [if_pos (h.lt_iff.mp hlt)]
      cases result with
      | wouldBlock =>
        cases hf
        exact ⟨d, rfl, h⟩
      | error =>
        cases hf
        exact ⟨d, rfl, h⟩
      | written count =>
        dsimp only at hf ⊢
        split at hf
        · cases hf
        · rename_i value' c'' bytes' hrec
          cases hf
          have hnext : Similar { c with writeOffset := c.writeOffset + count }
              { d with writeOffset := d.writeOffset + count } :=
            ⟨h.1, fun _ => congrArg (· + count) hoffset⟩
          obtain ⟨d', hd, hsim⟩ := ih hnext hrec
          rw [hd]
          refine ⟨d', ?_, hsim⟩
          rw [h.1, hoffset]
    · rename_i hlt
      cases hf
      rw [if_neg (fun hlt' => hlt (h.lt_iff.mpr hlt'))]
      exact ⟨_, rfl, rfl, fun _ => rfl⟩

end Similar

theorem flush_consumed : ∀ (results : List WriteResult) (channel : PlainTextChannel)
    {r : Write × PlainTextChannel × Bytes}, channel.flush results = some r →
      channel.flush (consumed channel results) = some r := by
  intro results
  induction results with
  | nil => exact fun channel r h => h
  | cons result results ih =>
    intro channel r h
    unfold PlainTextChannel.flush at h
    unfold consumed
    split at h
    · rename_i hlt
      rw [if_pos hlt]
      cases result with
      | wouldBlock =>
        cases h
        rw [PlainTextChannel.flush, if_pos hlt]
      | error =>
        cases h
        rw [PlainTextChannel.flush, if_pos hlt]
      | written count =>
        dsimp only at h ⊢
        rw [PlainTextChannel.flush, if_pos hlt]
        split at h
        · cases h
        · rename_i value channel' bytes hrec
          rw [ih _ hrec]
          exact h
    · rename_i hlt
      rw [if_neg hlt, PlainTextChannel.flush, if_neg hlt]
      exact h

/-! ### What one event leaves -/

section
variable {channel : PlainTextChannel} {a : Answers H} {e : Effect H}

theorem effect_read_failed (h : Effect.delivered a = none ∨ Effect.delivered a = some []) :
    (Effect.read channel a).channel = channel ∧ (Effect.read channel a).marks = true ∧
      (Effect.read channel a).written = [] ∧ parsed (Effect.read channel a).acts = [] := by
  rw [Effect.read]
  rcases h with h | h <;> rw [h] <;> exact ⟨rfl, rfl, rfl, rfl⟩

theorem Handling.parsed_eq {acts : List (Act H)} (h : Handling acts) : parsed acts = [] := by
  cases h <;> rfl

/-- A read that delivered something: its bytes are parsed, and the responses to them
are queued. -/
theorem effect_read {b : Byte} {raw : Bytes} (h : Effect.delivered a = some (b :: raw)) :
    (Effect.read channel a).channel
        = (responses a.app (b :: raw)).foldl PlainTextChannel.queue channel ∧
      (Effect.read channel a).marks = false ∧ (Effect.read channel a).written = [] ∧
      parsed (Effect.read channel a).acts = [b :: raw] := by
  have hresponses := (@record_request H channel a (b :: raw)).2.1
  have hread : Effect.read channel a
      = (Effect.request channel a (b :: raw)).after [.read (some (b :: raw)), .parse (b :: raw)] [] := by
    simp only [Effect.read, h]
  rw [hread, ← hresponses]
  obtain ⟨acts, counters, hacts, -, he | ⟨text, he⟩⟩ := @request_cases H channel a (b :: raw)
  · rw [he]
    refine ⟨?_, rfl, rfl, ?_⟩
    · rw [hacts.queued_eq]
      rfl
    · show (b :: raw) :: parsed acts = _
      rw [hacts.parsed_eq]
  · rw [he]
    refine ⟨?_, rfl, rfl, ?_⟩
    · rw [queued_append, hacts.queued_eq]
      rfl
    · show (b :: raw) :: parsed (acts ++ [.queue text, .interest [.WRITE]]) = _
      rw [parsed_append, hacts.parsed_eq]
      rfl

theorem effect_write (h : effect channel .WRITE a = some e) :
    ∃ value bytes, channel.flush a.writes = some (value, e.channel, bytes) ∧ e.written = bytes ∧
      e.marks = decide (value = .FAILED) ∧ parsed e.acts = [] := by
  cases outcome_of_effect h with
  | marked hf => simp at hf
  | flushed result channel' bytes flags hf hr =>
    refine ⟨result, bytes, hf, rfl, ?_, rfl⟩
    rcases hr with ⟨rfl, -⟩ | ⟨rfl, -⟩ <;> rfl
  | flushFailed channel' bytes hf => exact ⟨.FAILED, bytes, hf, rfl, rfl, rfl⟩

end

/-! ### The events of a report -/

/-- The reads and writes among the flags of events. -/
def transfers (flags : List EventFlag) : List EventFlag :=
  flags.filter fun flag => decide (flag = .READ ∨ flag = .WRITE)

theorem pendingOf_report (flags : EpollFlags) (id : ChannelId) :
    (((flags.epollerr || flags.epollhup) = true) ↔
      .ERROR ∈ pendingOf (SocketLoop.eventsOf flags id) id ∨
      .HANGUP ∈ pendingOf (SocketLoop.eventsOf flags id) id) ∧
    (if flags.epollin then [EventFlag.READ] else []) ++ (if flags.epollout then [EventFlag.WRITE] else [])
      = transfers (pendingOf (SocketLoop.eventsOf flags id) id) := by
  obtain ⟨epollin, epollout, epollerr, epollhup⟩ := flags
  cases epollin <;> cases epollout <;> cases epollerr <;> cases epollhup <;>
    simp [SocketLoop.eventsOf, pendingOf, transfers]

theorem Owned.find_managed (h : Owned s) {order : List (Σ _ : Fd, ChannelId)}
    (horder : UnorderedMap.Enumerates order s.manager.channels) (hm : s.Managed id) :
    (serverChannel :: order.map (·.2)).find? (fun channel => decide (s.getFd channel = s.getFd id))
      = some id := by
  have hin : id ∈ serverChannel :: order.map (·.2) := by
    refine List.mem_cons_of_mem _ (List.mem_map.mpr ⟨⟨s.getFd id, id⟩, ?_, rfl⟩)
    exact (horder.mem_iff _ _).mpr hm
  cases hfind : (serverChannel :: order.map (·.2)).find?
      fun channel => decide (s.getFd channel = s.getFd id) with
  | none => exact absurd (decide_eq_true rfl) (List.find?_eq_none.mp hfind id hin)
  | some id' =>
    obtain ⟨heq, rfl | hl⟩ := h.of_find horder hfind
    · exact absurd heq.symm (h.getFd_ne_server hm)
    · exact hl.symm.trans hm

theorem pending_of_wait (h : Owned s) {order : List (Σ _ : Fd, ChannelId)}
    (horder : UnorderedMap.Enumerates order s.manager.channels) (hm : s.Managed id) :
    ∀ ready : List EpollEvent, (ready.map (·.fd)).Nodup →
      pendingOf (SocketLoop.poll s.getFd (serverChannel :: order.map (·.2)) ready) id
        = pendingOf (SocketLoop.eventsOf (flagsFor s id ready) id) id := by
  intro ready
  induction ready with
  | nil => exact fun _ => rfl
  | cons r ready ih =>
    intro hnodup
    rw [List.map_cons, List.nodup_cons] at hnodup
    rw [poll_cons, pendingOf_append]
    by_cases hfd : r.fd = s.getFd id
    · have hrest : pendingOf (SocketLoop.poll s.getFd (serverChannel :: order.map (·.2)) ready) id = [] := by
        refine pendingOf_poll_nil (fun r' hr' hfd' => ?_) _
        exact hnodup.1 (List.mem_map.mpr ⟨r', hr', hfd'.trans hfd.symm⟩)
      have hflags : flagsFor s id (r :: ready) = r.events := by simp [flagsFor, hfd]
      have hfirst : SocketLoop.poll s.getFd (serverChannel :: order.map (·.2)) [r]
          = SocketLoop.eventsOf r.events id := by
        rw [SocketLoop.poll, List.flatMap_cons, List.flatMap_nil, List.append_nil, hfd,
          h.find_managed horder hm]
      rw [hrest, List.append_nil, hfirst, hflags]
    · have hfirst : pendingOf (SocketLoop.poll s.getFd (serverChannel :: order.map (·.2)) [r]) id = [] := by
        refine pendingOf_poll_nil (fun r' hr' => ?_) _
        rwa [List.mem_singleton.mp hr']
      have hflags : flagsFor s id (r :: ready) = flagsFor s id ready := by simp [flagsFor, hfd]
      rw [hfirst, List.nil_append, hflags]
      exact ih hnodup.2

/-! ### The server makes it of every connection -/

/-- The connection `id` of `s` is the connection `m`. -/
structure Mirrors (m : Solo) (s : State H) (id : ChannelId) : Prop where
  object : ∀ channel, s.objects id = some channel → Similar channel m.channel
  sent : s.kernel.sent id = m.sent
  managed : s.Managed id → s.phase ≠ .threw →
    (m.marked = true ↔ s.Marked id ∨ .ERROR ∈ s.pending id ∨ .HANGUP ∈ s.pending id) ∧
    m.pending = transfers (s.pending id)
  closed : id < s.nextId → ¬ s.Managed id → m.marked = true ∧ m.pending = []
  unborn : s.nextId ≤ id → m = {}

namespace Mirrors

variable {m m' : Solo}

theorem initial (listenFd : Fd) (memory : Bool) (metrics : Metrics) (hid : id ≠ serverChannel) :
    Mirrors {} (Dispatcher.initial listenFd memory metrics : State H) id where
  object channel hobj := by
    rw [objects_initial hid] at hobj
    cases hobj
  sent := by rw [sent_initial]
  managed hm := absurd hm (not_managed_initial listenFd memory metrics id)
  closed hlt := absurd (Nat.lt_one_iff.mp hlt) hid
  unborn _ := rfl

theorem untouched (hmir : Mirrors m s id) (hu : Untouched s s' id) (hphase : s.phase ≠ .threw) :
    Mirrors m s' id where
  object := by
    rw [hu.object]
    exact hmir.object
  sent := hu.sent.trans hmir.sent
  managed hm hthrew := by
    rw [hu.marked, hu.pending hthrew]
    exact hmir.managed (hu.managed.mp hm) hphase
  closed hlt hnm := hmir.closed (hu.born.mp hlt) fun hm => hnm (hu.managed.mpr hm)
  unborn hle := hmir.unborn (Nat.not_lt.mp fun hlt => Nat.not_lt.mpr hle (hu.born.mpr hlt))

theorem at_head (hmir : Mirrors m s id) {flag : EventFlag} {events : List Event}
    (hphase : s.phase = .batch (⟨flag, id⟩ :: events)) (hm : s.Managed id) :
    (m.marked = true ↔ s.Marked id ∨ .ERROR ∈ flag :: pendingOf events id ∨
      .HANGUP ∈ flag :: pendingOf events id) ∧ m.pending = transfers (flag :: pendingOf events id) := by
  rw [← (pending_cons hphase).1]
  exact hmir.managed hm (by rw [hphase]; simp)

theorem welcome (hmir : Mirrors m s s.nextId) (h : Owned s) {a : Answers H} {first : Event}
    {events : List Event} (hphase : s.phase = .batch (first :: events))
    (hfree : s.kernel.files a.accepted = none) : Mirrors m (s.welcome events a) s.nextId := by
  have hm : m = {} := hmir.unborn le_rfl
  have hmanaged := (h.managed_welcome hfree events s.nextId).mpr (Or.inl rfl)
  subst hm
  refine ⟨fun channel hobj => ?_, ?_, fun _ _ => ?_, fun _ hnm => absurd hmanaged hnm,
    fun hle => absurd hle (Nat.not_succ_le_self _)⟩
  · rw [Owned.objects_welcome, if_pos rfl] at hobj
    cases hobj
    exact ⟨rfl, fun hne => absurd rfl hne⟩
  · exact (congrFun (Owned.sent_welcome a events) _).trans (h.fresh s.nextId le_rfl).2.1
  · have hunmarked : ¬ s.Marked s.nextId := fun hmark => h.ne_nextId hmark.1 rfl
    rw [h.marked_welcome hfree, @pending_batch _ (s.welcome events a) events rfl, h.pendingOf_nextId hphase]
    simp [hunmarked, transfers]

theorem event (h : Owned s) {events : List Event} {memory : Bool} {e : Effect H} (hm : s.Managed id)
    (ha : Affected s id events memory e s') (hchannel : Similar e.channel m'.channel)
    (hsent : s.kernel.sent id ++ e.written = m'.sent)
    (hmarks : m'.marked = true ↔ (s.Marked id ∨ e.marks = true) ∨ .ERROR ∈ pendingOf events id ∨
      .HANGUP ∈ pendingOf events id)
    (hpending : m'.pending = transfers (pendingOf events id)) : Mirrors m' s' id := by
  refine ⟨fun channel hobj => ?_, ?_, fun _ hthrew => ?_, fun _ hnm => ?_, fun hle => ?_⟩
  · rw [ha.objects, Function.update_self] at hobj
    cases hobj
    exact hchannel
  · rw [ha.sent, Function.update_self]
    exact hsent
  · have hphase' : s'.phase = .batch events := by
      rw [ha.phase] at hthrew ⊢
      split
      · rename_i ht
        rw [if_pos ht] at hthrew
        exact absurd rfl hthrew
      · rfl
    rw [pending_batch hphase', ha.marked_iff hm]
    refine ⟨?_, hpending⟩
    simpa using hmarks
  · exact absurd ((ha.managed id).mpr hm) hnm
  · rw [ha.nextId] at hle
    exact absurd (h.entry _ _ hm).2.1 (Nat.not_lt.mpr hle)

theorem poll (hmir : Mirrors m s id) (h : Owned s) (htop : s.phase = .top)
    {order : List (Σ _ : Fd, ChannelId)} (horder : UnorderedMap.Enumerates order s.manager.channels)
    {ready : List EpollEvent} (hnodup : (ready.map (·.fd)).Nodup) (hm : s.Managed id) (app : App H) :
    ∃ m', Solo.step app m (.wait (flagsFor s id ready)) = some m' ∧
      Mirrors m'
        { s with phase := .batch (SocketLoop.poll s.getFd (serverChannel :: order.map (·.2)) ready) } id := by
  have hpending : s.pending id = [] := pending_eq_nil (by simp [htop]) id
  have hunmarked := h.not_marked_of_top htop id
  obtain ⟨hmarked, hnone⟩ := hmir.managed hm (by rw [htop]; simp)
  rw [hpending] at hmarked hnone
  have hready : ¬ (m.marked = true ∨ m.pending ≠ []) := by
    simp [hmarked, hunmarked, hnone, transfers]
  obtain ⟨hfailure, htransfers⟩ := pendingOf_report (flagsFor s id ready) id
  refine ⟨_, if_neg hready, hmir.object, hmir.sent, fun _ _ => ?_, fun _ hnm => absurd hm hnm, fun hle => ?_⟩
  · rw [@pending_batch _ { s with phase := .batch _ } _ rfl, pending_of_wait h horder hm ready hnodup]
    refine ⟨?_, htransfers⟩
    rw [hfailure]
    exact (or_iff_right hunmarked).symm
  · exact absurd (h.entry _ _ hm).2.1 (Nat.not_lt.mpr hle)

theorem swept (hmir : Mirrors m s id) (hphase : s.phase = .batch []) (hw : Swept s s') :
    Mirrors m s' id := by
  have hpending : s.pending id = [] := pending_eq_nil (by simp [hphase]) id
  have hpending' : s'.pending id = [] := pending_eq_nil (by simp [hw.phase]) id
  have hunmarked : ¬ s'.Marked id := by
    rintro ⟨-, hmem⟩
    rw [hw.marks] at hmem
    cases hmem
  have hold := fun hm => hmir.managed hm (by rw [hphase]; simp)
  rw [hpending] at hold
  refine ⟨fun channel hobj => ?_, ?_, fun hm _ => ?_, fun hlt hnm => ?_, fun hle => ?_⟩
  · rw [hw.objects] at hobj
    obtain ⟨channel', hobj', rfl⟩ := Option.map_eq_some_iff.mp hobj
    have hsim := hmir.object channel' hobj'
    split
    · exact hsim
    · exact hsim
  · rw [hw.sent]
    exact hmir.sent
  · obtain ⟨hm', hnot⟩ := (hw.managed id).mp hm
    obtain ⟨hmarked, hnone⟩ := hold hm'
    rw [hpending']
    refine ⟨?_, hnone⟩
    rw [hmarked]
    simp [hnot, hunmarked]
  · rw [hw.nextId] at hlt
    by_cases hm : s.Managed id
    · obtain ⟨hmarked, hnone⟩ := hold hm
      have hmark : s.Marked id := by
        by_contra hnot
        exact hnm ((hw.managed id).mpr ⟨hm, hnot⟩)
      exact ⟨hmarked.mpr (Or.inl hmark), hnone⟩
    · exact hmir.closed hlt hm
  · rw [hw.nextId] at hle
    exact hmir.unborn hle

end Mirrors

/-- The record of the connection `id` and the connection by itself, after the steps
`past`. -/
def Mirrored (app : App H) (past : List (State H × Label H)) (s : State H) (id : ChannelId) : Prop :=
  parsed (s.acts id) = received (inputs id past) ∧
  ∃ m, Run (Solo.step app) (fun _ _ => True) {} (inputs id past) m ∧ Mirrors m s id

namespace Mirrored

variable {app : App H} {past : List (State H × Label H)}

theorem silent (hmir : Mirrored app past s id) (hin : inputOf id (s, label) = none)
    (hparsed : parsed (s'.acts id) = parsed (s.acts id))
    (hstep : ∀ m, Mirrors m s id → Mirrors m s' id) : Mirrored app (past ++ [(s, label)]) s' id := by
  obtain ⟨htexts, m, hrun, hm⟩ := hmir
  rw [Mirrored, inputs_snoc, hin, Option.toList_none, List.append_nil, hparsed]
  exact ⟨htexts, m, hrun, hstep m hm⟩

theorem heard (hmir : Mirrored app past s id) {input : Input} (hin : inputOf id (s, label) = some input)
    (hparsed : parsed (s'.acts id) = parsed (s.acts id) ++ received [input])
    (hstep : ∀ m, Mirrors m s id → ∃ m', Solo.step app m input = some m' ∧ Mirrors m' s' id) :
    Mirrored app (past ++ [(s, label)]) s' id := by
  obtain ⟨htexts, m, hrun, hm⟩ := hmir
  obtain ⟨m', hs, hm'⟩ := hstep m hm
  rw [Mirrored, inputs_snoc, hin, Option.toList_some, received_append, hparsed, htexts]
  exact ⟨rfl, m', hrun.snoc trivial hs, hm'⟩

theorem inputOf_other {a : Answers H} (hother : ∀ e ∈ s.events.head?, e.channel ≠ id) :
    inputOf id (s, .event a) = none := by
  unfold inputOf
  dsimp only
  split
  · rfl
  · rename_i event events hevents
    rw [hevents] at hother
    exact if_neg (hother event rfl)

theorem untouched (hmir : Mirrored app past s id) (h : Owned s) {a : Answers H} (hm : Moves s (.event a) s')
    (hid : id ≠ serverChannel) (hnew : id = s.nextId → s'.nextId = s.nextId)
    (hphase : s.phase ≠ .threw) (hother : ∀ e ∈ s.events.head?, e.channel ≠ id) :
    Mirrored app (past ++ [(s, .event a)]) s' id := by
  have hu := Sews.Runtime.untouched h hm hid hnew hother
  exact hmir.silent (inputOf_other hother) (by rw [hu.acts]) fun m hm => hm.untouched hu hphase

section
variable {a : Answers H} {flag : EventFlag} {events : List Event} {channel : PlainTextChannel} {e : Effect H}

/-- A `HANGUP` or an `ERROR` on the connection, which its last wait has announced. -/
theorem failure (hmir : Mirrored app past s id) (h : Owned s) (hflag : flag = .HANGUP ∨ flag = .ERROR)
    (hphase : s.phase = .batch (⟨flag, id⟩ :: events)) (hm : s.Managed id)
    (hobj : s.objects id = some channel) (he : effect channel flag a = some e)
    (ha : Affected s id events a.memory e s') : Mirrored app (past ++ [(s, .event a)]) s' id := by
  have hevents : s.events = ⟨flag, id⟩ :: events := by rw [State.events, hphase]
  have heffect : e = { channel := channel, acts := [.mark], marks := true } := by
    rcases hflag with rfl | rfl <;> exact (Option.some.inj he).symm
  subst heffect
  refine hmir.silent ?_ ?_ fun m hm' => ?_
  · simp only [inputOf, hevents]
    rcases hflag with rfl | rfl <;> simp
  · rw [ha.acts, if_pos rfl, parsed_append]
    exact List.append_nil _
  · obtain ⟨hmarked, hpending⟩ := hm'.at_head hphase hm
    refine .event h hm ha (hm'.object channel hobj) ?_ ?_ ?_
    · rw [List.append_nil, hm'.sent]
    · rw [hmarked]
      rcases hflag with rfl | rfl <;> simp
    · rw [hpending]
      rcases hflag with rfl | rfl <;> rfl

theorem read (hmir : Mirrored app past s id) (h : Owned s) (happ : a.app = app)
    (hphase : s.phase = .batch (⟨.READ, id⟩ :: events)) (hm : s.Managed id)
    (hobj : s.objects id = some channel)
    (ha : Affected s id events a.memory (Effect.read channel a) s') :
    Mirrored app (past ++ [(s, .event a)]) s' id := by
  have hacts : s'.acts id = s.acts id ++ (Effect.read channel a).acts := by rw [ha.acts, if_pos rfl]
  have hin : inputOf id (s, .event a) = some (.read (Effect.delivered a)) := by
    have hevents : s.events = ⟨.READ, id⟩ :: events := by rw [State.events, hphase]
    simp only [inputOf, hevents, if_true]
  have hstep : ∀ m, Mirrors m s id → Solo.step app m (.read (Effect.delivered a))
      = some (m.read app (Effect.delivered a) (transfers (pendingOf events id))) := by
    intro m hm'
    have hpending : m.pending = .READ :: transfers (pendingOf events id) := (hm'.at_head hphase hm).2
    simp only [Solo.step, hpending]
  by_cases hd : Effect.delivered a = none ∨ Effect.delivered a = some []
  · obtain ⟨hchannel, hmarks, hwritten, htexts⟩ := @effect_read_failed _ channel a hd
    have hnone : received [.read (Effect.delivered a)] = [] := by
      rcases hd with hd | hd <;> rw [hd] <;> rfl
    refine hmir.heard hin (by rw [hacts, parsed_append, htexts, hnone]) fun m hm' => ⟨_, hstep m hm', ?_⟩
    have hread : m.read app (Effect.delivered a) (transfers (pendingOf events id))
        = { m with marked := true, pending := transfers (pendingOf events id) } := by
      rcases hd with hd | hd <;> simp only [Solo.read, hd]
    rw [hread]
    refine .event h hm ha ?_ ?_ ?_ rfl
    · rw [hchannel]
      exact hm'.object channel hobj
    · rw [hwritten, List.append_nil, hm'.sent]
    · simp [hmarks]
  · obtain ⟨b, raw, hd⟩ : ∃ b raw, Effect.delivered a = some (b :: raw) := by
      cases hdel : Effect.delivered a with
      | none => exact absurd (Or.inl hdel) hd
      | some bytes =>
        cases bytes with
        | nil => exact absurd (Or.inr hdel) hd
        | cons b raw => exact ⟨b, raw, rfl⟩
    obtain ⟨hchannel, hmarks, hwritten, htexts⟩ := @effect_read _ channel a _ _ hd
    rw [hd] at hin hstep
    refine hmir.heard hin (by rw [hacts, parsed_append, htexts]; rfl) fun m hm' => ⟨_, hstep m hm', ?_⟩
    refine .event h hm ha ?_ ?_ ?_ rfl
    · rw [hchannel, happ]
      exact Similar.queue _ (hm'.object channel hobj)
    · rw [hwritten, List.append_nil]
      exact hm'.sent
    · have hmarked : (m.read app (some (b :: raw)) (transfers (pendingOf events id))).marked = m.marked :=
        rfl
      rw [hmarked, (hm'.at_head hphase hm).1, hmarks]
      simp

theorem write (hmir : Mirrored app past s id) (h : Owned s)
    (hphase : s.phase = .batch (⟨.WRITE, id⟩ :: events)) (hm : s.Managed id)
    (hobj : s.objects id = some channel) (he : effect channel .WRITE a = some e)
    (ha : Affected s id events a.memory e s') : Mirrored app (past ++ [(s, .event a)]) s' id := by
  have hin : inputOf id (s, .event a) = some (.write (consumed channel a.writes)) := by
    have hevents : s.events = ⟨.WRITE, id⟩ :: events := by rw [State.events, hphase]
    simp only [inputOf, hevents, hobj, if_true]
  obtain ⟨value, bytes, hflush, hwritten, hmarks, htexts⟩ := effect_write he
  have hparsed : parsed (s'.acts id)
      = parsed (s.acts id) ++ received [.write (consumed channel a.writes)] := by
    rw [ha.acts, if_pos rfl, parsed_append, htexts]
    rfl
  refine hmir.heard hin hparsed fun m hm' => ?_
  obtain ⟨d, hd, hsim⟩ := (hm'.object channel hobj).flush _ (flush_consumed _ _ hflush)
  obtain ⟨hmarked, hpend⟩ := hm'.at_head hphase hm
  have hpending : m.pending = .WRITE :: transfers (pendingOf events id) := hpend
  have hs : Solo.step app m (.write (consumed channel a.writes))
      = some { channel := d, sent := m.sent ++ bytes, marked := m.marked || decide (value = .FAILED)
               pending := transfers (pendingOf events id) } := by
    simp only [Solo.step, hpending, hd]
  refine ⟨_, hs, .event h hm ha hsim ?_ ?_ rfl⟩
  · rw [hwritten, hm'.sent]
  · show (m.marked || decide (value = .FAILED)) = true ↔ _
    rw [Bool.or_eq_true, hmarked, hmarks]
    simp only [List.mem_cons, reduceCtorEq, false_or]
    exact or_right_comm

theorem event (hmir : Mirrored app past s id) (h : Owned s) (happ : a.app = app)
    (hphase : s.phase = .batch (⟨flag, id⟩ :: events)) (hm : s.Managed id)
    (hobj : s.objects id = some channel) (he : effect channel flag a = some e)
    (ha : Affected s id events a.memory e s') : Mirrored app (past ++ [(s, .event a)]) s' id := by
  cases flag with
  | HANGUP => exact hmir.failure h (Or.inl rfl) hphase hm hobj he ha
  | ERROR => exact hmir.failure h (Or.inr rfl) hphase hm hobj he ha
  | READ =>
    have heffect : Effect.read channel a = e := Option.some.inj he
    rw [← heffect] at ha
    exact hmir.read h happ hphase hm hobj ha
  | WRITE => exact hmir.write h hphase hm hobj he ha

end

theorem moves (hmir : Mirrored app past s id) (h : Owned s) (hid : id ≠ serverChannel)
    (hrep : Reported s label) (hserved : ServedBy app label) (hm : Moves s label s')
    (hrun : s'.phase ≠ .returned) : Mirrored app (past ++ [(s, label)]) s' id := by
  have hother : ∀ {flag : EventFlag} {id' : ChannelId} {events : List Event},
      s.phase = .batch (⟨flag, id'⟩ :: events) → id' ≠ id →
      s.phase ≠ .threw ∧ ∀ e ∈ s.events.head?, e.channel ≠ id := by
    intro flag id' events hphase hne
    refine ⟨by rw [hphase]; simp, fun e he => ?_⟩
    rw [State.events, hphase] at he
    cases he
    exact hne
  cases hm with
  | poll order ready htop horder =>
    by_cases hm : s.Managed id
    · refine hmir.heard (if_pos hm) (List.append_nil _).symm fun m hm' => ?_
      exact hm'.poll h htop horder hrep.2.1 hm app
    · refine hmir.silent (if_neg hm) rfl fun m hm' => ?_
      exact ⟨hm'.object, hm'.sent, fun hm'' => absurd hm'' hm, hm'.closed, hm'.unborn⟩
  | refused a flag events hphase hneg =>
    obtain ⟨hthrew, hothers⟩ := hother hphase hid.symm
    exact hmir.untouched h (.refused a flag events hphase hneg) hid (fun _ => rfl) hthrew hothers
  | accepted a flag events hphase hpos hfree =>
    obtain ⟨hthrew, hothers⟩ := hother hphase hid.symm
    rcases eq_or_ne id s.nextId with rfl | hne
    · refine hmir.silent (inputOf_other hothers) ?_ fun m hm' => hm'.welcome h hphase hfree
      rw [Owned.acts_welcome, if_pos rfl, parsed_append]
      exact List.append_nil _
    · exact hmir.untouched h (.accepted a flag events hphase hpos hfree) hid
        (fun heq => absurd heq hne) hthrew hothers
  | client a flag id' events channel e s' hphase hm hobj he ha =>
    rcases eq_or_ne id' id with rfl | hne
    · exact hmir.event h hserved hphase hm hobj he ha
    · obtain ⟨hthrew, hothers⟩ := hother hphase hne
      exact hmir.untouched h (.client a flag id' events channel e s' hphase hm hobj he ha) hid
        (fun _ => ha.nextId) hthrew hothers
  | cleanup granted s' hphase hw =>
    refine hmir.silent rfl ?_ fun m hm' => hm'.swept hphase hw
    rw [hw.acts, parsed_append]
    split <;> exact List.append_nil _
  | stop order granted s' htop hstop => exact absurd hstop.phase hrun

end Mirrored

/-- **Every connection is by itself.**  In any run, the server makes of a connection
what its own inputs make of a connection by itself. -/
theorem mirrored_of_run {app : App H} {listenFd : Fd} {memory : Bool} {metrics : Metrics}
    {labels : List (Label H)} (hfd : 0 ≤ listenFd)
    (h : Run Dispatcher.step Reported (initial listenFd memory metrics) labels s)
    (happ : ∀ label ∈ labels, ServedBy app label) (hrun : s.phase ≠ .returned)
    (hid : id ≠ serverChannel) :
    Mirrored app (Run.history Dispatcher.step (initial listenFd memory metrics) labels) s id := by
  refine history_of_run (I := fun past s => Mirrored app past s id) hfd (fun _ _ hok => hok.1.1)
    (h.and_mem happ) hrun ⟨rfl, {}, .nil, .initial listenFd memory metrics hid⟩ ?_
  rintro past s label s' hown hmir ⟨hrep, hserved⟩ hm hrun'
  exact hmir.moves hown hid hrep hserved hm hrun'

/-- At the top of the loop a connection is closed if, by itself, it is marked. -/
theorem Mirrors.closed_iff {m : Solo} (hmir : Mirrors m s id) (h : Owned s) (hl : Life s)
    (htop : s.phase = .top) (hid : id ≠ serverChannel) :
    (Act.close ∈ s.acts id ↔ m.marked = true) ∧ (Act.close ∈ s.acts id → m.pending = []) := by
  have hpending : s.pending id = [] := pending_eq_nil (by simp [htop]) id
  by_cases hlt : id < s.nextId
  · rcases hl id hid hlt with ⟨hm, hlive, -⟩ | ⟨hnm, ⟨before, hacts, -⟩, -⟩
    · obtain ⟨hmarked, -⟩ := hmir.managed hm (by rw [htop]; simp)
      refine ⟨iff_of_false hlive.1 ?_, fun hclose => absurd hclose hlive.1⟩
      rw [hmarked, hpending]
      simp [h.not_marked_of_top htop id]
    · obtain ⟨hmarked, hnone⟩ := hmir.closed hlt hnm
      have hclose : Act.close ∈ s.acts id := by
        rw [hacts]
        simp
      exact ⟨iff_of_true hclose hmarked, fun _ => hnone⟩
  · obtain ⟨-, -, hacts, -⟩ := h.fresh id (Nat.not_lt.mp hlt)
    have hno : Act.close ∉ s.acts id := by
      rw [hacts]
      exact List.not_mem_nil
    refine ⟨iff_of_false hno ?_, fun hclose => absurd hclose hno⟩
    rw [hmir.unborn (Nat.not_lt.mp hlt)]
    simp

theorem Solo.step_eq_none {app : App H} {m : Solo} (hmarked : m.marked = true) (hpending : m.pending = [])
    (input : Input) : m.step app input = none := by
  cases input with
  | wait flags => exact if_pos (Or.inl hmarked)
  | read result => simp only [Solo.step, hpending]
  | write results => simp only [Solo.step, hpending]

/-- **Clients do not interfere.**  Two connections in two runs that are served by the
same functions of the request.  If they had the same inputs they were sent the same
bytes, have the same bytes left to send, had their own reads parsed and nothing else,
and at the top of the loop both are closed or neither, after the same number of
waits.  And one that was closed had all of the inputs of the other, if it had the
first ones. -/
theorem isolation {app : App H} {listenFd₁ listenFd₂ : Fd} {memory₁ memory₂ : Bool}
    {metrics₁ metrics₂ : Metrics} {labels₁ labels₂ : List (Label H)} {s₁ s₂ : State H}
    {id₁ id₂ : ChannelId} (hfd₁ : 0 ≤ listenFd₁) (hfd₂ : 0 ≤ listenFd₂)
    (h₁ : Run step Reported (initial listenFd₁ memory₁ metrics₁) labels₁ s₁)
    (h₂ : Run step Reported (initial listenFd₂ memory₂ metrics₂) labels₂ s₂)
    (happ₁ : ∀ label ∈ labels₁, ServedBy app label) (happ₂ : ∀ label ∈ labels₂, ServedBy app label)
    (hrun₁ : s₁.phase ≠ .returned) (hrun₂ : s₂.phase ≠ .returned)
    (hid₁ : id₁ ≠ serverChannel) (hid₂ : id₂ ≠ serverChannel)
    {inputs₁ inputs₂ : List Input}
    (hin₁ : inputs₁ = inputs id₁ (Run.history step (initial listenFd₁ memory₁ metrics₁) labels₁))
    (hin₂ : inputs₂ = inputs id₂ (Run.history step (initial listenFd₂ memory₂ metrics₂) labels₂)) :
    (inputs₁ = inputs₂ →
      s₁.kernel.sent id₁ = s₂.kernel.sent id₂ ∧
      (∀ channel₁ channel₂, s₁.objects id₁ = some channel₁ → s₂.objects id₂ = some channel₂ →
        channel₁.writeBuffer = channel₂.writeBuffer ∧ channel₁.unsent = channel₂.unsent) ∧
      parsed (s₁.acts id₁) = received inputs₁ ∧ parsed (s₂.acts id₂) = received inputs₁ ∧
      (s₁.phase = .top → s₂.phase = .top →
        (Act.close ∈ s₁.acts id₁ ↔ Act.close ∈ s₂.acts id₂))) ∧
    (inputs₁ <+: inputs₂ → s₁.phase = .top → Act.close ∈ s₁.acts id₁ → inputs₁ = inputs₂) := by
  obtain ⟨htexts₁, m₁, hsolo₁, hmir₁⟩ := mirrored_of_run hfd₁ h₁ happ₁ hrun₁ hid₁
  obtain ⟨htexts₂, m₂, hsolo₂, hmir₂⟩ := mirrored_of_run hfd₂ h₂ happ₂ hrun₂ hid₂
  rw [← hin₁] at htexts₁ hsolo₁
  rw [← hin₂] at htexts₂ hsolo₂
  have hfresh₁ := h₁.mono fun _ _ hok => hok.1
  have hfresh₂ := h₂.mono fun _ _ hok => hok.1
  have hclosed₁ := fun htop => hmir₁.closed_iff (owned_of_run hfd₁ hfresh₁ hrun₁)
    (life_of_run hfd₁ hfresh₁ hrun₁) htop hid₁
  have hclosed₂ := fun htop => hmir₂.closed_iff (owned_of_run hfd₂ hfresh₂ hrun₂)
    (life_of_run hfd₂ hfresh₂ hrun₂) htop hid₂
  refine ⟨fun hsame => ?_, fun hfirst htop hclose => ?_⟩
  · rw [← hsame] at htexts₂ hsolo₂
    obtain rfl : m₁ = m₂ := hsolo₁.unique hsolo₂
    refine ⟨hmir₁.sent.trans hmir₂.sent.symm, fun channel₁ channel₂ hobj₁ hobj₂ => ?_, htexts₁, htexts₂,
      fun htop₁ htop₂ => (hclosed₁ htop₁).1.trans (hclosed₂ htop₂).1.symm⟩
    have hsim₁ := hmir₁.object channel₁ hobj₁
    have hsim₂ := hmir₂.object channel₂ hobj₂
    exact ⟨hsim₁.1.trans hsim₂.1.symm, hsim₁.unsent.trans hsim₂.unsent.symm⟩
  · obtain ⟨more, hmore⟩ := hfirst
    cases more with
    | nil => rw [← hmore, List.append_nil]
    | cons input more =>
      rw [← hmore] at hsolo₂
      have hmarked := (hclosed₁ htop).1.mp hclose
      exact absurd (Solo.step_eq_none hmarked ((hclosed₁ htop).2 hclose) input)
        (hsolo₁.step_of_longer hsolo₂)

/-- The connection of `siteLabels [getText]` with another one beside it, which is read
from before it and is hung up. -/
def crowdedLabels : List (Label Unit) :=
  [.poll [] [⟨{ epollin := true }, 3⟩], .event { app := siteApp, accepted := 9 }, .cleanup fun _ => true,
    .poll [⟨9, 1⟩] [⟨{ epollin := true }, 3⟩], .event { app := siteApp, accepted := 5, garbage := 77 },
    .cleanup fun _ => true,
    .poll [⟨9, 1⟩, ⟨5, 2⟩] [⟨{ epollin := true }, 9⟩, ⟨{ epollin := true }, 5⟩],
    .event { app := siteApp, read := some (getText ++ getText) },
    .event { app := siteApp, read := some getText }, .cleanup fun _ => true,
    .poll [⟨5, 2⟩, ⟨9, 1⟩] [⟨{ epollhup := true, epollout := true }, 9⟩, ⟨{ epollout := true }, 5⟩],
    .event { app := siteApp }, .event { app := siteApp, writes := [.error] },
    .event { app := siteApp, writes := [.written 38] }, .cleanup fun _ => true]

def crowded : State Unit :=
  (Run.exec step Reported (initial 3 true ∅) crowdedLabels).get (by decide +kernel)

theorem servedBy_crowdedLabels : ∀ label ∈ crowdedLabels, ServedBy siteApp label := by
  intro label hmem
  simp only [crowdedLabels, List.mem_cons, List.not_mem_nil, or_false] at hmem
  rcases hmem with rfl | rfl | rfl | rfl | rfl | rfl | rfl | rfl | rfl | rfl | rfl | rfl | rfl | rfl | rfl <;>
    first | exact trivial | rfl

theorem isolation_crowded :
    (served [getText]).kernel.sent 1 = crowded.kernel.sent 2 ∧ parsed (crowded.acts 2) = [getText] ∧
      (Act.close ∈ (served [getText]).acts 1 ↔ Act.close ∈ crowded.acts 2) := by
  have h₁ := (@run_served [getText] (by decide +kernel)).mono fun _ _ hok => hok.reported
  have h₂ : Run step Reported (initial 3 true ∅) crowdedLabels crowded :=
    Run.of_exec crowdedLabels _ (Option.some_get _).symm
  obtain ⟨hsame, -⟩ := isolation (by decide) (by decide) h₁ h₂ (servedBy_siteLabels _)
    servedBy_crowdedLabels (by decide +kernel) (by decide +kernel)
    (show (1 : ChannelId) ≠ serverChannel by decide) (show (2 : ChannelId) ≠ serverChannel by decide) rfl rfl
  obtain ⟨hsent, -, -, hparsed, hclosed⟩ := hsame (by decide +kernel)
  have hreceived : received (inputs 1 (Run.history step (initial 3 true ∅) (siteLabels [getText])))
      = [getText] := by
    decide +kernel
  exact ⟨hsent, hparsed.trans hreceived, hclosed (by decide +kernel) (by decide +kernel)⟩

end Sews.Runtime
