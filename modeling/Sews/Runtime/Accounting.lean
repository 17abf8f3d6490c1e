import Sews.Runtime.Gauge
import Sews.Runtime.Segmentation

/-!
# The accounts

Every response that is queued is counted, by one of three counters or by none,
at five places of the `READ` branch.  `booked` is what one event does to the
counters and to the record, and `Accounts` the sum over all events of a run.

Nothing here depends on who owns which descriptor.  An event that is not for the
listener is an `effect` as soon as its channel has an object, and `Known` says
that every channel the loop can come to has one, whatever `accept` returns.
-/

namespace Sews.Runtime

open Cpp Sews.Http Sews.Connection Sews.Reactor Sews.Telemetry Dispatcher

variable {H : Type} {s s' : State H} {label : Label H}

/-! ### One event -/

/-- The decoder's answer to an event, if the decoder is asked. -/
def decoded (flag : EventFlag) (a : Answers H) : Option (Except Exception (Option Message)) :=
  match flag, Effect.delivered a with
  | .READ, some (b :: raw) => some (a.app.parse (b :: raw))
  | _, _ => none

/-- The decoder makes no request of what was read. -/
def undecoded (event : EventFlag × Answers H) : Bool :=
  match decoded event.1 event.2 with
  | some (.ok (some (.request _))) => false
  | some (.ok _) => true
  | _ => false

/-- A handler is called, and returns null. -/
def nulled (event : EventFlag × Answers H) : Bool :=
  match decoded event.1 event.2 with
  | some (.ok (some (.request r))) =>
    match event.2.app.route (.request r) with
    | none => false
    | some handler =>
      match event.2.app.handle handler (.request r) with
      | .ok none => true
      | _ => false
  | _ => false

theorem count_answer {channel : PlainTextChannel} {a : Answers H} (response : Message)
    (counter : Option Bytes) (acts : List (Act H)) (counters : List Bytes)
    (ht : ((Effect.answer channel a response counter).after acts counters).throws = false) :
    (queued ((Effect.answer channel a response counter).after acts counters).acts).length
        = (queued acts).length + 1 ∧
      (invoked ((Effect.answer channel a response counter).after acts counters).acts).length
        = (invoked acts).length ∧
      ((Effect.answer channel a response counter).after acts counters).counters
        = counters ++ counter.toList := by
  unfold Effect.answer Effect.after at ht ⊢
  cases hs : a.app.serialize response with
  | error e =>
    rw [hs] at ht
    cases ht
  | ok bytes =>
    dsimp only
    rw [queued_append, invoked_append, List.length_append, List.length_append]
    exact ⟨rfl, rfl, rfl⟩

/-- What one event adds to the accounts. -/
structure Booked (event : EventFlag × Answers H) (e : Effect H) : Prop where
  responses : (queued e.acts).length = e.counters.count requestsTotal + [event].countP undecoded
  requests : e.counters.count requestsTotal
    = e.counters.count responses404 + (invoked e.acts).length
  failures : e.counters.count responses500 = [event].countP undecoded + [event].countP nulled
  nulls : [event].countP nulled ≤ (invoked e.acts).length
  one : (queued e.acts).length ≤ 1

theorem booked_nothing {event : EventFlag × Answers H} {e : Effect H}
    (hd : decoded event.1 event.2 = none) (hq : queued e.acts = []) (hi : invoked e.acts = [])
    (hc : e.counters = []) : Booked event e := by
  have hu : undecoded event = false := by rw [undecoded, hd]
  have hn : nulled event = false := by rw [nulled, hd]
  refine ⟨?_, ?_, ?_, ?_, ?_⟩ <;> simp [hu, hn, hq, hi, hc]

theorem booked_answer {channel : PlainTextChannel} {flag : EventFlag} {a : Answers H}
    {response : Message} {counter : Option Bytes} {acts : List (Act H)} {counters : List Bytes}
    (ht : ((Effect.answer channel a response counter).after acts counters).throws = false)
    (hq : queued acts = [])
    (hr : 1 = (counters ++ counter.toList).count requestsTotal + [(flag, a)].countP undecoded)
    (h404 : (counters ++ counter.toList).count requestsTotal
      = (counters ++ counter.toList).count responses404 + (invoked acts).length)
    (h500 : (counters ++ counter.toList).count responses500
      = [(flag, a)].countP undecoded + [(flag, a)].countP nulled)
    (hn : [(flag, a)].countP nulled ≤ (invoked acts).length) :
    Booked (flag, a) ((Effect.answer channel a response counter).after acts counters) := by
  obtain ⟨hqueued, hinvoked, hcounters⟩ := count_answer response counter acts counters ht
  rw [hq] at hqueued
  refine ⟨?_, ?_, ?_, ?_, ?_⟩
  · rw [hqueued, hcounters]
    exact hr
  · rw [hcounters, hinvoked]
    exact h404
  · rw [hcounters]
    exact h500
  · rw [hinvoked]
    exact hn
  · rw [hqueued]
    exact le_rfl

theorem counters_ne : requestsTotal ≠ responses404 ∧ requestsTotal ≠ responses500 ∧
    responses404 ≠ responses500 := by
  decide +kernel

theorem booked_request {channel : PlainTextChannel} {a : Answers H} {raw : Bytes}
    (hd : decoded .READ a = some (a.app.parse raw))
    (ht : ((Effect.request channel a raw).after [.read (some raw), .parse raw] []).throws = false) :
    Booked (.READ, a) ((Effect.request channel a raw).after [.read (some raw), .parse raw] []) := by
  obtain ⟨h4, h5, h45⟩ := counters_ne
  have hrejected : undecoded (.READ, a) = true → nulled (.READ, a) = false →
      ((Effect.answer channel a (.response errorResponse) (some responses500)).after
        [.read (some raw), .parse raw] []).throws = false →
      Booked (.READ, a) ((Effect.answer channel a (.response errorResponse) (some responses500)).after
        [.read (some raw), .parse raw] []) := by
    intro hu hn ht'
    refine booked_answer ht' rfl ?_ ?_ ?_ ?_
    · simp [hu, h5.symm]
    · simp [h5.symm, h45.symm, invoked]
    · simp [hu, hn]
    · simp [hn]
  unfold Effect.request at ht ⊢
  cases hp : a.app.parse raw with
  | error e =>
    rw [hp] at ht
    cases ht
  | ok message =>
    rw [hp] at hd ht
    cases message with
    | none => exact hrejected (by simp [undecoded, hd]) (by simp [nulled, hd]) ht
    | some message =>
      cases message with
      | response r => exact hrejected (by simp [undecoded, hd]) (by simp [nulled, hd]) ht
      | other type payload => exact hrejected (by simp [undecoded, hd]) (by simp [nulled, hd]) ht
      | request r =>
        have hu : undecoded (.READ, a) = false := by simp [undecoded, hd]
        dsimp only at ht ⊢
        cases hr : a.app.route (.request r) with
        | none =>
          have hn : nulled (.READ, a) = false := by simp [nulled, hd, hr]
          rw [hr] at ht
          refine @booked_answer _ channel .READ a (.response notFoundResp) (some responses404)
            [.read (some raw), .parse raw, .count] [requestsTotal] ht rfl ?_ ?_ ?_ ?_
          · simp [hu, h4.symm]
          · simp [h4, h4.symm, invoked]
          · simp [hu, hn, h5, h45]
          · simp [hn]
        | some handler =>
          rw [hr] at ht
          dsimp only at ht ⊢
          cases hh : a.app.handle handler (.request r) with
          | error e =>
            rw [hh] at ht
            cases ht
          | ok response =>
            rw [hh] at ht
            cases response with
            | none =>
              have hn : nulled (.READ, a) = true := by simp [nulled, hd, hr, hh]
              refine @booked_answer _ channel .READ a (.response errorResponse) (some responses500)
                [.read (some raw), .parse raw, .count, .handle handler (.request r)] [requestsTotal]
                ht rfl ?_ ?_ ?_ ?_
              · simp [hu, h5.symm]
              · simp [h4, h5.symm, h45.symm, invoked]
              · simp [hu, hn, h5]
              · simp [hn, invoked]
            | some response =>
              have hn : nulled (.READ, a) = false := by simp [nulled, hd, hr, hh]
              refine @booked_answer _ channel .READ a response none
                [.read (some raw), .parse raw, .count, .handle handler (.request r)] [requestsTotal]
                ht rfl ?_ ?_ ?_ ?_
              · simp [hu]
              · simp [h4, invoked]
              · simp [hu, hn, h5]
              · simp [hn]

/-- **One event.**  A response is queued for a request that is counted or for bytes
that are none; a counted request has no handler, or one is called; and the failures
are the undecoded reads and the handlers that return null. -/
theorem booked {channel : PlainTextChannel} {flag : EventFlag} {a : Answers H} {e : Effect H}
    (he : effect channel flag a = some e) (ht : e.throws = false) : Booked (flag, a) e := by
  cases flag with
  | HANGUP => cases he; exact booked_nothing rfl rfl rfl rfl
  | ERROR => cases he; exact booked_nothing rfl rfl rfl rfl
  | READ =>
    cases he
    rw [Effect.read] at ht ⊢
    split
    · rename_i hd
      exact booked_nothing (by simp only [decoded, hd]) rfl rfl rfl
    · rename_i hd
      exact booked_nothing (by simp only [decoded, hd]) rfl rfl rfl
    · rename_i raw hraw hd
      rw [hd] at ht
      cases raw with
      | nil => exact absurd rfl hraw
      | cons b raw => exact booked_request (by simp only [decoded, hd]) ht
  | WRITE =>
    have hd : decoded .WRITE a = none := rfl
    cases outcome_of_effect he with
    | marked hf => simp at hf
    | flushed => exact booked_nothing hd rfl rfl rfl
    | flushFailed => exact booked_nothing hd rfl rfl rfl

/-! ### One step -/

/-- All that was done, on whatever connection. -/
def State.record (s : State H) : List (Act H) := s.trace.map (·.2)

/-- The event on a client that a step handles. -/
def handled (s : State H) : Label H → Option (EventFlag × Answers H)
  | .event a =>
    match s.events with
    | [] => none
    | event :: _ =>
      if s.getFd event.channel = s.getFd serverChannel then none else some (event.flag, a)
  | _ => none

/-- The channels that the loop can come to have objects. -/
structure Known (s : State H) : Prop where
  server : s.objects serverChannel ≠ none
  entry : ∀ fd id, s.manager.channels.lookup fd = some id → s.objects id ≠ none
  pending : ∀ e ∈ s.events, s.objects e.channel ≠ none

/-- `s'` comes from `s` without a response, a handler call or a request. -/
structure Quiet (s s' : State H) : Prop where
  queued : queued s'.record = queued s.record
  invoked : invoked s'.record = invoked s.record
  metrics : ∀ name, name ≠ connectionsTotal → s'.metrics.lookup name = s.metrics.lookup name
  objects : ∀ id, s.objects id ≠ none → s'.objects id ≠ none
  entry : ∀ fd id, s'.manager.channels.lookup fd = some id →
    s.manager.channels.lookup fd = some id ∨ s'.objects id ≠ none

theorem Known.quiet (hk : Known s) (hq : Quiet s s') (hev : ∀ e ∈ s'.events, e ∈ s.events) :
    Known s' where
  server := hq.objects _ hk.server
  entry fd id hl := by
    rcases hq.entry fd id hl with hold | hnew
    · exact hq.objects id (hk.entry fd id hold)
    · exact hnew
  pending e he := hq.objects _ (hk.pending e (hev e he))

theorem Known.tail (hk : Known s) {event : Event} {events : List Event}
    (hphase : s.phase = .batch (event :: events)) : Known { s with phase := .batch events } where
  server := hk.server
  entry := hk.entry
  pending e he := hk.pending e (Owned.mem_events hphase he)

namespace Quiet

theorem refl (s : State H) : Quiet s s :=
  ⟨rfl, rfl, fun _ _ => rfl, fun _ h => h, fun _ _ h => Or.inl h⟩

theorem trans {s'' : State H} (h : Quiet s s') (h' : Quiet s' s'') : Quiet s s'' where
  queued := h'.queued.trans h.queued
  invoked := h'.invoked.trans h.invoked
  metrics name hne := (h'.metrics name hne).trans (h.metrics name hne)
  objects id hid := h'.objects id (h.objects id hid)
  entry fd id hl := by
    rcases h'.entry fd id hl with hl' | hnew
    · rcases h.entry fd id hl' with hold | hnew
      · exact Or.inl hold
      · exact Or.inr (h'.objects id hnew)
    · exact Or.inr hnew

theorem of_record (acts : List (Act H)) (hr : s'.record = s.record ++ acts)
    (hq : Sews.Runtime.queued acts = []) (hi : Sews.Runtime.invoked acts = [])
    (hm : ∀ name, name ≠ connectionsTotal → s'.metrics.lookup name = s.metrics.lookup name)
    (ho : ∀ id, s.objects id ≠ none → s'.objects id ≠ none)
    (he : ∀ fd id, s'.manager.channels.lookup fd = some id →
      s.manager.channels.lookup fd = some id ∨ s'.objects id ≠ none) : Quiet s s' where
  queued := by rw [hr, queued_append, hq, List.append_nil]
  invoked := by rw [hr, invoked_append, hi, List.append_nil]
  metrics := hm
  objects := ho
  entry := he

theorem update_ne_none {objects : ChannelId → Option PlainTextChannel} (id : ChannelId)
    (channel : PlainTextChannel) {id' : ChannelId} (h : objects id' ≠ none) :
    Function.update objects id (some channel) id' ≠ none := by
  rw [Function.update_apply]
  split
  · simp
  · exact h

theorem closeChannel (s : State H) (id : ChannelId) : Quiet s (s.closeChannel id) := by
  cases ho : s.objects id with
  | none =>
    have hsame : s.closeChannel id = s := by rw [State.closeChannel, ho]
    rw [hsame]
    exact .refl s
  | some channel =>
    by_cases hpos : 0 ≤ channel.fd
    · rw [closeChannel_open ho hpos]
      exact of_record [.close] (by simp [State.record]) rfl rfl (fun _ _ => rfl)
        (fun _ h => update_ne_none _ _ h) (fun _ _ h => Or.inl h)
    · have hsame : s.closeChannel id = s := by
        rw [State.closeChannel, ho]
        exact if_neg hpos
      rw [hsame]
      exact .refl s

theorem clearOne (s : State H) (fd : Fd) : Quiet s (Dispatcher.clearOne s fd) := by
  rw [Dispatcher.clearOne]
  split
  · exact .refl s
  · rename_i id hl
    refine (closeChannel s id).trans (of_record [.erase] (by simp [State.record, State.log])
      rfl rfl (fun _ _ => rfl) (fun _ h => h) fun fd' id' hl' => Or.inl ?_)
    change Finmap.lookup fd' ((s.closeChannel id).manager.channels.erase fd) = some id' at hl'
    rcases eq_or_ne fd' fd with rfl | hne
    · rw [Finmap.lookup_erase] at hl'
      cases hl'
    · rwa [Finmap.lookup_erase_ne hne] at hl'

theorem foldl_clearOne : ∀ (fds : List Fd) (s : State H), Quiet s (fds.foldl Dispatcher.clearOne s) := by
  intro fds
  induction fds with
  | nil => exact fun s => .refl s
  | cons fd fds ih => exact fun s => (clearOne s fd).trans (ih _)

theorem lookup_decrement_iterate_ne {name name' : Bytes} (h : name' ≠ name) :
    ∀ (n : Nat) (metrics : Metrics),
      ((fun m => Metrics.decrement m name)^[n] metrics).lookup name' = metrics.lookup name' := by
  intro n
  induction n with
  | zero => exact fun metrics => rfl
  | succ n ih => exact fun metrics => (ih _).trans (Metrics.lookup_decrement_ne h metrics)

theorem cleanup (s : State H) (granted : Nat → Bool) : Quiet s (Dispatcher.cleanup s granted) := by
  obtain ⟨interest, heq, -⟩ := foldl_unregisterClosed granted s.manager.closedChannels.zipIdx s
  rw [Dispatcher.cleanup, Dispatcher.clear, heq]
  set t : State H := { s with
    kernel := { s.kernel with interest := interest }
    metrics := (fun m => Metrics.decrement m connectionsTotal)^[s.manager.closedChannels.zipIdx.length]
      s.metrics } with ht
  have hcount : Quiet s t := by
    refine ⟨rfl, rfl, fun name hne => ?_, fun _ h => h, fun _ _ h => Or.inl h⟩
    rw [ht]
    exact lookup_decrement_iterate_ne hne _ _
  have hclear := foldl_clearOne s.manager.closedChannels t
  have hlast : Quiet (s.manager.closedChannels.foldl Dispatcher.clearOne t)
      { (s.manager.closedChannels.foldl Dispatcher.clearOne t) with
        manager := { (s.manager.closedChannels.foldl Dispatcher.clearOne t).manager with
          closedChannels := [] }
        bytesRead := 0, phase := .top } :=
    ⟨rfl, rfl, fun _ _ => rfl, fun _ h => h, fun _ _ h => Or.inl h⟩
  exact (hcount.trans hclear).trans hlast

theorem onAccept (s : State H) (a : Answers H) : Quiet s (Dispatcher.onAccept s a) := by
  rw [Dispatcher.onAccept]
  split
  · exact .refl s
  · have hadd : Quiet s { s with
        kernel := SocketLoop.registerChannel (s.kernel.accept a.accepted s.nextId) a.accepted a.memory
        objects := Function.update s.objects s.nextId (some { fd := a.accepted, writeOffset := a.garbage })
        nextId := s.nextId + 1
        manager := s.manager.add a.accepted s.nextId
        trace := s.trace ++ [(s.nextId, .accept a.accepted)] } := by
      refine of_record [.accept a.accepted] (by simp [State.record]) rfl rfl (fun _ _ => rfl)
        (fun _ h => update_ne_none _ _ h) fun fd id hl => ?_
      change Finmap.lookup fd (Finmap.insert a.accepted s.nextId s.manager.channels) = some id at hl
      rcases eq_or_ne fd a.accepted with rfl | hne
      · rw [Finmap.lookup_insert] at hl
        cases hl
        refine Or.inr ?_
        show Function.update s.objects s.nextId _ s.nextId ≠ none
        simp
      · rw [Finmap.lookup_insert_of_ne _ hne] at hl
        exact Or.inl hl
    have hincrement : ∀ t : State H, Quiet t (t.increment connectionsTotal) := fun t =>
      ⟨rfl, rfl, fun name hne => Metrics.lookup_increment_ne hne _, fun _ h => h, fun _ _ h => Or.inl h⟩
    dsimp only
    split
    · exact hadd.trans (hincrement _)
    · exact (hadd.trans (closeChannel _ _)).trans (hincrement _)

end Quiet

theorem phase_closeChannel (s : State H) (id : ChannelId) : (s.closeChannel id).phase = s.phase := by
  rw [State.closeChannel]
  split
  · rfl
  · split <;> rfl

theorem phase_onAccept (s : State H) (a : Answers H) : (onAccept s a).phase = s.phase := by
  rw [onAccept]
  split
  · rfl
  · dsimp only [State.increment]
    split
    · rfl
    · exact phase_closeChannel _ _

/-- An event that is not for the listener, on a channel with an object. -/
theorem known_apply {flag : EventFlag} {id : ChannelId} {a : Answers H} {e : Effect H} (hk : Known s)
    (hs : (s.scratch flag a).apply id a.memory e = s') :
    Known s' ∧ s'.record = s.record ++ e.acts ∧
      s'.metrics = e.counters.foldl Metrics.increment s.metrics ∧
      (e.throws = true → s'.phase = .threw) := by
  obtain ⟨b, n, hscratch⟩ := scratch_eq s flag a
  rw [hscratch] at hs
  subst hs
  refine ⟨⟨Quiet.update_ne_none _ _ hk.server, fun fd id' hl => ?_, fun ev hev => ?_⟩, ?_, rfl, ?_⟩
  · refine Quiet.update_ne_none _ _ (hk.entry fd id' ?_)
    simp only [State.apply] at hl
    split at hl <;> exact hl
  · refine Quiet.update_ne_none _ _ (hk.pending ev ?_)
    simp only [State.apply, State.events] at hev ⊢
    by_cases ht : e.throws = true
    · rw [if_pos ht] at hev
      cases hev
    · rwa [if_neg ht] at hev
  · simp [State.record, State.apply]
  · intro ht
    exact if_pos ht

theorem known_event {flag : EventFlag} {id : ChannelId} {a : Answers H} (hk : Known s)
    (hid : s.objects id ≠ none) (hs : handleEvent s ⟨flag, id⟩ a = some s') :
    Known s' ∧
    ((s.getFd id = s.getFd serverChannel ∧ Quiet s s') ∨
      (s.getFd id ≠ s.getFd serverChannel ∧ ∃ channel e, effect channel flag a = some e ∧
        s'.record = s.record ++ e.acts ∧ s'.metrics = e.counters.foldl Metrics.increment s.metrics ∧
        (e.throws = true → s'.phase = .threw))) := by
  by_cases hserver : s.getFd id = s.getFd serverChannel
  · have haccept : handleEvent s ⟨flag, id⟩ a = some (onAccept s a) := if_pos hserver
    rw [haccept] at hs
    cases hs
    refine ⟨hk.quiet (.onAccept s a) fun e he => ?_, Or.inl ⟨hserver, .onAccept s a⟩⟩
    rwa [State.events, phase_onAccept] at he
  · obtain ⟨channel, hobj⟩ := Option.ne_none_iff_exists'.mp hid
    rw [handleEvent_client hobj (by rwa [← getFd_eq hobj])] at hs
    obtain ⟨e, he, happly⟩ := Option.map_eq_some_iff.mp hs
    obtain ⟨hk', hfacts⟩ := known_apply hk happly
    exact ⟨hk', Or.inr ⟨hserver, channel, e, he, hfacts⟩⟩

/-- **The steps from a state, whatever its descriptors.**  A step that handles an
event on a client carries out its effect, and every other step is quiet. -/
theorem quiet_or_effect (hk : Known s) (hs : step s label = some s') (hrun : s'.phase ≠ .returned) :
    Known s' ∧
    ((handled s label = none ∧ Quiet s s') ∨
      ∃ flag a channel e, handled s label = some (flag, a) ∧ effect channel flag a = some e ∧
        s'.record = s.record ++ e.acts ∧ s'.metrics = e.counters.foldl Metrics.increment s.metrics ∧
        (e.throws = true → s'.phase = .threw)) := by
  cases label with
  | poll order ready =>
    simp only [step] at hs
    split at hs
    · rename_i hc
      cases hs
      refine ⟨⟨hk.server, hk.entry, fun e he => ?_⟩,
        Or.inl ⟨rfl, rfl, rfl, fun _ _ => rfl, fun _ h => h, fun _ _ h => Or.inl h⟩⟩
      rcases List.mem_cons.mp (SocketLoop.mem_poll he).1 with hserver | hmem
      · rw [hserver]
        exact hk.server
      · obtain ⟨⟨fd, id⟩, hentry, hid⟩ := List.mem_map.mp hmem
        rw [← hid]
        exact hk.entry fd id ((hc.2.mem_iff fd id).mp hentry)
    · cases hs
  | event a =>
    simp only [step] at hs
    split at hs
    · rename_i ev events hphase
      have hevents : s.events = ev :: events := by rw [State.events, hphase]
      have hk' := hk.tail hphase
      have hid : s.objects ev.channel ≠ none := hk.pending ev (by rw [hevents]; exact List.mem_cons_self)
      obtain ⟨hknown, ⟨hserver, hq⟩ | ⟨hclient, channel, e, he, hfacts⟩⟩ := known_event hk' hid hs
      · refine ⟨hknown, Or.inl ⟨?_, hq.queued, hq.invoked, hq.metrics, hq.objects, hq.entry⟩⟩
        simp only [handled, hevents]
        exact if_pos hserver
      · refine ⟨hknown, Or.inr ⟨ev.flag, a, channel, e, ?_, he, hfacts⟩⟩
        simp only [handled, hevents]
        exact if_neg hclient
    · cases hs
  | cleanup granted =>
    simp only [step] at hs
    split at hs
    · cases hs
      refine ⟨hk.quiet (.cleanup s granted) ?_, Or.inl ⟨rfl, .cleanup s granted⟩⟩
      intro e he
      cases he
    · cases hs
  | stop order granted =>
    simp only [step] at hs
    split at hs
    · cases hs
      exact absurd rfl hrun
    · cases hs

/-! ### Whole runs -/

theorem lookup_foldl_count {name : Bytes} {type : MetricType} : ∀ (counters : List Bytes)
    (metrics : Metrics) (n : Nat), metrics.lookup name = some ⟨UInt64.ofNat n, type⟩ →
      (counters.foldl Metrics.increment metrics).lookup name
        = some ⟨UInt64.ofNat (n + counters.count name), type⟩ := by
  intro counters
  induction counters with
  | nil => exact fun metrics n h => h
  | cons counter counters ih =>
    intro metrics n h
    rw [List.foldl_cons]
    rcases eq_or_ne counter name with rfl | hne
    · rw [List.count_cons_self, Nat.add_comm _ 1, ← Nat.add_assoc]
      refine ih _ _ ?_
      rw [Metrics.lookup_increment h, UInt64.ofNat_add]
      rfl
    · rw [List.count_cons_of_ne hne]
      exact ih _ _ ((Metrics.lookup_increment_ne hne.symm metrics).trans h)

/-- The counters of `s`, after the events `events` on clients. -/
structure Accounts (events : List (EventFlag × Answers H)) (s : State H) (total n404 n500 : Nat) :
    Prop where
  counted : s.metrics.lookup requestsTotal = some ⟨UInt64.ofNat total, .COUNTER⟩
  missing : s.metrics.lookup responses404 = some ⟨UInt64.ofNat n404, .COUNTER⟩
  failed : s.metrics.lookup responses500 = some ⟨UInt64.ofNat n500, .COUNTER⟩
  responses : (queued s.record).length = total + events.countP undecoded
  requests : total = n404 + (invoked s.record).length
  failures : n500 = events.countP undecoded + events.countP nulled
  nulls : events.countP nulled ≤ (invoked s.record).length
  bound : (queued s.record).length ≤ events.length

namespace Accounts

variable {events : List (EventFlag × Answers H)} {total n404 n500 : Nat}

theorem initial (listenFd : Fd) (memory : Bool) :
    Accounts [] (Dispatcher.initial listenFd memory ∅ : State H) 0 0 0 where
  counted := by
    show (registerMetrics ∅).lookup requestsTotal = _
    decide +kernel
  missing := by
    show (registerMetrics ∅).lookup responses404 = _
    decide +kernel
  failed := by
    show (registerMetrics ∅).lookup responses500 = _
    decide +kernel
  responses := rfl
  requests := rfl
  failures := rfl
  nulls := le_rfl
  bound := le_rfl

theorem quiet (hc : Accounts events s total n404 n500) (hq : Quiet s s') :
    Accounts events s' total n404 n500 := by
  refine ⟨?_, ?_, ?_, ?_, ?_, hc.failures, ?_, ?_⟩
  · rw [hq.metrics _ (by decide +kernel)]
    exact hc.counted
  · rw [hq.metrics _ (by decide +kernel)]
    exact hc.missing
  · rw [hq.metrics _ (by decide +kernel)]
    exact hc.failed
  · rw [hq.queued]
    exact hc.responses
  · rw [hq.invoked]
    exact hc.requests
  · rw [hq.invoked]
    exact hc.nulls
  · rw [hq.queued]
    exact hc.bound

theorem event (hc : Accounts events s total n404 n500) {event : EventFlag × Answers H} {e : Effect H}
    (hb : Booked event e) (hr : s'.record = s.record ++ e.acts)
    (hm : s'.metrics = e.counters.foldl Metrics.increment s.metrics) :
    Accounts (events ++ [event]) s' (total + e.counters.count requestsTotal)
      (n404 + e.counters.count responses404) (n500 + e.counters.count responses500) := by
  obtain ⟨hresponses, hrequests, hfailures, hnulls, hone⟩ := hb
  have htotal := hc.responses
  have hcalls := hc.requests
  have hfailed := hc.failures
  have hnulled := hc.nulls
  have hbound := hc.bound
  refine ⟨?_, ?_, ?_, ?_, ?_, ?_, ?_, ?_⟩
  · rw [hm]
    exact lookup_foldl_count _ _ _ hc.counted
  · rw [hm]
    exact lookup_foldl_count _ _ _ hc.missing
  · rw [hm]
    exact lookup_foldl_count _ _ _ hc.failed
  · rw [hr, queued_append, List.length_append, List.countP_append]
    omega
  · rw [hr, invoked_append, List.length_append]
    omega
  · rw [List.countP_append, List.countP_append]
    omega
  · rw [hr, invoked_append, List.length_append, List.countP_append]
    omega
  · rw [hr, queued_append, List.length_append, List.length_append, List.length_singleton]
    omega

end Accounts

/-- The events on clients in the steps `past`, in order, with the answers they got. -/
def clientEvents (past : List (State H × Label H)) : List (EventFlag × Answers H) :=
  past.filterMap fun made => handled made.1 made.2

theorem known_initial (listenFd : Fd) (memory : Bool) (metrics : Metrics) :
    Known (initial listenFd memory metrics : State H) where
  server := by simp [initial]
  entry fd id hl := by
    rw [lookup_initial] at hl
    cases hl
  pending e he := by cases he

theorem known_of_run {listenFd : Fd} {memory : Bool} {metrics : Metrics} {labels : List (Label H)}
    (h : Run step (fun _ _ => True) (initial listenFd memory metrics) labels s)
    (hrun : s.phase ≠ .returned) : Known s := by
  refine Run.inv (I := fun s : State H => s.phase ≠ .returned → Known s) h
    (fun _ => known_initial listenFd memory metrics) ?_ hrun
  exact fun s label s' ih _ hs hrun' => (quiet_or_effect (ih (running_of_step hs)) hs hrun').1

theorem Known.client_step (hk : Known s) {id : ChannelId} {flag : EventFlag} {events : List Event}
    {a : Answers H} (hphase : s.phase = .batch (⟨flag, id⟩ :: events))
    (hne : s.getFd id ≠ s.getFd serverChannel) (hs : step s (.event a) = some s') :
    ∃ channel e, effect channel flag a = some e ∧
      (State.scratch { s with phase := .batch events } flag a).apply id a.memory e = s' := by
  have hmem : (⟨flag, id⟩ : Event) ∈ s.events := by
    rw [State.events, hphase]
    exact List.mem_cons_self
  obtain ⟨channel, hobj⟩ := Option.ne_none_iff_exists'.mp (hk.pending _ hmem)
  simp only [step, hphase] at hs
  rw [@handleEvent_client _ { s with phase := .batch events } id channel a flag hobj
    (by rw [← getFd_eq hobj]; exact hne)] at hs
  obtain ⟨e, he, happly⟩ := Option.map_eq_some_iff.mp hs
  exact ⟨channel, e, he, happly⟩

theorem not_threw_of_step (hs : step s label = some s') : s.phase ≠ .threw := by
  intro hp
  cases label <;> simp only [step, hp] at hs <;> simp at hs

theorem accounts_of_run {listenFd : Fd} {memory : Bool} {labels : List (Label H)}
    (h : Run step (fun _ _ => True) (initial listenFd memory ∅) labels s)
    (hrun : s.phase ≠ .returned) (hthrew : s.phase ≠ .threw) :
    ∃ total n404 n500,
      Accounts (clientEvents (Run.history step (initial listenFd memory ∅) labels)) s total n404 n500 := by
  refine (Run.invHistory (I := fun past (s : State H) => s.phase ≠ .returned → Known s ∧
    (s.phase ≠ .threw → ∃ total n404 n500, Accounts (clientEvents past) s total n404 n500)) h
    (fun _ => ⟨known_initial listenFd memory ∅, fun _ => ⟨0, 0, 0, .initial listenFd memory⟩⟩) ?_
    hrun).2 hthrew
  intro past s label s' ih _ hs hrun'
  obtain ⟨hk, hcounts⟩ := ih (running_of_step hs)
  obtain ⟨hk', hstep⟩ := quiet_or_effect hk hs hrun'
  refine ⟨hk', fun hthrew => ?_⟩
  obtain ⟨total, n404, n500, hc⟩ := hcounts (not_threw_of_step hs)
  rcases hstep with ⟨hnone, hq⟩ | ⟨flag, a, channel, e, hsome, he, hr, hm, ht⟩
  · have hevents : clientEvents (past ++ [(s, label)]) = clientEvents past := by
      simp [clientEvents, hnone]
    rw [hevents]
    exact ⟨total, n404, n500, hc.quiet hq⟩
  · have hevents : clientEvents (past ++ [(s, label)]) = clientEvents past ++ [(flag, a)] := by
      simp [clientEvents, hsome]
    have hthrows : e.throws = false := Bool.eq_false_iff.mpr fun h => hthrew (ht h)
    rw [hevents]
    exact ⟨_, _, _, hc.event (booked he hthrows) hr hm⟩

/-- **The accounts balance.**  In a run from an empty metric store in which fewer
than `2 ^ 64` events on clients are handled, at the top of the loop: the responses
queued are as many as `requests_total` and the undecoded reads; `requests_total` is
`responses_404` and the handler calls; and `responses_500` is the undecoded reads
and the handler calls that returned null. -/
theorem request_accounting {listenFd : Fd} {memory : Bool} {labels : List (Label H)}
    (h : Run step (fun _ _ => True) (initial listenFd memory ∅) labels s) (htop : s.phase = .top)
    (hlt : (clientEvents (Run.history step (initial listenFd memory ∅) labels)).length < 2 ^ 64) :
    ∃ total n404 n500 : UInt64,
      s.metrics.lookup requestsTotal = some ⟨total, .COUNTER⟩ ∧
      s.metrics.lookup responses404 = some ⟨n404, .COUNTER⟩ ∧
      s.metrics.lookup responses500 = some ⟨n500, .COUNTER⟩ ∧
      (queued s.record).length = total.toNat
        + (clientEvents (Run.history step (initial listenFd memory ∅) labels)).countP undecoded ∧
      total.toNat = n404.toNat + (invoked s.record).length ∧
      n500.toNat = (clientEvents (Run.history step (initial listenFd memory ∅) labels)).countP undecoded
        + (clientEvents (Run.history step (initial listenFd memory ∅) labels)).countP nulled := by
  obtain ⟨total, n404, n500, hc⟩ := accounts_of_run h (by rw [htop]; simp) (by rw [htop]; simp)
  generalize clientEvents (Run.history step (initial listenFd memory ∅) labels) = events at hlt hc ⊢
  have hbound := hc.bound
  have hresponses := hc.responses
  have hrequests := hc.requests
  have hfailures := hc.failures
  have hnulls := hc.nulls
  -- no counter has come to its end
  have hvalue : ∀ n, n ≤ events.length → (UInt64.ofNat n).toNat = n := fun n hle =>
    UInt64.toNat_ofNat_of_lt' (Nat.lt_of_le_of_lt hle hlt)
  refine ⟨_, _, _, hc.counted, hc.missing, hc.failed, ?_, ?_, ?_⟩
  · rw [hvalue total (by omega)]
    exact hresponses
  · rw [hvalue total (by omega), hvalue n404 (by omega)]
    exact hrequests
  · rw [hvalue n500 (by omega)]
    exact hfailures

/-- A request that is handled, and bytes that are none. -/
def mixedLabels : List (Label Unit) :=
  siteLabels [getText] ++
    [.poll [⟨4, 1⟩] [⟨{ epollin := true }, 4⟩], .event { app := idleApp, read := some (ascii "GET") },
      .cleanup fun _ => true]

def mixed : State Unit :=
  (Run.exec step (fun _ _ => True) (initial 3 true ∅) mixedLabels).get (by decide +kernel)

theorem request_accounting_mixed :
    ∃ total n404 n500 : UInt64,
      mixed.metrics.lookup requestsTotal = some ⟨total, .COUNTER⟩ ∧
      mixed.metrics.lookup responses404 = some ⟨n404, .COUNTER⟩ ∧
      mixed.metrics.lookup responses500 = some ⟨n500, .COUNTER⟩ ∧
      2 = total.toNat + 1 ∧ total.toNat = n404.toNat + 1 ∧ n500.toNat = 1 + 0 := by
  have hrun : Run step (fun _ _ => True) (initial 3 true ∅) mixedLabels mixed :=
    Run.of_exec mixedLabels _ (Option.some_get _).symm
  set past := clientEvents (Run.history step (initial 3 true ∅) mixedLabels) with hpast
  have hlength : past.length < 2 ^ 64 := by decide +kernel
  have hqueued : (queued mixed.record).length = 2 := by decide +kernel
  have hinvoked : (invoked mixed.record).length = 1 := by decide +kernel
  have hundecoded : past.countP undecoded = 1 := by decide +kernel
  have hnulled : past.countP nulled = 0 := by decide +kernel
  have haccounts := request_accounting hrun (by decide +kernel) hlength
  rwa [← hpast, hqueued, hinvoked, hundecoded, hnulled] at haccounts

end Sews.Runtime
