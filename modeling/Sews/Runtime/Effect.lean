import Sews.Runtime.Dispatcher

/-!
# What one event does to a client

The handling of an event on a client is decided by three things: the channel
object, the flag, and the answers of the outside.  `effect` is that decision, as
a function of nothing else, and `State.apply` carries an effect out on the whole
state: on the client's own object, its own entry in the interest list, the list
of marks, the metrics, and the trace.

`handleEvent_client` says that the dispatcher does exactly this.  The shared
read buffer and `bytesRead` change on the way (`State.scratch`), but nothing of
them is left in the effect: the bytes handed to the parser are those this `read`
delivered.
-/

namespace Sews.Runtime

open Cpp Sews.Http Sews.Connection Sews.Reactor Sews.Telemetry

variable {H : Type}

/-- What the handling of one event does to the client it is for. -/
structure Effect (H : Type) where
  channel : PlainTextChannel
  acts : List (Act H)
  written : Bytes := []
  interest : Option (List EventFlag) := none
  marks : Bool := false
  counters : List Bytes := []
  throws : Bool := false

namespace Effect

/-- An effect that comes after some records and some counts. -/
def after (acts : List (Act H)) (counters : List Bytes) (e : Effect H) : Effect H :=
  { e with acts := acts ++ e.acts, counters := counters ++ e.counters }

/-- A failed read or write, or a report of failure by epoll. -/
def fail (channel : PlainTextChannel) (acts : List (Act H)) : Effect H where
  channel := channel
  acts := acts ++ [.mark, .interest [.ERROR]]
  interest := some [.ERROR]
  marks := true

/-- Answering with `response`. -/
def answer (channel : PlainTextChannel) (a : Answers H) (response : Message)
    (counter : Option Bytes) : Effect H :=
  match a.app.serialize response with
  | .error _ => { channel := channel, acts := [], throws := true }
  | .ok serialized =>
    { channel := channel.queue serialized
      acts := [.queue serialized, .interest [.WRITE]]
      interest := some [.WRITE]
      counters := counter.toList }

/-- What a read of the bytes `raw`, of which there is at least one, leads to. -/
def request (channel : PlainTextChannel) (a : Answers H) (raw : Bytes) : Effect H :=
  match a.app.parse raw with
  | .error _ => { channel := channel, acts := [], throws := true }
  | .ok none => answer channel a (.response errorResponse) (some responses500)
  | .ok (some message) =>
    match message with
    | .request _ =>
      match a.app.route message with
      | none =>
        (answer channel a (.response notFoundResp) (some responses404)).after [.count] [requestsTotal]
      | some handler =>
        match a.app.handle handler message with
        | .error _ =>
          { channel := channel, acts := [.count, .handle handler message]
            counters := [requestsTotal], throws := true }
        | .ok none =>
          (answer channel a (.response errorResponse) (some responses500)).after
            [.count, .handle handler message] [requestsTotal]
        | .ok (some response) =>
          (answer channel a response none).after [.count, .handle handler message] [requestsTotal]
    | _ => answer channel a (.response errorResponse) (some responses500)

/-- The bytes one `read` delivers. -/
def delivered (a : Answers H) : Option Bytes := a.read.map (·.take bufferSize)

def read (channel : PlainTextChannel) (a : Answers H) : Effect H :=
  match delivered a with
  | none => fail channel [.read none]
  | some [] => fail channel [.read (some [])]
  | some raw => (request channel a raw).after [.read (some raw), .parse raw] []

def write (channel : PlainTextChannel) (a : Answers H) : Option (Effect H) :=
  match channel.flush a.writes with
  | none => none
  | some (result, channel', bytes) =>
    match result with
    | .DONE => some { channel := channel', written := bytes
                      acts := [.flush .DONE, .interest [.READ]], interest := some [.READ] }
    | .WOULDBLOCK => some { channel := channel', written := bytes
                            acts := [.flush .WOULDBLOCK, .interest [.WRITE]]
                            interest := some [.WRITE] }
    | .FAILED => some { fail channel' [.flush .FAILED] with written := bytes }

end Effect

/-- What an event on a client does to it. -/
def effect (channel : PlainTextChannel) (flag : EventFlag) (a : Answers H) : Option (Effect H) :=
  match flag with
  | .HANGUP => some { channel := channel, acts := [.mark], marks := true }
  | .ERROR => some { channel := channel, acts := [.mark], marks := true }
  | .READ => some (Effect.read channel a)
  | .WRITE => Effect.write channel a

namespace State

/-- An effect, carried out on the channel object `id`. -/
def apply (s : State H) (id : ChannelId) (memory : Bool) (e : Effect H) : State H :=
  { s with
    kernel :=
      match e.interest with
      | none => s.kernel.write (s.getFd id) e.written
      | some events =>
        SocketLoop.updateEvents (s.kernel.write (s.getFd id) e.written) (s.getFd id) events memory
    objects := Function.update s.objects id (some e.channel)
    manager := if e.marks then s.manager.remove (s.getFd id) else s.manager
    metrics := e.counters.foldl Metrics.increment s.metrics
    phase := if e.throws then .threw else s.phase
    trace := s.trace ++ e.acts.map fun act => (id, act) }

/-- The read buffer and `bytesRead` after an event. -/
def scratch (s : State H) (flag : EventFlag) (a : Answers H) : State H :=
  match flag, a.read with
  | .READ, none => { s with bytesRead := -1 }
  | .READ, some bytes =>
    { s with bytesRead := (bytes.take bufferSize).length
             buffer := bytes.take bufferSize ++ s.buffer.drop (bytes.take bufferSize).length }
  | _, _ => s

end State

theorem scratch_eq (s : State H) (flag : EventFlag) (a : Answers H) :
    ∃ b n, s.scratch flag a = { s with buffer := b, bytesRead := n } := by
  unfold State.scratch
  split
  · exact ⟨s.buffer, -1, rfl⟩
  · exact ⟨_, _, rfl⟩
  · exact ⟨s.buffer, s.bytesRead, rfl⟩

/-! ### The dispatcher carries out effects -/

theorem write_nil (k : Kernel) (fd : Fd) : k.write fd [] = k := by
  rw [Kernel.write]
  cases h : k.files fd with
  | none => rfl
  | some socket =>
    dsimp only
    rw [List.append_nil, Function.update_eq_self]

section
variable {s : State H} {id : ChannelId} {channel : PlainTextChannel} {a : Answers H}

theorem getFd_eq_getD (s : State H) (id : ChannelId) :
    s.getFd id = ((s.objects id).map (·.fd)).getD (-1) := by
  rw [State.getFd]
  cases s.objects id <;> rfl

theorem getFd_eq (h : s.objects id = some channel) : s.getFd id = channel.fd := by
  rw [State.getFd, h]

theorem update_self_object (h : s.objects id = some channel) :
    Function.update s.objects id (some channel) = s.objects := by
  rw [← h, Function.update_eq_self]

theorem getFd_update {s' : State H} {channel' : PlainTextChannel}
    (h : s'.objects = Function.update s.objects id (some channel')) :
    s'.getFd id = channel'.fd := by
  rw [State.getFd, h, Function.update_self]

open Dispatcher Effect

/-- The state after some records and counts. -/
def State.note (s : State H) (id : ChannelId) (acts : List (Act H)) (counters : List Bytes) :
    State H :=
  { s with metrics := counters.foldl Metrics.increment s.metrics
           trace := s.trace ++ acts.map fun act => (id, act) }

theorem apply_note (acts : List (Act H)) (counters : List Bytes) (memory : Bool) (e : Effect H) :
    (s.note id acts counters).apply id memory e = s.apply id memory (e.after acts counters) := by
  unfold State.apply State.note after
  simp only [List.map_append, List.append_assoc, List.foldl_append]
  rfl

theorem throw_eq (h : s.objects id = some channel) (memory : Bool) :
    s.throw = s.apply id memory { channel := channel, acts := [], throws := true } := by
  rw [State.throw, State.apply]
  simp [write_nil, update_self_object h]

theorem respond_eq (h : s.objects id = some channel) (response : Message) (counter : Option Bytes) :
    respond s id a response counter = s.apply id a.memory (answer channel a response counter) := by
  rw [respond, answer]
  cases a.app.serialize response with
  | error e => exact throw_eq h a.memory
  | ok serialized =>
    have hfd : State.getFd ((s.setChannel id (channel.queue serialized)).log id (.queue serialized)) id
        = channel.fd := by
      rw [@getFd_update _ s _ _ _ rfl]
      rfl
    cases counter with
    | none =>
      simp only [h, State.updateEvents, hfd, State.apply, getFd_eq h, write_nil]
      simp [State.setChannel, State.log]
    | some name =>
      simp only [h, State.updateEvents, hfd, State.apply, getFd_eq h, write_nil]
      simp [State.setChannel, State.log, State.increment]

theorem fail_eq (h : s.objects id = some channel) (memory : Bool) :
    (s.mark id).updateEvents id [.ERROR] memory = s.apply id memory (fail channel []) := by
  have hfd : State.getFd (s.mark id) id = channel.fd := by
    rw [State.getFd, show (s.mark id).objects id = s.objects id from rfl, h]
  simp only [State.updateEvents, hfd, State.apply, fail, getFd_eq h, write_nil, update_self_object h]
  simp [State.mark, State.log, getFd_eq h]

theorem request_eq (h : s.objects id = some channel) (raw : Bytes) :
    (match a.app.parse raw with
      | .error _ => s.throw
      | .ok none => respond s id a (.response errorResponse) (some responses500)
      | .ok (some message) =>
        match message with
        | .request _ =>
          match a.app.route message with
          | none => respond ((s.increment requestsTotal).log id .count) id a (.response notFoundResp)
              (some responses404)
          | some handler =>
            match a.app.handle handler message with
            | .error _ =>
              (((s.increment requestsTotal).log id .count).log id (.handle handler message)).throw
            | .ok none => respond
                (((s.increment requestsTotal).log id .count).log id (.handle handler message)) id a
                (.response errorResponse) (some responses500)
            | .ok (some response) => respond
                (((s.increment requestsTotal).log id .count).log id (.handle handler message)) id a
                response none
        | _ => respond s id a (.response errorResponse) (some responses500))
      = s.apply id a.memory (Effect.request channel a raw) := by
  rw [Effect.request]
  have hcount : (s.increment requestsTotal).log id .count = s.note id [.count] [requestsTotal] := rfl
  have hhandle : ∀ handler message,
      ((s.increment requestsTotal).log id .count).log id (.handle handler message)
        = s.note id [.count, .handle handler message] [requestsTotal] := by
    intro handler message
    simp [State.log, State.increment, State.note]
  cases a.app.parse raw with
  | error e => exact throw_eq h a.memory
  | ok message =>
    cases message with
    | none => exact respond_eq h _ _
    | some message =>
      cases message with
      | response r => exact respond_eq h _ _
      | other type payload => exact respond_eq h _ _
      | request r =>
        dsimp only
        cases a.app.route (.request r) with
        | none =>
          dsimp only
          rw [hcount, ← apply_note]
          exact @respond_eq _ (s.note id [.count] [requestsTotal]) _ _ _ h _ _
        | some handler =>
          dsimp only
          rw [hhandle]
          cases a.app.handle handler (.request r) with
          | error e =>
            exact (@throw_eq _ (s.note id _ [requestsTotal]) _ _ h a.memory).trans (apply_note _ _ _ _)
          | ok response =>
            cases response with
            | none =>
              dsimp only
              rw [← apply_note]
              exact @respond_eq _ (s.note id _ [requestsTotal]) _ _ _ h _ _
            | some response =>
              dsimp only
              rw [← apply_note]
              exact @respond_eq _ (s.note id _ [requestsTotal]) _ _ _ h _ _

theorem readRaw_eq (s : State H) (id : ChannelId) (a : Answers H) :
    s.readRaw id a.read = (s.scratch .READ a).note id [.read (delivered a)] [] := by
  unfold State.readRaw State.scratch delivered State.note
  cases a.read with
  | none => rfl
  | some bytes => rfl

theorem onRead_eq (h : s.objects id = some channel) :
    onRead s id a = (s.scratch .READ a).apply id a.memory (Effect.read channel a) := by
  have hsame : (s.scratch .READ a).objects id = some channel := by
    unfold State.scratch
    split <;> exact h
  have hfailed : (((s.scratch .READ a).note id [.read (delivered a)] []).mark id).updateEvents id
      [.ERROR] a.memory = (s.scratch .READ a).apply id a.memory (fail channel [.read (delivered a)]) :=
    (@fail_eq _ ((s.scratch .READ a).note id [.read (delivered a)] []) _ _ hsame a.memory).trans
      (apply_note _ _ _ _)
  rw [onRead, readRaw_eq]
  generalize ht : (s.scratch .READ a).note id [.read (delivered a)] [] = t at hfailed ⊢
  cases hr : a.read with
  | none =>
    have hd : delivered a = none := by rw [delivered, hr]; rfl
    have hb : t.bytesRead = -1 := by
      subst ht
      simp only [State.note, State.scratch, hr]
    dsimp only
    rw [if_neg (by omega), if_pos (by omega), hfailed]
    simp only [Effect.read, hd]
  | some bytes =>
    have hd : delivered a = some (bytes.take bufferSize) := by rw [delivered, hr]; rfl
    have hb : t.bytesRead = (bytes.take bufferSize).length := by
      subst ht
      simp only [State.note, State.scratch, hr]
    have hbuf : t.buffer = bytes.take bufferSize ++ s.buffer.drop (bytes.take bufferSize).length := by
      subst ht
      simp only [State.note, State.scratch, hr]
    dsimp only
    cases hraw : bytes.take bufferSize with
    | nil =>
      rw [hraw] at hd hb
      rw [if_pos (by rw [hb]; rfl), hfailed]
      simp only [Effect.read, hd]
    | cons b raw =>
      rw [hraw] at hd hb hbuf
      have htake : t.buffer.take t.bytesRead.toNat = b :: raw := by
        rw [hb, hbuf, Int.toNat_natCast, List.take_left]
      have hnote : t.log id (.parse (b :: raw))
          = (s.scratch .READ a).note id [.read (some (b :: raw)), .parse (b :: raw)] [] := by
        rw [← ht, hd]
        simp [State.note, State.log]
      rw [List.length_cons] at hb
      rw [if_neg (by omega), if_neg (by omega), htake, hnote]
      simp only [Effect.read, hd]
      rw [← apply_note]
      exact @request_eq _ ((s.scratch .READ a).note id _ []) _ _ _ hsame (b :: raw)

theorem onWrite_eq (h : s.objects id = some channel) :
    onWrite s id a = (Effect.write channel a).map (s.apply id a.memory) := by
  rw [onWrite, Effect.write, h]
  dsimp only
  cases hf : channel.flush a.writes with
  | none => rfl
  | some r =>
    obtain ⟨result, channel', bytes⟩ := r
    have hfd' : channel'.fd = channel.fd := PlainTextChannel.flush_fd _ _ _ _ _ hf
    have hfd : State.getFd ((({ s with kernel := s.kernel.write channel.fd bytes } : State H).setChannel
        id channel').log id (.flush result)) id = channel.fd := by
      rw [@getFd_update _ s _ _ _ rfl, hfd']
    cases result with
    | DONE =>
      simp only [Option.map_some, State.updateEvents, hfd, State.apply, getFd_eq h]
      simp [State.setChannel, State.log]
    | WOULDBLOCK =>
      simp only [Option.map_some, State.updateEvents, hfd, State.apply, getFd_eq h]
      simp [State.setChannel, State.log]
    | FAILED =>
      simp only [Option.map_some, State.updateEvents, State.mark, hfd, State.apply, getFd_eq h, fail]
      simp [State.setChannel, State.log, State.getFd, hfd']

/-- **An event on a client has its effect and nothing more.** -/
theorem handleEvent_client {flag : EventFlag} (h : s.objects id = some channel)
    (hne : channel.fd ≠ s.getFd serverChannel) :
    handleEvent s ⟨flag, id⟩ a
      = (effect channel flag a).map ((s.scratch flag a).apply id a.memory) := by
  rw [handleEvent]
  rw [if_neg (by rw [getFd_eq h]; exact hne)]
  have hmark : s.mark id = s.apply id a.memory { channel := channel, acts := [.mark], marks := true } := by
    rw [State.apply, State.mark]
    simp [write_nil, update_self_object h, State.log]
  cases flag with
  | HANGUP => exact congrArg some hmark
  | ERROR => exact congrArg some hmark
  | READ => exact congrArg some (onRead_eq h)
  | WRITE => exact onWrite_eq h

theorem phase_apply (s : State H) (events : List Event) (flag : EventFlag) (a : Answers H) (id : ChannelId)
    (e : Effect H) : ((State.scratch { s with phase := .batch events } flag a).apply id a.memory e).phase
      = if e.throws then .threw else .batch events := by
  obtain ⟨b, n, hscratch⟩ := scratch_eq { s with phase := .batch events } flag a
  rw [hscratch]
  rfl

end

/-! ### What an effect can be -/

/-- What is recorded between the parser and the answer. -/
inductive Handling : List (Act H) → Prop
  | rejected : Handling []
  | unrouted : Handling [.count]
  | routed (handler : H) (message : Message) : Handling [.count, .handle handler message]

/-- The outcomes of an event on `channel`: it is marked, a read fails, an answer
is thrown away by an exception, an answer is queued, a flush makes progress, or a
flush fails. -/
inductive Outcome (channel : PlainTextChannel) (a : Answers H) : EventFlag → Effect H → Prop
  | marked {flag : EventFlag} (h : flag = .HANGUP ∨ flag = .ERROR) :
      Outcome channel a flag { channel := channel, acts := [.mark], marks := true }
  | readFailed (result : Option Bytes) (h : result = none ∨ result = some []) :
      Outcome channel a .READ (Effect.fail channel [.read result])
  | threw (raw : Bytes) (acts : List (Act H)) (counters : List Bytes) (hraw : raw ≠ [])
      (hacts : Handling acts) (hc : connectionsTotal ∉ counters) :
      Outcome channel a .READ
        { channel := channel, acts := .read (some raw) :: .parse raw :: acts
          counters := counters, throws := true }
  | answered (raw : Bytes) (acts : List (Act H)) (counters : List Bytes) (serialized : Bytes)
      (hraw : raw ≠ []) (hacts : Handling acts) (hc : connectionsTotal ∉ counters) :
      Outcome channel a .READ
        { channel := channel.queue serialized
          acts := .read (some raw) :: .parse raw :: (acts ++ [.queue serialized, .interest [.WRITE]])
          interest := some [.WRITE], counters := counters }
  | flushed (result : Write) (channel' : PlainTextChannel) (bytes : Bytes) (flags : EventFlag)
      (h : channel.flush a.writes = some (result, channel', bytes))
      (hr : result = .DONE ∧ flags = .READ ∨ result = .WOULDBLOCK ∧ flags = .WRITE) :
      Outcome channel a .WRITE
        { channel := channel', written := bytes, acts := [.flush result, .interest [flags]]
          interest := some [flags] }
  | flushFailed (channel' : PlainTextChannel) (bytes : Bytes)
      (h : channel.flush a.writes = some (.FAILED, channel', bytes)) :
      Outcome channel a .WRITE { Effect.fail channel' [.flush .FAILED] with written := bytes }

section
variable {channel : PlainTextChannel} {a : Answers H}

/-- An answer after the acts `acts` either throws or is queued. -/
theorem answer_cases (response : Message) (counter : Option Bytes) (acts : List (Act H))
    (counters : List Bytes) (hc : connectionsTotal ∉ counters ++ counter.toList) :
    ∃ counters', connectionsTotal ∉ counters' ∧
      ((Effect.answer channel a response counter).after acts counters
          = { channel := channel, acts := acts, counters := counters', throws := true } ∨
        ∃ serialized, (Effect.answer channel a response counter).after acts counters
          = { channel := channel.queue serialized
              acts := acts ++ [.queue serialized, .interest [.WRITE]]
              interest := some [.WRITE], counters := counters' }) := by
  rw [Effect.answer, Effect.after]
  cases a.app.serialize response with
  | error e =>
    refine ⟨counters, fun h => hc (List.mem_append_left _ h), Or.inl ?_⟩
    simp
  | ok serialized => exact ⟨counters ++ counter.toList, hc, Or.inr ⟨serialized, rfl⟩⟩

theorem request_cases (raw : Bytes) :
    ∃ acts counters, Handling acts ∧ connectionsTotal ∉ counters ∧
      (Effect.request channel a raw
          = { channel := channel, acts := acts, counters := counters, throws := true } ∨
        ∃ serialized, Effect.request channel a raw
          = { channel := channel.queue serialized
              acts := acts ++ [.queue serialized, .interest [.WRITE]]
              interest := some [.WRITE], counters := counters }) := by
  have h500 : connectionsTotal ∉ [] ++ (some responses500).toList := by decide
  rw [Effect.request]
  cases a.app.parse raw with
  | error e => exact ⟨[], [], .rejected, by decide, Or.inl rfl⟩
  | ok message =>
    cases message with
    | none =>
      obtain ⟨counters, hc, he⟩ := answer_cases (.response errorResponse) (some responses500) [] [] h500
      exact ⟨[], counters, .rejected, hc, he⟩
    | some message =>
      cases message with
      | response r =>
        obtain ⟨counters, hc, he⟩ :=
          answer_cases (.response errorResponse) (some responses500) [] [] h500
        exact ⟨[], counters, .rejected, hc, he⟩
      | other type payload =>
        obtain ⟨counters, hc, he⟩ :=
          answer_cases (.response errorResponse) (some responses500) [] [] h500
        exact ⟨[], counters, .rejected, hc, he⟩
      | request r =>
        dsimp only
        cases a.app.route (.request r) with
        | none =>
          obtain ⟨counters, hc, he⟩ := answer_cases (.response notFoundResp) (some responses404)
            [.count] [requestsTotal] (by decide)
          exact ⟨[.count], counters, .unrouted, hc, he⟩
        | some handler =>
          dsimp only
          cases a.app.handle handler (.request r) with
          | error e => exact ⟨_, [requestsTotal], .routed handler (.request r), by decide, Or.inl rfl⟩
          | ok response =>
            cases response with
            | none =>
              obtain ⟨counters, hc, he⟩ := answer_cases (.response errorResponse) (some responses500)
                [.count, .handle handler (.request r)] [requestsTotal] (by decide)
              exact ⟨_, counters, .routed handler (.request r), hc, he⟩
            | some response =>
              obtain ⟨counters, hc, he⟩ := answer_cases response none
                [.count, .handle handler (.request r)] [requestsTotal] (by decide)
              exact ⟨_, counters, .routed handler (.request r), hc, he⟩

theorem outcome_of_effect {flag : EventFlag} {e : Effect H} (h : effect channel flag a = some e) :
    Outcome channel a flag e := by
  cases flag with
  | HANGUP => cases h; exact .marked (Or.inl rfl)
  | ERROR => cases h; exact .marked (Or.inr rfl)
  | READ =>
    cases h
    rw [Effect.read]
    split
    · exact .readFailed none (Or.inl rfl)
    · exact .readFailed (some []) (Or.inr rfl)
    · rename_i raw hne hd
      obtain ⟨acts, counters, hacts, hc, he | ⟨serialized, he⟩⟩ := @request_cases _ channel a raw
      · rw [he]
        exact .threw raw acts counters hne hacts hc
      · rw [he]
        exact .answered raw acts counters serialized hne hacts hc
  | WRITE =>
    change Effect.write channel a = some e at h
    unfold Effect.write at h
    cases hf : channel.flush a.writes with
    | none => rw [hf] at h; cases h
    | some r =>
      obtain ⟨result, channel', bytes⟩ := r
      rw [hf] at h
      cases result with
      | DONE => cases h; exact .flushed .DONE channel' bytes .READ hf (Or.inl ⟨rfl, rfl⟩)
      | WOULDBLOCK => cases h; exact .flushed .WOULDBLOCK channel' bytes .WRITE hf (Or.inr ⟨rfl, rfl⟩)
      | FAILED => cases h; exact .flushFailed channel' bytes hf

end
end Sews.Runtime
