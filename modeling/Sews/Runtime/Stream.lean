import Sews.Runtime.Protocol

/-!
# What a connection is sent

The bytes a connection was sent are the responses queued for it, one after the
other, the last one possibly cut at the write offset (`Intact`).  Each step keeps
this because of the two-state protocol: a response is queued when the one before
is sent, and a flush sends what lies behind the offset.
-/

namespace Sews.Runtime

open Cpp Sews.Http Sews.Connection Sews.Reactor Sews.Telemetry Dispatcher

variable {H : Type} {s s' : State H} {label : Label H}

/-- The responses that were queued. -/
def queued (acts : List (Act H)) : List Bytes :=
  acts.filterMap fun act =>
    match act with
    | .queue serialized => some serialized
    | _ => none

theorem queued_append (acts more : List (Act H)) : queued (acts ++ more) = queued acts ++ queued more :=
  List.filterMap_append

theorem Handling.queued_eq {acts : List (Act H)} (h : Handling acts) : queued acts = [] := by
  cases h <;> rfl

/-- `sent` is the responses `responses` in order: all of them, with the write
buffer empty, or all but the last, which is the write buffer, cut at the write
offset. -/
def Intact (responses : List Bytes) (sent : Bytes) (channel : PlainTextChannel) : Prop :=
  (channel.writeBuffer = [] ∧ sent = responses.flatten) ∨
  ∃ before, responses = before ++ [channel.writeBuffer] ∧ channel.offsetAssigned = true ∧
    channel.writeOffset ≤ channel.writeBuffer.length ∧
    sent = before.flatten ++ channel.writeBuffer.take channel.writeOffset

namespace Intact

variable {responses : List Bytes} {sent : Bytes} {channel : PlainTextChannel}

theorem complete (h : Intact responses sent channel) (hempty : channel.writeBuffer = []) :
    sent = responses.flatten := by
  rcases h with ⟨-, hsent⟩ | ⟨before, hresp, -, -, hsent⟩
  · exact hsent
  · rw [hsent, hresp, hempty, List.take_nil, List.flatten_append]
    rfl

/-- What was sent and what is unsent make the responses. -/
theorem sent_unsent (h : Intact responses sent channel) : sent ++ channel.unsent = responses.flatten := by
  rcases h with ⟨hempty, rfl⟩ | ⟨before, rfl, -, -, rfl⟩
  · rw [PlainTextChannel.unsent, hempty, List.drop_nil, List.append_nil]
  · rw [PlainTextChannel.unsent, List.append_assoc, List.take_append_drop, List.flatten_append,
      List.flatten_singleton]

theorem queue (h : Intact responses sent channel) (hempty : channel.writeBuffer = [])
    (serialized : Bytes) : Intact (responses ++ [serialized]) sent (channel.queue serialized) := by
  refine Or.inr ⟨responses, rfl, rfl, Nat.zero_le _, ?_⟩
  rw [h.complete hempty]
  show _ = _ ++ serialized.take 0
  rw [List.take_zero, List.append_nil]

theorem flush (h : Intact responses sent channel) (hle : channel.writeOffset ≤ channel.writeBuffer.length)
    {results : List WriteResult}
    (hgood : PlainTextChannel.GoodWrites (channel.writeBuffer.length - channel.writeOffset) results)
    {value : Write} {channel' : PlainTextChannel} {bytes : Bytes}
    (hf : channel.flush results = some (value, channel', bytes)) :
    Intact responses (sent ++ bytes) channel' := by
  rcases PlainTextChannel.flush_spec _ _ _ _ _ hle hgood hf with ⟨-, rfl, rfl⟩ | ⟨-, count, rfl, hlt, rfl⟩
  · refine Or.inl ⟨rfl, ?_⟩
    rcases h with ⟨hempty, hsent⟩ | ⟨before, hresp, -, -, hsent⟩
    · rw [hsent, PlainTextChannel.unsent, hempty, List.drop_nil, List.append_nil]
    · rw [hsent, hresp, PlainTextChannel.unsent, List.append_assoc, List.take_append_drop,
        List.flatten_append, List.flatten_singleton]
  · rcases h with ⟨hempty, -⟩ | ⟨before, hresp, hassigned, -, hsent⟩
    · rw [hempty] at hlt
      exact absurd hlt (Nat.not_lt_zero _)
    · refine Or.inr ⟨before, hresp, hassigned, Nat.le_of_lt hlt, ?_⟩
      show _ = before.flatten ++ channel.writeBuffer.take (channel.writeOffset + count)
      rw [hsent, PlainTextChannel.unsent, List.append_assoc, List.take_add]

end Intact

/-! ### The invariant -/

/-- Every connection was sent its own responses. -/
def Streams (s : State H) : Prop :=
  ∀ id channel, id ≠ serverChannel → s.objects id = some channel →
    Intact (queued (s.acts id)) (s.kernel.sent id) channel

namespace Streams

theorem initial (listenFd : Fd) (memory : Bool) (metrics : Metrics) :
    Streams (Dispatcher.initial listenFd memory metrics : State H) := by
  intro id channel hid hobj
  rw [objects_initial hid] at hobj
  cases hobj

theorem welcome (hs : Streams s) (h : Owned s) (a : Answers H) (events : List Event) :
    Streams (s.welcome events a) := by
  intro id channel hid hobj
  rw [Owned.objects_welcome] at hobj
  rw [Owned.acts_welcome, Owned.sent_welcome]
  rcases eq_or_ne id s.nextId with rfl | hne
  · obtain ⟨-, hnone, hacts, -⟩ := h.fresh s.nextId le_rfl
    rw [if_pos rfl] at hobj
    cases hobj
    rw [hacts, hnone, if_pos rfl]
    exact Or.inl ⟨rfl, rfl⟩
  · rw [if_neg hne] at hobj
    rw [if_neg hne, List.append_nil]
    exact hs id channel hid hobj

theorem affected (hs : Streams s) (hp : Protocol s) {flag : EventFlag} {id : ChannelId}
    {channel : PlainTextChannel} {a : Answers H} {e : Effect H} {events : List Event}
    (hphase : s.phase = .batch (⟨flag, id⟩ :: events)) (hm : s.Managed id)
    (hobj : s.objects id = some channel) (hout : Outcome channel a flag e)
    (ha : Affected s id events a.memory e s') (hwrites : SaneWrites s a.writes) : Streams s' := by
  intro id' channel' hid hobj'
  rw [ha.objects] at hobj'
  rw [ha.acts, ha.sent]
  rcases eq_or_ne id' id with rfl | hne
  · rw [Function.update_self] at hobj'
    cases hobj'
    have hintact := hs id' channel hid hobj
    have hmode := hp id' channel hm hobj
    obtain ⟨hpend, -⟩ := pending_cons hphase
    have hgood := hwrites.good hphase hobj
    rw [Function.update_self, if_pos rfl, queued_append]
    cases hout with
    | marked hf => simpa [queued] using hintact
    | readFailed result hr => simpa [queued, Effect.fail] using hintact
    | threw raw acts counters hraw hacts hc =>
      have hnone : queued (Act.read (some raw) :: Act.parse raw :: acts) = [] := hacts.queued_eq
      rw [hnone, List.append_nil, List.append_nil]
      exact hintact
    | answered raw acts counters serialized hraw hacts hc =>
      have hone : queued (Act.read (some raw) :: Act.parse raw ::
          (acts ++ [Act.queue serialized, Act.interest [.WRITE]])) = [serialized] := by
        show queued (acts ++ [Act.queue serialized, Act.interest [.WRITE]]) = _
        rw [queued_append, hacts.queued_eq]
        rfl
      rw [hone, List.append_nil]
      exact hintact.queue (hmode.of_read hpend).1.2 serialized
    | flushed result channel'' bytes flags hf hr =>
      have hnone : queued [Act.flush result, (Act.interest [flags] : Act H)] = [] := rfl
      rw [hnone, List.append_nil]
      exact hintact.flush (hmode.of_write hpend).1.2.2 hgood hf
    | flushFailed channel'' bytes hf =>
      have hnone : queued ([Act.flush .FAILED] ++ [Act.mark, (Act.interest [.ERROR] : Act H)]) = [] := rfl
      simp only [Effect.fail]
      rw [hnone, List.append_nil]
      exact hintact.flush (hmode.of_write hpend).1.2.2 hgood hf
  · rw [Function.update_of_ne hne] at hobj' ⊢
    rw [if_neg hne, List.append_nil]
    exact hs id' channel' hid hobj'

theorem swept (hs : Streams s) (hw : Swept s s') : Streams s' := by
  intro id channel' hid hobj'
  rw [hw.objects] at hobj'
  obtain ⟨channel, hobj, rfl⟩ := Option.map_eq_some_iff.mp hobj'
  have hintact := hs id channel hid hobj
  have hacts : queued (s'.acts id) = queued (s.acts id) := by
    rw [hw.acts, queued_append]
    split <;> exact List.append_nil _
  rw [hacts, hw.sent]
  split
  · exact hintact
  · exact hintact

theorem moves (hs : Streams s) (h : Owned s) (hp : Protocol s) (hreg : Regular s label)
    (hm : Moves s label s') : Streams s' := by
  cases hm with
  | poll order ready htop horder => exact hs
  | refused a flag events hphase hneg => exact hs
  | accepted a flag events hphase hpos hfree => exact hs.welcome h a events
  | client a flag id events channel e s' hphase hm hobj he ha =>
    exact hs.affected hp hphase hm hobj (outcome_of_effect he) ha hreg.2.2
  | cleanup granted s' hphase hw => exact hs.swept hw
  | stop order granted s' htop hstop =>
    intro id channel hid hobj
    rw [hstop.objects id hid] at hobj
    rw [hstop.acts id hid, hstop.sent]
    exact hs id channel hid hobj

end Streams

theorem streams_of_run {listenFd : Fd} {memory : Bool} {metrics : Metrics} {labels : List (Label H)}
    (hfd : 0 ≤ listenFd) (h : Run step Regular (initial listenFd memory metrics) labels s) :
    Streams s := by
  refine Run.invWith (I := Streams) h (fun _ _ hr => protocol_of_run hfd hr)
    (.initial listenFd memory metrics) ?_
  intro s label s' hprotocol ih hreg hs
  obtain ⟨hown, hp⟩ := hprotocol (running_of_step hs)
  exact ih.moves hown hp hreg (moves_of_step hown hreg.1 hs)

/-- **The response streams are intact.**  In every state of a run, the bytes
written to a connection are the serialized responses queued for it, in order and
complete, except that the last one may still be in the write buffer, and then it
is cut at the write offset. -/
theorem streams_intact {listenFd : Fd} {memory : Bool} {metrics : Metrics}
    {labels : List (Label H)} {s : State H} (hfd : 0 ≤ listenFd)
    (h : Run step Regular (initial listenFd memory metrics) labels s) {id : ChannelId}
    {channel : PlainTextChannel} (hid : id ≠ serverChannel) (hobj : s.objects id = some channel) :
    Intact (queued (s.acts id)) (s.kernel.sent id) channel :=
  streams_of_run hfd h id channel hid hobj

theorem streams_intact_partway :
    ∃ channel, partway.objects 1 = some channel ∧
      Intact (queued (partway.acts 1)) (partway.kernel.sent 1) channel := by
  obtain ⟨channel, hobj⟩ : ∃ channel, partway.objects 1 = some channel :=
    Option.isSome_iff_exists.mp (by decide +kernel)
  exact ⟨channel, hobj, streams_intact (by decide) run_partway (by decide) hobj⟩

end Sews.Runtime
