import Sews.Http.Parser
import Sews.Runtime.Aftermath

/-!
# `Connection: close`

The `500` responses say `Connection: close`, and a handler's response may say it
too.  The branch that handles the flush of a response does not know what it said:
after `DONE` it asks epoll for `READ` again, and marks nothing.

So the promise is kept by accident only, when something else has marked the connection
before: `promise_kept_iff`.  `promise_broken` is a run in which a client is served a
second request after a `500`.
-/

namespace Sews.Runtime

open Cpp Sews.Http Sews.Connection Sews.Reactor Sews.Telemetry Dispatcher

variable {H : Type} {s s' : State H} {label : Label H} {a : Answers H} {id : ChannelId}

/-- The text of a response with the header `Connection: close`. -/
def PromisesClose (text : Bytes) : Prop :=
  ∃ response order, UnorderedMap.Enumerates order response.headers ∧
    response.headers.lookup (ascii "Connection") = some (ascii "close") ∧
    text = ResponseSerializer.write response order

/-- The response that is being sent, going by the record: the last one that was
queued, unless it was flushed. -/
def outgoing (acts : List (Act H)) : Option Bytes :=
  acts.foldl (fun response act =>
    match act with
    | .queue serialized => some serialized
    | .flush .DONE => none
    | _ => response) none

/-- The next event is a `WRITE` on the client `id`, and the flush of a response that
promises a close reports `DONE`. -/
def PromiseDue (s : State H) (a : Answers H) (id : ChannelId) : Prop :=
  (∃ events, s.phase = .batch (⟨.WRITE, id⟩ :: events)) ∧ id ≠ serverChannel ∧
  (∃ channel, s.objects id = some channel ∧ (channel.flush a.writes).map (·.1) = some .DONE) ∧
  ∃ text, outgoing (s.acts id) = some text ∧ PromisesClose text

/-- Between `s` and `t` nothing was done on `id` but closing it, and by the top of the
loop it is closed. -/
def OnlyCloses (s : State H) (id : ChannelId) (t : State H) : Prop :=
  (t.acts id = s.acts id ∧ t.phase ≠ .top) ∨ t.acts id = s.acts id ++ [.close, .erase]

/-- A marked connection with nothing to come is closed, and nothing else happens on it. -/
theorem Aftermath.onlyCloses {t : State H} {labels : List (Label H)} (hf : Aftermath s id labels t)
    (hpend : s.pending id = []) : OnlyCloses s id t := by
  have hflags := hf.flags
  rw [hpend, List.prefix_nil, List.append_eq_nil_iff] at hflags
  have hnone : turnsOn id (Run.history step s labels) = [] := List.map_eq_nil_iff.mp hflags.1
  rcases hf.ended with ⟨-, htop, -, hacts⟩ | ⟨-, -, hacts⟩
  · rw [hnone, List.flatMap_nil, List.append_nil] at hacts
    exact Or.inl ⟨hacts, htop⟩
  · rw [hnone, List.flatMap_nil, List.append_nil] at hacts
    exact Or.inr hacts

/-! ### The flush of a response that promises a close -/

/-- A flush that reports `DONE` marks nothing, and is the last event of its report. -/
theorem step_of_due (h : Owned s) (hn : Narrow s) (hdue : PromiseDue s a id) (hfresh : Fresh s (.event a))
    (hs : step s (.event a) = some s') :
    (s'.Marked id ↔ s.Marked id) ∧ s'.pending id = [] := by
  obtain ⟨⟨events, hphase⟩, hid, ⟨channel, hobj, hdone⟩, -⟩ := hdue
  have hm := (h.managed_of_head hphase).resolve_left hid
  obtain ⟨hpend, -⟩ := pending_cons hphase
  have hrest : pendingOf events id = [] := by
    obtain ⟨hsub, hboth⟩ := hn.pending id hm
    rw [hpend] at hsub hboth
    exact List.mem_singleton.mp (rest_of_sublist hsub hboth)
  cases moves_of_step h hfresh hs with
  | refused _ flag events' hphase' hneg =>
    rw [hphase] at hphase'
    cases hphase'
    exact absurd rfl hid
  | accepted _ flag events' hphase' hpos hfree =>
    rw [hphase] at hphase'
    cases hphase'
    exact absurd rfl hid
  | client _ flag id' events' channel' e s' hphase' hm' hobj' he ha =>
    rw [hphase] at hphase'
    cases hphase'
    cases hobj.symm.trans hobj'
    have hmarks : e.marks = false := by
      cases outcome_of_effect he with
      | marked hf => simp at hf
      | flushed => rfl
      | flushFailed channel' bytes hf =>
        rw [hf] at hdone
        cases hdone
    refine ⟨?_, ?_⟩
    · rw [ha.marked_iff hm]
      simp [hmarks]
    · have hsub := pending_affected ha id
      rw [hrest] at hsub
      exact List.sublist_nil.mp hsub

/-- **When a promised close is performed.**  Let the flush of a response that says
`Connection: close` report `DONE`.  The connection is marked for closure then, and
from there on nothing is done on it but closing it, if and only if it was marked
already. -/
theorem promise_kept_iff {listenFd : Fd} {memory : Bool} {metrics : Metrics} {labels : List (Label H)}
    (hfd : 0 ≤ listenFd) (h : Run step Reported (initial listenFd memory metrics) labels s)
    (hdue : PromiseDue s a id) (hrep : Reported s (.event a)) (hs : step s (.event a) = some s') :
    (s'.Marked id ∧ ∀ more t, Run step Reported s' more t → OnlyCloses s' id t) ↔ s.Marked id := by
  have hrunning := running_of_step hs
  have hown := owned_of_run hfd (h.mono fun _ _ hok => hok.1) hrunning
  obtain ⟨hmarked, hpend⟩ := step_of_due hown (narrow_of_run hfd h hrunning) hdue hrep.1 hs
  have hm := moves_of_step hown hrep.1 hs
  refine ⟨fun hkept => hmarked.mp hkept.1, fun hmark => ⟨hmarked.mpr hmark, fun more t hmore => ?_⟩⟩
  have hown' := hown.moves hm (running_of_event hm).2
  exact (aftermath_of_run (fun _ _ hok => hok.1) hown' (hmarked.mpr hmark) (running_of_event hm).1
    hmore).onlyCloses hpend

/-- A handler that returns null, so that every request is answered with a `500`. -/
def nullApp : App Unit where
  parse := RequestParser.parse RequestParser.smallMemory
  route _ := some ()
  handle _ _ := .ok none
  serialize message := ResponseSerializer.serialize message [⟨ascii "Connection", ascii "close"⟩]

def errorText : Bytes := ResponseSerializer.write errorResponse [⟨ascii "Connection", ascii "close"⟩]

theorem promisesClose_errorText : PromisesClose errorText := by
  refine ⟨errorResponse, [⟨ascii "Connection", ascii "close"⟩], ?_, ?_, rfl⟩
  · decide +kernel
  · decide +kernel

/-- A connection that was read from, up to the wait that reports `flags` for it. -/
def failedLabels (flags : EpollFlags) : List (Label Unit) :=
  [.poll [] [⟨{ epollin := true }, 3⟩], .event { app := nullApp, accepted := 4 }, .cleanup fun _ => true,
    .poll [⟨4, 1⟩] [⟨{ epollin := true }, 4⟩], .event { app := nullApp, read := some (ascii "GET") },
    .cleanup fun _ => true, .poll [⟨4, 1⟩] [⟨flags, 4⟩]]

/-- The answers when the response is flushed. -/
def flushAnswers : Answers Unit := { app := nullApp, writes := [.written errorText.length] }

theorem promiseDue_errorText {s : State Unit} (hphase : s.phase = .batch [⟨.WRITE, 1⟩])
    (hobj : s.objects 1 = some ⟨4, 0, true, errorText⟩) (hout : outgoing (s.acts 1) = some errorText) :
    PromiseDue s flushAnswers 1 := by
  refine ⟨⟨[], hphase⟩, by decide, ⟨_, hobj, ?_⟩, errorText, hout, promisesClose_errorText⟩
  decide +kernel

/-- The connection is hung up, and the response is about to be flushed. -/
def hungUpLabels : List (Label Unit) :=
  failedLabels { epollhup := true, epollout := true } ++ [.event { app := nullApp }]

def flushedHungUp : State Unit :=
  (Run.exec step Reported (initial 3 true ∅) hungUpLabels).get (by decide +kernel)

theorem promise_kept_iff_hungUp :
    flushedHungUp.Marked 1 ∧ ∃ s', step flushedHungUp (.event flushAnswers) = some s' ∧
      ((s'.Marked 1 ∧ ∀ more t, Run step Reported s' more t → OnlyCloses s' 1 t) ↔
        flushedHungUp.Marked 1) := by
  have hrun : Run step Reported (initial 3 true ∅) hungUpLabels flushedHungUp :=
    Run.of_exec hungUpLabels _ (Option.some_get _).symm
  have hdue : PromiseDue flushedHungUp flushAnswers 1 :=
    promiseDue_errorText (by decide +kernel) (by decide +kernel) (by decide +kernel)
  have hsome : (step flushedHungUp (.event flushAnswers)).isSome := by decide +kernel
  obtain ⟨s', hs⟩ := Option.isSome_iff_exists.mp hsome
  exact ⟨by decide +kernel, s', hs, promise_kept_iff (by decide) hrun hdue (by decide +kernel) hs⟩

/-- The response is about to be flushed on a connection that is in order. -/
def due : State Unit :=
  (Run.exec step Reported (initial 3 true ∅) (failedLabels { epollout := true })).get (by decide +kernel)

/-- The response is flushed, and another request is read. -/
def brokenLabels : List (Label Unit) :=
  [.event flushAnswers, .cleanup fun _ => true,
    .poll [⟨4, 1⟩] [⟨{ epollin := true }, 4⟩], .event { app := nullApp, read := some (ascii "GET") }]

def broken : State Unit := (Run.exec step Reported due brokenLabels).get (by decide +kernel)

/-- After the flush of a response that says `Connection: close` the connection is read
from and answered again. -/
theorem promise_broken :
    Run step Reported (initial 3 true ∅) (failedLabels { epollout := true }) due ∧
      PromiseDue due flushAnswers 1 ∧ Run step Reported due brokenLabels broken ∧
      broken.acts 1 = due.acts 1 ++ [.flush .DONE, .interest [.READ], .read (some (ascii "GET")),
        .parse (ascii "GET"), .count, .handle () (.request { method := ascii "GET" }), .queue errorText,
        .interest [.WRITE]] ∧
      Act.mark ∉ broken.acts 1 := by
  refine ⟨Run.of_exec _ _ (Option.some_get _).symm, ?_, Run.of_exec brokenLabels _ (Option.some_get _).symm,
    by decide +kernel, by decide +kernel⟩
  exact promiseDue_errorText (by decide +kernel) (by decide +kernel) (by decide +kernel)

end Sews.Runtime
