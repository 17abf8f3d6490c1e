import Sews.Runtime.Accounting

/-!
# Which requests are answered

A handler returns a message, and the dispatcher looks at it for null only.  The
encoder looks at its type, and gives the empty string for what is no response.
Nobody looks at that: it is queued, and the request stays without an answer.

What is queued is sent only if epoll watches the connection for `WRITE`, which it is
asked for once, with the answer: a failure of `epoll_ctl` is logged.

`answered_iff` says for every request of every run that a response is left for it
exactly when the handler returned one, or null, or there was no handler
(`Answerable`), and epoll can be made to watch the connection for `WRITE`
(`Rearmable`).  `request_unanswered` is a run in which a handler returns the request
it was given.
-/

namespace Sews.Runtime

open Cpp Sews.Http Sews.Connection Sews.Reactor Sews.Telemetry Dispatcher

variable {H : Type} {s s' : State H} {a : Answers H} {id : ChannelId} {r : Request}

/-- The encoder is `ResponseSerializer`, which visits the headers of a response in
some order. -/
def Encoding : Label H → Prop
  | .event a => ∀ message, ∃ order, a.app.serialize message = ResponseSerializer.serialize message order
  | _ => True

/-- The next event is a `READ` on the client `id`, and the decoder makes the request
`r` of the bytes that are read. -/
def Requested (s : State H) (a : Answers H) (id : ChannelId) (r : Request) : Prop :=
  (∃ events, s.phase = .batch (⟨.READ, id⟩ :: events)) ∧
  s.getFd id ≠ s.getFd serverChannel ∧ decoded .READ a = some (.ok (some (.request r)))

/-- The step from `s` to `s'` leaves one serialized response queued on `id`, none of it
sent, and epoll watching the connection for `WRITE`. -/
def LeavesResponse (s : State H) (a : Answers H) (id : ChannelId) (s' : State H) : Prop :=
  ∃ response channel acts, s'.objects id = some channel ∧ channel.writeOffset = 0 ∧
    channel.writeBuffer ≠ [] ∧ a.app.serialize (.response response) = .ok channel.writeBuffer ∧
    s'.acts id = s.acts id ++ acts ∧ queued acts = [channel.writeBuffer] ∧
    acts.getLast? = some (.interest [.WRITE]) ∧
    s'.kernel.interest (s.getFd id) = some { epollout := true }

/-- The request finds no handler, or its handler returns null or a response. -/
def Answerable (app : App H) (r : Request) : Prop :=
  match app.route (.request r) with
  | none => True
  | some handler =>
    match app.handle handler (.request r) with
    | .ok none => True
    | .ok (some (.response _)) => True
    | _ => False

/-- The `EPOLL_CTL_MOD` that asks for `WRITE` succeeds, or epoll watches the connection for
`WRITE` alone already. -/
def Rearmable (s : State H) (a : Answers H) (id : ChannelId) : Prop :=
  (a.memory = true ∧ s.kernel.interest (s.getFd id) ≠ none) ∨
    s.kernel.interest (s.getFd id) = some { epollout := true }

/-! ### The responses of the encoder -/

theorem write_ne_nil (response : Response) (order : HeaderOrder) :
    ResponseSerializer.write response order ≠ [] := by
  unfold ResponseSerializer.write
  simp

theorem serialized_response (henc : Encoding (.event a)) (response : Response) :
    ∃ text, a.app.serialize (.response response) = .ok text ∧ text ≠ [] ∧
      serialized a.app (.response response) = [text] := by
  obtain ⟨order, heq⟩ := henc (.response response)
  refine ⟨_, heq, write_ne_nil response order, ?_⟩
  rw [serialized, heq]
  rfl

theorem serialized_other (henc : Encoding (.event a)) {message : Message}
    (hno : ∀ response, message ≠ .response response) :
    serialized a.app message = [[]] ∨ serialized a.app message = [] := by
  obtain ⟨order, heq⟩ := henc message
  rw [serialized, heq]
  cases message with
  | response response => exact absurd rfl (hno response)
  | request r => exact Or.inl rfl
  | other type payload =>
    cases type with
    | HttpResponse => exact Or.inr rfl
    | HttpRequest => exact Or.inl rfl
    | Unknown => exact Or.inl rfl

/-- **What a request is answered with.**  One response that is not empty, if it is
answerable, and otherwise an empty one or none. -/
theorem responsesTo_iff (henc : Encoding (.event a)) (r : Request) :
    (∃ response text, a.app.serialize (.response response) = .ok text ∧ text ≠ [] ∧
      responsesTo a.app r = [text]) ↔ Answerable a.app r := by
  unfold responsesTo Answerable
  cases a.app.route (.request r) with
  | none => exact iff_of_true ⟨notFoundResp, serialized_response henc notFoundResp⟩ trivial
  | some handler =>
    dsimp only
    cases a.app.handle handler (.request r) with
    | error e =>
      refine iff_of_false ?_ id
      rintro ⟨response, text, -, -, heq⟩
      cases heq
    | ok result =>
      cases result with
      | none => exact iff_of_true ⟨errorResponse, serialized_response henc errorResponse⟩ trivial
      | some message =>
        have hother : (∀ response, message ≠ .response response) →
            ¬ ∃ response text, a.app.serialize (.response response) = .ok text ∧ text ≠ [] ∧
              serialized a.app message = [text] := by
          rintro hno ⟨response, text, -, hne, heq⟩
          rcases serialized_other henc hno with hempty | hnone
          · rw [hempty] at heq
            exact hne (List.cons.inj heq).1.symm
          · rw [hnone] at heq
            cases heq
        cases message with
        | response response => exact iff_of_true ⟨response, serialized_response henc response⟩ trivial
        | request q => exact iff_of_false (hother (by simp)) id
        | other type payload => exact iff_of_false (hother (by simp)) id

/-! ### One event -/

/-- What an effect leaves, whatever the descriptors. -/
theorem apply_facts {flag : EventFlag} {e : Effect H}
    (hs : (s.scratch flag a).apply id a.memory e = s') :
    s'.objects = Function.update s.objects id (some e.channel) ∧ s'.acts id = s.acts id ++ e.acts ∧
      ∀ events, e.interest = some events → s'.kernel.interest (s.getFd id)
        = if a.memory = true ∧ s.kernel.interest (s.getFd id) ≠ none then some (SocketLoop.flagsOf events)
          else s.kernel.interest (s.getFd id) := by
  obtain ⟨b, n, hscratch⟩ := scratch_eq s flag a
  rw [hscratch] at hs
  subst hs
  refine ⟨rfl, ?_, fun events he => ?_⟩
  · show actsOf (s.trace ++ e.acts.map fun act => (id, act)) id = _
    rw [actsOf_append, actsOf_map, if_pos rfl]
    rfl
  · have hkernel : (State.apply { s with buffer := b, bytesRead := n } id a.memory e).kernel
        = SocketLoop.updateEvents (s.kernel.write (s.getFd id) e.written) (s.getFd id) events a.memory := by
      simp only [State.apply, he]
      rfl
    rw [hkernel, SocketLoop.updateEvents, Kernel.ctlMod, Kernel.interest_write]
    split
    · exact Function.update_self ..
    · rw [Kernel.interest_write]

theorem queued_read {channel : PlainTextChannel}
    (hd : decoded .READ a = some (.ok (some (.request r)))) :
    queued (Effect.read channel a).acts = responsesTo a.app r := by
  rw [Effect.read]
  cases hdel : Effect.delivered a with
  | none => simp [decoded, hdel] at hd
  | some raw =>
    cases raw with
    | nil => simp [decoded, hdel] at hd
    | cons b raw =>
      simp only [decoded, hdel] at hd
      show queued (Effect.request channel a (b :: raw)).acts = _
      rw [(record_request (b :: raw)).2.1, responses, Option.some.inj hd]

/-- **One request.**  It is left a response exactly when it is answerable and epoll can be
made to watch for `WRITE`. -/
theorem event_answered (hk : Known s) (hreq : Requested s a id r) (henc : Encoding (.event a))
    (hs : step s (.event a) = some s') :
    LeavesResponse s a id s' ↔ Answerable a.app r ∧ Rearmable s a id := by
  obtain ⟨⟨events, hphase⟩, hne, hd⟩ := hreq
  obtain ⟨channel, e, he, happly⟩ := hk.client_step hphase hne hs
  have hacts : queued e.acts = responsesTo a.app r := by
    cases he
    exact queued_read hd
  obtain ⟨hobjects, hrecord, hinterest⟩ := apply_facts happly
  have hself : s'.objects id = some e.channel := by rw [hobjects, Function.update_self]
  have hrecord' : s'.acts id = s.acts id ++ e.acts := hrecord
  rw [← responsesTo_iff henc, ← hacts]
  cases outcome_of_effect he with
  | marked hf => simp at hf
  | readFailed result hr =>
    -- nothing was delivered, so there is no request
    refine iff_of_false ?_ ?_
    · rintro ⟨response, channel', acts, -, -, -, -, hnew, hqueued, -⟩
      rw [hrecord'] at hnew
      rw [← List.append_cancel_left hnew] at hqueued
      cases hqueued
    · rintro ⟨⟨response, text, -, -, hone⟩, -⟩
      cases hone
  | threw raw acts counters hraw hacts' hc =>
    have hnone : queued (Act.read (some raw) :: Act.parse raw :: acts) = [] := hacts'.queued_eq
    refine iff_of_false ?_ ?_
    · rintro ⟨response, channel', acts', -, -, -, -, hnew, hqueued, -⟩
      rw [hrecord'] at hnew
      rw [← List.append_cancel_left hnew] at hqueued
      rw [hnone] at hqueued
      cases hqueued
    · rintro ⟨⟨response, text, -, -, hone⟩, -⟩
      rw [hnone] at hone
      cases hone
  | answered raw acts counters buffer hraw hacts' hc =>
    have hbuffer : queued (Act.read (some raw) :: Act.parse raw ::
        (acts ++ [Act.queue buffer, Act.interest [.WRITE]])) = [buffer] := by
      show queued (acts ++ [Act.queue buffer, Act.interest [.WRITE]]) = _
      rw [queued_append, hacts'.queued_eq]
      rfl
    have hwatched : s'.kernel.interest (s.getFd id) = some { epollout := true } ↔ Rearmable s a id := by
      refine (iff_of_eq (congrArg (· = _) (hinterest [.WRITE] rfl))).trans ?_
      rw [Rearmable]
      split
      · rename_i hmod
        exact iff_of_true rfl (Or.inl hmod)
      · rename_i hmod
        exact ⟨Or.inr, fun h => h.resolve_left hmod⟩
    rw [hbuffer]
    constructor
    · rintro ⟨response, channel', acts', -, -, hne', henc', hnew, hqueued, -, hint⟩
      rw [hrecord'] at hnew
      rw [← List.append_cancel_left hnew, hbuffer] at hqueued
      exact ⟨⟨response, _, henc', hne', hqueued⟩, hwatched.mp hint⟩
    · rintro ⟨⟨response, text, henc', hne', hone⟩, hrearm⟩
      obtain rfl : buffer = text := (List.cons.inj hone).1
      refine ⟨response, _, _, hself, rfl, hne', henc', hrecord', hbuffer, ?_, hwatched.mpr hrearm⟩
      rw [← List.cons_append, ← List.cons_append, List.getLast?_append]
      rfl

/-! ### Whole runs -/

/-- Every request in the steps `past` is left a response. -/
def AllAnswered (past : List (State H × Label H)) : Prop :=
  ∀ s a, (s, .event a) ∈ past → ∀ id r, Requested s a id r →
    ∃ s', step s (.event a) = some s' ∧ LeavesResponse s a id s'

/-- Every request in the steps `past` is answerable, and its answer can be watched for. -/
def AllAnswerable (past : List (State H × Label H)) : Prop :=
  ∀ s a, (s, .event a) ∈ past → ∀ id r, Requested s a id r → Answerable a.app r ∧ Rearmable s a id

/-- **Every request is answered, if its handler gives something to answer.**  In any
run, every request is left exactly one response, which is not empty, with epoll watching
for `WRITE`, if and only if for every request there is no handler, or the handler returns
null or a response, and epoll can be made to watch for `WRITE`. -/
theorem answered_iff {listenFd : Fd} {memory : Bool} {metrics : Metrics} {labels : List (Label H)}
    (h : Run step (fun _ _ => True) (initial listenFd memory metrics) labels s)
    (henc : ∀ label ∈ labels, Encoding label) :
    AllAnswered (Run.history step (initial listenFd memory metrics) labels) ↔
      AllAnswerable (Run.history step (initial listenFd memory metrics) labels) := by
  have hone : ∀ s a, (s, .event a) ∈ Run.history step (initial listenFd memory metrics) labels →
      ∀ id r, Requested s a id r →
        ∃ s', step s (.event a) = some s' ∧
          (LeavesResponse s a id s' ↔ Answerable a.app r ∧ Rearmable s a id) := by
    intro s a hmem id r hreq
    obtain ⟨before, s', hbefore, -, hlabel, -, hs⟩ := h.of_mem_history hmem
    have hk := known_of_run hbefore (running_of_step hs)
    exact ⟨s', hs, event_answered hk hreq (henc _ hlabel) hs⟩
  constructor
  · intro hall s a hmem id r hreq
    obtain ⟨s', hs, hiff⟩ := hone s a hmem id r hreq
    obtain ⟨s'', hs', hleft⟩ := hall s a hmem id r hreq
    cases hs.symm.trans hs'
    exact hiff.mp hleft
  · intro hall s a hmem id r hreq
    obtain ⟨s', hs, hiff⟩ := hone s a hmem id r hreq
    exact ⟨s', hs, hiff.mpr (hall s a hmem id r hreq)⟩

theorem encoding_siteLabels (reads : List Bytes) (label : Label Unit) (hmem : label ∈ siteLabels reads) :
    Encoding label := by
  have hserved := servedBy_siteLabels reads label hmem
  cases label with
  | event a =>
    have happ : a.app = siteApp := hserved
    intro message
    rw [happ]
    exact ⟨[], rfl⟩
  | poll | cleanup | stop => trivial

theorem answered_iff_site :
    AllAnswered (Run.history step (initial 3 true ∅) (siteLabels [getText])) ↔
      AllAnswerable (Run.history step (initial 3 true ∅) (siteLabels [getText])) :=
  answered_iff ((@run_served [getText] (by decide +kernel)).mono fun _ _ _ => trivial)
    (encoding_siteLabels [getText])

/-- A handler that returns the request it is given. -/
def echoApp : App Unit where
  parse := RequestParser.parse RequestParser.smallMemory
  route _ := some ()
  handle _ message := .ok (some message)
  serialize message := ResponseSerializer.serialize message []

/-- A connection with a request to be read. -/
def readyLabels : List (Label Unit) :=
  [.poll [] [⟨{ epollin := true }, 3⟩], .event { app := echoApp, accepted := 4 }, .cleanup fun _ => true,
    .poll [⟨4, 1⟩] [⟨{ epollin := true }, 4⟩]]

def ready : State Unit :=
  (Run.exec step (fun _ _ => True) (initial 3 true ∅) readyLabels).get (by decide +kernel)

theorem run_ready : Run step (fun _ _ => True) (initial 3 true ∅) readyLabels ready :=
  Run.of_exec readyLabels _ (Option.some_get _).symm

/-- The answers when the request is read. -/
def echoAnswers : Answers Unit := { app := echoApp, read := some getText }

theorem requested_ready : Requested ready echoAnswers 1 getRequest := by
  have hempty : UnorderedMap.Enumerates [] getRequest.headers := by decide
  have hparse : RequestParser.parse RequestParser.smallMemory getText = .ok (some (.request getRequest)) := by
    have happend := @parse_wellFormed_append RequestParser.smallMemory _ wellFormed_getRequest (by decide)
      [] hempty []
    rwa [List.append_nil] at happend
  have hdecoded : decoded .READ echoAnswers = some (RequestParser.parse RequestParser.smallMemory getText) :=
    rfl
  refine ⟨⟨[], by decide +kernel⟩, by decide +kernel, ?_⟩
  rw [hdecoded, hparse]

/-- The request is counted, and an empty response is queued for it. -/
theorem request_unanswered :
    Run step (fun _ _ => True) (initial 3 true ∅) readyLabels ready ∧
    Requested ready echoAnswers 1 getRequest ∧
    (step ready (.event echoAnswers)).map (fun s => (s.acts 1, s.metrics.lookup requestsTotal))
      = some ([.accept 4, .read (some getText), .parse getText, .count,
          .handle () (.request getRequest), .queue [], .interest [.WRITE]], some ⟨1, .COUNTER⟩) ∧
    ¬ AllAnswered (Run.history step (initial 3 true ∅) (readyLabels ++ [.event echoAnswers])) := by
  refine ⟨run_ready, requested_ready, by decide +kernel, fun hall => ?_⟩
  have hmem : (ready, .event echoAnswers)
      ∈ Run.history step (initial 3 true ∅) (readyLabels ++ [.event echoAnswers]) := by
    rw [run_ready.history_append]
    exact List.mem_append_right _ List.mem_cons_self
  obtain ⟨s', hs, hleft⟩ := hall ready echoAnswers hmem 1 getRequest requested_ready
  have hk := known_of_run run_ready (by decide +kernel)
  exact ((event_answered hk requested_ready (fun _ => ⟨[], rfl⟩) hs).mp hleft).1

end Sews.Runtime
