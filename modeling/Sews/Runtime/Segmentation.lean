import Sews.Http.RoundTrip
import Sews.Runtime.Stream

/-!
# One read, one message

The dispatcher parses what one `read` delivered as one message and keeps nothing
of it for the next one.  So a connection's handler calls and responses are those
of its reads, one read after the other (`Answered`), and a read that begins with
a complete request has that request handled, whatever else it delivered.

Two ways of cutting a stream therefore give the same answers when their reads
begin with the same requests (`same_answers`).  They may differ otherwise: of two
requests in one read the second is lost (`pipelined_request_lost`).
-/

namespace Sews.Runtime

open Cpp Sews.Http Sews.Connection Sews.Reactor Sews.Telemetry Dispatcher

variable {H : Type} {s s' : State H} {label : Label H}

/-! ### The record of reads, handler calls and responses -/

/-- What the reads delivered that delivered something. -/
def chunks (acts : List (Act H)) : List Bytes :=
  acts.filterMap fun act =>
    match act with
    | .read (some (b :: raw)) => some (b :: raw)
    | _ => none

/-- The calls of handlers. -/
def invoked (acts : List (Act H)) : List (H × Message) :=
  acts.filterMap fun act =>
    match act with
    | .handle handler message => some (handler, message)
    | _ => none

theorem chunks_append (acts more : List (Act H)) : chunks (acts ++ more) = chunks acts ++ chunks more :=
  List.filterMap_append

theorem invoked_append (acts more : List (Act H)) :
    invoked (acts ++ more) = invoked acts ++ invoked more := List.filterMap_append

/-- A message serialized, unless that throws. -/
def serialized (app : App H) (message : Message) : List Bytes :=
  match app.serialize message with
  | .ok bytes => [bytes]
  | .error _ => []

/-- The handler call for a request, if the router has a handler. -/
def callsFor (app : App H) (r : Request) : List (H × Message) :=
  match app.route (.request r) with
  | none => []
  | some handler => [(handler, .request r)]

/-- The response to a request, unless something throws. -/
def responsesTo (app : App H) (r : Request) : List Bytes :=
  match app.route (.request r) with
  | none => serialized app (.response notFoundResp)
  | some handler =>
    match app.handle handler (.request r) with
    | .error _ => []
    | .ok none => serialized app (.response errorResponse)
    | .ok (some message) => serialized app message

/-- The handler call that the bytes of one read lead to. -/
def invocations (app : App H) (raw : Bytes) : List (H × Message) :=
  match app.parse raw with
  | .ok (some (.request r)) => callsFor app r
  | _ => []

/-- The response that the bytes of one read lead to. -/
def responses (app : App H) (raw : Bytes) : List Bytes :=
  match app.parse raw with
  | .error _ => []
  | .ok (some (.request r)) => responsesTo app r
  | .ok _ => serialized app (.response errorResponse)

/-- The record has the calls and responses its reads lead to. -/
def Answered (app : App H) (acts : List (Act H)) : Prop :=
  invoked acts = (chunks acts).flatMap (invocations app) ∧
    queued acts = (chunks acts).flatMap (responses app)

theorem Answered.append {app : App H} {acts more : List (Act H)} (h : Answered app acts)
    (h' : Answered app more) : Answered app (acts ++ more) := by
  refine ⟨?_, ?_⟩
  · rw [invoked_append, chunks_append, List.flatMap_append, h.1, h'.1]
  · rw [queued_append, chunks_append, List.flatMap_append, h.2, h'.2]

theorem answered_nil (app : App H) : Answered app [] := ⟨rfl, rfl⟩

section
variable {channel : PlainTextChannel} {a : Answers H}

theorem record_answer (response : Message) (counter : Option Bytes) (acts : List (Act H))
    (counters : List Bytes) :
    ((Effect.answer channel a response counter).after acts counters).acts
      = acts ++ (serialized a.app response).flatMap fun bytes => [.queue bytes, .interest [.WRITE]] := by
  rw [Effect.answer, Effect.after, serialized]
  cases a.app.serialize response with
  | error e => rfl
  | ok bytes => rfl

theorem queued_answer (responses : List Bytes) :
    queued (responses.flatMap fun bytes => [(.queue bytes : Act H), .interest [.WRITE]]) = responses ∧
      invoked (responses.flatMap fun bytes => [(.queue bytes : Act H), .interest [.WRITE]]) = [] ∧
      chunks (responses.flatMap fun bytes => [(.queue bytes : Act H), .interest [.WRITE]]) = [] := by
  induction responses with
  | nil => exact ⟨rfl, rfl, rfl⟩
  | cons bytes responses ih =>
    obtain ⟨hq, hi, hc⟩ := ih
    rw [List.flatMap_cons, queued_append, invoked_append, chunks_append, hq, hi, hc]
    exact ⟨rfl, rfl, rfl⟩

theorem record_after (response : Message) (counter : Option Bytes) {acts : List (Act H)}
    (hq : queued acts = []) (hc : chunks acts = []) (counters : List Bytes) :
    invoked ((Effect.answer channel a response counter).after acts counters).acts = invoked acts ∧
      queued ((Effect.answer channel a response counter).after acts counters).acts
        = serialized a.app response ∧
      chunks ((Effect.answer channel a response counter).after acts counters).acts = [] := by
  obtain ⟨hqueue, hinvoke, hchunk⟩ := @queued_answer H (serialized a.app response)
  rw [record_answer, invoked_append, queued_append, chunks_append, hqueue, hinvoke, hchunk, hq, hc]
  exact ⟨List.append_nil _, rfl, rfl⟩

theorem record_request (raw : Bytes) :
    invoked (Effect.request channel a raw).acts = invocations a.app raw ∧
      queued (Effect.request channel a raw).acts = responses a.app raw ∧
      chunks (Effect.request channel a raw).acts = [] := by
  unfold Effect.request invocations responses callsFor responsesTo
  cases a.app.parse raw with
  | error e => exact ⟨rfl, rfl, rfl⟩
  | ok message =>
    have hfallback := @record_after H channel a (.response errorResponse) (some responses500) [] rfl rfl []
    cases message with
    | none => exact hfallback
    | some message =>
      cases message with
      | response r => exact hfallback
      | other type payload => exact hfallback
      | request r =>
        dsimp only
        cases a.app.route (.request r) with
        | none => exact record_after _ _ rfl rfl _
        | some handler =>
          dsimp only
          cases a.app.handle handler (.request r) with
          | error e => exact ⟨rfl, rfl, rfl⟩
          | ok response =>
            cases response with
            | none => exact record_after _ _ rfl rfl _
            | some response => exact record_after _ _ rfl rfl _

/-- **An event answers what it reads.** -/
theorem answered_effect {flag : EventFlag} {e : Effect H} (he : effect channel flag a = some e) :
    Answered a.app e.acts := by
  cases flag with
  | HANGUP => cases he; exact ⟨rfl, rfl⟩
  | ERROR => cases he; exact ⟨rfl, rfl⟩
  | READ =>
    cases he
    rw [Effect.read]
    split
    · exact ⟨rfl, rfl⟩
    · exact ⟨rfl, rfl⟩
    · rename_i raw hraw hd
      obtain ⟨hinvoke, hqueue, hchunk⟩ := @record_request H channel a raw
      cases raw with
      | nil => exact absurd rfl hraw
      | cons b raw =>
        have hchunks : chunks ((Effect.request channel a (b :: raw)).after
            [.read (some (b :: raw)), .parse (b :: raw)] []).acts = [b :: raw] := by
          show (b :: raw) :: chunks (Effect.request channel a (b :: raw)).acts = _
          rw [hchunk]
        rw [Answered, hchunks, List.flatMap_singleton, List.flatMap_singleton]
        exact ⟨hinvoke, hqueue⟩
  | WRITE =>
    cases outcome_of_effect he with
    | marked hf => simp at hf
    | flushed => exact ⟨rfl, rfl⟩
    | flushFailed => exact ⟨rfl, rfl⟩

end

/-! ### Whole runs -/

/-- `a` is answered by `app`. -/
def ServedBy (app : App H) : Label H → Prop
  | .event a => a.app = app
  | _ => True

theorem answered_moves {app : App H} (hserved : ServedBy app label)
    (hm : Moves s label s') (ha : ∀ id, id ≠ serverChannel → Answered app (s.acts id)) :
    ∀ id, id ≠ serverChannel → Answered app (s'.acts id) := by
  intro id hid
  have hid' := ha id hid
  cases hm with
  | poll order ready htop horder => exact hid'
  | refused a flag events hphase hneg => exact hid'
  | accepted a flag events hphase hpos hfree =>
    rw [Owned.acts_welcome]
    refine hid'.append ?_
    split
    · exact ⟨rfl, rfl⟩
    · exact answered_nil app
  | client a flag id' events channel e s' hphase hm hobj he haff =>
    rw [haff.acts]
    refine hid'.append ?_
    split
    · have heq : a.app = app := hserved
      rw [← heq]
      exact answered_effect he
    · exact answered_nil app
  | cleanup granted s' hphase hw =>
    rw [hw.acts]
    refine hid'.append ?_
    split
    · exact ⟨rfl, rfl⟩
    · exact answered_nil app
  | stop order granted s' htop hstop =>
    rw [hstop.acts id hid]
    exact hid'

/-- In a run served by `app`, a connection's handler calls and responses are those
of its reads. -/
theorem answered_of_run {app : App H} {listenFd : Fd} {memory : Bool} {metrics : Metrics}
    {labels : List (Label H)} (hfd : 0 ≤ listenFd)
    (h : Run step Fresh (initial listenFd memory metrics) labels s)
    (happ : ∀ label ∈ labels, ServedBy app label) {id : ChannelId} (hid : id ≠ serverChannel) :
    Answered app (s.acts id) := by
  refine Run.invWith (I := fun s : State H => ∀ id, id ≠ serverChannel → Answered app (s.acts id))
    (J := fun s : State H => s.phase ≠ .returned → Owned s) (h.and_mem happ)
    (fun _ _ hr => owned_of_run hfd (hr.mono fun _ _ hok => hok.1)) (fun _ _ => answered_nil app) ?_ id hid
  intro s label s' hown ih hok hs
  exact answered_moves hok.2 (moves_of_step (hown (running_of_step hs)) hok.1 hs) ih

/-- The bytes of a read begin with the whole text of a request. -/
def Begins (r : Request) (raw : Bytes) : Prop :=
  ∃ order tail, UnorderedMap.Enumerates order r.headers ∧ raw = requestSerializer r order ++ tail

theorem flatMap_begins {β : Type*} {f : Bytes → List β} {g : Request → List β} :
    ∀ {rs : List Request} {reads : List Bytes}, List.Forall₂ Begins rs reads →
      (∀ r ∈ rs, ∀ raw, Begins r raw → f raw = g r) → reads.flatMap f = rs.flatMap g := by
  intro rs reads h
  induction h with
  | nil => exact fun _ => rfl
  | cons hb _ ih =>
    intro hfg
    rw [List.flatMap_cons, List.flatMap_cons, hfg _ List.mem_cons_self _ hb,
      ih fun r hr => hfg r (List.mem_cons_of_mem _ hr)]

/-- The request a read begins with is the one that is answered. -/
theorem answers_begins {app : App H} {mem : Memory} (hparse : app.parse = RequestParser.parse mem)
    {r : Request} (hr : WellFormed r) (hm : mem.CanHold r.body.length) {raw : Bytes}
    (hb : Begins r raw) : invocations app raw = callsFor app r ∧ responses app raw = responsesTo app r := by
  obtain ⟨order, tail, ho, rfl⟩ := hb
  rw [invocations, responses, hparse, parse_wellFormed_append hr hm ho tail]
  exact ⟨rfl, rfl⟩

/-- A connection whose reads begin with the requests `rs` answers these, once
each and in order. -/
theorem answers_of_begins {app : App H} {mem : Memory} (hparse : app.parse = RequestParser.parse mem)
    {rs : List Request} (hwf : ∀ r ∈ rs, WellFormed r ∧ mem.CanHold r.body.length)
    {acts : List (Act H)} (ha : Answered app acts) (hb : List.Forall₂ Begins rs (chunks acts)) :
    invoked acts = rs.flatMap (callsFor app) ∧ queued acts = rs.flatMap (responsesTo app) := by
  refine ⟨ha.1.trans (flatMap_begins hb fun r hr raw hraw => ?_),
    ha.2.trans (flatMap_begins hb fun r hr raw hraw => ?_)⟩
  · exact (answers_begins hparse (hwf r hr).1 (hwf r hr).2 hraw).1
  · exact (answers_begins hparse (hwf r hr).1 (hwf r hr).2 hraw).2

/-- **The same first requests, the same answers.**  Two connections, in any two
runs served by the same functions of the request, whose reads begin with the same
well-formed requests: the handlers of these requests are called, once for each
read, and their responses are queued.  If epoll and `write` behave, the connections
were sent the same bytes when these are sent. -/
theorem same_answers {app : App H} {mem : Memory} (hparse : app.parse = RequestParser.parse mem)
    {listenFd₁ listenFd₂ : Fd} {memory₁ memory₂ : Bool} {metrics₁ metrics₂ : Metrics}
    {labels₁ labels₂ : List (Label H)} {s₁ s₂ : State H} {id₁ id₂ : ChannelId}
    (hfd₁ : 0 ≤ listenFd₁) (hfd₂ : 0 ≤ listenFd₂)
    (h₁ : Run step Fresh (initial listenFd₁ memory₁ metrics₁) labels₁ s₁)
    (h₂ : Run step Fresh (initial listenFd₂ memory₂ metrics₂) labels₂ s₂)
    (happ₁ : ∀ label ∈ labels₁, ServedBy app label) (happ₂ : ∀ label ∈ labels₂, ServedBy app label)
    (hid₁ : id₁ ≠ serverChannel) (hid₂ : id₂ ≠ serverChannel)
    (rs : List Request) (hwf : ∀ r ∈ rs, WellFormed r ∧ mem.CanHold r.body.length)
    (hb₁ : List.Forall₂ Begins rs (chunks (s₁.acts id₁)))
    (hb₂ : List.Forall₂ Begins rs (chunks (s₂.acts id₂))) :
    invoked (s₁.acts id₁) = rs.flatMap (callsFor app) ∧
      invoked (s₂.acts id₂) = invoked (s₁.acts id₁) ∧
      queued (s₁.acts id₁) = rs.flatMap (responsesTo app) ∧
      queued (s₂.acts id₂) = queued (s₁.acts id₁) ∧
      (Run step Regular (initial listenFd₁ memory₁ metrics₁) labels₁ s₁ →
        Run step Regular (initial listenFd₂ memory₂ metrics₂) labels₂ s₂ →
        ∀ channel₁ channel₂, s₁.objects id₁ = some channel₁ → s₂.objects id₂ = some channel₂ →
          channel₁.writeBuffer = [] → channel₂.writeBuffer = [] →
            s₂.kernel.sent id₂ = s₁.kernel.sent id₁) := by
  obtain ⟨hi₁, hq₁⟩ := answers_of_begins hparse hwf (answered_of_run hfd₁ h₁ happ₁ hid₁) hb₁
  obtain ⟨hi₂, hq₂⟩ := answers_of_begins hparse hwf (answered_of_run hfd₂ h₂ happ₂ hid₂) hb₂
  have hqueued := hq₂.trans hq₁.symm
  refine ⟨hi₁, hi₂.trans hi₁.symm, hq₁, hqueued,
    fun hreg₁ hreg₂ channel₁ channel₂ hobj₁ hobj₂ he₁ he₂ => ?_⟩
  have hsent₁ := (streams_of_run hfd₁ hreg₁ id₁ channel₁ hid₁ hobj₁).complete he₁
  have hsent₂ := (streams_of_run hfd₂ hreg₂ id₂ channel₂ hid₂ hobj₂).complete he₂
  rw [hsent₁, hsent₂, hqueued]

/-- The codecs of the repository, and one handler for every request. -/
def siteApp : App Unit where
  parse := RequestParser.parse RequestParser.smallMemory
  route _ := some ()
  handle _ _ := .ok (some (.response {}))
  serialize message := ResponseSerializer.serialize message []

def getRequest : Request where
  method := ascii "GET"
  path := ascii "/"
  version := ascii "HTTP/1.1"

/-- A connection that is read from in these chunks, each answer being sent before
the next read. -/
def siteLabels (reads : List Bytes) : List (Label Unit) :=
  [.poll [] [⟨{ epollin := true }, 3⟩], .event { app := siteApp, accepted := 4 }, .cleanup fun _ => true]
    ++ reads.flatMap fun raw =>
      [.poll [⟨4, 1⟩] [⟨{ epollin := true }, 4⟩], .event { app := siteApp, read := some raw },
        .cleanup fun _ => true,
        .poll [⟨4, 1⟩] [⟨{ epollout := true }, 4⟩], .event { app := siteApp, writes := [.written 38] },
        .cleanup fun _ => true]

def served (reads : List Bytes) : State Unit :=
  (Run.exec step Regular (initial 3 true ∅) (siteLabels reads)).getD (initial 3 true ∅)

theorem run_served {reads : List Bytes}
    (h : (Run.exec step Regular (initial 3 true ∅) (siteLabels reads)).isSome) :
    Run step Regular (initial 3 true ∅) (siteLabels reads) (served reads) := by
  obtain ⟨s, hs⟩ := Option.isSome_iff_exists.mp h
  rw [served, hs]
  exact Run.of_exec _ _ hs

theorem servedBy_siteLabels (reads : List Bytes) : ∀ label ∈ siteLabels reads, ServedBy siteApp label := by
  intro label hmem
  rcases List.mem_append.mp hmem with hmem | hmem
  · simp only [List.mem_cons, List.not_mem_nil, or_false] at hmem
    rcases hmem with rfl | rfl | rfl <;> first | exact trivial | rfl
  · obtain ⟨raw, -, hmem⟩ := List.mem_flatMap.mp hmem
    simp only [List.mem_cons, List.not_mem_nil, or_false] at hmem
    rcases hmem with rfl | rfl | rfl | rfl | rfl | rfl <;> first | exact trivial | rfl

def getText : Bytes := requestSerializer getRequest []

theorem wellFormed_getRequest : WellFormed getRequest where
  method := by decide +kernel
  path := by decide +kernel
  version := by decide +kernel
  name k v h := by cases h
  value k v h := by cases h
  framed := Or.inl ⟨by decide +kernel, rfl⟩

/-- The request alone, and the request with another one behind it. -/
theorem same_answers_pipelined :
    invoked ((served [getText]).acts 1) = [((), .request getRequest)] ∧
      invoked ((served [getText ++ getText]).acts 1) = invoked ((served [getText]).acts 1) ∧
      queued ((served [getText]).acts 1) = [getRequest].flatMap (responsesTo siteApp) ∧
      queued ((served [getText ++ getText]).acts 1) = queued ((served [getText]).acts 1) ∧
      ∀ channel₁ channel₂, (served [getText]).objects 1 = some channel₁ →
        (served [getText ++ getText]).objects 1 = some channel₂ →
        channel₁.writeBuffer = [] → channel₂.writeBuffer = [] →
          (served [getText ++ getText]).kernel.sent 1 = (served [getText]).kernel.sent 1 := by
  have h₁ := @run_served [getText] (by decide +kernel)
  have h₂ := @run_served [getText ++ getText] (by decide +kernel)
  have hchunks₁ : chunks ((served [getText]).acts 1) = [getText] := by decide +kernel
  have hchunks₂ : chunks ((served [getText ++ getText]).acts 1) = [getText ++ getText] := by
    decide +kernel
  have hempty : UnorderedMap.Enumerates [] getRequest.headers := by decide
  have hwf : ∀ r ∈ [getRequest],
      WellFormed r ∧ RequestParser.smallMemory.CanHold r.body.length := by
    intro r hr
    rw [List.mem_singleton.mp hr]
    exact ⟨wellFormed_getRequest, by decide⟩
  have hbegins₁ : List.Forall₂ Begins [getRequest] (chunks ((served [getText]).acts 1)) := by
    rw [hchunks₁]
    exact .cons ⟨[], [], hempty, (List.append_nil _).symm⟩ .nil
  have hbegins₂ : List.Forall₂ Begins [getRequest] (chunks ((served [getText ++ getText]).acts 1)) := by
    rw [hchunks₂]
    exact .cons ⟨[], getText, hempty, rfl⟩ .nil
  obtain ⟨hi₁, hi₂, hq₁, hq₂, hsent⟩ := same_answers rfl (by decide) (by decide)
    (h₁.mono fun _ _ hok => hok.1) (h₂.mono fun _ _ hok => hok.1) (servedBy_siteLabels _)
    (servedBy_siteLabels _) (by decide) (by decide) [getRequest] hwf hbegins₁ hbegins₂
  exact ⟨hi₁, hi₂, hq₁, hq₂, hsent h₁ h₂⟩

/-- The same two requests, delivered by one read and by two: one of them is lost
in the first case. -/
theorem pipelined_request_lost :
    Run step Regular (initial 3 true ∅) (siteLabels [getText ++ getText]) (served [getText ++ getText]) ∧
      Run step Regular (initial 3 true ∅) (siteLabels [getText, getText]) (served [getText, getText]) ∧
      chunks ((served [getText ++ getText]).acts 1) = [getText ++ getText] ∧
      chunks ((served [getText, getText]).acts 1) = [getText, getText] ∧
      invoked ((served [getText ++ getText]).acts 1) = [((), .request getRequest)] ∧
      invoked ((served [getText, getText]).acts 1)
        = [((), .request getRequest), ((), .request getRequest)] ∧
      (served [getText ++ getText]).kernel.sent 1 ≠ (served [getText, getText]).kernel.sent 1 := by
  refine ⟨run_served (by decide +kernel), run_served (by decide +kernel), ?_, ?_, ?_, ?_, ?_⟩
  · decide +kernel
  · decide +kernel
  · decide +kernel
  · decide +kernel
  · decide +kernel

/-- A request that is cut in two is taken for two others. -/
theorem split_request_misread :
    Run step Regular (initial 3 true ∅) (siteLabels [getText.take 5, getText.drop 5])
        (served [getText.take 5, getText.drop 5]) ∧
      (chunks ((served [getText.take 5, getText.drop 5]).acts 1)).flatten = getText ∧
      (invoked ((served [getText.take 5, getText.drop 5]).acts 1)).length = 2 ∧
      ((), .request getRequest) ∉ invoked ((served [getText.take 5, getText.drop 5]).acts 1) := by
  refine ⟨run_served (by decide +kernel), ?_, ?_, ?_⟩
  · decide +kernel
  · decide +kernel
  · decide +kernel

end Sews.Runtime
