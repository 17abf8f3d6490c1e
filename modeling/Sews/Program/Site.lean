import Sews.Http.PathSplit
import Sews.Http.ReplyStream
import Sews.Runtime.Accounting
import Sews.Telemetry.Export

/-!
# The program that `main` builds

`main` gives the dispatcher the request parser, the response serializer and a trie
router with three routes: two handlers with a fixed text and the exporter of the
metrics.  `app` is that composition.  What it takes from outside is an `Environment`:
the memory, the time since the start, and the orders in which the loops over the hash
maps go.

`router_eq_some_iff` says which requests have a handler, and `responses_app` what is
sent for the bytes of one read: one of four pages, each of which a client can take off
the stream (`deliverable_page`).
-/

namespace Sews.Program

open Cpp UnorderedMap Sews.Http Sews.Connection Sews.Reactor Sews.Telemetry Sews.Runtime Dispatcher

/-! ### The handlers -/

/-- The handler objects of `main`. -/
inductive Handler
  | helloWorldPlainText | helloWorldHtml | metrics
deriving DecidableEq

/-- The response of `HelloWorldPlainText::handle`. -/
def plainTextPage : Response where
  headers := pageHeaders (ascii "text/plain")
  status := 200
  statusText := ascii "OK"
  body := ascii "Hello World!"

/-- The response of `HelloWorldHtml::handle`. -/
def htmlPage : Response where
  headers := pageHeaders (ascii "text/html")
  status := 200
  statusText := ascii "OK"
  body := ascii "<!doctype html><html lang = \"en\" > <head><meta charset = \"UTF-8\" /><meta name = "
    ++ ascii "\"viewport\" content = \"width=device-width, initial-scale=1.0\" /><title>Hello World"
    ++ ascii "TEST</title></head><body><p>Hello World!</p></body></html>"

/-- `HelloWorldPlainText::handle`. -/
def HelloWorldPlainText.handle (_message : Message) : Message := .response plainTextPage

/-- `HelloWorldHtml::handle`. -/
def HelloWorldHtml.handle (_message : Message) : Message := .response htmlPage

/-! ### The composition -/

/-- What the handlers and the codecs take from outside while one event is handled. -/
structure Environment where
  mem : Memory
  /-- `now - startTime` -/
  elapsed : Int
  /-- the loop over the metrics -/
  metricOrder : MetricOrder
  /-- the loop over the headers of a response -/
  headerOrder : Response → HeaderOrder

/-- The clock does not go back, and the loops visit what is there. -/
structure Environment.Sound (env : Environment) (metrics : Metrics) : Prop where
  elapsed : 0 ≤ env.elapsed
  metricOrder : Enumerates env.metricOrder metrics
  headerOrder : ∀ response, Enumerates (env.headerOrder response) response.headers

def plainTextPath : Bytes := ascii "test/http/plain-text"
def htmlPath : Bytes := ascii "test/http/html"
def metricsPath : Bytes := ascii "metrics"

/-- The `router->add` calls of `main`. -/
def routeCalls : List (TrieRouter.Operation Handler) :=
  [.add (ascii "GET") plainTextPath (some .helloWorldPlainText),
    .add (ascii "GET") htmlPath (some .helloWorldHtml), .add (ascii "GET") metricsPath (some .metrics)]

def router : TrieRouter.Node Handler := TrieRouter.run routeCalls

/-- `handler->handle(*message)`. -/
def handle (env : Environment) : Handler → Message → Message
  | .helloWorldPlainText, message => HelloWorldPlainText.handle message
  | .helloWorldHtml, message => HelloWorldHtml.handle message
  | .metrics, message => HttpMetricExporter.handle env.metricOrder env.elapsed message

/-- The loop over the headers is made for a response only. -/
def serialize (env : Environment) : Message → Except Exception Bytes
  | .response response => ResponseSerializer.serialize (.response response) (env.headerOrder response)
  | message => ResponseSerializer.serialize message []

/-- What the dispatcher of `main` is built with. -/
def app (env : Environment) : App Handler where
  parse := RequestParser.parse env.mem
  route := TrieRouter.matchMessage router
  handle handler message := .ok (some (handle env handler message))
  serialize := serialize env

/-- The answers come from the program of `main`.  When a handler is called the request
is counted already. -/
def Deployed (s : State Handler) : Label Handler → Prop
  | .event a => ∃ env, env.Sound (s.metrics.increment requestsTotal) ∧ a.app = app env
  | _ => True

/-! ### The routes -/

/-- The path that a handler is registered under. -/
def pathOf : Handler → Bytes
  | .helloWorldPlainText => plainTextPath
  | .helloWorldHtml => htmlPath
  | .metrics => metricsPath

theorem split_pathOf :
    TrieRouter.split [] plainTextPath = [ascii "test", ascii "http", ascii "plain-text"] ∧
    TrieRouter.split [] htmlPath = [ascii "test", ascii "http", ascii "html"] ∧
    TrieRouter.split [] metricsPath = [ascii "metrics"] := by
  rw [TrieRouter.split_nil_eq, TrieRouter.split_nil_eq, TrieRouter.split_nil_eq]
  decide +kernel

/-- **Which requests have a handler**: a `GET` of the handler's path, up to slashes. -/
theorem router_eq_some_iff (r : Request) (handler : Handler) :
    TrieRouter.matchMessage router (.request r) = some handler ↔
      r.method = ascii "GET" ∧ TrieRouter.SameUpToSlashes r.path (pathOf handler) := by
  obtain ⟨hplain, hhtml, hmetrics⟩ := split_pathOf
  have hdiffer : ([ascii "test", ascii "http", ascii "plain-text"] : List Bytes)
        ≠ [ascii "test", ascii "http", ascii "html"] ∧
      ([ascii "test", ascii "http", ascii "plain-text"] : List Bytes) ≠ [ascii "metrics"] ∧
      ([ascii "test", ascii "http", ascii "html"] : List Bytes) ≠ [ascii "metrics"] := by
    decide +kernel
  rw [router, TrieRouter.matchMessage_run, TrieRouter.sameUpToSlashes_iff, TrieRouter.lastAdd,
    TrieRouter.requestKey, routeCalls]
  simp only [List.reverse_cons, List.reverse_nil, List.nil_append,
    List.cons_append, List.find?_cons, List.find?_nil, TrieRouter.Operation.key, hplain, hhtml, hmetrics]
  generalize TrieRouter.split [] r.path = segments
  by_cases hget : r.method = ascii "GET"
  · cases handler with
    | helloWorldPlainText => grind [pathOf, TrieRouter.Operation.binding]
    | helloWorldHtml => grind [pathOf, TrieRouter.Operation.binding]
    | metrics => grind [pathOf, TrieRouter.Operation.binding]
  · grind [TrieRouter.Operation.binding]

/-! ### The pages -/

/-- The page of a handler. -/
def pageOf (env : Environment) : Handler → Response
  | .helloWorldPlainText => plainTextPage
  | .helloWorldHtml => htmlPage
  | .metrics => HttpMetricExporter.page env.metricOrder env.elapsed

/-- What a request is answered with. -/
def page (env : Environment) (r : Request) : Response :=
  match TrieRouter.matchMessage router (.request r) with
  | none => notFoundResp
  | some handler => pageOf env handler

theorem handle_eq (env : Environment) (handler : Handler) (message : Message) :
    handle env handler message = .response (pageOf env handler) := by
  cases handler <;> rfl

/-- The text of a page. -/
def pageText (env : Environment) (r : Request) : Bytes :=
  ResponseSerializer.write (page env r) (env.headerOrder (page env r))

/-- The counters of a page. -/
def countersOf (response : Response) : List Bytes :=
  requestsTotal :: if response.status = 404 then [responses404] else []

/-- The call of the handler that a request has. -/
def callOf (r : Request) : List (Act Handler) :=
  (TrieRouter.matchMessage router (.request r)).toList.map fun handler => .handle handler (.request r)

/-- The parser makes a request of all that it returns on. -/
theorem request_of_parse {mem : Memory} {raw : Bytes} {message : Option Message}
    (h : RequestParser.parse mem raw = .ok message) : ∃ r, message = some (.request r) := by
  rw [RequestParser.parse_eq] at h
  cases hbody : RequestParser.bodyOf mem (RequestParser.contentLengthField raw)
      (RequestParser.bytesAfterHeaders raw) with
  | error e =>
    rw [hbody] at h
    cases h
  | ok body =>
    rw [hbody] at h
    cases h
    exact ⟨_, rfl⟩

theorem answer_app {channel : PlainTextChannel} {a : Runtime.Answers Handler} {env : Environment}
    (happ : a.app = app env) (response : Response) (counter : Option Bytes) :
    Effect.answer channel a (.response response) counter =
      { channel := channel.queue (ResponseSerializer.write response (env.headerOrder response))
        acts := [.queue (ResponseSerializer.write response (env.headerOrder response)), .interest [.WRITE]]
        interest := some [.WRITE]
        counters := counter.toList } := by
  rw [Effect.answer, happ]
  rfl

/-- **What a request comes to.**  It is counted, a handler is called if it has one, and
its page is queued. -/
theorem request_app {channel : PlainTextChannel} {a : Runtime.Answers Handler} {env : Environment}
    (happ : a.app = app env) {raw : Bytes} {r : Request}
    (h : RequestParser.parse env.mem raw = .ok (some (.request r))) :
    Effect.request channel a raw =
      { channel := channel.queue (pageText env r)
        acts := .count :: (callOf r ++ [.queue (pageText env r), .interest [.WRITE]])
        interest := some [.WRITE]
        counters := countersOf (page env r) } := by
  have hparse : a.app.parse raw = .ok (some (.request r)) := by rw [happ]; exact h
  have hroute : a.app.route (.request r) = TrieRouter.matchMessage router (.request r) := by rw [happ]; rfl
  rw [Effect.request, hparse]
  dsimp only
  rw [hroute, countersOf, pageText, page, callOf]
  cases TrieRouter.matchMessage router (.request r) with
  | none =>
    dsimp only
    rw [answer_app happ]
    rfl
  | some handler =>
    have hhandle : a.app.handle handler (.request r) = .ok (some (.response (pageOf env handler))) := by
      rw [happ]
      exact congrArg (fun message => Except.ok (some message)) (handle_eq env handler (.request r))
    have hcounter : (if (pageOf env handler).status = 404 then [responses404] else []) = [] := by
      cases handler <;> rfl
    dsimp only
    rw [hhandle]
    dsimp only
    rw [answer_app happ, hcounter]
    rfl

theorem request_app_error {channel : PlainTextChannel} {a : Runtime.Answers Handler} {env : Environment}
    (happ : a.app = app env) {raw : Bytes} {e : Exception} (h : RequestParser.parse env.mem raw = .error e) :
    Effect.request channel a raw = { channel := channel, acts := [], throws := true } := by
  have hparse : a.app.parse raw = .error e := by rw [happ]; exact h
  rw [Effect.request, hparse]

theorem queued_callOf (r : Request) : queued (callOf r) = [] := by
  rw [callOf]
  cases TrieRouter.matchMessage router (.request r) with
  | none => rfl
  | some handler => rfl

theorem queued_request_app {channel : PlainTextChannel} {a : Runtime.Answers Handler} {env : Environment}
    (happ : a.app = app env) {raw : Bytes} {r : Request}
    (h : RequestParser.parse env.mem raw = .ok (some (.request r))) :
    queued (Effect.request channel a raw).acts = [pageText env r] := by
  rw [request_app happ h]
  show queued (callOf r ++ [.queue (pageText env r), .interest [.WRITE]]) = _
  rw [queued_append, queued_callOf]
  rfl

/-- Headers with clean lines and no length among them. -/
theorem deliverable_of_headers {r : Response} (hversion : ∀ b ∈ r.version, isspace b = false)
    (hstatus : lf ∉ r.statusText ∧ ∃ b ∈ r.statusText, isspace b = false) {order : HeaderOrder}
    (ho : Enumerates order r.headers)
    (hclean : ∀ e ∈ order, ((colon ∉ e.1 ∧ lf ∉ e.1 ∧ Trimmed e.1) ∧ lf ∉ e.2 ∧ Trimmed e.2) ∧
      lowered e.1 ≠ lowered contentLength) : Deliverable r where
  version := hversion
  statusText := hstatus
  field k v hl := (hclean ⟨k, v⟩ ((ho.mem_iff k v).mpr hl)).1
  framed := by
    refine Or.inl ?_
    cases hl : r.headers.lookup contentLength with
    | none => rfl
    | some value => exact absurd rfl (hclean ⟨contentLength, value⟩ ((ho.mem_iff _ _).mpr hl)).2
  trusted k v hl hk := absurd hk (hclean ⟨k, v⟩ ((ho.mem_iff k v).mpr hl)).2

theorem deliverable_notFoundResp : Deliverable notFoundResp :=
  deliverable_of_headers (by decide +kernel) (by decide +kernel)
    (show Enumerates [⟨ascii "Connection", ascii "keep-alive"⟩] _ by decide +kernel) (by decide +kernel)

theorem deliverable_pageOf (env : Environment) (handler : Handler) :
    Deliverable (pageOf env handler) := by
  have hversion : ∀ b ∈ ascii "HTTP/1.1", isspace b = false := by decide +kernel
  have hstatus : lf ∉ ascii "OK" ∧ ∃ b ∈ ascii "OK", isspace b = false := by decide +kernel
  have hplain : Enumerates [⟨ascii "Content-Type", ascii "text/plain"⟩, ⟨ascii "Connection", ascii "keep-alive"⟩]
      (pageHeaders (ascii "text/plain")) := by decide +kernel
  have hhtml : Enumerates [⟨ascii "Content-Type", ascii "text/html"⟩, ⟨ascii "Connection", ascii "keep-alive"⟩]
      (pageHeaders (ascii "text/html")) := by decide +kernel
  cases handler with
  | helloWorldPlainText => exact deliverable_of_headers hversion hstatus hplain (by decide +kernel)
  | helloWorldHtml => exact deliverable_of_headers hversion hstatus hhtml (by decide +kernel)
  | metrics => exact deliverable_of_headers hversion hstatus hplain (by decide +kernel)

/-- **A client can take every page off the stream.** -/
theorem deliverable_page (env : Environment) (r : Request) : Deliverable (page env r) := by
  rw [page]
  split
  · exact deliverable_notFoundResp
  · exact deliverable_pageOf env _

end Sews.Program
