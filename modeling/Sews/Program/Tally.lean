import Sews.Program.Delivery
import Sews.Runtime.GaugeDrift

/-!
# What the metrics say

The parser makes a request of whatever it returns on, and no handler of the program
returns null, so the three `500` fallbacks of the dispatcher are never taken
(`served_effect`).  The counters are then known from the pages: every page is counted as
a request, the `404` pages once more, and nothing as a failure (`program_tally`).  The
kernel has no part in this, whatever it returns.

`metrics_page` is what comes of it: the page of `metrics`, as a client reads it.
-/

namespace Sews.Program

open Cpp UnorderedMap Sews.Http Sews.Connection Sews.Reactor Sews.Telemetry Sews.Runtime Dispatcher

variable {s s' : State Handler} {label : Label Handler} {id : ChannelId}

theorem count_countersOf (response : Response) :
    (countersOf response).count requestsTotal = 1 ∧
      (countersOf response).count responses404 = if response.status = 404 then 1 else 0 := by
  rw [countersOf]
  split
  · decide +kernel
  · decide +kernel

/-! ### Whole runs -/

/-- The metrics of the program. -/
def metricNames : List Bytes := [requestsTotal, responses404, responses500, connectionsTotal]

/-- The counters, when the turns that read something were answered with `pages`. -/
structure Tally (turns : List (Turn Handler)) (metrics : Metrics) (pages : List Response) : Prop where
  each : List.Forall₂ PageFor (reads turns) pages
  requests : metrics.lookup requestsTotal = some ⟨UInt64.ofNat pages.length, .COUNTER⟩
  misses : metrics.lookup responses404
    = some ⟨UInt64.ofNat (pages.countP fun response => response.status = 404), .COUNTER⟩
  failures : metrics.lookup responses500 = some ⟨0, .COUNTER⟩
  names : ∀ name, name ∉ metricNames → metrics.lookup name = none

namespace Tally

variable {turns : List (Turn Handler)} {metrics metrics' : Metrics} {pages : List Response}

theorem registered : Tally [] (registerMetrics ∅) [] where
  each := .nil
  requests := by decide +kernel
  misses := by decide +kernel
  failures := by decide +kernel
  names name hname := by
    have hne : name ≠ requestsTotal ∧ name ≠ responses404 ∧ name ≠ responses500 ∧ name ≠ connectionsTotal := by
      simpa [metricNames] using hname
    obtain ⟨h1, h2, h3, h4⟩ := hne
    have hone : ∀ (metrics : Metrics) (name' : Bytes) (type : MetricType), name ≠ name' →
        (metrics.registerMetric name' type).lookup name = metrics.lookup name := by
      intro metrics name' type hne
      rw [Metrics.registerMetric]
      split
      · rfl
      · exact Finmap.lookup_insert_of_ne _ hne
    rw [registerMetrics, hone _ _ _ h4, hone _ _ _ h3, hone _ _ _ h2, hone _ _ _ h1, Finmap.lookup_empty]

theorem quiet (h : Tally turns metrics pages)
    (hm : ∀ name, name ≠ connectionsTotal → metrics'.lookup name = metrics.lookup name) :
    Tally turns metrics' pages where
  each := h.each
  requests := (hm _ (by decide +kernel)).trans h.requests
  misses := (hm _ (by decide +kernel)).trans h.misses
  failures := (hm _ (by decide +kernel)).trans h.failures
  names name hname := by
    refine (hm name ?_).trans (h.names name hname)
    rintro rfl
    exact hname (by simp [metricNames])

theorem silent (h : Tally turns metrics pages) {turn : Turn Handler}
    (hchunk : chunkOf turn.flag turn.answers = none) : Tally (turns ++ [turn]) metrics pages where
  each := by
    rw [Served.reads_append, if_pos hchunk, List.append_nil]
    exact h.each
  requests := h.requests
  misses := h.misses
  failures := h.failures
  names := h.names

theorem counted (h : Tally turns metrics pages) {turn : Turn Handler} {response : Response}
    (hchunk : chunkOf turn.flag turn.answers ≠ none) (hpage : PageFor turn response) :
    Tally (turns ++ [turn]) ((countersOf response).foldl Metrics.increment metrics) (pages ++ [response]) where
  each := by
    rw [Served.reads_append, if_neg hchunk]
    exact List.rel_append h.each (.cons hpage .nil)
  requests := by
    rw [lookup_foldl_count _ _ _ h.requests, List.length_append, (count_countersOf response).1]
    rfl
  misses := by
    rw [lookup_foldl_count _ _ _ h.misses, List.countP_append, List.countP_singleton,
      (count_countersOf response).2]
    simp only [decide_eq_true_eq]
  failures := by
    refine (lookup_foldl_increment _ _ ?_).trans h.failures
    rw [countersOf]
    split <;> decide +kernel
  names name hname := by
    refine (lookup_foldl_increment _ _ fun hmem => hname ?_).trans (h.names name hname)
    rw [countersOf] at hmem
    split at hmem <;> simp_all [metricNames]

end Tally

theorem status_pages {answered : List (Turn Handler)} {pages : List Response}
    (h : List.Forall₂ PageFor answered pages) :
    ∀ response ∈ pages, response.status = 404 ∨ response.status = 200 := by
  induction h with
  | nil => simp
  | cons hpage _ ih =>
    obtain ⟨env, raw, r, s', -, -, -, -, rfl, -⟩ := hpage
    refine List.forall_mem_cons.mpr ⟨?_, ih⟩
    rw [page]
    cases TrieRouter.matchMessage router (.request r) with
    | none => exact Or.inl rfl
    | some handler => cases handler <;> exact Or.inr rfl

theorem handled_eq_none (h : turnOf (s, label) = none) : handled s label = none := by
  cases label with
  | poll | cleanup | stop => rfl
  | event a =>
    rw [turnOf] at h
    rw [handled]
    cases hevents : s.events with
    | nil => rfl
    | cons event events =>
      simp only [hevents] at h
      by_cases hserver : s.getFd event.channel = s.getFd serverChannel
      · exact if_pos hserver
      · rw [if_neg hserver] at h
        cases h

theorem Tally.step {past : List (State Handler × Label Handler)} {pages : List Response}
    (ht : Tally (turns past) s.metrics pages) (hk : Known s) (hdeployed : Deployed s label)
    (hs : step s label = some s') (hrun : s'.phase ≠ .returned) (hthrew : s'.phase ≠ .threw) :
    ∃ pages, Tally (turns (past ++ [(s, label)])) s'.metrics pages := by
  rw [turns_append]
  cases hturn : turnOf (s, label) with
  | none =>
    have hnone : turns [(s, label)] = [] := by simp [turns, hturn]
    rcases (quiet_or_effect hk hs hrun).2 with ⟨-, hq⟩ | ⟨flag, a, channel, e, hsome, -⟩
    · rw [hnone, List.append_nil]
      exact ⟨pages, ht.quiet hq.metrics⟩
    · rw [handled_eq_none hturn] at hsome
      cases hsome
  | some turn =>
    have hone : turns [(s, label)] = [turn] := by simp [turns, hturn]
    obtain ⟨heq, -, -⟩ := eq_of_turnOf hturn
    cases heq
    rw [hone]
    rcases served_turn hk hdeployed hturn hs with ⟨hchunk, -, hm⟩ | ⟨hthrows, -⟩ |
      ⟨response, text, hpage, hchunk, -, -, hm⟩
    · rw [hm]
      exact ⟨pages, ht.silent hchunk⟩
    · exact absurd hthrows hthrew
    · rw [hm]
      exact ⟨_, ht.counted hchunk hpage⟩

theorem tally_of_run {listenFd : Fd} {memory : Bool} {labels : List (Label Handler)}
    (h : Run step Deployed (initial listenFd memory ∅) labels s) (hrun : s.phase ≠ .returned)
    (hthrew : s.phase ≠ .threw) :
    ∃ pages, Tally (turns (Run.history step (initial listenFd memory ∅) labels)) s.metrics pages := by
  refine (Run.invHistory (I := fun past (s : State Handler) => s.phase ≠ .returned → Known s ∧
    (s.phase ≠ .threw → ∃ pages, Tally (turns past) s.metrics pages)) h
    (fun _ => ⟨known_initial listenFd memory ∅, fun _ => ⟨[], .registered⟩⟩) ?_ hrun).2 hthrew
  intro past s label s' ih hdeployed hs hrun'
  obtain ⟨hk, htally⟩ := ih (running_of_step hs)
  refine ⟨(quiet_or_effect hk hs hrun').1, fun hthrew => ?_⟩
  obtain ⟨pages, ht⟩ := htally (not_threw_of_step hs)
  exact ht.step hk hdeployed hs hrun' hthrew

/-- **The counters say what was served.**  In any run of the program from an empty store,
whatever the kernel does, as long as nothing is thrown: the turns that read something
read a request each and queued its page, `requests_total` is the number of the pages,
`responses_404` that of the `404` pages, every other page has the status `200`, and
`responses_500` is zero. -/
theorem program_tally {listenFd : Fd} {memory : Bool} {labels : List (Label Handler)}
    (h : Run step Deployed (initial listenFd memory ∅) labels s) (hrun : s.phase ≠ .returned)
    (hthrew : s.phase ≠ .threw) :
    ∃ pages, List.Forall₂ PageFor
        (reads (turns (Run.history step (initial listenFd memory ∅) labels))) pages ∧
      s.metrics.lookup requestsTotal = some ⟨UInt64.ofNat pages.length, .COUNTER⟩ ∧
      s.metrics.lookup responses404
        = some ⟨UInt64.ofNat (pages.countP fun response => response.status = 404), .COUNTER⟩ ∧
      s.metrics.lookup responses500 = some ⟨0, .COUNTER⟩ ∧
      ∀ response ∈ pages, response.status = 404 ∨ response.status = 200 := by
  obtain ⟨pages, ht⟩ := tally_of_run h hrun hthrew
  refine ⟨pages, ht.each, ht.requests, ht.misses, ht.failures, ?_⟩
  exact status_pages ht.each

theorem program_tally_visit :
    ∃ pages, List.Forall₂ PageFor (reads (turns visitHistory)) pages ∧ pages.length = 2 ∧
      visit.metrics.lookup requestsTotal = some ⟨UInt64.ofNat pages.length, .COUNTER⟩ ∧
      visit.metrics.lookup responses404
        = some ⟨UInt64.ofNat (pages.countP fun response => response.status = 404), .COUNTER⟩ := by
  have hrun := run_performed le_rfl (show performed 0 visitPrompts = some visit from (Option.some_get _).symm)
  have hreads : (reads (turns visitHistory)).length = 2 := by decide +kernel
  obtain ⟨pages, hpages, hrequests, hmisses, -⟩ :=
    program_tally (hrun.mono fun _ _ hok => hok.2) (by decide +kernel) (by decide +kernel)
  exact ⟨pages, hpages, hpages.length_eq.symm.trans hreads, hrequests, hmisses⟩

/-! ### The page of the metrics -/

/-- The four metrics in some order, and nothing else. -/
theorem perm_metrics {metrics : Metrics} {order : MetricOrder} (ho : Enumerates order metrics)
    (hnames : ∀ name, name ∉ metricNames → metrics.lookup name = none) {requests misses failures gauge : Metric}
    (h : metrics.lookup requestsTotal = some requests ∧ metrics.lookup responses404 = some misses ∧
      metrics.lookup responses500 = some failures ∧ metrics.lookup connectionsTotal = some gauge) :
    order.Perm [⟨requestsTotal, requests⟩, ⟨responses404, misses⟩, ⟨responses500, failures⟩,
      ⟨connectionsTotal, gauge⟩] := by
  have hkeys : metricNames.Nodup := by decide +kernel
  have hnodup : ([⟨requestsTotal, requests⟩, ⟨responses404, misses⟩, ⟨responses500, failures⟩,
      ⟨connectionsTotal, gauge⟩] : MetricOrder).Nodup := List.Nodup.of_map Sigma.fst hkeys
  refine (List.perm_ext_iff_of_nodup ho.nodupKeys.nodup hnodup).mpr ?_
  rintro ⟨name, metric⟩
  rw [ho.mem_iff]
  obtain ⟨h1, h2, h3, h4⟩ := h
  constructor
  · intro hl
    have hname : name ∈ metricNames := by
      by_contra hno
      rw [hnames name hno] at hl
      cases hl
    simp only [metricNames, List.mem_cons, List.not_mem_nil, or_false] at hname
    rcases hname with rfl | rfl | rfl | rfl
    · rw [h1] at hl; cases hl; simp
    · rw [h2] at hl; cases hl; simp
    · rw [h3] at hl; cases hl; simp
    · rw [h4] at hl; cases hl; simp
  · intro hmem
    simp only [List.mem_cons, List.not_mem_nil, or_false, Sigma.mk.injEq, heq_eq_eq] at hmem
    rcases hmem with ⟨rfl, rfl⟩ | ⟨rfl, rfl⟩ | ⟨rfl, rfl⟩ | ⟨rfl, rfl⟩ <;> assumption

theorem perm_exportedPairs {order : MetricOrder} {requests misses failures gauge : Metric}
    (h : order.Perm [⟨requestsTotal, requests⟩, ⟨responses404, misses⟩, ⟨responses500, failures⟩,
      ⟨connectionsTotal, gauge⟩]) (seconds : Nat) :
    (exportedPairs order seconds).Perm
      [(uptimeSecondsName, decimal seconds), (uptimeHumanName, humanUptime seconds),
        (requestsTotal, decimal requests.value.toNat), (responses404, decimal misses.value.toNat),
        (responses500, decimal failures.value.toNat), (connectionsTotal, decimal gauge.value.toNat)] := by
  have hlines := h.map fun metric : Σ _ : Bytes, Metric => (metric.1, decimal metric.2.value.toNat)
  exact (hlines.cons _).cons _

theorem isspace_metricNames : ∀ name ∈ metricNames, ∀ b ∈ name, isspace b = false := by decide +kernel

/-- **The lines of the export**, when the counters are those of the pages and one more. -/
theorem split_metrics {turns : List (Turn Handler)} {metrics : Metrics}
    {pages : List Response} (ht : Tally turns metrics pages) {gauge : UInt64}
    (hgauge : metrics.lookup connectionsTotal = some ⟨gauge, .GAUGE⟩) {order : MetricOrder}
    (ho : Enumerates order (metrics.increment requestsTotal)) (elapsed : Nat) :
    ∃ pairs : List (Bytes × Bytes), (splitCrlf (exportValues order elapsed)).map (·.splitOn sp)
        = (pairs.map fun pair => [pair.1, pair.2]) ++ [[[]]] ∧
      pairs.Perm
        [(uptimeSecondsName, decimal (elapsed / 1000000000)),
          (uptimeHumanName, humanUptime (elapsed / 1000000000)),
          (requestsTotal, decimal ((pages.length + 1) % 2 ^ 64)),
          (responses404, decimal ((pages.countP fun response => response.status = 404) % 2 ^ 64)),
          (responses500, decimal 0), (connectionsTotal, decimal gauge.toNat)] := by
  have hother : ∀ name, name ≠ requestsTotal →
      (metrics.increment requestsTotal).lookup name = metrics.lookup name :=
    fun name hne => Metrics.lookup_increment_ne hne metrics
  have hnames : ∀ name, name ∉ metricNames → (metrics.increment requestsTotal).lookup name = none := by
    intro name hname
    rw [hother name fun heq => hname (by rw [heq]; simp [metricNames])]
    exact ht.names name hname
  have hperm := perm_metrics ho hnames
    ⟨Metrics.lookup_increment ht.requests, (hother _ (by decide +kernel)).trans ht.misses,
      (hother _ (by decide +kernel)).trans ht.failures, (hother _ (by decide +kernel)).trans hgauge⟩
  have hspace : ∀ e ∈ order, ∀ b ∈ e.1, isspace b = false := by
    intro e he
    refine isspace_metricNames e.1 ?_
    have hmem := (hperm.map Sigma.fst).mem_iff.mp (List.mem_map_of_mem he)
    exact hmem
  refine ⟨_, split_exportValues hspace elapsed, ?_⟩
  have hpairs := perm_exportedPairs hperm (elapsed / 1000000000)
  rwa [show (UInt64.ofNat pages.length + 1).toNat = (pages.length + 1) % 2 ^ 64 by
      rw [UInt64.toNat_add, UInt64.toNat_ofNat']
      exact Nat.mod_add_mod _ _ _,
    UInt64.toNat_ofNat'] at hpairs

theorem queued_read_app {channel : PlainTextChannel} {a : Runtime.Answers Handler} {env : Environment}
    (happ : a.app = app env) {r : Request} (hd : decoded .READ a = some (.ok (some (.request r)))) :
    queued (Effect.read channel a).acts = [pageText env r] := by
  rw [Effect.read]
  cases hdel : Effect.delivered a with
  | none => simp [decoded, hdel] at hd
  | some raw =>
    cases raw with
    | nil => simp [decoded, hdel] at hd
    | cons b raw =>
      simp only [decoded, hdel, Option.some.injEq] at hd
      rw [happ] at hd
      exact queued_request_app happ hd

theorem statusLine_metrics (env : Environment) :
    (replyOf (pageOf env .metrics)).statusLine = ascii "HTTP/1.1 200 OK" := by
  have hline : (replyOf (pageOf env .metrics)).statusLine
      = (if ascii "HTTP/1.1" = [] then ascii "HTTP/1.1" else ascii "HTTP/1.1")
        ++ sp :: (decimalInt (200 : Int32).toInt ++ sp :: ascii "OK") := rfl
  rw [hline]
  decide +kernel

/-- The gauge as it is printed: the connections of the table less the repeated marks that
the finished batches have counted down, in 64 bits. -/
def printedGauge (past : List (State Handler × Label Handler)) (s : State Handler) : Nat :=
  (UInt64.ofNat s.manager.count - UInt64.ofNat (surplus past)).toNat

theorem lookup_gauge {past : List (State Handler × Label Handler)} (h : Drifted past s) :
    ∃ gauge, s.metrics.lookup connectionsTotal = some ⟨gauge, .GAUGE⟩ ∧ gauge.toNat = printedGauge past s := by
  obtain ⟨gauge, hgauge, hsum⟩ := h
  refine ⟨gauge, hgauge, ?_⟩
  rw [printedGauge, ← hsum]
  congr 1
  grind

/-- **What the page of the metrics says.**  A request for it in a run of the program from
an empty store is answered with a text that a client reads as a response whose lines are
the uptime, in whole seconds and in words, and the four metrics, each once: the pages
served before and this one, the `404` pages among them, no failures, and the gauge,
which is the connections of the table less the repeated marks that the finished batches
have counted down, all three in 64 bits. -/
theorem metrics_page {listenFd : Fd} {memory : Bool} {labels : List (Label Handler)} (hfd : 0 ≤ listenFd)
    (h : Run step (fun s label => Fresh s label ∧ Deployed s label) (initial listenFd memory ∅) labels s)
    {a : Runtime.Answers Handler} {env : Environment} (happ : a.app = app env)
    (hsound : env.Sound (s.metrics.increment requestsTotal)) {r : Request} (hreq : Requested s a id r)
    (hget : r.method = ascii "GET") (hpath : TrieRouter.SameUpToSlashes r.path metricsPath)
    (hs : step s (.event a) = some s') :
    ∃ pages text reply, ∃ pairs : List (Bytes × Bytes),
      List.Forall₂ PageFor (reads (turns (Run.history step (initial listenFd memory ∅) labels))) pages ∧
      queued (s'.acts id) = queued (s.acts id) ++ [text] ∧ readReply text = some (reply, []) ∧
      reply.statusLine = ascii "HTTP/1.1 200 OK" ∧
      (splitCrlf reply.body).map (·.splitOn sp) = (pairs.map fun pair => [pair.1, pair.2]) ++ [[[]]] ∧
      pairs.Perm
        [(uptimeSecondsName, decimal (env.elapsed.toNat / 1000000000)),
          (uptimeHumanName, humanUptime (env.elapsed.toNat / 1000000000)),
          (requestsTotal, decimal ((pages.length + 1) % 2 ^ 64)),
          (responses404, decimal ((pages.countP fun response => response.status = 404) % 2 ^ 64)),
          (responses500, decimal 0),
          (connectionsTotal,
            decimal (printedGauge (Run.history step (initial listenFd memory ∅) labels) s))] := by
  have hrun := running_of_step hs
  obtain ⟨pages, ht⟩ := tally_of_run (h.mono fun _ _ hok => hok.2) hrun (not_threw_of_step hs)
  obtain ⟨gauge, hgauge, hprinted⟩ := lookup_gauge (drifted_of_run hfd (h.mono fun _ _ hok => hok.1) hrun)
  -- the event is a `READ` on a client, whose effect answers the request
  obtain ⟨⟨events, hphase⟩, hne, hd⟩ := hreq
  have hk := known_of_run (h.mono fun _ _ _ => trivial) hrun
  obtain ⟨channel, e, he, happly⟩ := hk.client_step hphase hne hs
  obtain ⟨-, hacts, -⟩ := apply_facts happly
  have htext : queued e.acts = [pageText env r] := by
    cases he
    exact queued_read_app happ hd
  -- the page is the export
  have hpage : page env r = pageOf env .metrics := by
    rw [page, (router_eq_some_iff r .metrics).mpr ⟨hget, hpath⟩]
  obtain ⟨pairs, hsplit, hperm⟩ := split_metrics ht hgauge hsound.metricOrder env.elapsed.toNat
  rw [hprinted] at hperm
  have hread := (framed_write (deliverable_page env r) (hsound.headerOrder (page env r))).2
  refine ⟨pages, pageText env r, replyOf (page env r), pairs, ht.each, ?_, hread, ?_, ?_, hperm⟩
  · rw [hacts, queued_append, htext]
    rfl
  · rw [hpage]
    exact statusLine_metrics env
  · rw [hpage, ← hsplit, Int.toNat_of_nonneg hsound.elapsed]
    rfl

/-- The connection that got the plain text, with something more to be read. -/
def askingPrompts : List Prompt :=
  visitPrompts.take 9 ++ [.loop (.poll [⟨4, 1⟩] [⟨{ epollin := true }, 4⟩])]

noncomputable def asking : State Handler := (performed 0 askingPrompts).get (by decide +kernel)

def metricsRequest : Request where
  method := ascii "GET"
  path := ascii "/metrics"
  version := ascii "HTTP/1.1"
  body := []
  headers := ∅

/-- Twelve seconds and a half after the start. -/
noncomputable def metricsEnvironment : Environment :=
  ⟨RequestParser.smallMemory, 12500000000, metricsAt 2 0 1, someOrder⟩

noncomputable def metricsAnswers : Runtime.Answers Handler where
  app := app metricsEnvironment
  read := some (ascii "GET /metrics HTTP/1.1\r\n\r\n")

theorem metrics_page_asking :
    ∃ s' text reply, step asking (.event metricsAnswers) = some s' ∧
      queued (s'.acts 1) = queued (asking.acts 1) ++ [text] ∧ readReply text = some (reply, []) ∧
      ∃ pairs : List (Bytes × Bytes),
        (splitCrlf reply.body).map (·.splitOn sp) = (pairs.map fun pair => [pair.1, pair.2]) ++ [[[]]] ∧
        (uptimeSecondsName, decimal 12) ∈ pairs ∧ (requestsTotal, decimal 2) ∈ pairs ∧
        (connectionsTotal, decimal 1) ∈ pairs := by
  have hrun := run_performed le_rfl
    (show performed 0 askingPrompts = some asking from (Option.some_get _).symm)
  have hreads : (reads (turns (Run.history step (initial 3 true ∅)
      (askingPrompts.map (Prompt.toLabel 0))))).length = 1 := by
    decide +kernel
  have hgauge : printedGauge (Run.history step (initial 3 true ∅)
      (askingPrompts.map (Prompt.toLabel 0))) asking = 1 := by
    decide +kernel
  obtain ⟨s', hs⟩ : ∃ s', step asking (.event metricsAnswers) = some s' :=
    Option.isSome_iff_exists.mp (by decide +kernel)
  have hsound : metricsEnvironment.Sound (asking.metrics.increment requestsTotal) :=
    ⟨by decide, by decide +kernel, enumerates_someOrder⟩
  have hrequested : Requested asking metricsAnswers 1 metricsRequest :=
    ⟨⟨[], by decide +kernel⟩, by decide +kernel, by decide +kernel⟩
  obtain ⟨pages, text, reply, pairs, hpages, htext, hread, -, hsplit, hperm⟩ :=
    metrics_page (by decide) (hrun.mono fun _ _ hok => ⟨hok.1.1, hok.2⟩) rfl hsound hrequested rfl
      (.rel _ _ (.leading _)) hs
  rw [← hpages.length_eq, hreads, hgauge] at hperm
  refine ⟨s', text, reply, hs, htext, hread, pairs, hsplit, ?_, ?_, ?_⟩
  · exact hperm.mem_iff.mpr (by simp [metricsEnvironment])
  · exact hperm.mem_iff.mpr (by simp)
  · exact hperm.mem_iff.mpr (by simp)

end Sews.Program
