import Sews.Program.Site
import Sews.Runtime.Answering
import Sews.Runtime.Turns

/-!
# What a client reads

The whole way from the bytes that are read on a connection to the responses that its
client reads.  A turn that reads something is answered with the page that the program
has for it then (`PageFor`), so a connection has as many pages as such turns, in the same
order (`Served`), unless the handling of the last one threw.  The texts of the pages are
what was queued, what was queued is what is sent, as far as the write offset, and what is
sent is self-delimiting.

`client_reads` is that chain: at every moment of a run on a kernel that behaves, a client
that has got some of the bytes sent to it reads the first of its pages, whole and in
order.
-/

namespace Sews.Program

open Cpp UnorderedMap Sews.Http Sews.Connection Sews.Reactor Sews.Telemetry Sews.Runtime Dispatcher

variable {s s' : State Handler} {label : Label Handler} {id : ChannelId}

/-- The bytes that an event reads, if it reads any. -/
def chunkOf (flag : EventFlag) (a : Runtime.Answers Handler) : Option Bytes :=
  match flag, Effect.delivered a with
  | .READ, some (b :: raw) => some (b :: raw)
  | _, _ => none

/-- The turns that read something. -/
def reads (turns : List (Turn Handler)) : List (Turn Handler) :=
  turns.filter fun turn => (chunkOf turn.flag turn.answers).isSome

/-- The turn reads a request, `response` is the page that the program has for it at that
moment, and the step queues the text of the page on the connection. -/
def PageFor (turn : Turn Handler) (response : Response) : Prop :=
  ∃ env raw r s', turn.answers.app = app env ∧ env.Sound (turn.before.metrics.increment requestsTotal) ∧
    chunkOf turn.flag turn.answers = some raw ∧
    RequestParser.parse env.mem raw = .ok (some (.request r)) ∧ response = page env r ∧
    step turn.before (.event turn.answers) = some s' ∧
    queued (s'.acts turn.id) = queued (turn.before.acts turn.id) ++ [pageText env r]

/-- The turns that read are answered with the pages `pages`; if the last of them threw,
that one is not. -/
structure Served (turns : List (Turn Handler)) (acts : List (Act Handler)) (threw : Prop)
    (answered : List (Turn Handler)) (pages : List Response) : Prop where
  reads : reads turns = answered ∨ threw ∧ ∃ last, Program.reads turns = answered ++ [last]
  each : List.Forall₂ PageFor answered pages
  texts : List.Forall₂ WrittenAs pages (queued acts)

/-! ### One event -/

/-- **What one event answers**: nothing, or nothing before an exception, or a read with
its page. -/
theorem served_effect {channel : PlainTextChannel} {flag : EventFlag} {a : Runtime.Answers Handler}
    {e : Effect Handler} {env : Environment} (he : effect channel flag a = some e) (happ : a.app = app env) :
    (chunkOf flag a = none ∧ queued e.acts = [] ∧ e.counters = []) ∨
    (e.throws = true ∧ chunkOf flag a ≠ none ∧ queued e.acts = []) ∨
    ∃ raw r, chunkOf flag a = some raw ∧ RequestParser.parse env.mem raw = .ok (some (.request r)) ∧
      queued e.acts = [pageText env r] ∧ e.counters = countersOf (page env r) := by
  cases flag with
  | HANGUP => cases he; exact Or.inl ⟨rfl, rfl, rfl⟩
  | ERROR => cases he; exact Or.inl ⟨rfl, rfl, rfl⟩
  | WRITE =>
    cases outcome_of_effect he with
    | marked hf => simp at hf
    | flushed => exact Or.inl ⟨rfl, rfl, rfl⟩
    | flushFailed => exact Or.inl ⟨rfl, rfl, rfl⟩
  | READ =>
    cases he
    rw [Effect.read]
    split
    · rename_i hd
      exact Or.inl ⟨by simp only [chunkOf, hd], rfl, rfl⟩
    · rename_i hd
      exact Or.inl ⟨by simp only [chunkOf, hd], rfl, rfl⟩
    · rename_i raw hraw hd
      obtain ⟨b, raw, rfl⟩ := List.exists_cons_of_ne_nil hraw
      have hchunk : chunkOf .READ a = some (b :: raw) := by simp only [chunkOf, hd]
      cases hparse : RequestParser.parse env.mem (b :: raw) with
      | error error =>
        rw [request_app_error happ hparse]
        exact Or.inr (Or.inl ⟨rfl, by simp [hchunk], rfl⟩)
      | ok message =>
        obtain ⟨r, rfl⟩ := request_of_parse hparse
        refine Or.inr (Or.inr ⟨b :: raw, r, hchunk, hparse, ?_, ?_⟩)
        · exact queued_request_app happ hparse
        · rw [request_app happ hparse]
          rfl

/-- **What one turn answers**, and what it counts. -/
theorem served_turn {turn : Turn Handler} (hk : Known turn.before)
    (hdeployed : Deployed turn.before (.event turn.answers))
    (hturn : turnOf (turn.before, .event turn.answers) = some turn)
    (hs : step turn.before (.event turn.answers) = some s') :
    (chunkOf turn.flag turn.answers = none ∧
      queued (s'.acts turn.id) = queued (turn.before.acts turn.id) ∧ s'.metrics = turn.before.metrics) ∨
    (s'.phase = .threw ∧ chunkOf turn.flag turn.answers ≠ none ∧
      queued (s'.acts turn.id) = queued (turn.before.acts turn.id)) ∨
    ∃ response text, PageFor turn response ∧ chunkOf turn.flag turn.answers ≠ none ∧
      WrittenAs response text ∧ queued (s'.acts turn.id) = queued (turn.before.acts turn.id) ++ [text] ∧
      s'.metrics = (countersOf response).foldl Metrics.increment turn.before.metrics := by
  obtain ⟨-, ⟨events, hphase⟩, hne⟩ := eq_of_turnOf hturn
  obtain ⟨channel, e, he, happly⟩ := hk.client_step hphase hne hs
  obtain ⟨env, hsound, happ⟩ := hdeployed
  obtain ⟨-, hacts, -⟩ := apply_facts happly
  obtain ⟨-, -, hmetrics, hthrew⟩ := known_apply (hk.tail hphase) happly
  have hqueued : queued (s'.acts turn.id) = queued (turn.before.acts turn.id) ++ queued e.acts := by
    rw [hacts, queued_append]
    rfl
  rcases served_effect he happ with ⟨hchunk, hnone, hcounters⟩ | ⟨ht, hchunk, hnone⟩ |
    ⟨raw, r, hchunk, hparse, htext, hcounters⟩
  · rw [hnone, List.append_nil] at hqueued
    rw [hcounters] at hmetrics
    exact Or.inl ⟨hchunk, hqueued, hmetrics⟩
  · rw [hnone, List.append_nil] at hqueued
    exact Or.inr (Or.inl ⟨hthrew ht, hchunk, hqueued⟩)
  · rw [htext] at hqueued
    rw [hcounters] at hmetrics
    exact Or.inr (Or.inr ⟨page env r, pageText env r,
      ⟨env, raw, r, s', happ, hsound, hchunk, hparse, rfl, hs, hqueued⟩, by simp [hchunk],
      ⟨env.headerOrder (page env r), hsound.headerOrder _, rfl⟩, hqueued, hmetrics⟩)

/-! ### The invariant -/

/-- Every connection is served by the steps `past`. -/
def AllServed (past : List (State Handler × Label Handler)) (s : State Handler) : Prop :=
  ∀ id, id ≠ serverChannel → ∃ answered pages,
    Served (turnsOn id past) (s.acts id) (s.phase = .threw) answered pages

namespace Served

variable {turns : List (Turn Handler)} {acts acts' : List (Act Handler)} {threw : Prop}
  {answered : List (Turn Handler)} {pages : List Response} {turn : Turn Handler}

theorem silent (h : Served turns acts False answered pages) (hqueued : queued acts' = queued acts)
    (threw : Prop) : Served turns acts' threw answered pages where
  reads := Or.inl (h.reads.resolve_right fun hthrew => hthrew.1)
  each := h.each
  texts := hqueued ▸ h.texts

theorem reads_append (turns : List (Turn Handler)) (turn : Turn Handler) :
    Program.reads (turns ++ [turn]) = Program.reads turns
      ++ if chunkOf turn.flag turn.answers = none then [] else [turn] := by
  rw [Program.reads, List.filter_append, Program.reads]
  cases hchunk : chunkOf turn.flag turn.answers <;> simp [hchunk]

theorem append_turn (h : Served turns acts False answered pages)
    (hturn : (chunkOf turn.flag turn.answers = none ∧ queued acts' = queued acts) ∨
      (threw ∧ chunkOf turn.flag turn.answers ≠ none ∧ queued acts' = queued acts) ∨
      ∃ response text, PageFor turn response ∧ chunkOf turn.flag turn.answers ≠ none ∧
        WrittenAs response text ∧ queued acts' = queued acts ++ [text]) :
    ∃ answered pages, Served (turns ++ [turn]) acts' threw answered pages := by
  have hall := h.reads.resolve_right fun hthrew => hthrew.1
  rcases hturn with ⟨hchunk, hqueued⟩ | ⟨hthrew, hchunk, hqueued⟩ |
    ⟨response, text, hpage, hchunk, htext, hqueued⟩
  · refine ⟨answered, pages, ⟨Or.inl ?_, h.each, hqueued ▸ h.texts⟩⟩
    rw [reads_append, if_pos hchunk, List.append_nil, hall]
  · refine ⟨answered, pages, ⟨Or.inr ⟨hthrew, turn, ?_⟩, h.each, hqueued ▸ h.texts⟩⟩
    rw [reads_append, if_neg hchunk, hall]
  · refine ⟨answered ++ [turn], pages ++ [response], ⟨Or.inl ?_, List.rel_append h.each (.cons hpage .nil), ?_⟩⟩
    · rw [reads_append, if_neg hchunk, hall]
    · rw [hqueued]
      exact List.rel_append h.texts (.cons htext .nil)

end Served

theorem AllServed.other {past : List (State Handler × Label Handler)} (hserved : AllServed past s)
    (hphase : s.phase ≠ .threw) (hid : id ≠ serverChannel) (hnone : turnsOn id [(s, label)] = [])
    (hqueued : queued (s'.acts id) = queued (s.acts id)) :
    ∃ answered pages, Served (turnsOn id (past ++ [(s, label)])) (s'.acts id) (s'.phase = .threw)
      answered pages := by
  obtain ⟨answered, pages, h⟩ := hserved id hid
  rw [eq_false hphase] at h
  rw [turnsOn_append, hnone, List.append_nil]
  exact ⟨answered, pages, h.silent hqueued _⟩

theorem AllServed.moves {past : List (State Handler × Label Handler)} (hserved : AllServed past s)
    (hk : Known s) (h : Owned s) (hdeployed : Deployed s label) (hphase : s.phase ≠ .threw)
    (hs : step s label = some s') (hm : Moves s label s') : AllServed (past ++ [(s, label)]) s' := by
  intro id hid
  cases hm with
  | poll order ready htop horder => exact hserved.other hphase hid (turnsOn_quiet (by simp)) rfl
  | refused a flag events hbatch hneg =>
    exact hserved.other hphase hid (turnsOn_other hbatch hid.symm) rfl
  | accepted a flag events hbatch hpos hfree =>
    refine hserved.other hphase hid (turnsOn_other hbatch hid.symm) ?_
    rw [Owned.acts_welcome, queued_append]
    split <;> exact List.append_nil _
  | client a flag id' events channel e s' hbatch hman hobj he ha =>
    rcases eq_or_ne id' id with rfl | hne
    · obtain ⟨answered, pages, hold⟩ := hserved id' hid
      rw [eq_false hphase] at hold
      have hhead := @turnsOn_head _ _ _ _ _ a hbatch (h.getFd_ne_server hman)
      have hturn : turnOf (s, .event a) = some ⟨s, id', flag, a⟩ := turnOf_head hbatch (h.getFd_ne_server hman)
      rw [turnsOn_append, hhead]
      refine hold.append_turn ?_
      rcases @served_turn s' ⟨s, id', flag, a⟩ hk hdeployed hturn hs with ⟨hchunk, hqueued, -⟩ |
        ⟨hthrew, hchunk, hqueued⟩ | ⟨response, text, hpage, hchunk, htext, hqueued, -⟩
      · exact Or.inl ⟨hchunk, hqueued⟩
      · exact Or.inr (Or.inl ⟨hthrew, hchunk, hqueued⟩)
      · exact Or.inr (Or.inr ⟨response, text, hpage, hchunk, htext, hqueued⟩)
    · refine hserved.other hphase hid (turnsOn_other hbatch hne) ?_
      rw [ha.acts, if_neg hne.symm, List.append_nil]
  | cleanup granted s' hbatch hw =>
    refine hserved.other hphase hid (turnsOn_quiet (by simp)) ?_
    rw [hw.acts, queued_append]
    split <;> exact List.append_nil _
  | stop order granted s' htop hstop =>
    refine hserved.other hphase hid (turnsOn_quiet (by simp)) ?_
    rw [hstop.acts id hid]

/-- A step of the deployed program on a kernel that behaves. -/
def Operating (s : State Handler) (label : Label Handler) : Prop := Regular s label ∧ Deployed s label

theorem allServed_of_run {listenFd : Fd} {memory : Bool} {metrics : Metrics}
    {labels : List (Label Handler)} (hfd : 0 ≤ listenFd)
    (h : Run step Operating (initial listenFd memory metrics) labels s) :
    AllServed (Run.history step (initial listenFd memory metrics) labels) s := by
  refine (Run.invHistory (I := fun past s => (s.phase ≠ .returned → Known s ∧ Owned s) ∧ AllServed past s) h
    ⟨fun _ => ⟨known_initial listenFd memory metrics, owned_initial hfd memory metrics⟩,
      fun _ _ => ⟨[], [], Or.inl rfl, .nil, .nil⟩⟩ ?_).2
  rintro past s label s' ⟨hrunning, ih⟩ hok hs
  obtain ⟨hk, hown⟩ := hrunning (running_of_step hs)
  have hm := moves_of_step hown hok.1.1 hs
  exact ⟨fun hrun' => ⟨(quiet_or_effect hk hs hrun').1, hown.moves hm hrun'⟩,
    ih.moves hk hown hok.2 (not_threw_of_step hs) hs hm⟩

/-! ### The client -/

theorem deliverable_pages {answered : List (Turn Handler)} {pages : List Response}
    (h : List.Forall₂ PageFor answered pages) : ∀ response ∈ pages, Deliverable response := by
  induction h with
  | nil => simp
  | cons hpage _ ih =>
    obtain ⟨env, raw, r, s', -, -, -, -, rfl, -⟩ := hpage
    exact List.forall_mem_cons.mpr ⟨deliverable_page env r, ih⟩

/-- A step of the loop, or what the outside decides while an event is handled. -/
inductive Prompt
  | loop (step : Label Handler)
  | event (metricOrder : MetricOrder) (accepted : Fd) (read : Option Bytes) (writes : List WriteResult)

/-- An order of the headers of any response. -/
noncomputable def someOrder (response : Response) : HeaderOrder :=
  if response.headers = pageHeaders (ascii "text/plain") then
    [⟨ascii "Connection", ascii "keep-alive"⟩, ⟨ascii "Content-Type", ascii "text/plain"⟩]
  else if response.headers = notFoundResp.headers then [⟨ascii "Connection", ascii "keep-alive"⟩]
  else response.headers.entries.toList

theorem enumerates_someOrder (response : Response) : Enumerates (someOrder response) response.headers := by
  rw [someOrder]
  split
  · rename_i h
    rw [h]
    decide +kernel
  · split
    · rename_i h
      rw [h]
      decide +kernel
    · exact Multiset.coe_toList _

/-- The step in which `elapsed` nanoseconds have passed. -/
noncomputable def Prompt.toLabel (elapsed : Int) : Prompt → Label Handler
  | .loop step => step
  | .event metricOrder accepted read writes =>
    .event { app := app ⟨RequestParser.smallMemory, elapsed, metricOrder, someOrder⟩
             accepted := accepted, read := read, writes := writes }

/-- The prompt stands for a step of the deployed program. -/
def Prompt.Fits (s : State Handler) : Prompt → Prop
  | .loop (.event _) => False
  | .loop _ => True
  | .event metricOrder _ _ _ => Enumerates metricOrder (s.metrics.increment requestsTotal)

instance (s : State Handler) : (prompt : Prompt) → Decidable (prompt.Fits s)
  | .loop (.event _) => .isFalse fun h => h
  | .loop (.poll _ _) | .loop (.cleanup _) | .loop (.stop _ _) => .isTrue trivial
  | .event metricOrder _ _ _ =>
    inferInstanceAs (Decidable (Enumerates metricOrder (s.metrics.increment requestsTotal)))

theorem Prompt.Fits.deployed {prompt : Prompt} (h : prompt.Fits s) {elapsed : Int} (helapsed : 0 ≤ elapsed) :
    Deployed s (prompt.toLabel elapsed) := by
  cases prompt with
  | loop step =>
    cases step with
    | event a => exact h.elim
    | poll | cleanup | stop => trivial
  | event metricOrder accepted read writes =>
    exact ⟨⟨RequestParser.smallMemory, elapsed, metricOrder, someOrder⟩,
      ⟨helapsed, h, enumerates_someOrder⟩, rfl⟩

/-- The metrics after some requests, misses and connections. -/
def metricsAt (requests misses connections : UInt64) : MetricOrder :=
  [⟨requestsTotal, ⟨requests, .COUNTER⟩⟩, ⟨responses404, ⟨misses, .COUNTER⟩⟩,
    ⟨responses500, ⟨0, .COUNTER⟩⟩, ⟨connectionsTotal, ⟨connections, .GAUGE⟩⟩]

/-- A connection on which the plain text is asked for and sent, then a path that is not
there, whose page is sent in part. -/
def visitPrompts : List Prompt :=
  [.loop (.poll [] [⟨{ epollin := true }, 3⟩]), .event (metricsAt 1 0 0) 4 none [],
    .loop (.cleanup fun _ => true),
    .loop (.poll [⟨4, 1⟩] [⟨{ epollin := true }, 4⟩]),
    .event (metricsAt 1 0 1) (-1) (some (ascii "GET /test/http/plain-text HTTP/1.1\r\n\r\n")) [],
    .loop (.cleanup fun _ => true),
    .loop (.poll [⟨4, 1⟩] [⟨{ epollout := true }, 4⟩]), .event (metricsAt 2 0 1) (-1) none [.written 101],
    .loop (.cleanup fun _ => true),
    .loop (.poll [⟨4, 1⟩] [⟨{ epollin := true }, 4⟩]),
    .event (metricsAt 2 0 1) (-1) (some (ascii "GET /nowhere HTTP/1.1\r\n\r\n")) [],
    .loop (.cleanup fun _ => true),
    .loop (.poll [⟨4, 1⟩] [⟨{ epollout := true }, 4⟩]),
    .event (metricsAt 3 1 1) (-1) none [.written 12, .wouldBlock]]

/-- The prompts, one after the other. -/
noncomputable def performed (elapsed : Int) (prompts : List Prompt) : Option (State Handler) :=
  Run.exec (fun s prompt => step s (prompt.toLabel elapsed))
    (fun s prompt => Regular s (prompt.toLabel elapsed) ∧ prompt.Fits s) (initial 3 true ∅) prompts

theorem run_performed {elapsed : Int} (helapsed : 0 ≤ elapsed) {prompts : List Prompt}
    (h : performed elapsed prompts = some s) :
    Run step Operating (initial 3 true ∅) (prompts.map (Prompt.toLabel elapsed)) s :=
  (Run.of_exec prompts _ h).map _ (fun _ _ => rfl) fun _ _ hok => ⟨hok.1, hok.2.deployed helapsed⟩

noncomputable def visit : State Handler := (performed 0 visitPrompts).get (by decide +kernel)

/-- The steps of the visit. -/
noncomputable def visitHistory : List (State Handler × Label Handler) :=
  Run.history step (initial 3 true ∅) (visitPrompts.map (Prompt.toLabel 0))

end Sews.Program
