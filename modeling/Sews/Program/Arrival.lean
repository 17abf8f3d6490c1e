import Sews.Program.Delivery
import Sews.Runtime.Progress

/-!
# Every page arrives

`client_reads` is about what has been sent.  Here is what will be: in a run of the
program that does not end, with a kernel that behaves and is fair to a connection, every
request that was read on the connection has its page read by the client at some time,
unless the connection is closed before.  Whatever the other connections do cannot prevent it.
-/

namespace Sews.Program

open Cpp UnorderedMap Sews.Http Sews.Connection Sews.Reactor Sews.Telemetry Sews.Runtime Dispatcher

variable {id : ChannelId}

/-- **Every request has its page read.**  What was read on a connection at some time of
an execution were requests, and at some later time a client that has got all that was
sent to it has read the page of each, whole and in order, unless the connection is gone
by then. -/
theorem page_arrives {listenFd : Fd} {memory : Bool} {metrics : Metrics} (hfd : 0 ≤ listenFd)
    (e : Execution step Operating (initial listenFd memory metrics)) (hid : id ≠ serverChannel)
    (hfair : Fair id e) {n : ℕ} {channel : PlainTextChannel} (hobj : (e.state n).objects id = some channel) :
    ∃ pages, List.Forall₂ PageFor (reads (turnsOn id (e.made 0 n))) pages ∧
      ∃ m, n ≤ m ∧ (pages.map replyOf <+: (readAll readReply ((e.state m).kernel.sent id)).1 ∨
        ¬ (e.state m).Managed id) := by
  obtain ⟨answered, pages, hserved⟩ := allServed_of_run hfd (e.run_start n) id hid
  rw [e.history_start] at hserved
  -- the execution goes on, so nothing was thrown
  have hall := hserved.reads.resolve_right fun hthrew => not_threw_of_step (e.steps n) hthrew.1
  have hintact := streams_of_run hfd ((e.run_start n).mono fun _ _ hok => hok.1) id channel hid hobj
  obtain ⟨m, hm, harrive⟩ := unsent_arrives hfd (e.mono fun _ _ hok => hok.1) hid hfair hobj
  refine ⟨pages, hall ▸ hserved.each, m, hm, harrive.imp_left fun hsent => ?_⟩
  refine readAll_append readReply_stable (framed_texts (deliverable_pages hserved.each) hserved.texts) ?_
  rw [← hintact.sent_unsent]
  exact hsent

/-- The rest of the page is sent. -/
def restPrompts : List Prompt :=
  [.loop (.cleanup fun _ => true), .loop (.poll [⟨4, 1⟩] [⟨{ epollout := true }, 4⟩]),
    .event (metricsAt 3 1 1) (-1) none [.written 57], .loop (.cleanup fun _ => true)]

noncomputable def rested : State Handler := (performed 0 (visitPrompts ++ restPrompts)).get (by decide +kernel)

theorem run_rested : Run step Operating (initial 3 true ∅)
    (visitPrompts.map (Prompt.toLabel 0) ++ restPrompts.map (Prompt.toLabel 0)) rested := by
  rw [← List.map_append]
  exact run_performed le_rfl (Option.some_get _).symm

theorem round_rested : Run step Operating rested [.poll [⟨4, 1⟩] [], .cleanup fun _ => true] rested := by
  have hround : Run step Regular rested [.poll [⟨4, 1⟩] [], .cleanup fun _ => true] rested :=
    idle_round (by decide +kernel) (by decide +kernel) (by decide +kernel) (by decide +kernel) _
  refine (hround.and_mem (p := fun label => ∀ s, Deployed s label) ?_).mono
    fun s label hok => ⟨hok.1, hok.2 s⟩
  intro label hmem s
  simp only [List.mem_cons, List.not_mem_nil, or_false] at hmem
  rcases hmem with rfl | rfl
  · trivial
  · trivial

noncomputable def resting : Execution step Operating (initial 3 true ∅) :=
  Execution.lasso run_rested round_rested (List.cons_ne_nil _ _)

theorem page_arrives_resting :
    ∃ pages : List Response, pages.length = 2 ∧ ∃ m, 14 ≤ m ∧
      (pages.map replyOf <+: (readAll readReply ((resting.state m).kernel.sent 1)).1 ∨
        ¬ (resting.state m).Managed 1) := by
  have hrun := run_performed le_rfl (show performed 0 visitPrompts = some visit from (Option.some_get _).symm)
  have hstate : resting.state 14 = visit :=
    Execution.lasso_state run_rested round_rested (List.cons_ne_nil _ _) hrun
  obtain ⟨channel, hobj⟩ : ∃ channel, (resting.state 14).objects 1 = some channel := by
    rw [hstate]
    exact Option.isSome_iff_exists.mp (by decide +kernel)
  have hidle : ¬ Waits 1 rested := by
    rintro ⟨-, hwatched⟩
    exact absurd hwatched (by decide +kernel)
  have hfair : Fair 1 resting := fair_idle run_rested round_rested hidle
  obtain ⟨pages, hpages, harrive⟩ := page_arrives (by decide) resting (by decide) hfair hobj
  refine ⟨pages, ?_, harrive⟩
  rw [← hpages.length_eq]
  decide +kernel

end Sews.Program
