import Sews.Lib.Execution
import Sews.Connection.Resume
import Sews.Runtime.Stream
import Sews.Runtime.Accounting

/-!
# Responses arrive

That what is sent is right (`streams_intact`) does not say that anything is sent.
Whether it is depends on the kernel: it has to report the connection for `WRITE`, and
the write has to take something (`Pushes`).  `delivered_within` counts these steps: of
the bytes a connection has to send, at least one goes out with each.

For the response to arrive, it is enough that the kernel behaves (`Regular`) and is fair:
a connection that is watched for `WRITE` at the top of the loop, again and again, is
written to again and again.  The loop does its part, since it comes back to the top
whatever happens (`top_recurs`), and asks for `WRITE` as long as something is unsent.  So
`responses_arrive` holds of every such execution that does not end.
-/

namespace Sews.Runtime

open Cpp Sews.Http Sews.Connection Sews.Reactor Sews.Telemetry Dispatcher Filter

variable {H : Type} {s s' : State H} {label : Label H} {id : ChannelId}

/-- The kernel takes bytes of the connection: its `WRITE` event is handled, and the first
write is not refused. -/
def Pushes (id : ChannelId) : State H × Label H → Bool
  | (s, .event a) =>
    decide (s.events.head? = some ⟨.WRITE, id⟩) &&
      match a.writes with
      | .written _ :: _ => true
      | _ => false
  | _ => false

/-- How often it did. -/
def pushes (id : ChannelId) (made : List (State H × Label H)) : Nat := made.countP (Pushes id)

theorem pushes_append (id : ChannelId) (made more : List (State H × Label H)) :
    pushes id (made ++ more) = pushes id made + pushes id more := List.countP_append

theorem pushes_eq_event {a : Answers H} (h : Pushes id (s, .event a) = true) :
    s.events.head? = some ⟨.WRITE, id⟩ ∧ ∃ count results, a.writes = .written count :: results := by
  simp only [Pushes, Bool.and_eq_true, decide_eq_true_eq] at h
  refine ⟨h.1, ?_⟩
  obtain ⟨-, hw⟩ := h
  cases hwrites : a.writes with
  | nil => simp [hwrites] at hw
  | cons result results =>
    cases result with
    | written count => exact ⟨count, results, rfl⟩
    | wouldBlock | error => simp [hwrites] at hw

theorem pushes_other {a : Answers H} {event : Event} {events : List Event}
    (hphase : s.phase = .batch (event :: events)) (hne : event ≠ ⟨.WRITE, id⟩) :
    pushes id [(s, .event a)] = 0 := by
  have hno : Pushes id (s, .event a) = false := by
    by_contra h
    obtain ⟨hhead, -⟩ := pushes_eq_event (Bool.not_eq_false _ ▸ h)
    rw [State.events, hphase] at hhead
    exact hne (Option.some.inj hhead)
  simp [pushes, hno]

theorem pushes_le_one (made : State H × Label H) : pushes id [made] ≤ 1 := List.countP_le_length

/-! ### Bytes on their way -/

/-- Of the bytes `unsent` that came after `sent`, all are sent, or at least `count` are
and the others are what the connection still has to send. -/
def Underway (s : State H) (id : ChannelId) (sent unsent : Bytes) (count : Nat) : Prop :=
  sent ++ unsent <+: s.kernel.sent id ∨
  ∃ channel bytes, s.objects id = some channel ∧ s.kernel.sent id = sent ++ bytes ∧
    bytes ++ channel.unsent = unsent ∧ count ≤ bytes.length ∧ channel.unsent ≠ []

namespace Underway

variable {sent unsent : Bytes} {count : Nat}

theorem start {channel : PlainTextChannel} (hobj : s.objects id = some channel) :
    Underway s id (s.kernel.sent id) channel.unsent 0 := by
  by_cases hnil : channel.unsent = []
  · left
    rw [hnil, List.append_nil]
  · exact Or.inr ⟨channel, [], hobj, by simp, rfl, Nat.zero_le _, hnil⟩

theorem sent_take (hu : Underway s id sent unsent count) : sent ++ unsent.take count <+: s.kernel.sent id := by
  rcases hu with hall | ⟨channel, bytes, -, hsent, hsplit, hcount, -⟩
  · exact ((List.prefix_append_right_inj sent).mpr (List.take_prefix _ _)).trans hall
  · rw [hsent, List.prefix_append_right_inj, ← hsplit, List.take_append_of_le_length hcount]
    exact List.take_prefix _ _

theorem other (hu : Underway s id sent unsent count) (hsent : s'.kernel.sent id = s.kernel.sent id)
    (hsame : ∀ channel, s.objects id = some channel →
      ∃ channel', s'.objects id = some channel' ∧ channel'.unsent = channel.unsent) :
    Underway s' id sent unsent count := by
  rcases hu with hall | ⟨channel, bytes, hobj, hbytes, hsplit, hcount, hne⟩
  · exact Or.inl (hsent ▸ hall)
  · obtain ⟨channel', hobj', heq⟩ := hsame channel hobj
    refine Or.inr ⟨channel', bytes, hobj', hsent.trans hbytes, ?_, hcount, ?_⟩
    · rwa [heq]
    · rwa [heq]

/-- A flush sends more of them, and a byte at least if its first write is not refused. -/
theorem flush (hu : Underway s id sent unsent count) {channel channel' : PlainTextChannel}
    {results : List WriteResult} {value : Write} {bytes : Bytes} (hobj : s.objects id = some channel)
    (hle : channel.writeOffset ≤ channel.writeBuffer.length)
    (hgood : PlainTextChannel.GoodWrites channel.unsent.length results)
    (hf : channel.flush results = some (value, channel', bytes))
    (hsent : s'.kernel.sent id = s.kernel.sent id ++ bytes) (hobj' : s'.objects id = some channel')
    {more : Nat} (hmore : more ≤ 1)
    (htaken : 0 < more → ∃ count rest, results = .written count :: rest) :
    Underway s' id sent unsent (count + more) := by
  rcases hu with hall | ⟨channel'', before, hobj'', hbefore, hsplit, hcount, hne⟩
  · refine Or.inl (hall.trans ?_)
    rw [hsent]
    exact List.prefix_append _ _
  · rw [hobj] at hobj''
    cases hobj''
    obtain ⟨hkeeps, -⟩ := PlainTextChannel.flush_keeps hle hgood hf
    have hsent' : s'.kernel.sent id = sent ++ (before ++ bytes) := by
      rw [hsent, hbefore, List.append_assoc]
    have hsplit' : before ++ bytes ++ channel'.unsent = unsent := by
      rw [List.append_assoc, hkeeps, hsplit]
    by_cases hnil : channel'.unsent = []
    · left
      rw [hsent', ← hsplit', hnil, List.append_nil]
    · refine Or.inr ⟨channel', before ++ bytes, hobj', hsent', hsplit', ?_, hnil⟩
      rw [List.length_append]
      rcases Nat.eq_zero_or_pos more with rfl | hpos
      · omega
      · obtain ⟨n, rest, rfl⟩ := htaken hpos
        have htake := List.length_pos_iff.mpr (PlainTextChannel.flush_takes hgood hne hf)
        omega

theorem affected (hu : Underway s id sent unsent count) (hp : Protocol s)
    {flag : EventFlag} {channel : PlainTextChannel} {a : Answers H} {e : Effect H} {events : List Event}
    (hphase : s.phase = .batch (⟨flag, id⟩ :: events)) (hm : s.Managed id)
    (hobj : s.objects id = some channel) (hout : Outcome channel a flag e)
    (ha : Affected s id events a.memory e s') (hwrites : SaneWrites s a.writes) :
    Underway s' id sent unsent (count + pushes id [(s, .event a)]) := by
  have hobj' : s'.objects id = some e.channel := by
    rw [ha.objects, Function.update_self]
  have hsent : s'.kernel.sent id = s.kernel.sent id ++ e.written := by
    rw [ha.sent, Function.update_self]
  obtain ⟨hpend, -⟩ := pending_cons hphase
  have hmode := hp id channel hm hobj
  -- a flush goes on with what is unsent
  have hflushed : flag = .WRITE → ∀ value, channel.flush a.writes = some (value, e.channel, e.written) →
      Underway s' id sent unsent (count + pushes id [(s, .event a)]) := by
    rintro rfl value hf
    have hgood := hwrites.good hphase hobj
    rw [← PlainTextChannel.length_unsent] at hgood
    refine hu.flush hobj (hmode.of_write hpend).1.2.2 hgood hf hsent hobj' (pushes_le_one _) fun hpos => ?_
    obtain ⟨made, hmem, hpush⟩ := List.countP_pos_iff.mp hpos
    rw [List.mem_singleton] at hmem
    subst hmem
    exact (pushes_eq_event hpush).2
  -- with a `READ` at hand nothing is unsent, so all of it was sent
  have hread : flag = .READ → e.written = [] →
      Underway s' id sent unsent (count + pushes id [(s, .event a)]) := by
    rintro rfl hnone
    rw [hnone, List.append_nil] at hsent
    rcases hu with hall | ⟨channel', bytes, hobj'', -, -, -, hne⟩
    · exact Or.inl (hsent ▸ hall)
    · rw [hobj] at hobj''
      cases hobj''
      rw [PlainTextChannel.unsent, (hmode.of_read hpend).1.2, List.drop_nil] at hne
      exact absurd rfl hne
  cases hout with
  | marked hf =>
    have hne : (⟨flag, id⟩ : Event) ≠ ⟨.WRITE, id⟩ := by
      rcases hf with rfl | rfl <;> simp
    rw [pushes_other hphase hne]
    exact hu.other (by rw [hsent, List.append_nil]) fun channel' hobj'' =>
      ⟨channel, hobj', by rw [Option.some.inj (hobj.symm.trans hobj'')]⟩
  | readFailed result hr => exact hread rfl rfl
  | threw raw acts counters hraw hacts hc => exact hread rfl rfl
  | answered raw acts counters serialized hraw hacts hc => exact hread rfl rfl
  | flushed result channel' bytes flags hf hr => exact hflushed rfl result hf
  | flushFailed channel' bytes hf => exact hflushed rfl .FAILED hf

theorem moves (hu : Underway s id sent unsent count) (hid : id ≠ serverChannel) (h : Owned s)
    (hp : Protocol s) (hreg : Regular s label) (hm : Moves s label s') :
    Underway s' id sent unsent (count + pushes id [(s, label)]) := by
  cases hm with
  | poll order ready htop horder => exact hu.other rfl fun channel hobj => ⟨channel, hobj, rfl⟩
  | refused a flag events hphase hneg =>
    rw [pushes_other hphase (by simp [Ne.symm hid])]
    exact hu.other rfl fun channel hobj => ⟨channel, hobj, rfl⟩
  | accepted a flag events hphase hpos hfree =>
    rw [pushes_other hphase (by simp [Ne.symm hid])]
    refine hu.other (by rw [Owned.sent_welcome]) fun channel hobj => ⟨channel, ?_, rfl⟩
    have hold : id ≠ s.nextId := by
      rintro rfl
      rw [(h.fresh s.nextId le_rfl).1] at hobj
      cases hobj
    rw [Owned.objects_welcome, if_neg hold, hobj]
  | client a flag id' events channel e s' hphase hm hobj he ha =>
    rcases eq_or_ne id' id with rfl | hne
    · exact hu.affected hp hphase hm hobj (outcome_of_effect he) ha hreg.2.2
    · rw [pushes_other hphase (by simp [hne])]
      refine hu.other (by rw [ha.sent, Function.update_of_ne hne.symm]) fun channel' hobj' =>
        ⟨channel', ?_, rfl⟩
      rw [ha.objects, Function.update_of_ne hne.symm, hobj']
  | cleanup granted s' hphase hw =>
    refine hu.other (by rw [hw.sent]) fun channel hobj => ⟨_, by rw [hw.objects, hobj]; rfl, ?_⟩
    split <;> rfl
  | stop order granted s' htop hstop =>
    exact hu.other (by rw [hstop.sent]) fun channel hobj => ⟨channel, by rw [hstop.objects id hid, hobj], rfl⟩

end Underway

/-! ### Whole runs -/

theorem underway_of_run {listenFd : Fd} {memory : Bool} {metrics : Metrics} {labels more : List (Label H)}
    (hfd : 0 ≤ listenFd) (h : Run step Regular (initial listenFd memory metrics) labels s)
    (hid : id ≠ serverChannel) {channel : PlainTextChannel} (hobj : s.objects id = some channel)
    (hmore : Run step Regular s more s') :
    Underway s' id (s.kernel.sent id) channel.unsent (pushes id (Run.history step s more)) := by
  have hinv : (∃ all, Run step Regular (initial listenFd memory metrics) all s') ∧
      Underway s' id (s.kernel.sent id) channel.unsent (pushes id (Run.history step s more)) := by
    refine Run.invHistory (I := fun past t => (∃ all, Run step Regular (initial listenFd memory metrics) all t) ∧
      Underway t id (s.kernel.sent id) channel.unsent (pushes id past)) hmore ⟨⟨labels, h⟩, .start hobj⟩ ?_
    rintro past t label t' ⟨⟨all, hall⟩, hu⟩ hreg hs
    obtain ⟨hown, hp⟩ := protocol_of_run hfd hall (running_of_step hs)
    refine ⟨⟨_, hall.snoc hreg hs⟩, ?_⟩
    rw [pushes_append]
    exact hu.moves hid hown hp hreg (moves_of_step hown hreg.1 hs)
  exact hinv.2

/-- **A response arrives within as many `WRITE` events as it has bytes.**  Of what a
connection has to send in some state of a run, as many bytes are sent in any later state
as there were `WRITE` events in between whose first write took any, if there are so many. -/
theorem delivered_within {listenFd : Fd} {memory : Bool} {metrics : Metrics} {labels more : List (Label H)}
    (hfd : 0 ≤ listenFd) (h : Run step Regular (initial listenFd memory metrics) labels s)
    (hid : id ≠ serverChannel) {channel : PlainTextChannel} (hobj : s.objects id = some channel)
    (hmore : Run step Regular s more s') :
    s.kernel.sent id ++ channel.unsent.take (pushes id (Run.history step s more)) <+: s'.kernel.sent id :=
  (underway_of_run hfd h hid hobj hmore).sent_take

/-- Three bytes more, and then the four that are left. -/
def finishLabels : List (Label Unit) :=
  [.poll [⟨4, 1⟩] [⟨{ epollout := true }, 4⟩],
    .event { app := idleApp, writes := [.written 3, .wouldBlock] }, .cleanup fun _ => true,
    .poll [⟨4, 1⟩] [⟨{ epollout := true }, 4⟩],
    .event { app := idleApp, writes := [.written 4] }, .cleanup fun _ => true]

def finished : State Unit := (Run.exec step Regular partway finishLabels).get (by decide +kernel)

theorem run_finished : Run step Regular partway finishLabels finished :=
  Run.of_exec finishLabels _ (Option.some_get _).symm

theorem delivered_within_finished :
    ascii "HTTP/" ++ (ascii "1.1 500").take 2 <+: finished.kernel.sent 1 := by
  have hobj : partway.objects 1 = some ⟨4, 5, true, ascii "HTTP/1.1 500"⟩ := by decide +kernel
  have hsent : partway.kernel.sent 1 = ascii "HTTP/" := by decide +kernel
  have hpushes : pushes 1 (Run.history step partway finishLabels) = 2 := by decide +kernel
  have hprefix := delivered_within (by decide) run_partway (by decide) hobj run_finished
  rwa [hsent, hpushes] at hprefix

/-! ### Executions without an end -/

/-- The steps that are left of the round. -/
def State.remaining (s : State H) : Nat :=
  match s.phase with
  | .batch events => events.length + 1
  | _ => 0

theorem remaining_batch {events : List Event} (h : s.phase = .batch events) :
    s.remaining = events.length + 1 := by
  rw [State.remaining, h]

theorem remaining_lt (hm : Moves s label s') (htop : s.phase ≠ .top) (hthrew : s'.phase ≠ .threw) :
    s'.remaining < s.remaining := by
  have hevent : ∀ a event events, label = .event a → s.phase = .batch (event :: events) →
      s'.remaining < s.remaining := by
    rintro a event events rfl hphase
    rw [remaining_batch hphase, remaining_batch (phase_of_head hphase hm hthrew), List.length_cons]
    omega
  cases hm with
  | poll order ready htop' horder => exact absurd htop' htop
  | refused a flag events hphase hneg => exact hevent a _ events rfl hphase
  | accepted a flag events hphase hpos hfree => exact hevent a _ events rfl hphase
  | client a flag id events channel e s' hphase hm hobj he ha => exact hevent a _ events rfl hphase
  | cleanup granted s' hphase hw =>
    rw [remaining_batch hphase, State.remaining, hw.phase]
    exact Nat.succ_pos _
  | stop order granted s' htop' hstop => exact absurd htop' htop

section
variable {listenFd : Fd} {memory : Bool} {metrics : Metrics}

/-- The loop comes back to its top. -/
theorem top_recurs (hfd : 0 ≤ listenFd)
    (e : Execution step Regular (initial listenFd memory metrics : State H)) :
    ∃ᶠ n in atTop, (e.state n).phase = .top := by
  have hdown : ∀ n, ¬ (e.state n).phase = .top →
      (e.state (n + 1)).remaining < (e.state n).remaining := by
    intro n htop
    have hown := (protocol_of_run hfd (e.run_start n) (running_of_step (e.steps n))).1
    refine remaining_lt (moves_of_step hown (e.meets n).1 (e.steps n)) htop ?_
    exact not_threw_of_step (e.steps (n + 1))
  exact frequently_atTop.mpr fun n => e.reaches (fun s => s.phase = .top) State.remaining hdown n

/-- At the top of the loop epoll watches the connection for `WRITE`. -/
def Waits (id : ChannelId) (s : State H) : Prop :=
  s.phase = .top ∧ ((s.kernel.interest (s.getFd id)).getD {}).epollout = true

/-- The kernel does not put the connection off for ever. -/
def Fair {ok : State H → Label H → Prop} {s₀ : State H} (id : ChannelId) (e : Execution step ok s₀) : Prop :=
  (∃ᶠ n in atTop, Waits id (e.state n)) → ∃ᶠ n in atTop, Pushes id (e.state n, e.label n) = true

/-- What a connection has to send at some time is sent at some later time, unless the
connection is gone by then. -/
theorem unsent_arrives (hfd : 0 ≤ listenFd)
    (e : Execution step Regular (initial listenFd memory metrics : State H)) (hid : id ≠ serverChannel)
    (hfair : Fair id e) {n : ℕ} {channel : PlainTextChannel} (hobj : (e.state n).objects id = some channel) :
    ∃ m, n ≤ m ∧ ((e.state n).kernel.sent id ++ channel.unsent <+: (e.state m).kernel.sent id ∨
      ¬ (e.state m).Managed id) := by
  by_contra hnever
  push Not at hnever
  -- the connection has something to send whenever the loop is at its top
  have hwaits : ∃ᶠ m in atTop, Waits id (e.state m) := by
    refine frequently_atTop.mpr fun k => ?_
    obtain ⟨m, hm, htop⟩ := frequently_atTop.mp (top_recurs hfd e) (n + k)
    refine ⟨m, by omega, htop, ?_⟩
    obtain ⟨hunsent, hmanaged⟩ := hnever m (by omega)
    obtain ⟨hown, hp⟩ := protocol_of_run hfd (e.run_start m) (running_of_step (e.steps m))
    have hrun := e.run n (m - n)
    rw [Nat.add_sub_cancel' (by omega)] at hrun
    rcases underway_of_run hfd (e.run_start n) hid hobj hrun with
      hall | ⟨channel', bytes, hobj', -, -, -, hne⟩
    · exact absurd hall hunsent
    · rcases (hp id channel' hmanaged hobj').2 with ⟨hreading, -⟩ | ⟨hwriting, -⟩ | ⟨hmarked, -⟩
      · rw [PlainTextChannel.unsent, hreading.2, List.drop_nil] at hne
        exact absurd rfl hne
      · rw [getFd_eq hobj', hwriting.1]
        rfl
      · exact absurd hmarked (hown.not_marked_of_top htop id)
  obtain ⟨k, hk⟩ := e.exists_countP (hfair hwaits) n channel.unsent.length
  have hsent := delivered_within hfd (e.run_start n) hid hobj (e.run n k)
  rw [e.history, pushes, List.take_of_length_le hk] at hsent
  exact (hnever (n + k) (Nat.le_add_right n k)).1 hsent

/-- **Every response arrives.**  In an execution that does not end and in which the
kernel behaves and is fair to a connection, all responses that are queued for it at some time are
sent at some later time, unless the connection is gone by then. -/
theorem responses_arrive (hfd : 0 ≤ listenFd)
    (e : Execution step Regular (initial listenFd memory metrics : State H)) (hid : id ≠ serverChannel)
    (hfair : Fair id e) {n : ℕ} {channel : PlainTextChannel} (hobj : (e.state n).objects id = some channel) :
    ∃ m, n ≤ m ∧ ((queued ((e.state n).acts id)).flatten <+: (e.state m).kernel.sent id ∨
      ¬ (e.state m).Managed id) := by
  have hintact := streams_of_run hfd (e.run_start n) id channel hid hobj
  rw [← hintact.sent_unsent]
  exact unsent_arrives hfd e hid hfair hobj

end

/-! ### A server that waits -/

theorem idle_round {order : List (Σ _ : Fd, ChannelId)} (htop : s.phase = .top)
    (horder : UnorderedMap.Enumerates order s.manager.channels) (hclosed : s.manager.closedChannels = [])
    (hbytes : s.bytesRead = 0) (granted : Nat → Bool) :
    Run step Regular s [.poll order [], .cleanup granted] s := by
  refine Run.cons_iff.mpr ⟨{ s with phase := .batch [] }, ⟨trivial, by simp [Watching]⟩, ?_,
    Run.nil.snoc ⟨trivial, trivial⟩ ?_⟩
  · rw [step, if_pos ⟨htop, horder⟩]
    rfl
  · rw [step, cleanup, clear, hclosed]
    obtain ⟨kernel, objects, nextId, ⟨channels, closedChannels⟩, metrics, buffer, bytesRead, phase, trace⟩ := s
    subst htop hclosed hbytes
    rfl

/-- If nothing is reported any more, the kernel is fair to a connection that does not wait
for it. -/
theorem fair_idle {ok : State H → Label H → Prop} {s₀ : State H} {labels : List (Label H)}
    {order : List (Σ _ : Fd, ChannelId)} {granted : Nat → Bool} (h : Run step ok s₀ labels s)
    (hround : Run step ok s [.poll order [], .cleanup granted] s) (hno : ¬ Waits id s) :
    Fair id (Execution.lasso h hround (List.cons_ne_nil _ _)) := by
  intro hwaits
  exfalso
  obtain ⟨m, hm, hwaiting⟩ := frequently_atTop.mp hwaits labels.length
  obtain ⟨before, rest, hsplit, hne, hrun⟩ := Execution.lasso_round h hround (List.cons_ne_nil _ _) hm
  generalize (Execution.lasso h hround (List.cons_ne_nil _ _)).state m = t at hrun hwaiting
  cases before with
  | nil =>
    obtain rfl := Option.some.inj hrun.foldlM_eq
    exact hno hwaiting
  | cons label before =>
    obtain ⟨rfl, hrest⟩ := List.cons.inj hsplit
    cases before with
    | cons label' before =>
      obtain ⟨-, hnil⟩ := List.cons.inj hrest
      exact hne (List.append_eq_nil_iff.mp hnil).2
    | nil =>
      -- after the poll the loop is not at its top
      obtain ⟨u, -, hs, hr⟩ := Run.cons_iff.mp hrun
      obtain rfl := Option.some.inj hr.foldlM_eq
      simp only [step] at hs
      split at hs
      · cases hs
        cases hwaiting.1
      · cases hs

theorem run_waiting : Run step Regular finished [.poll [⟨4, 1⟩] [], .cleanup fun _ => true] finished :=
  idle_round (by decide +kernel) (by decide +kernel) (by decide +kernel) (by decide +kernel) _

def waiting : Execution step Regular (initial 3 true ∅ : State Unit) :=
  Execution.lasso (run_partway.append run_finished) run_waiting (List.cons_ne_nil _ _)

theorem responses_arrive_waiting :
    ∃ m, 9 ≤ m ∧ (ascii "HTTP/1.1 500" <+: (waiting.state m).kernel.sent 1 ∨
      ¬ (waiting.state m).Managed 1) := by
  have hstate : waiting.state 9 = partway :=
    Execution.lasso_state (run_partway.append run_finished) run_waiting (List.cons_ne_nil _ _) run_partway
  have hobj : (waiting.state 9).objects 1 = some ⟨4, 5, true, ascii "HTTP/1.1 500"⟩ := by
    rw [hstate]
    decide +kernel
  have hqueued : (queued ((waiting.state 9).acts 1)).flatten = ascii "HTTP/1.1 500" := by
    rw [hstate]
    decide +kernel
  have hidle : ¬ Waits 1 finished := by
    rintro ⟨-, hwatched⟩
    exact absurd hwatched (by decide +kernel)
  have hfair : Fair 1 waiting := fair_idle (run_partway.append run_finished) run_waiting hidle
  have harrive := responses_arrive (by decide) waiting (by decide) hfair hobj
  rwa [hqueued] at harrive

end Sews.Runtime
