import Sews.Program.Delivery

/-!
# What ends the program

Nothing in the loop catches an exception, so one that leaves the parser, a handler or
the encoder ends `run` and with it every other connection.  Of these only the parser of
the program throws, when the last `Content-Length` of a request is no number or one that
no string can be allocated for (`Poisonous`); no other allocation fails in the model.
`crash_iff` says that a run has ended so exactly when its last step read such bytes.
-/

namespace Sews.Program

open Cpp Sews.Http Sews.Connection Sews.Reactor Sews.Telemetry Sews.Runtime Dispatcher

variable {s s' : State Handler} {label : Label Handler}

/-- The last `Content-Length` line of the bytes has a value that `std::stoul` does not
read, or reads as a length that no string can be allocated for. -/
def Poisonous (mem : Memory) (raw : Bytes) : Prop :=
  ∃ text, RequestParser.contentLengthField raw = some text ∧ ∀ n, stoul text = .ok n → ¬ mem.CanHold n

/-- The next event reads such bytes on a client. -/
def Fatal (s : State Handler) (a : Runtime.Answers Handler) : Prop :=
  ∃ env id events raw, a.app = app env ∧ s.phase = .batch (⟨.READ, id⟩ :: events) ∧
    s.getFd id ≠ s.getFd serverChannel ∧ Effect.delivered a = some raw ∧ Poisonous env.mem raw

theorem parse_error_iff {mem : Memory} {raw : Bytes} :
    (∃ e, RequestParser.parse mem raw = .error e) ↔ Poisonous mem raw := by
  have hiff : Poisonous mem raw ↔ ¬ ∃ body, RequestParser.bodyOf mem
      (RequestParser.contentLengthField raw) (RequestParser.bytesAfterHeaders raw) = .ok body := by
    simp only [RequestParser.bodyOf_ok_iff]
    constructor
    · rintro ⟨text, hfield, hno⟩ ⟨body, ⟨hnone, -⟩ | ⟨text', n, htext', hn, hhold, -⟩⟩
      · rw [hfield] at hnone
        cases hnone
      · rw [hfield] at htext'
        cases htext'
        exact hno n hn hhold
    · intro hno
      cases hfield : RequestParser.contentLengthField raw with
      | none => exact absurd ⟨[], Or.inl ⟨hfield, rfl⟩⟩ hno
      | some text =>
        exact ⟨text, hfield, fun n hn hhold => hno ⟨_, Or.inr ⟨text, n, hfield, hn, hhold, rfl⟩⟩⟩
  rw [hiff, RequestParser.parse_eq]
  cases RequestParser.bodyOf mem (RequestParser.contentLengthField raw)
      (RequestParser.bytesAfterHeaders raw) with
  | error e => simp [Except.map]
  | ok body => simp [Except.map]

theorem not_poisonous_nil (mem : Memory) : ¬ Poisonous mem [] := by
  rintro ⟨text, hfield, -⟩
  have hnone : RequestParser.contentLengthField [] = none := by decide +kernel
  rw [hnone] at hfield
  cases hfield

/-- **Which events throw.** -/
theorem throws_iff {channel : PlainTextChannel} {flag : EventFlag} {a : Runtime.Answers Handler}
    {e : Effect Handler} {env : Environment} (he : effect channel flag a = some e) (happ : a.app = app env) :
    e.throws = true ↔ flag = .READ ∧ ∃ raw, Effect.delivered a = some raw ∧ Poisonous env.mem raw := by
  cases flag with
  | HANGUP => cases he; simp
  | ERROR => cases he; simp
  | WRITE =>
    cases outcome_of_effect he with
    | marked | flushed | flushFailed => simp [Effect.fail]
  | READ =>
    cases he
    rw [Effect.read]
    split
    · rename_i hd
      simp [Effect.fail, hd]
    · rename_i hd
      simp [Effect.fail, hd, not_poisonous_nil]
    · rename_i raw hraw hd
      have hthrows : (Effect.request channel a raw).throws = true ↔ Poisonous env.mem raw := by
        rw [← parse_error_iff]
        cases hparse : RequestParser.parse env.mem raw with
        | error error =>
          rw [request_app_error happ hparse]
          simp
        | ok message =>
          obtain ⟨r, rfl⟩ := request_of_parse hparse
          rw [request_app happ hparse]
          simp
      simpa [Effect.after, hd] using hthrows

/-! ### Whole runs -/

theorem threw_apply_iff {flag : EventFlag} {id : ChannelId} {events : List Event}
    {a : Runtime.Answers Handler} {e : Effect Handler}
    (happly : (State.scratch { s with phase := .batch events } flag a).apply id a.memory e = s') :
    s'.phase = .threw ↔ e.throws = true := by
  rw [← happly, phase_apply]
  split
  · rename_i ht
    exact iff_of_true rfl ht
  · rename_i ht
    exact iff_of_false (by simp) ht

/-- An event ends the program exactly when it is fatal. -/
theorem event_threw_iff {a : Runtime.Answers Handler} {env : Environment} (hk : Known s)
    (happ : a.app = app env) (hs : step s (.event a) = some s') : s'.phase = .threw ↔ Fatal s a := by
  have hbatch : ∃ flag id events, s.phase = .batch (⟨flag, id⟩ :: events) := by
    simp only [step] at hs
    split at hs
    · rename_i event events hphase
      exact ⟨event.flag, event.channel, events, hphase⟩
    · cases hs
  obtain ⟨flag, id, events, hphase⟩ := hbatch
  by_cases hserver : s.getFd id = s.getFd serverChannel
  · -- a new connection throws nothing
    have haccept : handleEvent { s with phase := .batch events } ⟨flag, id⟩ a
        = some (onAccept { s with phase := .batch events } a) := if_pos hserver
    simp only [step, hphase] at hs
    rw [haccept] at hs
    cases hs
    rw [phase_onAccept]
    refine iff_of_false (by simp) ?_
    rintro ⟨env', id', events', raw, -, hphase', hclient, -⟩
    rw [hphase] at hphase'
    cases hphase'
    exact hclient hserver
  · obtain ⟨channel, e, he, happly⟩ := hk.client_step hphase hserver hs
    rw [threw_apply_iff happly]
    constructor
    · intro ht
      obtain ⟨rfl, raw, hd, hpoison⟩ := (throws_iff he happ).mp ht
      exact ⟨env, id, events, raw, happ, hphase, hserver, hd, hpoison⟩
    · rintro ⟨env', id', events', raw, happ', hphase', -, hd, hpoison⟩
      rw [hphase] at hphase'
      cases hphase'
      exact (throws_iff he happ').mpr ⟨rfl, raw, hd, hpoison⟩

theorem event_of_threw (hs : step s label = some s') (hthrew : s'.phase = .threw) : ∃ a, label = .event a := by
  cases label with
  | event a => exact ⟨a, rfl⟩
  | poll order ready =>
    simp only [step] at hs
    split at hs
    · cases hs
      cases hthrew
    · cases hs
  | cleanup granted =>
    simp only [step] at hs
    split at hs
    · cases hs
      cases hthrew
    · cases hs
  | stop order granted =>
    simp only [step] at hs
    split at hs
    · cases hs
      cases hthrew
    · cases hs

/-- **What ends the program.**  A run of the program has ended with an exception exactly
when its last step read, on a client, bytes whose last `Content-Length` is no number
that `std::stoul` reads, or one that no string can be allocated for. -/
theorem crash_iff {listenFd : Fd} {memory : Bool} {metrics : Metrics} {labels : List (Label Handler)}
    (h : Run step Deployed (initial listenFd memory metrics) labels s) :
    s.phase = .threw ↔ ∃ t a,
      (Run.history step (initial listenFd memory metrics) labels).getLast? = some (t, .event a) ∧ Fatal t a := by
  cases h with
  | nil =>
    refine iff_of_false (fun hphase => ?_) ?_
    · cases hphase
    · rintro ⟨t, a, hlast, -⟩
      cases hlast
  | @snoc labels t s label hrun hdeployed hs =>
    have hlast : (Run.history step (initial listenFd memory metrics) (labels ++ [label])).getLast?
        = some (t, label) := by
      rw [hrun.history_append, Run.history_one hs, List.getLast?_append]
      rfl
    have hk := known_of_run (hrun.mono fun _ _ _ => trivial) (running_of_step hs)
    rw [hlast]
    constructor
    · intro hthrew
      obtain ⟨a, rfl⟩ := event_of_threw hs hthrew
      obtain ⟨env, -, happ⟩ := hdeployed
      exact ⟨t, a, rfl, (event_threw_iff hk happ hs).mp hthrew⟩
    · rintro ⟨t', a, heq, hfatal⟩
      cases heq
      obtain ⟨env, -, happ⟩ := hdeployed
      exact (event_threw_iff hk happ hs).mpr hfatal

/-- A client that announces a length which is no number. -/
def crashPrompts : List Prompt :=
  visitPrompts.take 4 ++ [.event (metricsAt 1 0 1) (-1)
    (some (ascii "GET / HTTP/1.1\r\nContent-Length: abc\r\n\r\n")) []]

noncomputable def crashed : State Handler := (performed 0 crashPrompts).get (by decide +kernel)

theorem crash_iff_crashed :
    crashed.phase = .threw ∧ ∃ t a,
      (Run.history step (initial 3 true ∅) (crashPrompts.map (Prompt.toLabel 0))).getLast?
        = some (t, .event a) ∧ Fatal t a := by
  have hrun := run_performed le_rfl
    (show performed 0 crashPrompts = some crashed from (Option.some_get _).symm)
  have hthrew : crashed.phase = .threw := by decide +kernel
  exact ⟨hthrew, (crash_iff (hrun.mono fun _ _ hok => hok.2)).mp hthrew⟩

end Sews.Program
