import Mathlib.Data.List.Sublists
import Sews.Runtime.Turns

/-!
# After the mark

Closing is deferred to the end of the batch, and nothing that handles an event
looks at the marks.  So what happens on a connection between its mark and its end
depends on the events that are still to come for it, and they are handled as if
it were not marked (`Aftermath`).

A failed read or write is the last event of a report, so nothing follows it.  An
`ERROR` or a `HANGUP` is not: a `HANGUP` and one `READ` or `WRITE` of the same
report may follow, and they do what they always do.  `aftermath` says that this is
all.  `served_after_hangup` is a run in which a request is answered on a
connection that is marked.
-/

namespace Sews.Runtime

open Cpp Sews.Http Sews.Connection Sews.Reactor Sews.Telemetry Dispatcher

variable {H : Type} {s s' : State H} {label : Label H}

/-! ### At most one read or write -/

/-- `accept` returns no open descriptor and epoll reports what it should. -/
def Reported (s : State H) (label : Label H) : Prop :=
  Fresh s label ∧
  match label with
  | .poll _ ready => Watching s.kernel ready
  | _ => True

instance (s : State H) : (label : Label H) → Decidable (Reported s label)
  | .poll order ready =>
    inferInstanceAs (Decidable (Fresh s (.poll order ready) ∧ Watching s.kernel ready))
  | .event a => inferInstanceAs (Decidable (Fresh s (.event a) ∧ True))
  | .cleanup granted => inferInstanceAs (Decidable (Fresh s (.cleanup granted) ∧ True))
  | .stop order granted => inferInstanceAs (Decidable (Fresh s (.stop order granted) ∧ True))

theorem Regular.reported (h : Regular s label) : Reported s label := by
  cases label with
  | poll order ready => exact h
  | event | cleanup | stop => exact ⟨h.1, trivial⟩

/-- No descriptor is watched for both `READ` and `WRITE`, and the events to come
for a connection are those of one report. -/
structure Narrow (s : State H) : Prop where
  interest : ∀ fd flags, s.kernel.interest fd = some flags →
    ¬ (flags.epollin = true ∧ flags.epollout = true)
  pending : ∀ id, s.Managed id → (s.pending id).Sublist flagOrder ∧
    ¬ (.READ ∈ s.pending id ∧ .WRITE ∈ s.pending id)

/-- What can follow an event in a report that has not both `READ` and `WRITE`. -/
def restsOf : EventFlag → List (List EventFlag)
  | .ERROR => [[], [.READ], [.WRITE], [.HANGUP], [.HANGUP, .READ], [.HANGUP, .WRITE]]
  | .HANGUP => [[], [.READ], [.WRITE]]
  | .READ | .WRITE => [[]]

theorem rest_of_sublist {flag : EventFlag} {rest : List EventFlag} (h : (flag :: rest).Sublist flagOrder)
    (hboth : ¬ (EventFlag.READ ∈ flag :: rest ∧ EventFlag.WRITE ∈ flag :: rest)) : rest ∈ restsOf flag := by
  have hall : ∀ l ∈ flagOrder.sublists, ¬ (EventFlag.READ ∈ l ∧ EventFlag.WRITE ∈ l) →
      ∀ flag ∈ l.head?, l.tail ∈ restsOf flag := by
    decide
  exact hall _ (List.mem_sublists.mpr h) hboth flag rfl

theorem Outcome.interest_eq {channel : PlainTextChannel} {a : Answers H} {flag : EventFlag}
    {e : Effect H} (h : Outcome channel a flag e) {events : List EventFlag}
    (he : e.interest = some events) : ∃ flag, events = [flag] := by
  cases h with
  | marked | threw => cases he
  | readFailed | answered | flushed | flushFailed => exact ⟨_, (Option.some.inj he).symm⟩

theorem flagsOf_singleton (flag : EventFlag) :
    ¬ ((SocketLoop.flagsOf [flag]).epollin = true ∧ (SocketLoop.flagsOf [flag]).epollout = true) := by
  cases flag <;> decide

namespace Narrow

theorem registered {k : Kernel} {fd : Fd} {memory : Bool}
    (h : ∀ fd flags, k.interest fd = some flags → ¬ (flags.epollin = true ∧ flags.epollout = true))
    (fd' : Fd) (flags : EpollFlags)
    (hi : (SocketLoop.registerChannel k fd memory).interest fd' = some flags) :
    ¬ (flags.epollin = true ∧ flags.epollout = true) := by
  rcases Kernel.interest_ctlAdd_some hi with hold | rfl
  · exact h fd' flags hold
  · decide

theorem initial (listenFd : Fd) (memory : Bool) (metrics : Metrics) :
    Narrow (Dispatcher.initial listenFd memory metrics : State H) where
  interest := registered (by simp)
  pending id hm := absurd hm (not_managed_initial listenFd memory metrics id)

theorem poll (hn : Narrow s) {ready : List EpollEvent} (hready : Watching s.kernel ready)
    (watched : List ChannelId) :
    Narrow { s with phase := .batch (SocketLoop.poll s.getFd watched ready) } := by
  refine ⟨hn.interest, fun id _ => ?_⟩
  rw [@pending_batch _ { s with phase := .batch _ } _ rfl]
  rcases pendingOf_poll s.getFd watched id ready hready.1 with hnil | ⟨r, hr, hfd, heq⟩
  · rw [hnil]
    exact ⟨List.nil_sublist _, fun h => List.not_mem_nil h.1⟩
  · obtain ⟨hsub, hin, hout⟩ := pendingOf_eventsOf r.events id
    obtain ⟨hrin, hrout⟩ := hready.2 r hr
    rw [heq]
    refine ⟨hsub, fun h => ?_⟩
    have hin' := hrin (hin h.1)
    have hout' := hrout (hout h.2)
    cases hi : s.kernel.interest r.fd with
    | none =>
      rw [hi] at hin'
      cases hin'
    | some flags =>
      rw [hi] at hin' hout'
      exact hn.interest _ _ hi ⟨hin', hout'⟩

theorem pending_of_sublist (hn : Narrow s) {id : ChannelId} (hm : s.Managed id)
    {rest : List EventFlag} (h : rest.Sublist (s.pending id)) :
    rest.Sublist flagOrder ∧ ¬ (.READ ∈ rest ∧ .WRITE ∈ rest) := by
  obtain ⟨hsub, hboth⟩ := hn.pending id hm
  exact ⟨h.trans hsub, fun hmem => hboth ⟨h.subset hmem.1, h.subset hmem.2⟩⟩

theorem welcome (hn : Narrow s) (h : Owned s) {a : Answers H} {first : Event} {events : List Event}
    (hphase : s.phase = .batch (first :: events)) (hfree : s.kernel.files a.accepted = none) :
    Narrow (s.welcome events a) := by
  refine ⟨registered hn.interest, fun id hm => ?_⟩
  rw [@pending_batch _ (s.welcome events a) events rfl]
  rcases (h.managed_welcome hfree events id).mp hm with rfl | hm'
  · rw [h.pendingOf_nextId hphase]
    exact ⟨List.nil_sublist _, fun hmem => List.not_mem_nil hmem.1⟩
  · exact hn.pending_of_sublist hm' ((@pending_cons _ s first.flag first.channel events hphase).2 id)

theorem affected (hn : Narrow s) {flag : EventFlag} {id : ChannelId} {channel : PlainTextChannel}
    {a : Answers H} {e : Effect H} {events : List Event}
    (hphase : s.phase = .batch (⟨flag, id⟩ :: events)) (hout : Outcome channel a flag e)
    (ha : Affected s id events a.memory e s') : Narrow s' := by
  refine ⟨fun fd flags hi => ?_, fun id' hm => ?_⟩
  · rcases ha.interest_some fd flags hi with hold | ⟨events', he, rfl⟩
    · exact hn.interest fd flags hold
    · obtain ⟨flag', rfl⟩ := hout.interest_eq he
      exact flagsOf_singleton flag'
  · refine hn.pending_of_sublist ((ha.managed id').mp hm) ?_
    exact (pending_affected ha id').trans ((pending_cons hphase).2 id')

theorem swept (hn : Narrow s) (hw : Swept s s') : Narrow s' := by
  refine ⟨fun fd flags hi => ?_, fun id _ => ?_⟩
  · rw [hw.interest] at hi
    split at hi
    · cases hi
    · exact hn.interest fd flags hi
  · rw [pending_eq_nil (by simp [hw.phase])]
    exact ⟨List.nil_sublist _, fun hmem => List.not_mem_nil hmem.1⟩

theorem moves (hn : Narrow s) (h : Owned s) (hrep : Reported s label) (hm : Moves s label s')
    (hrun : s'.phase ≠ .returned) : Narrow s' := by
  cases hm with
  | poll order ready htop horder => exact hn.poll hrep.2 _
  | refused a flag events hphase hneg =>
    refine ⟨hn.interest, fun id hm => hn.pending_of_sublist hm ?_⟩
    rw [@pending_batch _ { s with phase := .batch events } _ rfl]
    exact (pending_cons hphase).2 id
  | accepted a flag events hphase hpos hfree => exact hn.welcome h hphase hfree
  | client a flag id events channel e s' hphase hm hobj he ha =>
    exact hn.affected hphase (outcome_of_effect he) ha
  | cleanup granted s' hphase hw => exact hn.swept hw
  | stop order granted s' htop hstop => exact absurd hstop.phase hrun

end Narrow

theorem narrow_of_run {listenFd : Fd} {memory : Bool} {metrics : Metrics} {labels : List (Label H)}
    (hfd : 0 ≤ listenFd) (h : Run step Reported (initial listenFd memory metrics) labels s)
    (hrun : s.phase ≠ .returned) : Narrow s := by
  refine inv_of_run hfd (fun _ _ hok => hok.1) h hrun (.initial listenFd memory metrics) ?_
  exact fun s label s' hown hn hrep hm hrun' => hn.moves hown hrep hm hrun'

/-! ### The report of a batch -/

/-- The reports of the last wait, when they were `ready` before the step. -/
def waited (ready : List EpollEvent) : Label H → List EpollEvent
  | .poll _ reported => reported
  | _ => ready

/-- The reports of the last wait in the steps `past`. -/
def lastReports (past : List (State H × Label H)) : List EpollEvent :=
  past.foldl (fun ready made => waited ready made.2) []

/-- What is to come for a connection is the end of one of the reports `ready`. -/
def Reporting (ready : List EpollEvent) (s : State H) : Prop :=
  ∀ id, s.Managed id → s.pending id = [] ∨
    ∃ r ∈ ready, r.fd = s.getFd id ∧ s.pending id <:+ pendingOf (SocketLoop.eventsOf r.events id) id

theorem pendingOf_suffix {first : Event} {events : List Event} (hphase : s.phase = .batch (first :: events))
    (id : ChannelId) : pendingOf events id <:+ s.pending id := by
  rw [pending_batch hphase]
  exact ((List.suffix_cons _ _).filter _).map _

theorem pending_event {first : Event} {events : List Event} {a : Answers H}
    (hphase : s.phase = .batch (first :: events)) (hm : Moves s (.event a) s') (id : ChannelId) :
    s'.pending id = [] ∨ s'.pending id = pendingOf events id := by
  by_cases hthrew : s'.phase = .threw
  · exact Or.inl (pending_eq_nil (by simp [hthrew]) id)
  · exact Or.inr (pending_batch (phase_of_head hphase hm hthrew) id)

namespace Reporting

variable {ready : List EpollEvent}

theorem event (hr : Reporting ready s) {id : ChannelId} (hm : s.Managed id) {first : Event}
    {events : List Event} {a : Answers H} (hphase : s.phase = .batch (first :: events))
    (hmoves : Moves s (.event a) s') (hfd : s'.getFd id = s.getFd id) : s'.pending id = [] ∨
      ∃ r ∈ ready, r.fd = s'.getFd id ∧ s'.pending id <:+ pendingOf (SocketLoop.eventsOf r.events id) id := by
  rcases pending_event hphase hmoves id with hnil | hrest
  · exact Or.inl hnil
  · have hsuffix := pendingOf_suffix hphase id
    rw [← hrest] at hsuffix
    rcases hr id hm with hnil | ⟨r, hmem, hrfd, hpend⟩
    · rw [hnil] at hsuffix
      exact Or.inl (List.suffix_nil.mp hsuffix)
    · exact Or.inr ⟨r, hmem, hrfd.trans hfd.symm, hsuffix.trans hpend⟩

theorem moves (hr : Reporting ready s) (h : Owned s) (hrep : Reported s label) (hm : Moves s label s')
    (hrun : s'.phase ≠ .returned) :
    Reporting (waited ready label) s' := by
  have hm' := hm
  cases hm with
  | poll order ready htop horder =>
    intro id _
    rw [@pending_batch _ { s with phase := .batch _ } _ rfl]
    rcases pendingOf_poll s.getFd (serverChannel :: order.map (·.2)) id ready hrep.2.1 with
      hnil | ⟨r, hmem, hfd, heq⟩
    · exact Or.inl hnil
    · refine Or.inr ⟨r, hmem, hfd, ?_⟩
      rw [heq]
  | refused a flag events hphase hneg => exact fun id hman => hr.event hman hphase hm' rfl
  | accepted a flag events hphase hpos hfree =>
    intro id hman
    rcases (h.managed_welcome hfree events id).mp hman with rfl | hold
    · refine Or.inl ?_
      rw [@pending_batch _ (s.welcome events a) events rfl, h.pendingOf_nextId hphase]
    · refine hr.event hold hphase hm' ?_
      rw [Owned.getFd_welcome, if_neg (h.ne_nextId hold)]
  | client a flag id' events channel e s' hphase hmanaged hobj he ha =>
    exact fun id hman => hr.event ((ha.managed id).mp hman) hphase hm' (ha.getFd id)
  | cleanup granted s' hphase hw =>
    exact fun id _ => Or.inl (pending_eq_nil (by simp [hw.phase]) id)
  | stop order granted s' htop hstop => exact absurd hstop.phase hrun

end Reporting

theorem reporting_of_run {listenFd : Fd} {memory : Bool} {metrics : Metrics} {labels : List (Label H)}
    (hfd : 0 ≤ listenFd) (h : Run step Reported (initial listenFd memory metrics) labels s)
    (hrun : s.phase ≠ .returned) :
    Reporting (lastReports (Run.history step (initial listenFd memory metrics) labels)) s := by
  refine history_of_run (I := fun past s => Reporting (lastReports past) s) hfd (fun _ _ hok => hok.1) h hrun
    (fun id hm => absurd hm (not_managed_initial listenFd memory metrics id)) ?_
  intro past s label s' hown hr hrep hm hrun'
  rw [lastReports, List.foldl_append]
  exact hr.moves hown hrep hm hrun'

/-! ### After the mark -/

/-- What happened on the connection `id`, which is marked in `t`, by the steps `labels`
that led to `s`: the events to come for it were handled in turn, as they always are, and
with the end of the batch it was closed and erased. -/
structure Aftermath (t : State H) (id : ChannelId) (labels : List (Label H)) (s : State H) : Prop where
  flags : (turnsOn id (Run.history step t labels)).map (·.flag) ++ s.pending id <+: t.pending id
  blind : ∀ turn ∈ turnsOn id (Run.history step t labels), turn.Blind
  ended :
    (s.Marked id ∧ s.phase ≠ .top ∧ (∀ label ∈ labels, ∃ a, label = .event a) ∧
      s.acts id = t.acts id ++ (turnsOn id (Run.history step t labels)).flatMap Turn.acts) ∨
    (¬ s.Managed id ∧ (∃ batch granted later, labels = batch ++ .cleanup granted :: later ∧
        ∀ label ∈ batch, ∃ a, label = .event a) ∧
      s.acts id = t.acts id ++ (turnsOn id (Run.history step t labels)).flatMap Turn.acts
        ++ [.close, .erase])

namespace Aftermath

variable {t : State H} {id : ChannelId} {labels : List (Label H)}

theorem start (hmark : t.Marked id) (htop : t.phase ≠ .top) : Aftermath t id [] t where
  flags := List.prefix_rfl
  blind turn hmem := by cases hmem
  ended := Or.inl ⟨hmark, htop, by simp, (List.append_nil _).symm⟩

theorem gone (hf : Aftermath t id labels s) (hhist : turnsOn id (Run.history step t (labels ++ [label]))
      = turnsOn id (Run.history step t labels)) (hpend : s'.pending id = [])
    (hnm : ¬ s.Managed id) (hnm' : ¬ s'.Managed id) (hacts : s'.acts id = s.acts id) :
    Aftermath t id (labels ++ [label]) s' := by
  refine ⟨?_, ?_, ?_⟩
  · rw [hhist, hpend, List.append_nil]
    exact (List.prefix_append _ _).trans hf.flags
  · rw [hhist]
    exact hf.blind
  · rw [hhist, hacts]
    rcases hf.ended with ⟨hmark, -⟩ | ⟨-, ⟨batch, granted, later, rfl, hbatch⟩, hended⟩
    · exact absurd hmark.1 hnm
    · exact Or.inr ⟨hnm', ⟨batch, granted, later ++ [label], by simp, hbatch⟩, hended⟩

theorem other (hf : Aftermath t id labels s) {a : Answers H} (hid : id ≠ serverChannel) (h : Owned s)
    (hu : Untouched s s' id) (hrun : s'.phase ≠ .top)
    (hhist : turnsOn id (Run.history step t (labels ++ [.event a]))
      = turnsOn id (Run.history step t labels)) : Aftermath t id (labels ++ [.event a]) s' := by
  by_cases hman : s.Managed id
  · refine ⟨?_, by rw [hhist]; exact hf.blind, ?_⟩
    · rw [hhist]
      by_cases hthrew : s'.phase = .threw
      · rw [pending_eq_nil (by simp [hthrew]) id, List.append_nil]
        exact (List.prefix_append _ _).trans hf.flags
      · rw [hu.pending hthrew]
        exact hf.flags
    · rcases hf.ended with ⟨hmark, -, hall, hacts⟩ | ⟨hnm, -⟩
      · refine Or.inl ⟨hu.marked.mpr hmark, hrun, ?_, by rw [hhist, hu.acts, hacts]⟩
        simpa [or_imp, forall_and] using hall
      · exact absurd hman hnm
  · exact hf.gone hhist (hu.pending_nil (h.pending_nil hid hman)) hman (fun hm => hman (hu.managed.mp hm))
      hu.acts

theorem turn (hf : Aftermath t id labels s) (h : Owned s) {flag : EventFlag} {events : List Event}
    {channel : PlainTextChannel} {a : Answers H} {e : Effect H}
    (hphase : s.phase = .batch (⟨flag, id⟩ :: events)) (hm : s.Managed id)
    (hobj : s.objects id = some channel) (he : effect channel flag a = some e)
    (ha : Affected s id events a.memory e s') (hmoves : Moves s (.event a) s')
    (hs : step s (.event a) = some s')
    (hhist : turnsOn id (Run.history step t (labels ++ [.event a]))
      = turnsOn id (Run.history step t labels) ++ [⟨s, id, flag, a⟩]) :
    Aftermath t id (labels ++ [.event a]) s' := by
  refine ⟨?_, ?_, ?_⟩
  · have hflags := hf.flags
    rw [(pending_cons hphase).1] at hflags
    rw [hhist, List.map_append, List.map_singleton, List.append_assoc, List.singleton_append]
    rcases pending_event hphase hmoves id with hnil | hrest
    · rw [hnil]
      refine (List.prefix_append_right_inj _).mpr ?_ |>.trans hflags
      exact List.cons_prefix_cons.mpr ⟨rfl, List.nil_prefix⟩
    · rwa [hrest]
  · intro turn hmem
    rw [hhist] at hmem
    rcases List.mem_append.mp hmem with hold | hnew
    · exact hf.blind turn hold
    · rw [List.mem_singleton.mp hnew]
      exact blind_of_event h hm hphase hs
  · rcases hf.ended with ⟨hmark, -, hall, hacts⟩ | ⟨hnm, -⟩
    · have hturn : Turn.acts ⟨s, id, flag, a⟩ = e.acts := by
        simp only [Turn.acts, hobj, he]
      refine Or.inl ⟨(ha.marked_iff hm id).mpr (Or.inl hmark), (running_of_event hmoves).1, ?_, ?_⟩
      · simpa [or_imp, forall_and] using hall
      · rw [ha.acts, if_pos rfl, hacts, hhist, List.flatMap_append, List.flatMap_singleton, hturn,
          List.append_assoc]
    · exact absurd hm hnm

theorem cleanup (hf : Aftermath t id labels s) (hw : Swept s s') (granted : Nat → Bool)
    (hhist : turnsOn id (Run.history step t (labels ++ [.cleanup granted]))
      = turnsOn id (Run.history step t labels)) : Aftermath t id (labels ++ [.cleanup granted]) s' := by
  have hpend : s'.pending id = [] := pending_eq_nil (by simp [hw.phase]) id
  rcases hf.ended with ⟨hmark, -, hall, hacts⟩ | ⟨hnm, -⟩
  · refine ⟨?_, by rw [hhist]; exact hf.blind, Or.inr ⟨fun hm' => ((hw.managed id).mp hm').2 hmark,
      ⟨labels, granted, [], rfl, hall⟩, ?_⟩⟩
    · rw [hhist, hpend, List.append_nil]
      exact (List.prefix_append _ _).trans hf.flags
    · rw [hhist, hw.acts, if_pos hmark, hacts]
  · refine hf.gone hhist hpend hnm (fun hm' => hnm ((hw.managed id).mp hm').1) ?_
    rw [hw.acts, if_neg fun hmark => hnm hmark.1, List.append_nil]

/-- **One step more.** -/
theorem moves (hf : Aftermath t id labels s) (h : Owned s) (hid : id ≠ serverChannel) (hlt : id < s.nextId)
    (hm : Moves s label s') (hs : step s label = some s')
    (hhist : Run.history step t (labels ++ [label]) = Run.history step t labels ++ [(s, label)]) :
    Aftermath t id (labels ++ [label]) s' := by
  have happend : turnsOn id (Run.history step t (labels ++ [label]))
      = turnsOn id (Run.history step t labels) ++ turnsOn id [(s, label)] := by
    rw [hhist, turnsOn_append]
  have hquiet : (∀ a, label ≠ .event a) → turnsOn id (Run.history step t (labels ++ [label]))
      = turnsOn id (Run.history step t labels) := fun hno => by
    rw [happend, turnsOn_quiet hno, List.append_nil]
  -- at the top of the loop nothing is marked any more
  have hgone : s.phase = .top → ¬ s.Managed id := by
    intro htop
    rcases hf.ended with ⟨-, hne, -⟩ | ⟨hnm, -⟩
    · exact absurd htop hne
    · exact hnm
  cases label with
  | event a =>
    rcases turn_or_untouched h hm hid hlt with ⟨hnone, hu⟩ |
      ⟨flag, events, channel, e, hphase, hman, hone, hobj, he, ha⟩
    · exact hf.other hid h hu (running_of_event hm).1 (by rw [happend, hnone, List.append_nil])
    · exact hf.turn h hphase hman hobj he ha hm hs (by rw [happend, hone])
  | poll order ready =>
    have hown' := h.moves hm
    cases hm with
    | poll _ _ htop horder =>
      have hnm := hgone htop
      exact hf.gone (hquiet (by simp)) ((hown' (by simp)).pending_nil hid hnm) hnm hnm rfl
  | cleanup granted =>
    cases hm with
    | cleanup _ s' hphase hw => exact hf.cleanup hw granted (hquiet (by simp))
  | stop order granted =>
    cases hm with
    | stop _ _ s' htop hstop =>
      have hnm := hgone htop
      refine hf.gone (hquiet (by simp)) (pending_eq_nil (by simp [hstop.phase]) id) hnm ?_ (hstop.acts id hid)
      rwa [State.Managed, State.getFd, hstop.objects id hid, hstop.manager]

end Aftermath

theorem nextId_le_of_moves (hm : Moves s label s') : s.nextId ≤ s'.nextId := by
  cases hm with
  | poll | refused => exact le_rfl
  | accepted => exact Nat.le_succ _
  | client _ _ _ _ _ _ _ _ _ _ _ ha => exact ha.nextId.ge
  | cleanup _ _ _ hw => exact hw.nextId.ge
  | stop _ _ _ _ hstop => exact hstop.nextId.ge

/-- **What is marked is handled to the end of its batch and closed.** -/
theorem aftermath_of_run {ok : State H → Label H → Prop} (hfresh : ∀ s label, ok s label → Fresh s label)
    {t : State H} {id : ChannelId} (h : Owned t) (hmark : t.Marked id) (htop : t.phase ≠ .top)
    {labels : List (Label H)} (hrun : Run step ok t labels s) : Aftermath t id labels s := by
  have hid := h.ne_server hmark.1
  suffices hall : (s.phase ≠ .returned → Owned s) ∧ id < s.nextId ∧ Aftermath t id labels s from hall.2.2
  induction hrun with
  | nil => exact ⟨fun _ => h, (h.entry _ _ hmark.1).2.1, .start hmark htop⟩
  | snoc hr hok hs ih =>
    obtain ⟨hown, hlt, hf⟩ := ih
    have hown' := hown (running_of_step hs)
    have hm := moves_of_step hown' (hfresh _ _ hok) hs
    refine ⟨hown'.moves hm, Nat.lt_of_lt_of_le hlt (nextId_le_of_moves hm), hf.moves hown' hid hlt hm hs ?_⟩
    rw [hr.history_append, Run.history_one hs]

/-! ### The mark -/

/-- What an event that marks does: a `READ` or a `WRITE` fails and is followed by the change
of interest that goes with it, and an `ERROR` or a `HANGUP` does nothing else. -/
inductive Marking : EventFlag → List (Act H) → Prop
  | read (result : Option Bytes) (h : result = none ∨ result = some []) :
      Marking .READ [.read result, .mark, .interest [.ERROR]]
  | write : Marking .WRITE [.flush .FAILED, .mark, .interest [.ERROR]]
  | reported {flag : EventFlag} (h : flag = .ERROR ∨ flag = .HANGUP) : Marking flag [.mark]

theorem Outcome.marking {channel : PlainTextChannel} {a : Answers H} {flag : EventFlag} {e : Effect H}
    (h : Outcome channel a flag e) (hmarks : e.marks = true) : Marking flag e.acts := by
  cases h with
  | marked hf => exact .reported hf.symm
  | readFailed result hr => exact .read result hr
  | flushFailed channel' bytes hf => exact .write
  | threw | answered | flushed => cases hmarks

/-- **What happens on a connection after its mark.**  Let epoll report each descriptor
once, and only what it is watched for, and let an event mark a connection that was not
marked.  The event, with what is still to come for the connection, is the end of one
report: nothing comes after a `READ` or `WRITE` that failed, and after an `ERROR` or a
`HANGUP` one more mark at most and one `READ` or `WRITE` at most.  What comes is handled
as if nothing were marked, and with the end of the batch the connection is closed and
erased; nothing else happens on it, in any continuation of the run. -/
theorem aftermath {listenFd : Fd} {memory : Bool} {metrics : Metrics} {labels more : List (Label H)}
    {t t' s : State H} {a : Answers H} {id : ChannelId} (hfd : 0 ≤ listenFd)
    (h : Run step Reported (initial listenFd memory metrics) labels t) (hrep : Reported t (.event a))
    (hs : step t (.event a) = some t') (hfirst : ¬ t.Marked id) (hmark : t'.Marked id)
    (hmore : Run step Reported t' more s) :
    ∃ flag events, t.phase = .batch (⟨flag, id⟩ :: events) ∧
      (∃ r ∈ lastReports (Run.history step (initial listenFd memory metrics) labels), r.fd = t.getFd id ∧
        flag :: t'.pending id <:+ pendingOf (SocketLoop.eventsOf r.events id) id) ∧
      t'.pending id ∈ restsOf flag ∧
      (∃ acts, t'.acts id = t.acts id ++ acts ∧ Marking flag acts) ∧
      Aftermath t' id more s := by
  have hrunning := running_of_step hs
  have hown := owned_of_run hfd (h.mono fun _ _ hok => hok.1) hrunning
  have hnarrow := narrow_of_run hfd h hrunning
  have hreport := reporting_of_run hfd h hrunning
  have hm := moves_of_step hown hrep.1 hs
  have hown' := hown.moves hm (running_of_event hm).2
  have hafter := aftermath_of_run (fun _ _ hok => hok.1) hown' hmark (running_of_event hm).1 hmore
  cases hm with
  | refused _ flag events hphase hneg => exact absurd hmark hfirst
  | accepted _ flag events hphase hpos hfree =>
    exact absurd ((hown.marked_welcome hfree events id).mp hmark) hfirst
  | client _ flag id' events channel e _ hphase hman hobj he ha =>
    obtain ⟨rfl, hmarks⟩ := ((ha.marked_iff hman id).mp hmark).resolve_left hfirst
    have hmarking := (outcome_of_effect he).marking hmarks
    -- an event that marks throws nothing
    have hthrows : e.throws = false := by
      cases outcome_of_effect he with
      | threw => cases hmarks
      | marked | readFailed | answered | flushed | flushFailed => rfl
    have hpend : t'.pending id = pendingOf events id := by
      refine pending_batch ?_ id
      rw [ha.phase, hthrows]
      rfl
    have hall := (pending_cons hphase).1
    obtain ⟨hsub, hboth⟩ := hnarrow.pending id hman
    refine ⟨flag, events, hphase, ?_, ?_, ⟨e.acts, ?_, hmarking⟩, hafter⟩
    · rcases hreport id hman with hnil | ⟨r, hmem, hrfd, hsuffix⟩
      · rw [hall] at hnil
        cases hnil
      · rw [hpend, ← hall]
        exact ⟨r, hmem, hrfd, hsuffix⟩
    · rw [hpend]
      rw [hall] at hsub hboth
      exact rest_of_sublist hsub hboth
    · rw [ha.acts, if_pos rfl]

/-- A connection on which a request and a hangup are reported together. -/
def hangupRequestLabels : List (Label Unit) :=
  [.poll [] [⟨{ epollin := true }, 3⟩], .event { app := idleApp, accepted := 4 }, .cleanup fun _ => true,
    .poll [⟨4, 1⟩] [⟨{ epollin := true, epollhup := true }, 4⟩]]

/-- The answers when the request is read. -/
def getAnswers : Answers Unit := { app := idleApp, read := some (ascii "GET") }

def hangupRequest : State Unit :=
  (Run.exec step Reported (initial 3 true ∅) hangupRequestLabels).get (by decide +kernel)

theorem run_hangupRequest : Run step Reported (initial 3 true ∅) hangupRequestLabels hangupRequest :=
  Run.of_exec hangupRequestLabels _ (Option.some_get _).symm

/-- The hangup is handled, and then the request. -/
def servedMarked : State Unit :=
  (Run.exec step Reported hangupRequest [.event { app := idleApp }, .event getAnswers]).get (by decide +kernel)

theorem run_servedMarked :
    Run step Reported hangupRequest [.event { app := idleApp }, .event getAnswers] servedMarked :=
  Run.of_exec _ _ (Option.some_get _).symm

theorem aftermath_servedMarked :
    ∃ t', step hangupRequest (.event { app := idleApp }) = some t' ∧
      ∃ flag events, hangupRequest.phase = .batch (⟨flag, 1⟩ :: events) ∧ t'.pending 1 ∈ restsOf flag ∧
        Aftermath t' 1 [.event getAnswers] servedMarked := by
  obtain ⟨t', hrep, hs, hmore⟩ := Run.cons_iff.mp run_servedMarked
  have hmark : t'.Marked 1 := by
    have hall : ∀ t' ∈ step hangupRequest (.event { app := idleApp }), t'.Marked 1 := by decide +kernel
    exact hall t' hs
  obtain ⟨flag, events, hphase, -, hrest, -, hafter⟩ :=
    aftermath (by decide) run_hangupRequest hrep hs (by decide +kernel) hmark hmore
  exact ⟨t', hs, flag, events, hphase, hrest, hafter⟩

/-- The marked connection is read from, its request is parsed, and a response is
queued for it. -/
theorem served_after_hangup :
    Run step Reported (initial 3 true ∅)
        (hangupRequestLabels ++ [.event { app := idleApp }, .event getAnswers]) servedMarked ∧
      servedMarked.acts 1 = [.accept 4, .mark, .read (some (ascii "GET")), .parse (ascii "GET"),
        .queue (ascii "HTTP/1.1 500"), .interest [.WRITE]] := by
  refine ⟨run_hangupRequest.append run_servedMarked, ?_⟩
  decide +kernel

end Sews.Runtime
