import Sews.Runtime.Ownership

/-!
# The life of a connection

`Owned` holds in every run in which `accept` returns no descriptor that is still
open (`owned_of_run`), since every step keeps it.  The record of a connection
then has one of two shapes (`Life`): while the manager has it nothing closed or
erased it, and afterwards it was marked, then closed and erased once, and nothing
happened to it since.

`connection_lifetime` puts this together for a run of the dispatcher.
-/

namespace Sews.Runtime

open Cpp Sews.Http Sews.Connection Sews.Reactor Sews.Telemetry Dispatcher

variable {H : Type} {s s' : State H} {label : Label H}

/-! ### Every step keeps the ownership -/

theorem owned_initial {listenFd : Fd} (hfd : 0 ≤ listenFd) (memory : Bool) (metrics : Metrics) :
    Owned (Dispatcher.initial listenFd memory metrics : State H) := by
  refine ⟨⟨hfd, ?_⟩, fun fd id hl => ?_, fun fd id hf => ?_, fun fd hf => ?_, fun fd hmem => ?_,
    fun e he => ?_, fun _ => rfl, fun id hid => ⟨?_, ?_, rfl, ?_⟩⟩
  · rw [files_initial]
    exact Function.update_self ..
  · rw [lookup_initial] at hl
    cases hl
  · rw [files_initial, Function.update_apply] at hf
    split at hf
    · exact Or.inl (Option.some.inj hf).symm
    · cases hf
  · have hne : fd ≠ listenFd := by
      rintro rfl
      rw [files_initial, Function.update_self] at hf
      cases hf
    exact Kernel.interest_ctlAdd_ne hne _ _
  · cases hmem
  · cases he
  · exact objects_initial (Nat.ne_of_gt hid)
  · rw [sent_initial]
  · exact Nat.ne_of_gt hid

namespace Owned

theorem poll (h : Owned s) {order : List (Σ _ : Fd, ChannelId)}
    (horder : UnorderedMap.Enumerates order s.manager.channels) (ready : List EpollEvent) :
    Owned { s with phase := .batch (SocketLoop.poll s.getFd (serverChannel :: order.map (·.2)) ready) } := by
  refine ⟨h.server, h.entry, h.file, h.interest, h.mark, fun e he => ?_, (fun hp => by cases hp), h.fresh⟩
  have hmem := (SocketLoop.mem_poll he).1
  rcases List.mem_cons.mp hmem with hserver | hmem
  · exact Or.inl hserver
  · obtain ⟨⟨fd, id⟩, hentry, hid⟩ := List.mem_map.mp hmem
    refine Or.inr ?_
    rw [← hid]
    exact h.managed_of_lookup ((horder.mem_iff fd id).mp hentry)

theorem mem_events {e : Event} {events : List Event} {first : Event}
    (hphase : s.phase = .batch (first :: events)) (he : e ∈ events) : e ∈ s.events := by
  rw [State.events, hphase]
  exact List.mem_cons_of_mem _ he

theorem refused (h : Owned s) {first : Event} {events : List Event}
    (hphase : s.phase = .batch (first :: events)) : Owned { s with phase := .batch events } :=
  ⟨h.server, h.entry, h.file, h.interest, h.mark, fun e he => h.pending e (mem_events hphase he),
    (fun hp => by cases hp), h.fresh⟩

theorem ne_nextId (h : Owned s) {id : ChannelId} (hm : s.Managed id) : id ≠ s.nextId :=
  Nat.ne_of_lt (h.entry _ _ hm).2.1

/-- A new connection's object is as its constructor leaves it, and the others are as they were. -/
theorem objects_welcome (a : Answers H) (events : List Event) (id : ChannelId) :
    (s.welcome events a).objects id
      = if id = s.nextId then some ⟨a.accepted, a.garbage, false, []⟩ else s.objects id :=
  Function.update_apply ..

theorem getFd_welcome (a : Answers H) (events : List Event) (id : ChannelId) :
    (s.welcome events a).getFd id = if id = s.nextId then a.accepted else s.getFd id := by
  rw [getFd_eq_getD, getFd_eq_getD, objects_welcome]
  split
  · rfl
  · rfl

theorem lookup_welcome (a : Answers H) (events : List Event) (fd : Fd) :
    (s.welcome events a).manager.channels.lookup fd
      = if fd = a.accepted then some s.nextId else s.manager.channels.lookup fd := by
  show (Finmap.insert a.accepted s.nextId s.manager.channels).lookup fd = _
  rcases eq_or_ne fd a.accepted with rfl | hfd
  · rw [Finmap.lookup_insert, if_pos rfl]
  · rw [Finmap.lookup_insert_of_ne _ hfd, if_neg hfd]

theorem files_welcome (a : Answers H) (events : List Event) (fd : Fd) :
    (s.welcome events a).kernel.files fd
      = if fd = a.accepted then some s.nextId else s.kernel.files fd := by
  show (Kernel.ctlAdd (s.kernel.accept a.accepted s.nextId) a.accepted SocketLoop.readMask
    a.memory).files fd = _
  rw [Kernel.files_ctlAdd]
  exact Function.update_apply ..

theorem sent_welcome (a : Answers H) (events : List Event) :
    (s.welcome events a).kernel.sent = s.kernel.sent := Kernel.sent_ctlAdd _ _ _ _

theorem interest_welcome_ne {a : Answers H} {fd : Fd} (hfd : fd ≠ a.accepted) (events : List Event) :
    (s.welcome events a).kernel.interest fd = s.kernel.interest fd := Kernel.interest_ctlAdd_ne hfd _ _

theorem interest_welcome (h : Owned s) {a : Answers H} (hfree : s.kernel.files a.accepted = none)
    (hmem : a.memory = true) (events : List Event) :
    (s.welcome events a).kernel.interest a.accepted = some SocketLoop.readMask := by
  show (Kernel.ctlAdd _ a.accepted SocketLoop.readMask a.memory).interest a.accepted = _
  rw [Kernel.ctlAdd, if_pos]
  · exact Function.update_self ..
  · refine ⟨hmem, ?_, h.interest _ hfree⟩
    simp [Kernel.accept]

theorem interest_welcome_refused {a : Answers H} (hmem : a.memory = false) (events : List Event) :
    (s.welcome events a).kernel.interest = s.kernel.interest := by
  show (Kernel.ctlAdd _ a.accepted SocketLoop.readMask a.memory).interest = _
  rw [Kernel.ctlAdd, if_neg fun hadd => by rw [hmem] at hadd; cases hadd.1]
  rfl

theorem acts_welcome (a : Answers H) (events : List Event) (id : ChannelId) :
    (s.welcome events a).acts id
      = s.acts id ++ if id = s.nextId then [.accept a.accepted] else [] := by
  show actsOf (s.trace ++ _) id = _
  rw [actsOf_append, actsOf_map]
  rfl

/-- A connection under an open descriptor is not displaced by a new one. -/
theorem getFd_ne_of_free (h : Owned s) {fd : Fd} (hfree : s.kernel.files fd = none) {id : ChannelId}
    (hm : s.Managed id) : s.getFd id ≠ fd := by
  intro heq
  have hfile := (h.entry _ _ hm).2.2.2.1
  rw [heq, hfree] at hfile
  cases hfile

theorem managed_welcome (h : Owned s) {a : Answers H} (hfree : s.kernel.files a.accepted = none)
    (events : List Event) (id : ChannelId) :
    (s.welcome events a).Managed id ↔ id = s.nextId ∨ s.Managed id := by
  rw [State.Managed, getFd_welcome, lookup_welcome]
  rcases eq_or_ne id s.nextId with rfl | hid
  · simp
  · rw [if_neg hid]
    simp only [hid, false_or]
    constructor
    · intro hl
      split at hl
      · exact absurd (Option.some.inj hl).symm hid
      · exact hl
    · intro hm
      rw [if_neg (h.getFd_ne_of_free hfree hm)]
      exact hm

theorem marked_welcome (h : Owned s) {a : Answers H} (hfree : s.kernel.files a.accepted = none)
    (events : List Event) (id : ChannelId) : (s.welcome events a).Marked id ↔ s.Marked id := by
  have hnew : a.accepted ∉ s.manager.closedChannels := by
    intro hmem
    obtain ⟨id', hmark, heq⟩ := h.marked_of_mem hmem
    exact h.getFd_ne_of_free hfree hmark.1 heq
  rw [State.Marked, h.managed_welcome hfree, getFd_welcome]
  rcases eq_or_ne id s.nextId with rfl | hid
  · rw [if_pos rfl]
    exact iff_of_false (fun hm => hnew hm.2) (fun hm => h.ne_nextId hm.1 rfl)
  · rw [if_neg hid]
    simp only [hid, false_or]
    rfl

theorem welcome (h : Owned s) {a : Answers H} {first : Event} {events : List Event}
    (hphase : s.phase = .batch (first :: events)) (hpos : 0 ≤ a.accepted)
    (hfree : s.kernel.files a.accepted = none) : Owned (s.welcome events a) := by
  obtain ⟨-, hsent, hacts, hne⟩ := h.fresh s.nextId le_rfl
  refine ⟨?_, fun fd id hl => ?_, fun fd id hf => ?_, fun fd hf => ?_, fun fd hmem => ?_,
    fun e he => ?_, (fun hp => by cases hp), fun id hid => ?_⟩
  · rw [getFd_welcome, if_neg (Ne.symm hne), files_welcome, if_neg]
    · exact h.server
    · intro heq
      rw [← heq, h.server.2] at hfree
      cases hfree
  · rw [lookup_welcome] at hl
    rw [files_welcome, getFd_welcome]
    split at hl
    · rename_i hfd
      subst hfd
      cases hl
      exact ⟨hne, Nat.lt_succ_self _, hpos, if_pos rfl, if_pos rfl⟩
    · rename_i hfd
      obtain ⟨hserver, hlt, hfd0, hfile, hself⟩ := h.entry fd id hl
      rw [if_neg hfd, if_neg (Nat.ne_of_lt hlt)]
      exact ⟨hserver, Nat.lt_succ_of_lt hlt, hfd0, hfile, hself⟩
  · rw [files_welcome] at hf
    rw [lookup_welcome]
    split at hf
    · rename_i hfd
      rw [if_pos hfd]
      exact Or.inr hf
    · rename_i hfd
      rw [if_neg hfd]
      exact h.file fd id hf
  · rw [files_welcome] at hf
    split at hf
    · cases hf
    · rename_i hfd
      exact (interest_welcome_ne hfd events).trans (h.interest fd hf)
  · rw [lookup_welcome]
    split
    · simp
    · exact h.mark fd hmem
  · rcases h.pending e (mem_events hphase he) with hserver | hm
    · exact Or.inl hserver
    · exact Or.inr ((h.managed_welcome hfree events _).mpr (Or.inr hm))
  · change s.nextId + 1 ≤ id at hid
    obtain ⟨hobj', hsent', hacts', hne'⟩ := h.fresh id (Nat.le_of_succ_le hid)
    have hid' : id ≠ s.nextId := Nat.ne_of_gt hid
    refine ⟨?_, ?_, ?_, hne'⟩
    · rw [objects_welcome, if_neg hid', hobj']
    · rw [sent_welcome, hsent']
    · rw [acts_welcome, if_neg hid', List.append_nil, hacts']

theorem affected (h : Owned s) {id : ChannelId} {memory : Bool} {e : Effect H} {first : Event}
    {events : List Event} (hphase : s.phase = .batch (first :: events)) (hm : s.Managed id)
    (he : Affected s id events memory e s') : Owned s' := by
  have hlt := (h.entry _ _ hm).2.1
  refine ⟨?_, fun fd id' hl => ?_, fun fd id' hf => ?_, fun fd hf => ?_, fun fd hmem => ?_,
    fun ev hev => ?_, fun hp => ?_, fun id' hid => ?_⟩
  · rw [he.getFd, he.files]
    exact h.server
  · rw [he.channels] at hl
    rw [he.nextId, he.files, he.getFd]
    exact h.entry fd id' hl
  · rw [he.files] at hf
    rw [he.channels]
    exact h.file fd id' hf
  · rw [he.files] at hf
    exact (he.interest_none fd).mpr (h.interest fd hf)
  · rw [he.marks] at hmem
    rw [he.channels]
    split at hmem
    · rcases List.mem_append.mp hmem with hmem | hmem
      · exact h.mark fd hmem
      · rw [List.mem_singleton.mp hmem, hm]
        simp
    · exact h.mark fd hmem
  · rcases h.pending ev (mem_events hphase (he.mem_events hev)) with hserver | hm'
    · exact Or.inl hserver
    · exact Or.inr ((he.managed _).mpr hm')
  · rw [he.phase] at hp
    split at hp <;> cases hp
  · rw [he.nextId] at hid
    obtain ⟨hobj, hsent, hacts, hne⟩ := h.fresh id' hid
    have hid' : id' ≠ id := Nat.ne_of_gt (Nat.lt_of_lt_of_le hlt hid)
    rw [he.objects, he.sent, he.acts, Function.update_of_ne hid', Function.update_of_ne hid',
      if_neg hid', List.append_nil]
    exact ⟨hobj, hsent, hacts, hne⟩

theorem server_unmarked (h : Owned s) : s.getFd serverChannel ∉ s.manager.closedChannels := by
  intro hmem
  obtain ⟨id, hmark, heq⟩ := h.marked_of_mem hmem
  exact h.getFd_ne_server hmark.1 heq

theorem swept (h : Owned s) (hw : Swept s s') : Owned s' := by
  have hnot : ∀ fd, fd ∉ s.manager.closedChannels → ∀ id, s.getFd id = fd → ¬ s.Marked id := by
    rintro fd hfd id rfl hmark
    exact hfd hmark.2
  have hserver := h.server_unmarked
  refine ⟨?_, fun fd id hl => ?_, fun fd id hf => ?_, fun fd hf => ?_, fun fd hmem => ?_,
    fun e he => ?_, fun _ => hw.marks, fun id hid => ?_⟩
  · rw [hw.getFd, if_neg (hnot _ hserver _ rfl), hw.files, if_neg hserver]
    exact h.server
  · rw [hw.lookup] at hl
    split at hl
    · cases hl
    · rename_i hfd
      have he := h.entry fd id hl
      rw [hw.nextId, hw.files, if_neg hfd, hw.getFd, if_neg (hnot fd hfd id he.2.2.2.2)]
      exact he
  · rw [hw.files] at hf
    split at hf
    · cases hf
    · rename_i hfd
      rw [hw.lookup, if_neg hfd]
      exact h.file fd id hf
  · rw [hw.interest]
    rw [hw.files] at hf
    split
    · rfl
    · rename_i hfd
      rw [if_neg hfd] at hf
      exact h.interest fd hf
  · rw [hw.marks] at hmem
    cases hmem
  · rw [State.events, hw.phase] at he
    cases he
  · rw [hw.nextId] at hid
    obtain ⟨hobj, hsent, hacts, hne⟩ := h.fresh id hid
    have hnm : ¬ s.Marked id := fun hmark =>
      absurd (h.entry _ _ hmark.1).2.1 (Nat.not_lt.mpr hid)
    rw [hw.objects, hw.sent, hw.acts, hobj, hsent, hacts, if_neg hnm]
    exact ⟨rfl, rfl, rfl, hne⟩

/-- **Every step that does not end the server keeps the ownership.** -/
theorem moves (h : Owned s) (hm : Moves s label s') (hrun : s'.phase ≠ .returned) : Owned s' := by
  cases hm with
  | poll order ready htop horder => exact h.poll horder ready
  | refused a flag events hphase hneg => exact h.refused hphase
  | accepted a flag events hphase hpos hfree => exact h.welcome hphase hpos hfree
  | client a flag id events channel e s' hphase hm hobj he ha => exact h.affected hphase hm ha
  | cleanup granted s' hphase hw => exact h.swept hw
  | stop order granted s' htop hstop => exact absurd hstop.phase hrun

end Owned

theorem running_of_step (hs : step s label = some s') : s.phase ≠ .returned := by
  intro hp
  cases label <;> simp only [step, hp] at hs <;> simp at hs

theorem phase_of_event {a : Answers H} (hm : Moves s (.event a) s') :
    s'.phase = .batch s'.events ∨ s'.phase = .threw := by
  cases hm with
  | refused _ flag events hphase hneg => exact Or.inl rfl
  | accepted _ flag events hphase hpos hfree => exact Or.inl rfl
  | client _ flag id events channel e s' hphase hm hobj he ha =>
    rw [State.events, ha.phase]
    cases e.throws with
    | true => exact Or.inr rfl
    | false => exact Or.inl rfl

theorem phase_of_head {event : Event} {events : List Event} {a : Answers H}
    (hphase : s.phase = .batch (event :: events)) (hm : Moves s (.event a) s')
    (hthrew : s'.phase ≠ .threw) : s'.phase = .batch events := by
  cases hm with
  | refused _ flag events' hphase' hneg =>
    rw [hphase] at hphase'
    cases hphase'
    rfl
  | accepted _ flag events' hphase' hpos hfree =>
    rw [hphase] at hphase'
    cases hphase'
    rfl
  | client _ flag id events' channel e s' hphase' hm hobj he ha =>
    rw [hphase] at hphase'
    cases hphase'
    rw [ha.phase] at hthrew ⊢
    cases ht : e.throws with
    | true => simp [ht] at hthrew
    | false => rfl

theorem running_of_event {a : Answers H} (hm : Moves s (.event a) s') :
    s'.phase ≠ .top ∧ s'.phase ≠ .returned := by
  rcases phase_of_event hm with hphase | hphase <;> rw [hphase] <;> simp

theorem not_managed_initial (listenFd : Fd) (memory : Bool) (metrics : Metrics) (id : ChannelId) :
    ¬ (Dispatcher.initial listenFd memory metrics : State H).Managed id := by
  intro hm
  rw [State.Managed, lookup_initial] at hm
  cases hm

theorem owned_of_run {listenFd : Fd} {memory : Bool} {metrics : Metrics} {labels : List (Label H)}
    (hfd : 0 ≤ listenFd) (h : Run step Fresh (initial listenFd memory metrics) labels s)
    (hrun : s.phase ≠ .returned) : Owned s := by
  refine Run.inv (I := fun s : State H => s.phase ≠ .returned → Owned s) h
    (fun _ => owned_initial hfd memory metrics) ?_ hrun
  intro s label s' ih hfresh hs hrun'
  have hown := ih (running_of_step hs)
  exact hown.moves (moves_of_step hown hfresh hs) hrun'

/-- **The invariant rule of the dispatcher.**  What holds at the start and is kept
by every step of the loop holds while it runs, in a run whose steps meet `ok`.  It
may speak of the steps made so far. -/
theorem history_of_run {I : List (State H × Label H) → State H → Prop} {ok : State H → Label H → Prop}
    {listenFd : Fd} {memory : Bool} {metrics : Metrics} {labels : List (Label H)} (hfd : 0 ≤ listenFd)
    (hfresh : ∀ s label, ok s label → Fresh s label)
    (h : Run step ok (initial listenFd memory metrics) labels s) (hrun : s.phase ≠ .returned)
    (h0 : I [] (initial listenFd memory metrics))
    (hmoves : ∀ past s label s', Owned s → I past s → ok s label → Moves s label s' →
      s'.phase ≠ .returned → I (past ++ [(s, label)]) s') :
    I (Run.history step (initial listenFd memory metrics) labels) s := by
  refine (Run.invHistory (I := fun past (s : State H) => s.phase ≠ .returned → Owned s ∧ I past s) h
    (fun _ => ⟨owned_initial hfd memory metrics, h0⟩) ?_ hrun).2
  intro past s label s' ih hok hs hrun'
  obtain ⟨hown, hi⟩ := ih (running_of_step hs)
  have hm := moves_of_step hown (hfresh s label hok) hs
  exact ⟨hown.moves hm hrun', hmoves past s label s' hown hi hok hm hrun'⟩

theorem inv_of_run {I : State H → Prop} {ok : State H → Label H → Prop} {listenFd : Fd}
    {memory : Bool} {metrics : Metrics} {labels : List (Label H)} (hfd : 0 ≤ listenFd)
    (hfresh : ∀ s label, ok s label → Fresh s label)
    (h : Run step ok (initial listenFd memory metrics) labels s) (hrun : s.phase ≠ .returned)
    (h0 : I (initial listenFd memory metrics))
    (hmoves : ∀ s label s', Owned s → I s → ok s label → Moves s label s' → s'.phase ≠ .returned → I s') :
    I s :=
  history_of_run (I := fun _ s => I s) hfd hfresh h hrun h0 fun _ => hmoves

/-! ### The record of a connection -/

/-- Nothing closed or erased the connection. -/
def Live (acts : List (Act H)) : Prop := Act.close ∉ acts ∧ Act.erase ∉ acts

/-- The connection was marked, then closed and erased, and that was the end. -/
def Ended (acts : List (Act H)) : Prop :=
  ∃ before, acts = before ++ [.close, .erase] ∧ Live before ∧ Act.mark ∈ before

theorem Handling.plain {acts : List (Act H)} (h : Handling acts) : Live acts ∧ Act.mark ∉ acts := by
  cases h <;> simp [Live]

/-- No event closes or erases, and an event that marks says so. -/
theorem Outcome.acts_eq {channel : PlainTextChannel} {a : Answers H} {flag : EventFlag}
    {e : Effect H} (h : Outcome channel a flag e) :
    Live e.acts ∧ (Act.mark ∈ e.acts ↔ e.marks = true) := by
  cases h with
  | marked | readFailed | flushed | flushFailed => simp [Live, Effect.fail]
  | threw raw acts counters hraw hacts | answered raw acts counters serialized hraw hacts =>
    have hplain := hacts.plain
    simp_all [Live]

/-- The two shapes of a connection's record. -/
def Life (s : State H) : Prop :=
  ∀ id, id ≠ serverChannel → id < s.nextId →
    (s.Managed id ∧ Live (s.acts id) ∧ (Act.mark ∈ s.acts id ↔ s.Marked id)) ∨
    (¬ s.Managed id ∧ Ended (s.acts id) ∧ s.getFd id = -1)

namespace Life

theorem welcome (hl : Life s) (h : Owned s) {a : Answers H} (events : List Event)
    (hfree : s.kernel.files a.accepted = none) : Life (s.welcome events a) := by
  intro id hid hlt
  rw [h.managed_welcome hfree events id, h.marked_welcome hfree events id, Owned.acts_welcome,
    Owned.getFd_welcome]
  rcases eq_or_ne id s.nextId with rfl | hne
  · have hnm : ¬ s.Marked s.nextId := fun hm => h.ne_nextId hm.1 rfl
    have hacts : s.acts s.nextId = [] := (h.fresh s.nextId le_rfl).2.2.1
    refine Or.inl ⟨Or.inl rfl, ?_, ?_⟩
    · rw [hacts, if_pos rfl]
      simp [Live]
    · rw [hacts, if_pos rfl]
      simp [hnm]
  · have hlt' : id < s.nextId := Nat.lt_of_le_of_ne (Nat.le_of_lt_succ hlt) hne
    rw [if_neg hne, if_neg hne, List.append_nil]
    simpa only [hne, false_or] using hl id hid hlt'

theorem affected (hl : Life s) {id : ChannelId} {channel : PlainTextChannel}
    {flag : EventFlag} {a : Answers H} {e : Effect H} {events : List Event} (hm : s.Managed id)
    (he : Affected s id events a.memory e s') (hout : Outcome channel a flag e) : Life s' := by
  obtain ⟨hlive, hmark⟩ := hout.acts_eq
  intro id' hid hlt
  rw [he.nextId] at hlt
  rw [he.managed, he.acts, he.getFd, he.marked_iff hm]
  rcases eq_or_ne id' id with rfl | hne
  · rw [if_pos rfl]
    rcases hl id' hid hlt with ⟨_, hlive', hmark'⟩ | ⟨hnm, _⟩
    · refine Or.inl ⟨hm, ?_, ?_⟩
      · simp only [Live, List.mem_append, not_or] at hlive hlive' ⊢
        exact ⟨⟨hlive'.1, hlive.1⟩, hlive'.2, hlive.2⟩
      · rw [List.mem_append, hmark', hmark]
        simp
    · exact absurd hm hnm
  · rw [if_neg hne, List.append_nil]
    simpa only [hne, false_and, or_false] using hl id' hid hlt

theorem swept (hl : Life s) (hw : Swept s s') : Life s' := by
  have hnone : ∀ id, ¬ s'.Marked id := by
    rintro id ⟨-, hmem⟩
    rw [hw.marks] at hmem
    cases hmem
  intro id hid hlt
  rw [hw.nextId] at hlt
  rw [hw.managed, hw.acts, hw.getFd]
  rcases hl id hid hlt with ⟨hm, hlive, hmark⟩ | ⟨hnm, hended, hfd⟩
  · by_cases hmarked : s.Marked id
    · rw [if_pos hmarked, if_pos hmarked]
      exact Or.inr ⟨fun hn => hn.2 hmarked, ⟨_, rfl, hlive, hmark.mpr hmarked⟩, rfl⟩
    · rw [if_neg hmarked, List.append_nil]
      refine Or.inl ⟨⟨hm, hmarked⟩, hlive, ?_⟩
      rw [hmark]
      exact iff_of_false hmarked (hnone id)
  · have hmarked : ¬ s.Marked id := fun hmark => hnm hmark.1
    rw [if_neg hmarked, if_neg hmarked, List.append_nil]
    exact Or.inr ⟨fun hn => hnm hn.1, hended, hfd⟩

theorem moves (hl : Life s) (h : Owned s) (hm : Moves s label s') (hrun : s'.phase ≠ .returned) :
    Life s' := by
  cases hm with
  | poll order ready htop horder => exact hl
  | refused a flag events hphase hneg => exact hl
  | accepted a flag events hphase hpos hfree => exact hl.welcome h events hfree
  | client a flag id events channel e s' hphase hm hobj he ha =>
    exact hl.affected hm ha (outcome_of_effect he)
  | cleanup granted s' hphase hw => exact hl.swept hw
  | stop order granted s' htop hstop => exact absurd hstop.phase hrun

end Life

theorem life_of_run {listenFd : Fd} {memory : Bool} {metrics : Metrics} {labels : List (Label H)}
    (hfd : 0 ≤ listenFd) (h : Run step Fresh (initial listenFd memory metrics) labels s)
    (hrun : s.phase ≠ .returned) : Life s := by
  refine inv_of_run hfd (fun _ _ hok => hok) h hrun (fun id hid hlt => ?_) ?_
  · exact absurd (Nat.lt_one_iff.mp hlt) hid
  · exact fun s label s' hown hl _ hm hrun' => hl.moves hown hm hrun'

/-- A connection of the table is marked if its record has a mark. -/
theorem Life.mark_iff (hl : Life s) (h : Owned s) {id : ChannelId} (hm : s.Managed id) :
    Act.mark ∈ s.acts id ↔ s.Marked id := by
  rcases hl id (h.ne_server hm) (h.entry _ _ hm).2.1 with ⟨-, -, hiff⟩ | ⟨hnm, -⟩
  · exact hiff
  · exact absurd hm hnm

/-- A connection stays in the table, under its descriptor, until a cleanup finds
it marked. -/
theorem managed_of_moves (h : Owned s) (hm : Moves s label s') (hrun : s'.phase ≠ .returned)
    {id : ChannelId} (hid : s.Managed id) :
    (s'.Managed id ∧ s'.getFd id = s.getFd id) ∨ ∃ granted, label = .cleanup granted ∧ s.Marked id := by
  cases hm with
  | poll order ready htop horder => exact Or.inl ⟨hid, rfl⟩
  | refused a flag events hphase hneg => exact Or.inl ⟨hid, rfl⟩
  | accepted a flag events hphase hpos hfree =>
    refine Or.inl ⟨(h.managed_welcome hfree events id).mpr (Or.inr hid), ?_⟩
    rw [Owned.getFd_welcome, if_neg (h.ne_nextId hid)]
  | client a flag id' events channel e s' hphase hm hobj he ha =>
    exact Or.inl ⟨(ha.managed id).mpr hid, ha.getFd id⟩
  | cleanup granted s' hphase hw =>
    by_cases hmark : s.Marked id
    · exact Or.inr ⟨granted, rfl, hmark⟩
    · refine Or.inl ⟨(hw.managed id).mpr ⟨hid, hmark⟩, ?_⟩
      rw [hw.getFd, if_neg hmark]
  | stop order granted s' htop hstop => exact absurd hstop.phase hrun

/-- **The life of a connection.**  While the loop runs, the table has every entry
under its own channel's descriptor.  A connection is in the table, open, with
nothing closed or erased on it, or it was marked, then closed and erased once,
and nothing was done on it since.  At the top of the loop the connections in the
table are those never marked.  And no step takes a connection out of the table,
or changes its descriptor, but the cleanup after it was marked. -/
theorem connection_lifetime {listenFd : Fd} {memory : Bool} {metrics : Metrics}
    {labels : List (Label H)} {s : State H} (hfd : 0 ≤ listenFd)
    (h : Run step Fresh (initial listenFd memory metrics) labels s) (hrun : s.phase ≠ .returned) :
    (∀ fd id, s.manager.channels.lookup fd = some id →
      s.getFd id = fd ∧ s.kernel.files fd = some id) ∧
    (∀ id, id ≠ serverChannel → id < s.nextId →
      (s.Managed id ∧ Live (s.acts id)) ∨
      (¬ s.Managed id ∧ Ended (s.acts id) ∧ ∀ fd, s.kernel.files fd ≠ some id)) ∧
    (s.phase = .top → ∀ id, id ≠ serverChannel → id < s.nextId →
      (s.Managed id ↔ Act.mark ∉ s.acts id)) ∧
    (∀ label s', Fresh s label → step s label = some s' → s'.phase ≠ .returned →
      ∀ id, s.Managed id → (s'.Managed id ∧ s'.getFd id = s.getFd id) ∨
        ∃ granted, label = .cleanup granted ∧ Act.mark ∈ s.acts id) := by
  have hown := owned_of_run hfd h hrun
  have hlife := life_of_run hfd h hrun
  refine ⟨fun fd id hl => ?_, fun id hid hlt => ?_, fun htop id hid hlt => ?_,
    fun label s' hfresh hs hrun' id hid => ?_⟩
  · obtain ⟨-, -, -, hfile, hself⟩ := hown.entry fd id hl
    exact ⟨hself, hfile⟩
  · rcases hlife id hid hlt with ⟨hm, hlive, -⟩ | ⟨hnm, hended, -⟩
    · exact Or.inl ⟨hm, hlive⟩
    · refine Or.inr ⟨hnm, hended, fun fd hfile => ?_⟩
      rcases hown.file fd id hfile with hserver | hl
      · exact hid hserver
      · exact hnm (hown.managed_of_lookup hl)
  · rcases hlife id hid hlt with ⟨hm, -, hmark⟩ | ⟨hnm, ⟨before, heq, -, hmark⟩, -⟩
    · exact iff_of_true hm (fun hmem => hown.not_marked_of_top htop id (hmark.mp hmem))
    · refine iff_of_false hnm (fun hmem => hmem ?_)
      rw [heq]
      exact List.mem_append_left _ hmark
  · have hmoves := moves_of_step hown hfresh hs
    rcases managed_of_moves hown hmoves hrun' hid with hkeep | ⟨granted, hg, hmark⟩
    · exact Or.inl hkeep
    · exact Or.inr ⟨granted, hg, (hlife.mark_iff hown hid).mpr hmark⟩

/-- A server that can parse nothing. -/
def idleApp : App Unit where
  parse _ := .ok none
  route _ := none
  handle _ _ := .ok none
  serialize _ := .ok (ascii "HTTP/1.1 500")

/-- A connection that is reported lost and hung up at once, and then another one
under the same descriptor. -/
def reuseLabels : List (Label Unit) :=
  [.poll [] [⟨{ epollin := true }, 3⟩], .event { app := idleApp, accepted := 4 }, .cleanup fun _ => true,
    .poll [⟨4, 1⟩] [⟨{ epollerr := true, epollhup := true }, 4⟩], .event { app := idleApp },
    .event { app := idleApp }, .cleanup fun _ => true,
    .poll [] [⟨{ epollin := true }, 3⟩], .event { app := idleApp, accepted := 4 }, .cleanup fun _ => true]

def reused : State Unit :=
  (Run.exec step Fresh (initial 3 true ∅) reuseLabels).get (by decide +kernel)

theorem connection_lifetime_reuse :
    Run step Fresh (initial 3 true ∅) reuseLabels reused ∧ reused.getFd 2 = 4 ∧
      Act.mark ∉ reused.acts 2 ∧ Ended (reused.acts 1) := by
  have hrun : Run step Fresh (initial 3 true ∅) reuseLabels reused :=
    Run.of_exec reuseLabels _ (Option.some_get _).symm
  have htop : reused.phase = .top := by decide +kernel
  obtain ⟨-, hlife, hmark, -⟩ := connection_lifetime (by decide) hrun (by decide +kernel)
  refine ⟨hrun, by decide +kernel, ?_, ?_⟩
  · exact (hmark htop 2 (by decide) (by decide +kernel)).mp (by decide +kernel)
  · rcases hlife 1 (by decide) (by decide +kernel) with ⟨hm, -⟩ | ⟨-, hended, -⟩
    · exact absurd hm (by decide +kernel)
    · exact hended

end Sews.Runtime
