import Sews.Runtime.Lifetime

/-!
# Connections that epoll does not watch

`registerChannel` logs a failed `EPOLL_CTL_ADD` and returns nothing, and the
dispatcher puts the connection into the table and counts it all the same.  So the
connections of the table that epoll does not watch are exactly those whose
registration failed (`Tracked`), and a run keeps none if and only if no registration
of a new connection fails in it (`no_half_open_iff`).
-/

namespace Sews.Runtime

open Cpp Sews.Http Sews.Connection Sews.Reactor Sews.Telemetry Dispatcher

variable {H : Type} {s s' : State H} {label : Label H} {listenFd : Fd}

/-- The next event brings a connection that the kernel has no memory to register. -/
def RegistrationFails (s : State H) (a : Answers H) : Prop :=
  (∃ event ∈ s.events.head?, event.channel = serverChannel) ∧ 0 ≤ a.accepted ∧ a.memory = false

theorem RegistrationFails.listener {a : Answers H} {event : Event} {events : List Event}
    (hf : RegistrationFails s a) (hphase : s.phase = .batch (event :: events)) :
    event.channel = serverChannel := by
  obtain ⟨⟨first, hhead, hserver⟩, -⟩ := hf
  rw [State.events, hphase] at hhead
  cases hhead
  exact hserver

/-- At the top of the loop epoll watches every connection of the table. -/
def RegisteredAtTop (s : State H) : Prop :=
  s.phase = .top → ∀ fd, s.manager.channels.lookup fd ≠ none → s.kernel.interest fd ≠ none

/-- Nothing is left of a connection accepted between `s` and `s'`. -/
structure AcceptUndone (s s' : State H) (a : Answers H) : Prop where
  channels : s'.manager.channels = s.manager.channels
  gauge : s'.metrics.lookup connectionsTotal = s.metrics.lookup connectionsTotal
  closed : s'.kernel.files a.accepted = none

/-- No connection is half open in a run that made the steps `past` and led to `s`. -/
structure NoHalfOpen (past : List (State H × Label H)) (s : State H) : Prop where
  before : ∀ made ∈ past, RegisteredAtTop made.1
  now : RegisteredAtTop s
  undone : ∀ t a t', (t, .event a) ∈ past → RegistrationFails t a → step t (.event a) = some t' →
    AcceptUndone t t' a

/-- The registration of the connection `id` failed. -/
def Unregistered (past : List (State H × Label H)) (id : ChannelId) : Prop :=
  ∃ t a, (t, Label.event a) ∈ past ∧ RegistrationFails t a ∧ t.nextId = id

theorem unregistered_snoc {past : List (State H × Label H)} {id : ChannelId} :
    Unregistered (past ++ [(s, label)]) id ↔
      Unregistered past id ∨ ∃ a, label = .event a ∧ RegistrationFails s a ∧ s.nextId = id := by
  constructor
  · rintro ⟨t, a, hmem, hfails, hid⟩
    rcases List.mem_append.mp hmem with hold | hnew
    · exact Or.inl ⟨t, a, hold, hfails, hid⟩
    · cases List.mem_singleton.mp hnew
      exact Or.inr ⟨a, rfl, hfails, hid⟩
  · rintro (⟨t, a, hmem, hfails, hid⟩ | ⟨a, rfl, hfails, hid⟩)
    · exact ⟨t, a, List.mem_append_left _ hmem, hfails, hid⟩
    · exact ⟨s, a, List.mem_append_right _ (List.mem_singleton.mpr rfl), hfails, hid⟩

/-- A step whose event is not for the listener, or accepts nothing, registers
nobody. -/
theorem unregistered_other {past : List (State H × Label H)} {id : ChannelId}
    (h : ∀ a, label = .event a → ¬ RegistrationFails s a) :
    Unregistered (past ++ [(s, label)]) id ↔ Unregistered past id := by
  rw [unregistered_snoc, or_iff_left]
  rintro ⟨a, hlabel, hfails, -⟩
  exact h a hlabel hfails

/-- A failed registration is one of a new connection, which is kept. -/
theorem RegistrationFails.accepted {a : Answers H} (hf : RegistrationFails s a) (h : Owned s)
    (hm : Moves s (.event a) s') :
    s.kernel.files a.accepted = none ∧ ∃ events, s' = s.welcome events a := by
  cases hm with
  | refused _ flag events hphase hneg => exact absurd hneg (Int32.not_lt.mpr hf.2.1)
  | accepted _ flag events hphase _ hfree => exact ⟨hfree, events, rfl⟩
  | client _ flag id events channel e s' hphase hm hobj he ha =>
    exact absurd (hf.listener hphase) (h.ne_server hm)

/-- The entries of the table that epoll does not watch are those whose registration
failed. -/
structure Tracked (past : List (State H × Label H)) (s : State H) : Prop where
  old : ∀ id, Unregistered past id → id < s.nextId
  entry : ∀ fd id, s.manager.channels.lookup fd = some id →
    (s.kernel.interest fd = none ↔ Unregistered past id)

namespace Tracked

variable {past : List (State H × Label H)}

theorem initial (listenFd : Fd) (memory : Bool) (metrics : Metrics) :
    Tracked [] (Dispatcher.initial listenFd memory metrics : State H) where
  old := by
    rintro id ⟨t, a, hmem, -⟩
    cases hmem
  entry fd id hl := by
    rw [lookup_initial] at hl
    cases hl

theorem other (ht : Tracked past s) (hfails : ∀ a, label = .event a → ¬ RegistrationFails s a)
    (hnext : s'.nextId = s.nextId)
    (hentry : ∀ fd id, s'.manager.channels.lookup fd = some id →
      s.manager.channels.lookup fd = some id ∧
      (s'.kernel.interest fd = none ↔ s.kernel.interest fd = none)) :
    Tracked (past ++ [(s, label)]) s' where
  old id hid := by
    rw [hnext]
    exact ht.old id ((unregistered_other hfails).mp hid)
  entry fd id hl := by
    obtain ⟨hold, hinterest⟩ := hentry fd id hl
    rw [unregistered_other hfails, hinterest]
    exact ht.entry fd id hold

theorem welcome (ht : Tracked past s) (h : Owned s) {a : Answers H} {flag : EventFlag}
    {events : List Event} (hphase : s.phase = .batch (⟨flag, serverChannel⟩ :: events))
    (hpos : 0 ≤ a.accepted) (hfree : s.kernel.files a.accepted = none) :
    Tracked (past ++ [(s, .event a)]) (s.welcome events a) := by
  have hfails : RegistrationFails s a ↔ a.memory = false := by
    have hhead : (⟨flag, serverChannel⟩ : Event) ∈ s.events.head? := by
      rw [State.events, hphase]
      rfl
    exact ⟨fun hf => hf.2.2, fun hmem => ⟨⟨_, hhead, rfl⟩, hpos, hmem⟩⟩
  have hsnoc : ∀ id, Unregistered (past ++ [(s, .event a)]) id ↔
      Unregistered past id ∨ (a.memory = false ∧ s.nextId = id) := by
    intro id
    rw [unregistered_snoc]
    simp [hfails]
  refine ⟨fun id hid => ?_, fun fd id hl => ?_⟩
  · show id < s.nextId + 1
    rcases (hsnoc id).mp hid with hold | ⟨-, rfl⟩
    · exact Nat.lt_succ_of_lt (ht.old id hold)
    · exact Nat.lt_succ_self _
  · rw [hsnoc]
    rw [Owned.lookup_welcome] at hl
    split at hl
    · rename_i hfd
      subst hfd
      cases hl
      -- a new connection is watched if there was memory for it
      have hnew : ¬ Unregistered past s.nextId := fun hold => absurd (ht.old _ hold) (lt_irrefl _)
      rw [or_iff_right hnew, and_iff_left rfl]
      cases hmem : a.memory with
      | true =>
        rw [h.interest_welcome hfree hmem]
        simp
      | false =>
        refine iff_of_true ?_ rfl
        rw [Owned.interest_welcome_refused hmem]
        exact h.interest _ hfree
    · rename_i hfd
      have hid : s.nextId ≠ id := Nat.ne_of_gt (h.entry fd id hl).2.1
      rw [Owned.interest_welcome_ne hfd, or_iff_left fun hnew => hid hnew.2]
      exact ht.entry fd id hl

theorem moves (ht : Tracked past s) (h : Owned s) (hm : Moves s label s')
    (hrun : s'.phase ≠ .returned) : Tracked (past ++ [(s, label)]) s' := by
  cases hm with
  | poll order ready htop horder =>
    exact ht.other (fun a ha => by cases ha) rfl fun fd id hl => ⟨hl, Iff.rfl⟩
  | refused a flag events hphase hneg =>
    refine ht.other ?_ rfl fun fd id hl => ⟨hl, Iff.rfl⟩
    rintro _ ⟨rfl⟩ ⟨-, hpos, -⟩
    exact absurd hneg (Int32.not_lt.mpr hpos)
  | accepted a flag events hphase hpos hfree => exact ht.welcome h hphase hpos hfree
  | client a flag id events channel e s' hphase hm hobj he ha =>
    refine ht.other ?_ ha.nextId fun fd id hl => ⟨?_, ha.interest_none fd⟩
    · rintro _ ⟨rfl⟩ hfails
      exact h.ne_server hm (hfails.listener hphase)
    · rwa [ha.channels] at hl
  | cleanup granted s' hphase hw =>
    refine ht.other (fun a ha => by cases ha) hw.nextId fun fd id hl => ?_
    rw [hw.lookup] at hl
    split at hl
    · cases hl
    · rename_i hfd
      rw [hw.interest, if_neg hfd]
      exact ⟨hl, Iff.rfl⟩
  | stop order granted s' htop hstop => exact absurd hstop.phase hrun

end Tracked

theorem tracked_of_run {memory : Bool} {metrics : Metrics} {labels : List (Label H)}
    (hfd : 0 ≤ listenFd) (h : Run step Fresh (initial listenFd memory metrics) labels s)
    (hrun : s.phase ≠ .returned) :
    Tracked (Run.history step (initial listenFd memory metrics) labels) s :=
  history_of_run hfd (fun _ _ hok => hok) h hrun (.initial listenFd memory metrics)
    fun _ _ _ _ hown ht _ hm hrun' => ht.moves hown hm hrun'

/-- **No connection is half open if no registration fails.**  In any run, every
connection of the table is registered at the top of the loop, and an accept whose
registration fails is undone, if and only if the registration of a new connection
never fails. -/
theorem no_half_open_iff {memory : Bool} {metrics : Metrics} {labels : List (Label H)}
    (hfd : 0 ≤ listenFd) (h : Run step Fresh (initial listenFd memory metrics) labels s) :
    NoHalfOpen (Run.history step (initial listenFd memory metrics) labels) s ↔
      ∀ t a, (t, .event a) ∈ Run.history step (initial listenFd memory metrics) labels →
        ¬ RegistrationFails t a := by
  constructor
  · intro hno t a hmem hfails
    obtain ⟨before, t', hbefore, -, -, hfresh, hs⟩ := h.of_mem_history hmem
    have hown := owned_of_run hfd hbefore (running_of_step hs)
    obtain ⟨hfree, events, rfl⟩ := hfails.accepted hown (moves_of_step hown hfresh hs)
    have hchannels := (hno.undone t a _ hmem hfails hs).channels
    have hl := @Owned.lookup_welcome _ t a events a.accepted
    rw [hchannels, if_pos rfl, hown.lookup_of_free hfree] at hl
    cases hl
  · intro hnone
    have htop : ∀ before (t : State H), Run step Fresh (initial listenFd memory metrics) before t →
        Run.history step (initial listenFd memory metrics) before
          <+: Run.history step (initial listenFd memory metrics) labels → RegisteredAtTop t := by
      intro before t hbefore hpre hphase fd hl hinterest
      obtain ⟨id, hid⟩ := Option.ne_none_iff_exists'.mp hl
      have ht := tracked_of_run hfd hbefore (by rw [hphase]; simp)
      obtain ⟨u, a, hmem, hfails, -⟩ := (ht.entry fd id hid).mp hinterest
      exact hnone u a (hpre.subset hmem) hfails
    refine ⟨fun made hmem => ?_, htop labels s h (List.prefix_refl _), fun t a t' hmem hfails => ?_⟩
    · obtain ⟨before, t', hbefore, hpre, -⟩ := h.of_mem_history hmem
      exact htop before made.1 hbefore hpre
    · exact absurd hfails (hnone t a hmem)

theorem no_half_open_iff_reuse :
    NoHalfOpen (Run.history step (initial 3 true ∅) reuseLabels) reused ↔
      ∀ t a, (t, .event a) ∈ Run.history step (initial 3 true ∅) reuseLabels → ¬ RegistrationFails t a :=
  no_half_open_iff (by decide) (Run.of_exec reuseLabels _ (Option.some_get _).symm)

/-- A connection comes in while the kernel has no memory for its registration. -/
def starvedLabels : List (Label Unit) :=
  [.poll [] [⟨{ epollin := true }, 3⟩], .event { app := idleApp, accepted := 4, memory := false },
    .cleanup fun _ => true]

def starved : State Unit := (Run.exec step Fresh (initial 3 true ∅) starvedLabels).get (by decide +kernel)

/-- The connection is in the table and counted, and epoll does not watch it. -/
theorem half_open :
    Run step Fresh (initial 3 true ∅) starvedLabels starved ∧ starved.phase = .top ∧
      starved.manager.channels.lookup 4 = some 1 ∧ starved.kernel.interest 4 = none ∧
      starved.kernel.files 4 = some 1 ∧
      starved.metrics.lookup connectionsTotal = some ⟨1, .GAUGE⟩ ∧
      ¬ NoHalfOpen (Run.history step (initial 3 true ∅) starvedLabels) starved := by
  refine ⟨Run.of_exec starvedLabels _ (Option.some_get _).symm, by decide +kernel, by decide +kernel,
    by decide +kernel, by decide +kernel, by decide +kernel, fun hno => ?_⟩
  exact hno.now (by decide +kernel) 4 (by decide +kernel) (by decide +kernel)

end Sews.Runtime
