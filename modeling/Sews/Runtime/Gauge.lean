import Sews.Runtime.Lifetime

/-!
# The connection gauge

`connections_total` goes up with every accepted connection and down once for
every mark, whereas `Manager::clear` finds a descriptor that is marked twice
only once.  The two agree as long as no connection is marked twice in a batch
(`MarksOnce`), and `gauge_eq_count` is the invariant under that condition.

A batch can mark a connection twice: `poll` makes an `ERROR` event and a `HANGUP`
event of one report with both failure flags.  `gauge_wraps` is that run, and in
it the gauge wraps around.
-/

namespace Sews.Runtime

open Cpp Sews.Http Sews.Connection Sews.Reactor Sews.Telemetry Dispatcher

variable {H : Type} {s s' : State H} {label : Label H}

/-! ### The condition -/

/-- The event marks its connection: a report of failure, a read that returns
nothing or fails, or a flush that fails. -/
def Marks (channel : PlainTextChannel) (flag : EventFlag) (a : Answers H) : Prop :=
  match flag with
  | .HANGUP | .ERROR => True
  | .READ => a.read = none ∨ a.read = some []
  | .WRITE => (channel.flush a.writes).map (·.1) = some .FAILED

/-- A step that marks a connection finds it unmarked. -/
def MarksOnce (s : State H) : Label H → Prop
  | .event a => ∀ event ∈ s.events.head?, ∀ channel ∈ s.objects event.channel,
      Marks channel event.flag a → ¬ s.Marked event.channel
  | _ => True

instance (channel : PlainTextChannel) (a : Answers H) :
    (flag : EventFlag) → Decidable (Marks channel flag a)
  | .HANGUP | .ERROR => .isTrue trivial
  | .READ => inferInstanceAs (Decidable (a.read = none ∨ a.read = some []))
  | .WRITE => inferInstanceAs (Decidable ((channel.flush a.writes).map (·.1) = some .FAILED))

instance (s : State H) : (label : Label H) → Decidable (MarksOnce s label)
  | .event a => inferInstanceAs (Decidable (∀ event ∈ s.events.head?,
      ∀ channel ∈ s.objects event.channel, Marks channel event.flag a → ¬ s.Marked event.channel))
  | .poll _ _ | .cleanup _ | .stop _ _ => .isTrue trivial

theorem marks_of_effect {channel : PlainTextChannel} {flag : EventFlag} {a : Answers H} {e : Effect H}
    (he : effect channel flag a = some e) (hm : e.marks = true) : Marks channel flag a := by
  cases flag with
  | HANGUP => trivial
  | ERROR => trivial
  | READ =>
    change a.read = none ∨ a.read = some []
    cases he
    unfold Effect.read at hm
    split at hm
    · rename_i hd
      exact Or.inl (Option.map_eq_none_iff.mp hd)
    · rename_i hd
      obtain ⟨bytes, hr, hb⟩ := Option.map_eq_some_iff.mp hd
      rcases List.take_eq_nil_iff.mp hb with h0 | h0
      · exact absurd h0 (by decide)
      · exact Or.inr (h0 ▸ hr)
    · rename_i raw hne hd
      obtain ⟨acts, counters, -, -, he | ⟨serialized, he⟩⟩ := @request_cases _ channel a raw
      · rw [he] at hm
        cases hm
      · rw [he] at hm
        cases hm
  | WRITE =>
    cases outcome_of_effect he with
    | marked hf => simp at hf
    | flushed => cases hm
    | flushFailed channel' bytes hf =>
      change (channel.flush a.writes).map (·.1) = some .FAILED
      rw [hf]
      rfl

/-! ### The counters -/

theorem lookup_foldl_increment {name : Bytes} : ∀ (counters : List Bytes) (metrics : Metrics),
    name ∉ counters → (counters.foldl Metrics.increment metrics).lookup name = metrics.lookup name := by
  intro counters
  induction counters with
  | nil => exact fun metrics _ => rfl
  | cons counter counters ih =>
    intro metrics hmem
    rw [List.mem_cons, not_or] at hmem
    rw [List.foldl_cons, ih _ hmem.2, Metrics.lookup_increment_ne hmem.1]

theorem Outcome.counters_eq {channel : PlainTextChannel} {a : Answers H} {flag : EventFlag}
    {e : Effect H} (h : Outcome channel a flag e) : connectionsTotal ∉ e.counters := by
  cases h with
  | marked | readFailed | flushed | flushFailed => simp [Effect.fail]
  | threw _ _ _ _ _ hc | answered _ _ _ _ _ _ hc => exact hc

theorem lookup_decrement_iterate {name : Bytes} : ∀ (n : Nat) (metrics : Metrics) (value : UInt64),
    metrics.lookup name = some ⟨value, .GAUGE⟩ → n ≤ value.toNat →
    ∃ value', ((fun m => Metrics.decrement m name)^[n] metrics).lookup name = some ⟨value', .GAUGE⟩ ∧
      value'.toNat + n = value.toNat := by
  intro n
  induction n with
  | zero => exact fun metrics value hl _ => ⟨value, hl, rfl⟩
  | succ n ih =>
    intro metrics value hl hle
    have hone : (1 : UInt64) ≤ value := by
      rw [UInt64.le_iff_toNat_le]
      show 1 ≤ value.toNat
      omega
    have hsub : (value - 1).toNat = value.toNat - 1 := UInt64.toNat_sub_of_le _ _ hone
    obtain ⟨value', hl', hv⟩ := ih (metrics.decrement name) (value - 1)
      (Metrics.lookup_decrement hl rfl) (by omega)
    refine ⟨value', hl', ?_⟩
    omega

theorem count_le (m : Manager) : m.count ≤ 2 ^ 32 := by
  have hinj : Function.Injective fun fd : Fd => fd.toBitVec.toNat := by
    intro fd fd' h
    exact Int32.toBitVec_inj.mp (BitVec.toNat_inj.mp h)
  have hrange : ∀ fd ∈ m.channels.keys, fd.toBitVec.toNat ∈ Finset.range (2 ^ 32) := by
    intro fd _
    exact Finset.mem_range.mpr fd.toBitVec.isLt
  have hle := Finset.card_le_card_of_injOn _ hrange hinj.injOn
  rwa [Finset.card_range] at hle

/-! ### The invariant -/

/-- The gauge is the number of connections, and no mark stands twice. -/
structure GaugeCounts (s : State H) : Prop where
  nodup : s.manager.closedChannels.Nodup
  gauge : ∃ value, s.metrics.lookup connectionsTotal = some ⟨value, .GAUGE⟩ ∧
    value.toNat = s.manager.count

namespace GaugeCounts

theorem initial (listenFd : Fd) (memory : Bool) :
    GaugeCounts (Dispatcher.initial listenFd memory ∅ : State H) where
  nodup := List.nodup_nil
  gauge := by
    refine ⟨0, ?_, rfl⟩
    show (registerMetrics ∅).lookup connectionsTotal = _
    decide +kernel

theorem welcome (hg : GaugeCounts s) (h : Owned s) {a : Answers H} (events : List Event)
    (hfree : s.kernel.files a.accepted = none) : GaugeCounts (s.welcome events a) := by
  obtain ⟨value, hl, hv⟩ := hg.gauge
  have hcount : (s.welcome events a).manager.count = s.manager.count + 1 :=
    UnorderedMap.size_insert (h.lookup_of_free hfree) s.nextId
  refine ⟨hg.nodup, value + 1, Metrics.lookup_increment hl, ?_⟩
  have hle := count_le s.manager
  rw [hcount, UInt64.toNat_add, hv]
  show (s.manager.count + 1) % 2 ^ 64 = s.manager.count + 1
  omega

theorem affected (hg : GaugeCounts s) {id : ChannelId} {channel : PlainTextChannel}
    {flag : EventFlag} {a : Answers H} {e : Effect H} {events : List Event} {memory : Bool}
    (hm : s.Managed id) (he : effect channel flag a = some e) (ha : Affected s id events memory e s')
    (honce : Marks channel flag a → ¬ s.Marked id) : GaugeCounts s' := by
  obtain ⟨value, hl, hv⟩ := hg.gauge
  refine ⟨?_, value, ?_, ?_⟩
  · rw [ha.marks]
    split
    · rename_i hmarks
      have hnew := honce (marks_of_effect he hmarks)
      refine List.nodup_append.mpr ⟨hg.nodup, List.nodup_singleton _, ?_⟩
      rintro fd hfd _ hmem rfl
      rw [List.mem_singleton.mp hmem] at hfd
      exact hnew ⟨hm, hfd⟩
    · exact hg.nodup
  · rw [ha.metrics, lookup_foldl_increment _ _ (outcome_of_effect he).counters_eq, hl]
  · rw [Manager.count, ha.channels]
    exact hv

theorem count_swept (hg : GaugeCounts s) (h : Owned s) (hw : Swept s s') :
    s'.manager.count + s.manager.closedChannels.length = s.manager.count :=
  UnorderedMap.size_erased hg.nodup h.mark hw.lookup

theorem swept (hg : GaugeCounts s) (h : Owned s) (hw : Swept s s') : GaugeCounts s' := by
  obtain ⟨value, hl, hv⟩ := hg.gauge
  have hcount := hg.count_swept h hw
  obtain ⟨value', hl', hv'⟩ := lookup_decrement_iterate s.manager.closedChannels.length s.metrics value
    hl (by omega)
  refine ⟨?_, value', ?_, ?_⟩
  · rw [hw.marks]
    exact List.nodup_nil
  · rw [hw.metrics, hl']
  · omega

theorem moves (hg : GaugeCounts s) (h : Owned s) (honce : MarksOnce s label)
    (hm : Moves s label s') (hrun : s'.phase ≠ .returned) : GaugeCounts s' := by
  cases hm with
  | poll order ready htop horder => exact ⟨hg.nodup, hg.gauge⟩
  | refused a flag events hphase hneg => exact ⟨hg.nodup, hg.gauge⟩
  | accepted a flag events hphase hpos hfree => exact hg.welcome h events hfree
  | client a flag id events channel e s' hphase hm hobj he ha =>
    refine hg.affected hm he ha (honce ⟨flag, id⟩ ?_ channel hobj)
    rw [State.events, hphase]
    rfl
  | cleanup granted s' hphase hw => exact hg.swept h hw
  | stop order granted s' htop hstop => exact absurd hstop.phase hrun

end GaugeCounts

/-- **The gauge counts the connections.**  In a run in which no connection is
marked twice in a batch, the gauge is `connectionManager->count()`, and a cleanup
decrements it once for every connection it closes. -/
theorem gauge_eq_count {listenFd : Fd} {memory : Bool} {labels : List (Label H)} {s : State H}
    (hfd : 0 ≤ listenFd)
    (h : Run step (fun s label => Fresh s label ∧ MarksOnce s label) (initial listenFd memory ∅)
      labels s) (hrun : s.phase ≠ .returned) :
    (∃ value, s.metrics.lookup connectionsTotal = some ⟨value, .GAUGE⟩ ∧
      value.toNat = s.manager.count) ∧
    ∀ granted s', step s (.cleanup granted) = some s' →
      s'.metrics = (fun m => Metrics.decrement m connectionsTotal)^[s.manager.closedChannels.length]
        s.metrics ∧
      s'.manager.count + s.manager.closedChannels.length = s.manager.count := by
  have hown : Owned s := owned_of_run hfd (h.mono fun _ _ hok => hok.1) hrun
  have hg : GaugeCounts s := by
    refine inv_of_run hfd (fun _ _ hok => hok.1) h hrun (.initial listenFd memory) ?_
    exact fun s label s' hown hg hok hm hrun' => hg.moves hown hok.2 hm hrun'
  refine ⟨hg.gauge, fun granted s' hs => ?_⟩
  have hfresh : Fresh s (.cleanup granted) := trivial
  cases moves_of_step hown hfresh hs with
  | cleanup granted s' hphase hw => exact ⟨hw.metrics, hg.count_swept hown hw⟩

/-- A connection that is hung up. -/
def hangupLabels : List (Label Unit) :=
  [.poll [] [⟨{ epollin := true }, 3⟩], .event { app := idleApp, accepted := 4 }, .cleanup fun _ => true,
    .poll [⟨4, 1⟩] [⟨{ epollhup := true }, 4⟩], .event { app := idleApp }]

def hungUp : State Unit :=
  (Run.exec step (fun s label => Fresh s label ∧ MarksOnce s label) (initial 3 true ∅)
    hangupLabels).get (by decide +kernel)

theorem gauge_eq_count_hangup :
    (∃ value, hungUp.metrics.lookup connectionsTotal = some ⟨value, .GAUGE⟩ ∧
      value.toNat = hungUp.manager.count) ∧
    ∀ granted s', step hungUp (.cleanup granted) = some s' →
      s'.metrics = (fun m => Metrics.decrement m connectionsTotal)^[1] hungUp.metrics ∧
      s'.manager.count + 1 = 1 := by
  have hrun : Run step (fun s label => Fresh s label ∧ MarksOnce s label) (initial 3 true ∅)
      hangupLabels hungUp := Run.of_exec hangupLabels _ (Option.some_get _).symm
  have hlength : hungUp.manager.closedChannels.length = 1 := by decide +kernel
  have hcount : hungUp.manager.count = 1 := by decide +kernel
  have hgauge := gauge_eq_count (by decide) hrun (by decide +kernel)
  rw [hlength] at hgauge
  refine ⟨hgauge.1, fun granted s' hs => ?_⟩
  rw [← hcount]
  exact hgauge.2 granted s' hs

/-- One connection, reported lost and hung up at once. -/
def lostLabels : List (Label Unit) :=
  [.poll [] [⟨{ epollin := true }, 3⟩], .event { app := idleApp, accepted := 4 }, .cleanup fun _ => true,
    .poll [⟨4, 1⟩] [⟨{ epollerr := true, epollhup := true }, 4⟩], .event { app := idleApp },
    .event { app := idleApp }, .cleanup fun _ => true]

def lost : State Unit := (Run.exec step Fresh (initial 3 true ∅) lostLabels).get (by decide +kernel)

/-- Two marks, one connection: the gauge is at `2 ^ 64 - 1` and no connection is
left. -/
theorem gauge_wraps :
    Run step Fresh (initial 3 true ∅) lostLabels lost ∧ lost.phase = .top ∧
      lost.metrics.lookup connectionsTotal = some ⟨18446744073709551615, .GAUGE⟩ ∧
      lost.manager.count = 0 := by
  refine ⟨Run.of_exec lostLabels _ (Option.some_get _).symm, ?_, ?_, ?_⟩
  · decide +kernel
  · decide +kernel
  · decide +kernel

end Sews.Runtime
