import Sews.Runtime.Gauge
import Mathlib.Data.UInt

/-!
# How far the gauge is off

A connection that is marked twice in a batch is closed once and counted down twice, by
the cleanup that finishes the batch.  `repeats` is how often that happens in a step, and
`gauge_drift` the law for all runs: the gauge and the repeated marks of the finished
batches add up to the connections, modulo `2 ^ 64`.  Nothing ever brings the gauge back.
-/

namespace Sews.Runtime

open Cpp Sews.Http Sews.Connection Sews.Reactor Sews.Telemetry Dispatcher

variable {H : Type} {s s' : State H} {label : Label H} {past : List (State H × Label H)}

/-- The marks that a step counts down for connections that it has counted down. -/
def repeats (made : State H × Label H) : Nat :=
  match made.2 with
  | .cleanup _ => made.1.manager.closedChannels.length - made.1.manager.closedChannels.dedup.length
  | _ => 0

/-- The repeated marks that the steps `past` counted down. -/
def surplus (past : List (State H × Label H)) : Nat := (past.map repeats).sum

theorem surplus_snoc (made : State H × Label H) : surplus (past ++ [made]) = surplus past + repeats made := by
  simp [surplus]

theorem lookup_decrement_iterate_sub {name : Bytes} : ∀ (n : Nat) (metrics : Metrics) (value : UInt64),
    metrics.lookup name = some ⟨value, .GAUGE⟩ →
      ((fun m => Metrics.decrement m name)^[n] metrics).lookup name
        = some ⟨value - UInt64.ofNat n, .GAUGE⟩ := by
  intro n
  induction n with
  | zero =>
    intro metrics value hl
    rw [show value - UInt64.ofNat 0 = value from sub_zero value]
    exact hl
  | succ n ih =>
    intro metrics value hl
    rw [Function.iterate_succ_apply, ih _ _ (Metrics.lookup_decrement hl rfl), UInt64.ofNat_add]
    congr 2
    grind

/-- The gauge and the repeated marks are the connections. -/
def Drifted (past : List (State H × Label H)) (s : State H) : Prop :=
  ∃ value, s.metrics.lookup connectionsTotal = some ⟨value, .GAUGE⟩ ∧
    value + UInt64.ofNat (surplus past) = UInt64.ofNat s.manager.count

namespace Drifted

theorem initial (listenFd : Fd) (memory : Bool) :
    Drifted [] (Dispatcher.initial listenFd memory ∅ : State H) := by
  refine ⟨0, ?_, rfl⟩
  show (registerMetrics ∅).lookup connectionsTotal = _
  decide +kernel

/-- A step without a cleanup that leaves the gauge and the table alone. -/
theorem other (hd : Drifted past s) (hrepeats : repeats (s, label) = 0)
    (hgauge : s'.metrics.lookup connectionsTotal = s.metrics.lookup connectionsTotal)
    (hchannels : s'.manager.channels = s.manager.channels) : Drifted (past ++ [(s, label)]) s' := by
  obtain ⟨value, hl, hv⟩ := hd
  refine ⟨value, hgauge.trans hl, ?_⟩
  rw [surplus_snoc, hrepeats, Nat.add_zero, hv, Manager.count, Manager.count, hchannels]

theorem swept (hd : Drifted past s) (h : Owned s) (hw : Swept s s') (granted : Nat → Bool) :
    Drifted (past ++ [(s, .cleanup granted)]) s' := by
  obtain ⟨value, hl, hv⟩ := hd
  set marks := s.manager.closedChannels with hmarks
  have hcount : s'.manager.count + marks.dedup.length = s.manager.count := by
    refine UnorderedMap.size_erased marks.nodup_dedup (fun fd hfd => h.mark fd (List.mem_dedup.mp hfd)) ?_
    intro fd
    rw [hw.lookup]
    simp only [List.mem_dedup]
    rfl
  have hle : marks.dedup.length ≤ marks.length := (List.dedup_sublist marks).length_le
  have hrepeats : repeats (s, (.cleanup granted : Label H)) = marks.length - marks.dedup.length := rfl
  refine ⟨value - UInt64.ofNat marks.length, ?_, ?_⟩
  · rw [hw.metrics]
    exact lookup_decrement_iterate_sub _ _ _ hl
  · obtain ⟨extra, hextra⟩ := Nat.exists_eq_add_of_le hle
    rw [surplus_snoc, hrepeats, hextra, Nat.add_sub_cancel_left, UInt64.ofNat_add, UInt64.ofNat_add]
    rw [← hcount, UInt64.ofNat_add] at hv
    grind

theorem moves (hd : Drifted past s) (h : Owned s) (hm : Moves s label s') (hrun : s'.phase ≠ .returned) :
    Drifted (past ++ [(s, label)]) s' := by
  cases hm with
  | poll order ready htop horder => exact hd.other rfl rfl rfl
  | refused a flag events hphase hneg => exact hd.other rfl rfl rfl
  | accepted a flag events hphase hpos hfree =>
    obtain ⟨value, hl, hv⟩ := hd
    have hcount : (s.welcome events a).manager.count = s.manager.count + 1 :=
      UnorderedMap.size_insert (h.lookup_of_free hfree) s.nextId
    refine ⟨value + 1, Metrics.lookup_increment hl, ?_⟩
    rw [surplus_snoc, show repeats (s, .event a) = 0 from rfl, Nat.add_zero, hcount, UInt64.ofNat_add, ← hv]
    grind
  | client a flag id events channel e s' hphase hm hobj he ha =>
    refine hd.other rfl ?_ ha.channels
    rw [ha.metrics, lookup_foldl_increment _ _ (outcome_of_effect he).counters_eq]
  | cleanup granted s' hphase hw => exact hd.swept h hw granted
  | stop order granted s' htop hstop => exact absurd hstop.phase hrun

end Drifted

theorem drifted_of_run {listenFd : Fd} {memory : Bool} {labels : List (Label H)} (hfd : 0 ≤ listenFd)
    (h : Run step Fresh (initial listenFd memory ∅) labels s) (hrun : s.phase ≠ .returned) :
    Drifted (Run.history step (initial listenFd memory ∅) labels) s :=
  history_of_run hfd (fun _ _ hok => hok) h hrun (.initial listenFd memory)
    fun _ _ _ _ hown hd _ hm hrun' => hd.moves hown hm hrun'

theorem Drifted.sum_eq (hd : Drifted past s) :
    ∃ value, s.metrics.lookup connectionsTotal = some ⟨value, .GAUGE⟩ ∧
      (value.toNat + surplus past) % 2 ^ 64 = s.manager.count := by
  obtain ⟨value, hl, hv⟩ := hd
  have hnat := congrArg UInt64.toNat hv
  rw [UInt64.toNat_add, UInt64.toNat_ofNat', UInt64.toNat_ofNat', Nat.add_mod_mod] at hnat
  have hle := count_le s.manager
  refine ⟨value, hl, ?_⟩
  rw [hnat]
  exact Nat.mod_eq_of_lt (by omega)

/-- **The gauge drifts by the repeated marks.**  In every state of a run from an empty
store that has not returned, the gauge and the repeated marks that the finished batches
counted down add up to the connections of the table, modulo `2 ^ 64`.  So the gauge is
the number of connections exactly when those repeated marks are a multiple of that. -/
theorem gauge_drift {listenFd : Fd} {memory : Bool} {labels : List (Label H)} (hfd : 0 ≤ listenFd)
    (h : Run step Fresh (initial listenFd memory ∅) labels s) (hrun : s.phase ≠ .returned) :
    ∃ value, s.metrics.lookup connectionsTotal = some ⟨value, .GAUGE⟩ ∧
      (value.toNat + surplus (Run.history step (initial listenFd memory ∅) labels)) % 2 ^ 64
        = s.manager.count ∧
      (value.toNat = s.manager.count ↔
        2 ^ 64 ∣ surplus (Run.history step (initial listenFd memory ∅) labels)) := by
  obtain ⟨value, hl, hsum⟩ := (drifted_of_run hfd h hrun).sum_eq
  have hbound := value.toNat_lt
  exact ⟨value, hl, hsum, by omega⟩

/-- After the run in which the only connection is counted down twice, the gauge is off
by one for good. -/
theorem gauge_drift_lost :
    ∃ value : UInt64, lost.metrics.lookup connectionsTotal = some ⟨value, .GAUGE⟩ ∧
      (value.toNat + 1) % 2 ^ 64 = 0 ∧ value.toNat ≠ 0 := by
  have hrun : Run step Fresh (initial 3 true ∅) lostLabels lost :=
    Run.of_exec lostLabels _ (Option.some_get _).symm
  have hsurplus : surplus (Run.history step (initial 3 true ∅) lostLabels) = 1 := by decide +kernel
  have hcount : lost.manager.count = 0 := by decide +kernel
  obtain ⟨value, hl, hsum, hiff⟩ := gauge_drift (by decide) hrun (by decide +kernel)
  rw [hsurplus, hcount] at hsum hiff
  exact ⟨value, hl, hsum, fun h0 => absurd (hiff.mp h0) (by decide)⟩

end Sews.Runtime
