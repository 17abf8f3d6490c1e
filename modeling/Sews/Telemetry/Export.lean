import Sews.Http.ResponseFraming
import Sews.Telemetry.Metrics

/-!
# The metrics as a text

`exportValues` writes the uptime on two lines and then the metrics, one line each,
in the order a loop over the store visits them.  Cutting the text at the line ends
and each line at its space gives these pairs back (`split_exportValues`), so the text
has every metric on exactly one line, whatever the order (`export_lossless`).
-/

namespace Sews.Telemetry

open Cpp UnorderedMap Sews.Http

/-- The order in which a loop over the store visits it. -/
abbrev MetricOrder := List (Σ _ : Bytes, Metric)

def uptimeSecondsName : Bytes := ascii "uptime_seconds"
def uptimeHumanName : Bytes := ascii "uptime_human"

/-- `Manager::exportValues`.  `elapsed` is `now - startTime`, in the nanoseconds of
`steady_clock`; `duration_cast` rounds to zero. -/
def exportValues (order : MetricOrder) (elapsed : Int) : Bytes :=
  let uptimeSeconds := elapsed.tdiv 1000000000
  let seconds := uptimeSeconds.tmod 60
  let minutes := (uptimeSeconds.tdiv 60).tmod 60
  let hours := uptimeSeconds.tdiv 3600
  ascii "uptime_seconds " ++ decimalInt uptimeSeconds ++ crlf
    ++ ascii "uptime_human " ++ decimalInt hours ++ [colon] ++ decimalInt minutes ++ [colon]
    ++ decimalInt seconds ++ crlf
    ++ order.flatMap fun metric => metric.1 ++ [sp] ++ decimal metric.2.value.toNat ++ crlf

/-- The response of `HttpMetricExporter::handle`. -/
def HttpMetricExporter.page (order : MetricOrder) (elapsed : Int) : Response where
  version := ascii "HTTP/1.1"
  status := 200
  statusText := ascii "OK"
  headers := pageHeaders (ascii "text/plain")
  body := exportValues order elapsed

/-- `HttpMetricExporter::handle`. -/
def HttpMetricExporter.handle (order : MetricOrder) (elapsed : Int) (_request : Message) : Message :=
  .response (page order elapsed)

/-! ### Reading the text -/

/-- The pieces of a text between its line ends. -/
def splitCrlf : Bytes → List Bytes
  | [] => [[]]
  | [b] => [[b]]
  | b :: c :: rest =>
    if b = cr ∧ c = lf then [] :: splitCrlf rest
    else (splitCrlf (c :: rest)).modifyHead (b :: ·)

theorem splitCrlf_append : ∀ {line : Bytes}, cr ∉ line → ∀ rest : Bytes,
    splitCrlf (line ++ cr :: lf :: rest) = line :: splitCrlf rest := by
  intro line
  induction line with
  | nil =>
    intro _ rest
    rw [List.nil_append, splitCrlf, if_pos ⟨rfl, rfl⟩]
  | cons b line ih =>
    intro hno rest
    have hb : b ≠ cr := fun h => hno (by rw [h]; exact List.mem_cons_self)
    have hmore := ih (fun hmem => hno (List.mem_cons_of_mem _ hmem)) rest
    obtain ⟨c, text, htext⟩ : ∃ c text, line ++ cr :: lf :: rest = c :: text :=
      List.exists_cons_of_ne_nil (by simp)
    rw [htext] at hmore
    rw [List.cons_append, htext, splitCrlf, if_neg fun h => hb h.1, hmore]
    rfl

/-- The line of a name and a value. -/
def exportLine (pair : Bytes × Bytes) : Bytes := pair.1 ++ sp :: pair.2

theorem splitOn_exportLine {pair : Bytes × Bytes} (hname : sp ∉ pair.1) (hvalue : sp ∉ pair.2) :
    (exportLine pair).splitOn sp = [pair.1, pair.2] := by
  have hone : ∀ {s : Bytes}, sp ∉ s → s.splitOnP (· == sp) = [s] := by
    intro s hs
    refine List.splitOnP_eq_singleton fun b hb => ?_
    have hne : b ≠ sp := fun h => hs (h ▸ hb)
    simpa using hne
  rw [exportLine, List.splitOn_eq_splitOnP, List.splitOnP_append_cons _ _ (by simp), hone hname, hone hvalue]
  rfl

/-- Lines of a name and a value are read as they are written. -/
theorem split_exportLines : ∀ pairs : List (Bytes × Bytes),
    (∀ pair ∈ pairs, ∀ b ∈ pair.1 ++ pair.2, isspace b = false) →
    (splitCrlf (pairs.flatMap fun pair => exportLine pair ++ crlf)).map (·.splitOn sp)
      = (pairs.map fun pair => [pair.1, pair.2]) ++ [[[]]] := by
  intro pairs
  induction pairs with
  | nil => exact fun _ => rfl
  | cons pair pairs ih =>
    intro h
    have hpair := h pair List.mem_cons_self
    have hnot : ∀ {c : Byte}, isspace c = true → c ∉ pair.1 ++ pair.2 := by
      intro c hc hmem
      rw [hpair c hmem] at hc
      cases hc
    obtain ⟨hname, hvalue⟩ := not_or.mp (List.mem_append.not.mp (@hnot sp (by decide)))
    have hcr : cr ∉ exportLine pair := by
      have hcr' := @hnot cr (by decide)
      have hsp : cr ≠ sp := by decide
      rw [List.mem_append, not_or] at hcr'
      simp [exportLine, hcr', hsp]
    have hsplit : (pair :: pairs).flatMap (fun pair => exportLine pair ++ crlf)
        = exportLine pair ++ cr :: lf :: pairs.flatMap fun pair => exportLine pair ++ crlf := by
      simp [crlf]
    rw [hsplit, splitCrlf_append hcr, List.map_cons, splitOn_exportLine hname hvalue,
      ih fun p hp => h p (List.mem_cons_of_mem _ hp)]
    rfl

/-! ### The lines of the export -/

/-- The uptime in hours, minutes and seconds. -/
def humanUptime (seconds : Nat) : Bytes :=
  decimal (seconds / 3600) ++ colon :: (decimal (seconds / 60 % 60) ++ colon :: decimal (seconds % 60))

/-- The names and values of the export after `seconds` seconds. -/
def exportedPairs (order : MetricOrder) (seconds : Nat) : List (Bytes × Bytes) :=
  (uptimeSecondsName, decimal seconds) :: (uptimeHumanName, humanUptime seconds)
    :: order.map fun metric => (metric.1, decimal metric.2.value.toNat)

theorem decimalInt_natCast (n : Nat) : decimalInt n = decimal n := by
  rw [decimalInt, if_neg (by omega), Int.natAbs_natCast]

theorem exportValues_eq (order : MetricOrder) (elapsed : Nat) :
    exportValues order elapsed
      = (exportedPairs order (elapsed / 1000000000)).flatMap fun pair => exportLine pair ++ crlf := by
  have hsecondsName : ascii "uptime_seconds " = uptimeSecondsName ++ [sp] := by decide
  have hhumanName : ascii "uptime_human " = uptimeHumanName ++ [sp] := by decide
  -- on numbers that are not negative, rounding to zero is rounding down
  have huptime : (elapsed : Int).tdiv 1000000000 = (elapsed / 1000000000 : Nat) := rfl
  rw [exportValues, hsecondsName, hhumanName, huptime]
  obtain ⟨seconds, hseconds⟩ : ∃ seconds, elapsed / 1000000000 = seconds := ⟨_, rfl⟩
  rw [hseconds]
  have hs : (seconds : Int).tmod 60 = (seconds % 60 : Nat) := rfl
  have hm : ((seconds : Int).tdiv 60).tmod 60 = (seconds / 60 % 60 : Nat) := rfl
  have hh : (seconds : Int).tdiv 3600 = (seconds / 3600 : Nat) := rfl
  rw [hs, hm, hh]
  simp only [decimalInt_natCast]
  simp [exportedPairs, exportLine, humanUptime, crlf, List.flatMap_map]

theorem isspace_humanUptime (seconds : Nat) : ∀ b ∈ humanUptime seconds, isspace b = false := by
  intro b hb
  simp only [humanUptime, List.mem_append, List.mem_cons] at hb
  rcases hb with hb | rfl | hb | rfl | hb
  · exact isspace_decimal _ b hb
  · decide
  · exact isspace_decimal _ b hb
  · decide
  · exact isspace_decimal _ b hb

theorem isspace_exportedPairs {order : MetricOrder} (h : ∀ e ∈ order, ∀ b ∈ e.1, isspace b = false)
    (seconds : Nat) : ∀ pair ∈ exportedPairs order seconds, ∀ b ∈ pair.1 ++ pair.2, isspace b = false := by
  have hseconds : ∀ b ∈ uptimeSecondsName, isspace b = false := by decide +kernel
  have hhuman : ∀ b ∈ uptimeHumanName, isspace b = false := by decide +kernel
  intro pair hpair
  simp only [exportedPairs, List.mem_cons, List.mem_map] at hpair
  rw [List.forall_mem_append]
  rcases hpair with rfl | rfl | ⟨e, he, rfl⟩
  · exact ⟨hseconds, isspace_decimal seconds⟩
  · exact ⟨hhuman, isspace_humanUptime seconds⟩
  · exact ⟨h e he, isspace_decimal _⟩

/-- **The text is its lines**, each a name and a value. -/
theorem split_exportValues {order : MetricOrder} (h : ∀ e ∈ order, ∀ b ∈ e.1, isspace b = false)
    (elapsed : Nat) :
    (splitCrlf (exportValues order elapsed)).map (·.splitOn sp)
      = ((exportedPairs order (elapsed / 1000000000)).map fun pair => [pair.1, pair.2]) ++ [[[]]] := by
  rw [exportValues_eq]
  exact split_exportLines _ (isspace_exportedPairs h _)

/-- The lines of a name that is not an uptime are those of the store. -/
theorem filter_exportedPairs {metrics : Metrics} {order : MetricOrder} (ho : Enumerates order metrics)
    {name : Bytes} (hseconds : name ≠ uptimeSecondsName) (hhuman : name ≠ uptimeHumanName)
    (seconds : Nat) :
    (exportedPairs order seconds).filter (fun pair => pair.1 = name)
      = (metrics.lookup name).toList.map fun metric => (name, decimal metric.value.toNat) := by
  rw [exportedPairs, List.filter_cons_of_neg (by simpa using hseconds.symm),
    List.filter_cons_of_neg (by simpa using hhuman.symm), List.filter_map]
  have hkey := ho.filter_key name
  rw [show (fun pair : Bytes × Bytes => decide (pair.1 = name))
      ∘ (fun metric : Σ _ : Bytes, Metric => (metric.1, decimal metric.2.value.toNat))
      = fun e => decide (e.1 = name) from rfl, hkey, List.map_map]
  rfl

/-- No metric is exported under the name of an uptime. -/
theorem filter_order {metrics : Metrics} {order : MetricOrder} (ho : Enumerates order metrics)
    {name : Bytes} (hnone : metrics.lookup name = none) :
    (order.map fun metric => (metric.1, decimal metric.2.value.toNat)).filter
      (fun pair : Bytes × Bytes => pair.1 = name) = [] := by
  rw [List.filter_eq_nil_iff]
  intro pair hpair
  obtain ⟨e, he, rfl⟩ := List.mem_map.mp hpair
  have hl := (ho.mem_iff e.1 e.2).mp he
  have hne : e.1 ≠ name := by
    rintro rfl
    rw [hnone] at hl
    cases hl
  simpa using hne

/-- **The export is lossless.**  Cut at its line ends, and each line at its space, the
text is one line for each metric of the store with its decimal value, the two lines of
the uptime, and nothing else. -/
theorem export_lossless {metrics : Metrics} {order : MetricOrder} (ho : Enumerates order metrics)
    (hnames : ∀ name metric, metrics.lookup name = some metric → (∀ b ∈ name, isspace b = false) ∧
      name ≠ uptimeSecondsName ∧ name ≠ uptimeHumanName) {elapsed : Int} (helapsed : 0 ≤ elapsed) :
    ∃ (pairs : List (Bytes × Bytes)) (uptime hours minutes seconds : Nat),
      (splitCrlf (exportValues order elapsed)).map (·.splitOn sp)
        = (pairs.map fun pair => [pair.1, pair.2]) ++ [[[]]] ∧
      (∀ name metric, metrics.lookup name = some metric →
        pairs.filter (fun pair => pair.1 = name) = [(name, decimal metric.value.toNat)] ∧
        stoul (decimal metric.value.toNat) = .ok metric.value.toNat) ∧
      pairs.filter (fun pair => pair.1 = uptimeSecondsName) = [(uptimeSecondsName, decimal uptime)] ∧
      pairs.filter (fun pair => pair.1 = uptimeHumanName) = [(uptimeHumanName,
        decimal hours ++ colon :: (decimal minutes ++ colon :: decimal seconds))] ∧
      (∀ name, metrics.lookup name = none → name ≠ uptimeSecondsName → name ≠ uptimeHumanName →
        pairs.filter (fun pair => pair.1 = name) = []) ∧
      uptime = elapsed.toNat / 1000000000 ∧ 3600 * hours + 60 * minutes + seconds = uptime ∧
      minutes < 60 ∧ seconds < 60 := by
  obtain ⟨elapsed, rfl⟩ := Int.eq_ofNat_of_zero_le helapsed
  have hnone : ∀ {name : Bytes}, name = uptimeSecondsName ∨ name = uptimeHumanName →
      metrics.lookup name = none := by
    intro name huptime
    cases hl : metrics.lookup name with
    | none => rfl
    | some metric =>
      obtain ⟨-, hseconds, hhuman⟩ := hnames name metric hl
      exact (huptime.elim hseconds hhuman).elim
  have hne : uptimeSecondsName ≠ uptimeHumanName := by decide +kernel
  refine ⟨exportedPairs order (elapsed / 1000000000), elapsed / 1000000000, elapsed / 1000000000 / 3600,
    elapsed / 1000000000 / 60 % 60, elapsed / 1000000000 % 60, ?_, ?_, ?_, ?_, ?_, rfl, ?_, ?_, ?_⟩
  · exact split_exportValues (fun e he => (hnames e.1 e.2 ((ho.mem_iff _ _).mp he)).1) elapsed
  · intro name metric hl
    obtain ⟨-, hseconds, hhuman⟩ := hnames name metric hl
    refine ⟨?_, stoul_decimal metric.value.toNat_lt⟩
    rw [filter_exportedPairs ho hseconds hhuman, hl]
    rfl
  · rw [exportedPairs, List.filter_cons_of_pos (by simp), List.filter_cons_of_neg (by simpa using hne.symm),
      filter_order ho (hnone (Or.inl rfl))]
  · rw [exportedPairs, List.filter_cons_of_neg (by simpa using hne), List.filter_cons_of_pos (by simp),
      filter_order ho (hnone (Or.inr rfl))]
    rfl
  · intro name hl hseconds hhuman
    rw [filter_exportedPairs ho hseconds hhuman, hl]
    rfl
  · omega
  · omega
  · omega

/-- A gauge that went below zero, and a counter. -/
def wrappedMetrics : Metrics :=
  (Finmap.insert (ascii "b") ⟨18446744073709551615, .GAUGE⟩ ∅).insert (ascii "a") ⟨7, .COUNTER⟩

def wrappedOrder : MetricOrder := [⟨ascii "a", ⟨7, .COUNTER⟩⟩, ⟨ascii "b", ⟨18446744073709551615, .GAUGE⟩⟩]

theorem export_lossless_wrapped :
    ∃ pairs : List (Bytes × Bytes),
      (splitCrlf (exportValues wrappedOrder 360061500000000)).map (·.splitOn sp)
        = (pairs.map fun pair => [pair.1, pair.2]) ++ [[[]]] ∧
      pairs.filter (fun pair => pair.1 = ascii "b") = [(ascii "b", decimal 18446744073709551615)] := by
  have ho : Enumerates wrappedOrder wrappedMetrics := by decide +kernel
  have hnames : ∀ e ∈ wrappedOrder, (∀ b ∈ e.1, isspace b = false) ∧
      e.1 ≠ uptimeSecondsName ∧ e.1 ≠ uptimeHumanName := by decide +kernel
  obtain ⟨pairs, -, -, -, -, hsplit, hmetric, -⟩ := export_lossless ho
    (fun name metric hl => hnames ⟨name, metric⟩ ((ho.mem_iff _ _).mpr hl))
    (show (0 : Int) ≤ 360061500000000 by decide)
  exact ⟨pairs, hsplit, (hmetric (ascii "b") ⟨18446744073709551615, .GAUGE⟩ (by decide +kernel)).1⟩

end Sews.Telemetry
