import Sews.Telemetry.Metrics
import Mathlib.Data.List.Count

/-!
# The metric store and its history

What the store has under a name follows from the operations made so far: the type
from the first registration, the value of a counter from the increments after it,
and the value of a gauge from the last `set` and what came after that.  `Refines`
says this of a store and a list of operations, and `store_refines_history` proves it
for every list.

The entry of a name is changed by the operations on this name only (`lookup_apply`),
so the proof is about one entry.
-/

namespace Sews.Telemetry

open Cpp

/-- A call of one of the four operations that change the store. -/
inductive Operation
  | registerMetric (name : Bytes) (type : MetricType)
  | increment (name : Bytes)
  | decrement (name : Bytes)
  | set (name : Bytes) (value : UInt64)
deriving DecidableEq, Repr

namespace Operation

def name : Operation → Bytes
  | registerMetric name _ => name
  | increment name => name
  | decrement name => name
  | set name _ => name

/-- What an operation makes of the entry of its name. -/
def entry : Operation → Option Metric → Option Metric
  | registerMetric _ type, none => some ⟨0, type⟩
  | registerMetric _ _, some metric => some metric
  | increment _, metric => metric.map fun m => { m with value := m.value + 1 }
  | decrement _, metric =>
    metric.map fun m => if m.type = .COUNTER then m else { m with value := m.value - 1 }
  | set _ value, metric =>
    metric.map fun m => if m.type ≠ .GAUGE then m else { m with value := value }

/-- What an operation makes of the entry of `name`. -/
def onEntry (name : Bytes) (metric : Option Metric) (operation : Operation) : Option Metric :=
  if operation.name = name then operation.entry metric else metric

theorem onEntry_self {name : Bytes} {operation : Operation} (h : operation.name = name)
    (metric : Option Metric) : onEntry name metric operation = operation.entry metric := if_pos h

theorem onEntry_ne {name : Bytes} {operation : Operation} (h : operation.name ≠ name)
    (metric : Option Metric) : onEntry name metric operation = metric := if_neg h

end Operation

open Operation

namespace Metrics

def apply (metrics : Metrics) : Operation → Metrics
  | .registerMetric name type => metrics.registerMetric name type
  | .increment name => metrics.increment name
  | .decrement name => metrics.decrement name
  | .set name value => metrics.set name value

/-- The store after `operations`. -/
def after (operations : List Operation) : Metrics := operations.foldl apply ∅

theorem apply_cases (metrics : Metrics) (operation : Operation) :
    (metrics.apply operation = metrics ∧
      operation.entry (metrics.lookup operation.name) = metrics.lookup operation.name) ∨
    ∃ metric, metrics.apply operation = metrics.insert operation.name metric ∧
      operation.entry (metrics.lookup operation.name) = some metric := by
  cases operation with
  | registerMetric name type =>
    rw [apply, registerMetric, Operation.name]
    cases metrics.lookup name with
    | none => exact Or.inr ⟨_, rfl, rfl⟩
    | some metric => exact Or.inl ⟨rfl, rfl⟩
  | increment name =>
    rw [apply, increment, Operation.name]
    cases metrics.lookup name with
    | none => exact Or.inl ⟨rfl, rfl⟩
    | some metric => exact Or.inr ⟨_, rfl, rfl⟩
  | decrement name =>
    rw [apply, decrement, Operation.name]
    cases metrics.lookup name with
    | none => exact Or.inl ⟨rfl, rfl⟩
    | some metric =>
      dsimp only [entry, Option.map_some]
      split
      · exact Or.inl ⟨rfl, rfl⟩
      · exact Or.inr ⟨_, rfl, rfl⟩
  | set name value =>
    rw [apply, set, Operation.name]
    cases metrics.lookup name with
    | none => exact Or.inl ⟨rfl, rfl⟩
    | some metric =>
      dsimp only [entry, Option.map_some]
      split
      · exact Or.inl ⟨rfl, rfl⟩
      · exact Or.inr ⟨_, rfl, rfl⟩

/-- **An operation changes the entry of its name only.** -/
theorem lookup_apply (metrics : Metrics) (operation : Operation) (name : Bytes) :
    (metrics.apply operation).lookup name = onEntry name (metrics.lookup name) operation := by
  by_cases hname : operation.name = name
  · subst hname
    rw [onEntry_self rfl]
    rcases apply_cases metrics operation with ⟨heq, hentry⟩ | ⟨metric, heq, hentry⟩
    · rw [heq, hentry]
    · rw [heq, hentry, Finmap.lookup_insert]
  · rw [onEntry_ne hname]
    rcases apply_cases metrics operation with ⟨heq, -⟩ | ⟨metric, heq, -⟩
    · rw [heq]
    · rw [heq, Finmap.lookup_insert_of_ne _ (Ne.symm hname)]

theorem lookup_foldl_apply (name : Bytes) : ∀ (operations : List Operation) (metrics : Metrics),
    (operations.foldl apply metrics).lookup name = operations.foldl (onEntry name) (metrics.lookup name) := by
  intro operations
  induction operations with
  | nil => exact fun _ => rfl
  | cons operation operations ih =>
    intro metrics
    rw [List.foldl_cons, List.foldl_cons, ih, lookup_apply]

theorem lookup_after (operations : List Operation) (name : Bytes) :
    (after operations).lookup name = operations.foldl (onEntry name) none := by
  rw [after, lookup_foldl_apply, Finmap.lookup_empty]

end Metrics

/-! ### The entry of one name, after one operation -/

section
variable {name : Bytes} {operation : Operation}

theorem onEntry_none (h : ∀ type, operation ≠ .registerMetric name type) :
    onEntry name none operation = none := by
  by_cases hname : operation.name = name
  · subst hname
    rw [onEntry_self rfl]
    cases operation with
    | registerMetric n type => exact absurd rfl (h type)
    | increment | decrement | set => rfl
  · exact onEntry_ne hname none

theorem onEntry_some (metric : Metric) :
    ∃ value, onEntry name (some metric) operation = some ⟨value, metric.type⟩ := by
  by_cases hname : operation.name = name
  · rw [onEntry_self hname]
    cases operation with
    | registerMetric n type => exact ⟨_, rfl⟩
    | increment n => exact ⟨_, rfl⟩
    | decrement n | set n v =>
      rw [entry, Option.map_some]
      split
      · exact ⟨_, rfl⟩
      · exact ⟨_, rfl⟩
  · exact ⟨metric.value, onEntry_ne hname _⟩

/-- A counter is changed by an increment only. -/
theorem onEntry_counter (h : operation ≠ .increment name) (value : UInt64) :
    onEntry name (some ⟨value, .COUNTER⟩) operation = some ⟨value, .COUNTER⟩ := by
  by_cases hname : operation.name = name
  · subst hname
    rw [onEntry_self rfl]
    cases operation with
    | increment n => exact absurd rfl h
    | registerMetric | decrement | set => rfl
  · exact onEntry_ne hname _

/-- A gauge is changed by an increment, a decrement or a `set` only. -/
theorem onEntry_gauge (hinc : operation ≠ .increment name) (hdec : operation ≠ .decrement name)
    (hset : ∀ v, operation ≠ .set name v) (value : UInt64) :
    onEntry name (some ⟨value, .GAUGE⟩) operation = some ⟨value, .GAUGE⟩ := by
  by_cases hname : operation.name = name
  · subst hname
    rw [onEntry_self rfl]
    cases operation with
    | increment n => exact absurd rfl hinc
    | decrement n => exact absurd rfl hdec
    | set n v => exact absurd rfl (hset v)
    | registerMetric n type => rfl
  · exact onEntry_ne hname _

/-! ### The entry of one name, after many -/

theorem exists_first_registration : ∀ {operations : List Operation} {type : MetricType},
    Operation.registerMetric name type ∈ operations →
    ∃ before type' later, operations = before ++ .registerMetric name type' :: later ∧
      ∀ t, Operation.registerMetric name t ∉ before := by
  intro operations
  induction operations with
  | nil => intro type hmem; cases hmem
  | cons operation operations ih =>
    intro type hmem
    by_cases hfirst : ∃ t, operation = .registerMetric name t
    · obtain ⟨t, rfl⟩ := hfirst
      exact ⟨[], t, operations, rfl, fun _ => List.not_mem_nil⟩
    · have hmem' := (List.mem_cons.mp hmem).resolve_left fun h => hfirst ⟨type, h.symm⟩
      obtain ⟨before, type', later, rfl, hno⟩ := ih hmem'
      refine ⟨operation :: before, type', later, rfl, fun t ht => ?_⟩
      exact (List.mem_cons.mp ht).elim (fun h => hfirst ⟨t, h.symm⟩) (hno t)

theorem foldl_onEntry_none : ∀ operations : List Operation,
    (∀ type, Operation.registerMetric name type ∉ operations) →
      operations.foldl (onEntry name) none = none := by
  intro operations
  induction operations with
  | nil => exact fun _ => rfl
  | cons operation operations ih =>
    intro hno
    have hfirst : ∀ type, operation ≠ .registerMetric name type :=
      fun type heq => hno type (heq ▸ List.mem_cons_self)
    rw [List.foldl_cons, onEntry_none hfirst]
    exact ih fun type hmem => hno type (List.mem_cons_of_mem _ hmem)

theorem foldl_onEntry_some (type : MetricType) : ∀ (operations : List Operation) (value : UInt64),
    ∃ value', operations.foldl (onEntry name) (some ⟨value, type⟩) = some ⟨value', type⟩ := by
  intro operations
  induction operations with
  | nil => exact fun value => ⟨value, rfl⟩
  | cons operation operations ih =>
    intro value
    obtain ⟨value', hfirst⟩ := @onEntry_some name operation ⟨value, type⟩
    rw [List.foldl_cons, hfirst]
    exact ih value'

/-- A counter goes up with every increment, and with nothing else. -/
theorem foldl_onEntry_counter : ∀ (operations : List Operation) (value : UInt64),
    ∃ value', operations.foldl (onEntry name) (some ⟨value, .COUNTER⟩) = some ⟨value', .COUNTER⟩ ∧
      value'.toNat = (value.toNat + operations.count (.increment name)) % 2 ^ 64 := by
  intro operations
  induction operations with
  | nil =>
    intro value
    exact ⟨value, rfl, (Nat.mod_eq_of_lt value.toNat_lt).symm⟩
  | cons operation operations ih =>
    intro value
    by_cases hinc : operation = .increment name
    · obtain ⟨value', heq, hvalue⟩ := ih (value + 1)
      rw [hinc, List.foldl_cons, onEntry_self (by rfl), List.count_cons_self]
      refine ⟨value', heq, ?_⟩
      rw [hvalue, UInt64.toNat_add, UInt64.toNat_one]
      omega
    · rw [List.foldl_cons, onEntry_counter hinc, List.count_cons_of_ne hinc]
      exact ih value

/-- A gauge that is not set goes up with every increment and down with every
decrement. -/
theorem foldl_onEntry_gauge : ∀ (operations : List Operation) (value : UInt64),
    (∀ v, Operation.set name v ∉ operations) →
    ∃ value', operations.foldl (onEntry name) (some ⟨value, .GAUGE⟩) = some ⟨value', .GAUGE⟩ ∧
      (value'.toNat : Int) = (value.toNat + operations.count (.increment name)
        - operations.count (.decrement name)) % 2 ^ 64 := by
  intro operations
  induction operations with
  | nil =>
    intro value _
    have hlt := value.toNat_lt
    refine ⟨value, rfl, ?_⟩
    rw [List.count_nil, List.count_nil]
    omega
  | cons operation operations ih =>
    intro value hno
    have hno' : ∀ v, Operation.set name v ∉ operations := fun v hmem => hno v (List.mem_cons_of_mem _ hmem)
    by_cases hinc : operation = .increment name
    · obtain ⟨value', heq, hvalue⟩ := ih (value + 1) hno'
      have hdec : Operation.increment name ≠ .decrement name := by simp
      rw [hinc, List.foldl_cons, onEntry_self (by rfl), List.count_cons_self, List.count_cons_of_ne hdec]
      refine ⟨value', heq, ?_⟩
      rw [hvalue, UInt64.toNat_add, UInt64.toNat_one]
      omega
    · rw [List.foldl_cons, List.count_cons_of_ne hinc]
      by_cases hdec : operation = .decrement name
      · obtain ⟨value', heq, hvalue⟩ := ih (value - 1) hno'
        rw [hdec, onEntry_self (by rfl), List.count_cons_self]
        refine ⟨value', heq, ?_⟩
        rw [hvalue, UInt64.toNat_sub, UInt64.toNat_one]
        omega
      · have hset : ∀ v, operation ≠ .set name v := fun v heq => hno v (heq ▸ List.mem_cons_self)
        rw [onEntry_gauge hinc hdec hset, List.count_cons_of_ne hdec]
        exact ih value hno'

end

/-! ### The reference -/

/-- `value` is what the last `set` of `name` stored, zero if there is none, and
`rest` are the operations after it. -/
def LastSet (name : Bytes) (operations : List Operation) (value : UInt64) (rest : List Operation) : Prop :=
  (∀ v, Operation.set name v ∉ rest) ∧
    ((∃ before, operations = before ++ .set name value :: rest) ∨ (value = 0 ∧ operations = rest))

theorem exists_lastSet (name : Bytes) : ∀ operations : List Operation,
    ∃ value rest, LastSet name operations value rest := by
  intro operations
  induction operations with
  | nil => exact ⟨0, [], fun v => List.not_mem_nil, Or.inr ⟨rfl, rfl⟩⟩
  | cons operation operations ih =>
    obtain ⟨value, rest, hno, ⟨before, heq⟩ | ⟨hvalue, heq⟩⟩ := ih
    · exact ⟨value, rest, hno, Or.inl ⟨operation :: before, by rw [heq]; rfl⟩⟩
    · by_cases hset : ∃ v, operation = .set name v
      · obtain ⟨v, rfl⟩ := hset
        exact ⟨v, rest, hno, Or.inl ⟨[], by rw [heq]; rfl⟩⟩
      · refine ⟨0, operation :: operations, fun v hmem => ?_, Or.inr ⟨rfl, rfl⟩⟩
        rcases List.mem_cons.mp hmem with hfirst | hmem
        · exact hset ⟨v, hfirst.symm⟩
        · exact hno v (heq ▸ hmem)

/-- The value of a gauge, from the operations after its registration. -/
theorem foldl_onEntry_lastSet {name : Bytes} {operations rest : List Operation} {start : UInt64}
    (h : LastSet name operations start rest) :
    ∃ value, operations.foldl (onEntry name) (some ⟨0, .GAUGE⟩) = some ⟨value, .GAUGE⟩ ∧
      (value.toNat : Int) = (start.toNat + rest.count (.increment name)
        - rest.count (.decrement name)) % 2 ^ 64 := by
  obtain ⟨hno, ⟨before, rfl⟩ | ⟨rfl, rfl⟩⟩ := h
  · obtain ⟨old, hold⟩ := @foldl_onEntry_some name .GAUGE before 0
    rw [List.foldl_append, hold, List.foldl_cons, onEntry_self (by rfl)]
    exact foldl_onEntry_gauge rest start hno
  · exact foldl_onEntry_gauge operations 0 hno

/-- The store has what the history of each name says. -/
structure Refines (operations : List Operation) (metrics : Metrics) : Prop where
  registered : ∀ name, metrics.lookup name ≠ none ↔ ∃ type, .registerMetric name type ∈ operations
  counter : ∀ name before later, operations = before ++ .registerMetric name .COUNTER :: later →
    (∀ type, .registerMetric name type ∉ before) →
    ∃ value, metrics.lookup name = some ⟨value, .COUNTER⟩ ∧
      value.toNat = later.count (.increment name) % 2 ^ 64
  gauge : ∀ name before later, operations = before ++ .registerMetric name .GAUGE :: later →
    (∀ type, .registerMetric name type ∉ before) →
    ∃ value start rest, metrics.lookup name = some ⟨value, .GAUGE⟩ ∧ LastSet name later start rest ∧
      (value.toNat : Int) = (start.toNat + rest.count (.increment name)
        - rest.count (.decrement name)) % 2 ^ 64

/-- What the operations leave alone. -/
structure Framed (metrics : Metrics) : Prop where
  other : ∀ operation name, operation.name ≠ name →
    (metrics.apply operation).lookup name = metrics.lookup name
  unregistered : ∀ operation, metrics.lookup operation.name = none →
    (∀ type, operation ≠ .registerMetric operation.name type) → metrics.apply operation = metrics
  again : ∀ name type, metrics.lookup name ≠ none → metrics.registerMetric name type = metrics
  counter : ∀ name value, metrics.lookup name = some ⟨value, .COUNTER⟩ →
    metrics.decrement name = metrics ∧ ∀ v, metrics.set name v = metrics

namespace Metrics

/-- The entry of a name from its first registration on. -/
theorem lookup_after_registration {name : Bytes} {type : MetricType} {before : List Operation}
    (hno : ∀ type, Operation.registerMetric name type ∉ before) (later : List Operation) :
    (after (before ++ .registerMetric name type :: later)).lookup name
      = later.foldl (onEntry name) (some ⟨0, type⟩) := by
  rw [lookup_after, List.foldl_append, foldl_onEntry_none before hno, List.foldl_cons,
    onEntry_self (by rfl)]
  rfl

theorem registered_iff (operations : List Operation) (name : Bytes) :
    (after operations).lookup name ≠ none ↔ ∃ type, .registerMetric name type ∈ operations := by
  constructor
  · intro hl
    by_contra hno
    exact hl (by rw [lookup_after, foldl_onEntry_none operations fun type hmem => hno ⟨type, hmem⟩])
  · rintro ⟨type, hmem⟩
    obtain ⟨before, type', later, rfl, hno⟩ := exists_first_registration hmem
    obtain ⟨value, hvalue⟩ := @foldl_onEntry_some name type' later 0
    rw [lookup_after_registration hno, hvalue]
    simp

theorem refines_after (operations : List Operation) : Refines operations (after operations) where
  registered := registered_iff operations
  counter := by
    rintro name before later rfl hno
    obtain ⟨value, heq, hvalue⟩ := @foldl_onEntry_counter name later 0
    rw [UInt64.toNat_zero, Nat.zero_add] at hvalue
    exact ⟨value, (lookup_after_registration hno later).trans heq, hvalue⟩
  gauge := by
    rintro name before later rfl hno
    obtain ⟨start, rest, hlast⟩ := exists_lastSet name later
    obtain ⟨value, heq, hvalue⟩ := foldl_onEntry_lastSet hlast
    exact ⟨value, start, rest, (lookup_after_registration hno later).trans heq, hlast, hvalue⟩

theorem framed (metrics : Metrics) : Framed metrics where
  other operation name hname := by rw [lookup_apply, onEntry_ne hname]
  unregistered operation hnone hno := by
    rcases apply_cases metrics operation with ⟨heq, -⟩ | ⟨metric, -, hentry⟩
    · exact heq
    · rw [hnone] at hentry
      cases operation with
      | registerMetric name type => exact absurd rfl (hno type)
      | increment | decrement | set => cases hentry
  again name type hl := by
    obtain ⟨metric, hmetric⟩ := Option.ne_none_iff_exists'.mp hl
    rw [registerMetric, hmetric]
  counter name value hl := by
    refine ⟨?_, fun v => ?_⟩
    · rw [decrement, hl]
      exact if_pos rfl
    · rw [set, hl]
      exact if_pos (by simp)

end Metrics

/-- **The store refines its history**, after any operations on any names. -/
theorem store_refines_history (operations : List Operation) :
    Refines operations (Metrics.after operations) ∧ Framed (Metrics.after operations) :=
  ⟨Metrics.refines_after operations, Metrics.framed _⟩

end Sews.Telemetry
