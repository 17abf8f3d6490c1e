import Sews.Cpp.Bytes
import Sews.Cpp.UnorderedMap

/-!
# The metric store

`architecture::telemetry::metric::Manager`.  A metric is a counter or a gauge
with a `size_t` value, so increments and decrements wrap.  Registering a name
again changes nothing, and an operation on a name that is not registered, or on
a metric of the wrong type, is only logged.
-/

namespace Sews.Telemetry

open Cpp

/-- `core::telemetry::metric::type::Metric`. -/
inductive MetricType
  | COUNTER | GAUGE
deriving DecidableEq, Repr

structure Metric where
  value : UInt64
  type : MetricType
deriving DecidableEq, Repr

abbrev Metrics := UnorderedMap Bytes Metric

namespace Metrics

def registerMetric (metrics : Metrics) (name : Bytes) (type : MetricType) : Metrics :=
  match metrics.lookup name with
  | some _ => metrics
  | none => metrics.insert name ⟨0, type⟩

def increment (metrics : Metrics) (name : Bytes) : Metrics :=
  match metrics.lookup name with
  | none => metrics
  | some metric => metrics.insert name { metric with value := metric.value + 1 }

def decrement (metrics : Metrics) (name : Bytes) : Metrics :=
  match metrics.lookup name with
  | none => metrics
  | some metric =>
    if metric.type = .COUNTER then metrics
    else metrics.insert name { metric with value := metric.value - 1 }

def set (metrics : Metrics) (name : Bytes) (value : UInt64) : Metrics :=
  match metrics.lookup name with
  | none => metrics
  | some metric =>
    if metric.type ≠ .GAUGE then metrics else metrics.insert name { metric with value := value }

theorem lookup_increment_ne {name name' : Bytes} (h : name' ≠ name) (metrics : Metrics) :
    (metrics.increment name).lookup name' = metrics.lookup name' := by
  rw [increment]
  split
  · rfl
  · exact Finmap.lookup_insert_of_ne _ h

theorem lookup_increment {metrics : Metrics} {name : Bytes} {metric : Metric}
    (h : metrics.lookup name = some metric) :
    (metrics.increment name).lookup name = some { metric with value := metric.value + 1 } := by
  rw [increment, h]
  exact Finmap.lookup_insert _

theorem lookup_decrement_ne {name name' : Bytes} (h : name' ≠ name) (metrics : Metrics) :
    (metrics.decrement name).lookup name' = metrics.lookup name' := by
  rw [decrement]
  split
  · rfl
  · split
    · rfl
    · exact Finmap.lookup_insert_of_ne _ h

theorem lookup_decrement {metrics : Metrics} {name : Bytes} {metric : Metric}
    (h : metrics.lookup name = some metric) (hg : metric.type = .GAUGE) :
    (metrics.decrement name).lookup name = some { metric with value := metric.value - 1 } := by
  rw [decrement, h]
  dsimp only
  rw [if_neg (by rw [hg]; decide)]
  exact Finmap.lookup_insert _

end Metrics
end Sews.Telemetry
