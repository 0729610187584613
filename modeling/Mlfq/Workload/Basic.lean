import Mlfq.Census

/-! # Workloads

A workload decides which processes arrive. The machine asks it for a batch when it boots and at
every priority reset. -/

namespace Mlfq

/-- One unit of admission. The members of a pair arrive together, since they share locks or a
channel. -/
inductive Arrival where
  | single (p : Proc)
  /-- Two mutex users over two new locks. If `reversed`, the second takes them in the opposite
  order. -/
  | mutexPair (first second : Proc) (reversed : Bool)
  /-- A producer and a consumer with a new channel. -/
  | rendezvousPair (producer consumer : Proc)

/-- The processes of an arrival, in order of admission. -/
def Arrival.procs : Arrival → List Proc
  | .single p => [p]
  | .mutexPair first second _ => [first, second]
  | .rendezvousPair producer consumer => [producer, consumer]

/-- The number of processes of an arrival. -/
def Arrival.size (a : Arrival) : Nat := a.procs.length

/-- The answer of a workload in state `σ`. -/
structure Batch (σ : Type) where
  arrivals : List Arrival
  pids : PidAllocator
  /-- The state from which the next batch is made. -/
  rest : σ

/-- A source of arrivals with states `σ`. A batch may depend on what was created and has ended so
far; its processes take their ids from the allocator. -/
class Workload (σ : Type) where
  batch : σ → PidAllocator → Census → Except Fault (Batch σ)

/-- The workload without arrivals. -/
structure NoArrivals where
  deriving DecidableEq

instance : Workload NoArrivals := ⟨fun w pids _ => .ok ⟨[], pids, w⟩⟩

end Mlfq
