import Mlfq.Proc.Basic

/-! # Process queues

Every waiting room of the machine is a list of process records, oldest first. -/

namespace Mlfq

/-- Process records in order of arrival. -/
abbrev Queue := List Proc

namespace Queue

/-- Adds a record behind the others. -/
def enqueue (q : Queue) (p : Proc) : Queue := q ++ [p]

/-- Takes the oldest record. -/
def dequeue : Queue → Option (Proc × Queue)
  | [] => none
  | p :: rest => some (p, rest)

/-- Whether a record of process `pid` is in the queue. -/
def holds (q : Queue) (pid : Pid) : Bool := q.any (·.pid == pid)

/-- The length of the queue and the process numbers, oldest first. -/
def render (q : Queue) : String :=
  s!"Q:Count={q.length}:" ++ String.join (q.map fun p => s!" P{p.pid}->") ++ " *"

theorem holds_iff {q : Queue} {pid : Pid} : q.holds pid = true ↔ ∃ p ∈ q, p.pid = pid := by
  simp [holds]

@[simp] theorem mem_enqueue {q : Queue} {p x : Proc} : x ∈ q.enqueue p ↔ x ∈ q ∨ x = p := by
  simp [enqueue]

@[simp] theorem length_enqueue (q : Queue) (p : Proc) :
    List.length (q.enqueue p) = List.length q + 1 := by
  simp [enqueue]

end Queue
end Mlfq
