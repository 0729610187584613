import Mlfq.Journal.Event
import Mlfq.Trap

/-! # Metrics

Counters and gauges of a run. The plain ones exist from the start; a counter with a label comes
into being when it is first counted. -/

namespace Mlfq

/-- Counts by label, without the labels that were never counted. -/
structure LabelCounts where
  entries : List (String × Nat) := []

namespace LabelCounts

/-- Adds one to the count of a label in a list of counts. -/
def bump (label : String) : List (String × Nat) → List (String × Nat)
  | [] => [(label, 1)]
  | (l, n) :: rest => if l = label then (l, n + 1) :: rest else (l, n) :: bump label rest

/-- Counts a label once more. -/
def increment (c : LabelCounts) (label : String) : LabelCounts := ⟨bump label c.entries⟩

/-- The count of a label. -/
def count (c : LabelCounts) (label : String) : Nat := (c.entries.lookup label).getD 0

theorem lookup_bump (label l : String) (entries : List (String × Nat)) :
    ((bump label entries).lookup l).getD 0 =
      (entries.lookup l).getD 0 + if l = label then 1 else 0 := by
  induction entries with
  | nil =>
    by_cases h : l = label
    · simp [bump, h]
    · simp [bump, List.lookup_cons, beq_eq_false_iff_ne.2 h, h]
  | cons e rest ih =>
    obtain ⟨k, n⟩ := e
    by_cases hk : k = label
    · subst hk
      by_cases hl : l = k
      · simp [bump, hl]
      · simp [bump, List.lookup_cons, beq_eq_false_iff_ne.2 hl, hl]
    · by_cases hl : l = k
      · subst hl; simp [bump, hk]
      · simpa [bump, hk, List.lookup_cons, beq_eq_false_iff_ne.2 hl] using ih

@[simp] theorem count_increment (c : LabelCounts) (label l : String) :
    (c.increment label).count l = c.count l + if l = label then 1 else 0 :=
  lookup_bump label l c.entries

end LabelCounts

/-- The counters and gauges of a run. -/
structure Metrics where
  dispatches : Nat := 0
  terminations : Nat := 0
  deadlocks : Nat := 0
  priorityResets : Nat := 0
  quantumExpiries : Nat := 0
  ioCompletions : Nat := 0
  /-- The length of the ready queue after the last dispatch. -/
  readyLength : Nat := 0
  /-- The length of the queue of ended processes when it last changed. -/
  zombieLength : Nat := 0
  traps : LabelCounts := {}
  events : LabelCounts := {}

/-- The metrics by name, in no particular order. -/
def Metrics.toList (m : Metrics) : List (String × Nat) :=
  [("dispatches_total", m.dispatches), ("terminations_total", m.terminations),
    ("deadlocks_total", m.deadlocks), ("priority_resets_total", m.priorityResets),
    ("quantum_expiries_total", m.quantumExpiries), ("io_completions_total", m.ioCompletions),
    ("ready_queue_len", m.readyLength), ("zombie_queue_len", m.zombieLength)] ++
  m.traps.entries.map (fun (l, n) => ("traps_total\x7btype=" ++ l ++ "\x7d", n)) ++
  m.events.entries.map (fun (l, n) => ("sched_events_total\x7btype=" ++ l ++ "\x7d", n))

end Mlfq
