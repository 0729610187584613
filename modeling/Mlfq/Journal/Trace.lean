import Mlfq.Journal.Event

/-! # Traces

A trace is the sequence of events of a run, each with the cycle in which it happened. -/

namespace Mlfq

/-- An event and the number of CPU cycles begun when it happened. -/
structure TraceEntry where
  iteration : Nat
  event : Event
  deriving DecidableEq

/-- The line of an entry in a listing of a trace. -/
def TraceEntry.render (e : TraceEntry) : String :=
  let iteration := Text.padLeft 8 ' ' (toString e.iteration)
  s!"[{iteration}] {e.event.render}"

/-- A recorded run. -/
structure Trace where
  /-- The entries, newest first. -/
  newestFirst : List TraceEntry := []

namespace Trace

/-- Adds an event. -/
def record (t : Trace) (iteration : Nat) (event : Event) : Trace :=
  ⟨⟨iteration, event⟩ :: t.newestFirst⟩

/-- The entries in the order in which they were recorded. -/
def entries (t : Trace) : List TraceEntry := t.newestFirst.reverse

/-- The events in the order in which they happened. -/
def events (t : Trace) : List Event := t.entries.map (·.event)

/-- The number of entries. -/
def length (t : Trace) : Nat := t.newestFirst.length

/-- The entries recorded after the first `n`. -/
def since (t : Trace) (n : Nat) : List TraceEntry := (t.newestFirst.take (t.length - n)).reverse

/-- The processes in the order in which they were dispatched. -/
def dispatchOrder (t : Trace) : List Pid :=
  t.events.filterMap fun
    | .dispatched pid _ _ => some pid
    | _ => none

/-- How often `pid` was dispatched. -/
def dispatchCount (t : Trace) (pid : Pid) : Nat := t.dispatchOrder.count pid

/-- The levels to which `pid` was demoted, in order. -/
def demotions (t : Trace) (pid : Pid) : List Priority :=
  t.events.filterMap fun
    | .quantumExpired p priority => if p = pid then some priority else none
    | _ => none

/-- The number of deadlocks detected. -/
def deadlockCount (t : Trace) : Nat :=
  t.events.countP fun
    | .deadlockDetected .. => true
    | _ => false

@[simp] theorem entries_record (t : Trace) (iteration : Nat) (event : Event) :
    (t.record iteration event).entries = t.entries ++ [⟨iteration, event⟩] := by
  simp [record, entries]

@[simp] theorem events_record (t : Trace) (iteration : Nat) (event : Event) :
    (t.record iteration event).events = t.events ++ [event] := by
  simp [events]

theorem since_eq_drop (t : Trace) (n : Nat) : t.since n = t.entries.drop n := by
  simp [since, entries, length, List.drop_reverse]

end Trace
end Mlfq
