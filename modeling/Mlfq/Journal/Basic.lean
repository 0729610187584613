import Mlfq.ReadyQueue
import Mlfq.Journal.Metrics
import Mlfq.Journal.Trace

/-! # The journal

The journal is all that can be observed of a run besides its state: the trace, the log and the
metrics. Nothing the machine does depends on it. -/

namespace Mlfq

/-- What a log line says. -/
inductive Message where
  | event (event : Event)
  | booted (admitted : Nat)
  /-- The ready queue after a dispatch. -/
  | readyQueues (ready : ReadyQueue)
  | stillDeadlocked (p1 p2 : Pid)
  | missingLock (pid : Pid) (lock : LockId)
  | enteredChannel (pid : Pid) (channel : ChannelId)
  | leftChannel (pid : Pid) (channel : ChannelId) (woken : Nat)

/-- The level of a message. All but the events are for debugging. -/
def Message.level : Message → Level
  | .event e => e.level
  | _ => .debug

/-- The text of a message. -/
def Message.render : Message → String
  | .event e => e.render
  | .booted admitted => s!"boot: admitted {admitted} processes"
  | .readyQueues ready => s!"ready queues:\n{ready.render}"
  | .stillDeadlocked p1 p2 => s!"pids {p1} and {p2} still deadlocked"
  | .missingLock pid lock => s!"pid {pid} hit a lock trigger for missing lock {lock}"
  | .enteredChannel pid channel => s!"pid {pid} entered channel {channel}"
  | .leftChannel pid channel woken => s!"pid {pid} left channel {channel}, woke {woken}"

/-- The line of a message in the log. -/
def Message.line (message : Message) : String := s!"{message.level.name} {message.render}"

/-- The trace, the log and the metrics of a run. -/
structure Journal where
  /-- Whether events go into the trace. -/
  tracing : Bool := true
  /-- The least important level that is logged; `none` logs nothing. -/
  logLevel : Option Level := none
  trace : Trace := {}
  /-- The logged messages, newest first. -/
  logNewestFirst : List Message := []
  metrics : Metrics := {}

namespace Journal

/-- Whether messages of this level are logged. -/
def logs (j : Journal) (level : Level) : Bool := j.logLevel.any (level.rank ≤ ·.rank)

/-- Logs a message if its level is logged. -/
def log (j : Journal) (message : Message) : Journal :=
  if j.logs message.level then { j with logNewestFirst := message :: j.logNewestFirst } else j

/-- Changes the metrics. -/
def measure (j : Journal) (f : Metrics → Metrics) : Journal := { j with metrics := f j.metrics }

/-- Logs an event, counts it and, when tracing, adds it to the trace. -/
def event (j : Journal) (iteration : Nat) (e : Event) : Journal :=
  let j := j.log (.event e)
  let j := j.measure fun m => { m with events := m.events.increment e.label }
  if j.tracing then { j with trace := j.trace.record iteration e } else j

/-- The number of logged messages. -/
def logLength (j : Journal) : Nat := j.logNewestFirst.length

/-- The messages logged after the first `n`, oldest first. -/
def logSince (j : Journal) (n : Nat) : List Message :=
  (j.logNewestFirst.take (j.logLength - n)).reverse

@[simp] theorem trace_log (j : Journal) (message : Message) : (j.log message).trace = j.trace := by
  unfold log; split <;> rfl

@[simp] theorem metrics_log (j : Journal) (message : Message) :
    (j.log message).metrics = j.metrics := by
  unfold log; split <;> rfl

@[simp] theorem tracing_log (j : Journal) (message : Message) :
    (j.log message).tracing = j.tracing := by
  unfold log; split <;> rfl

theorem tracing_event (j : Journal) (iteration : Nat) (e : Event) :
    (j.event iteration e).tracing = j.tracing := by
  simp only [event, measure, tracing_log]
  split <;> simp

theorem trace_event (j : Journal) (iteration : Nat) (e : Event) :
    (j.event iteration e).trace = if j.tracing then j.trace.record iteration e else j.trace := by
  simp only [event, measure, tracing_log]
  split <;> simp

theorem events_event (j : Journal) (iteration : Nat) (e : Event) :
    (j.event iteration e).trace.events =
      if j.tracing then j.trace.events ++ [e] else j.trace.events := by
  rw [trace_event]
  split
  · exact Trace.events_record ..
  · rfl

end Journal
end Mlfq
