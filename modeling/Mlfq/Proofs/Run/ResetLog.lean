import Mlfq.Proofs.Run.Basic
import Mlfq.Proofs.Story.Topics

/-! # Reset logs

A reset log is a moment of a run together with the priority resets so far: when they were told in
the trace, and which processes were ready or running then. -/

namespace Mlfq

/-- A priority reset. -/
structure Reset where
  /-- The number of events in the trace up to the reset and with it. -/
  told : Nat
  /-- The processes that were ready or running. -/
  covered : List Pid

/-- The processes that are ready or running. -/
def Machine.served {σ : Type} (m : Machine σ) : List Pid :=
  (m.running.toList ++ m.ready.toList).map (·.pid)

/-- The processes that have arrived so far, as they were then. -/
def Moment.guests {σ : Type} (mo : Moment σ) : Queue := mo.ledger.arrived.flatMap Arrival.procs

/-- A moment of a run, and the priority resets so far, oldest first. -/
structure ResetLog (σ : Type) where
  moment : Moment σ
  resets : List Reset := []

/-- The priority reset between a moment and the next, if there is one. -/
def Moment.resets {σ : Type} (mo mo' : Moment σ) : List Reset :=
  if (mo.told mo').any (·.topic = .reset) then
    [⟨mo'.ledger.machine.events.length, mo.ledger.machine.served⟩]
  else []

namespace ResetLog

section

variable {σ : Type} (log : ResetLog σ)

/-- The machine at this moment. -/
def machine : Machine σ := log.moment.ledger.machine

/-- The last priority reset at which process `pid` was ready or running. -/
def lastReset? (pid : Pid) : Option Reset :=
  (log.resets.filter fun r => decide (pid ∈ r.covered)).getLast?

end

variable {σ : Type} [Workload σ]

/-- The run goes on, and a priority reset is written down. -/
def Next (log log' : ResetLog σ) : Prop :=
  Moment.Next log.moment log'.moment ∧
    log'.resets = log.resets ++ log.moment.resets log'.moment

/-- The reset logs of the runs of a machine. -/
def Reachable (m : Machine σ) : ResetLog σ → Prop :=
  Relation.ReflTransGen Next ⟨⟨{ machine := m }, []⟩, []⟩

variable {m : Machine σ} {log : ResetLog σ}

theorem Reachable.moment (reachable : Reachable m log) : Moment.Reachable m log.moment := by
  induction reachable with
  | refl => exact .refl
  | tail _ next ih => exact ih.tail next.1

/-- Every run has a reset log. -/
theorem exists_reachable {mo : Moment σ} (reachable : Moment.Reachable m mo) :
    ∃ resets, Reachable m ⟨mo, resets⟩ := by
  induction reachable with
  | refl => exact ⟨[], .refl⟩
  | @tail mo mo' _ next ih =>
    obtain ⟨resets, reachable⟩ := ih
    exact ⟨resets ++ mo.resets mo', reachable.tail ⟨next, rfl⟩⟩

end ResetLog
end Mlfq
