import Mathlib.Logic.Relation
import Mlfq.Machine.Episode

/-! # Runs

A run is a sequence of calls of the machine, with interrupts at rest and at the checkpoints of the
dispatcher runs. It is described moment by moment: between two moments the machine does what it
does without a checkpoint. The books of who has come and who was dropped are kept beside it. -/

namespace Mlfq

/-- What a computation that succeeds has done first, and what it went on with. -/
theorem exists_of_bind_eq_ok {ε α β : Type} {x : Except ε α} {f : α → Except ε β} {b : β}
    (h : x >>= f = .ok b) : ∃ a, x = .ok a ∧ f a = .ok b := by
  cases x with
  | error e => simp [bind, Except.bind] at h
  | ok a => exact ⟨a, rfl, h⟩

/-- A computation whose result passes a test succeeds. -/
theorem exists_of_any_toOption {ε α : Type} {x : Except ε α} {test : α → Bool}
    (h : x.toOption.any test = true) : ∃ a, x = .ok a ∧ test a = true := by
  cases x with
  | error e => cases h
  | ok a => exact ⟨a, rfl, h⟩

variable {σ : Type} [Workload σ]

namespace Machine

/-- The arrivals of the batch for which the workload would be asked now. -/
def nextArrivals (m : Machine σ) : List Arrival :=
  match Workload.batch m.workload m.pids m.census with
  | .ok batch => batch.arrivals
  | .error _ => []

/-- The arrivals that a phase brings. -/
def arrivalsOf (m : Machine σ) : Phase → List Arrival
  | .priorityReset => if m.config.resetInterval ≤ m.sinceReset then m.nextArrivals else []
  | _ => []

omit [Workload σ] in
/-- The ended processes that a phase drops. -/
def droppedBy (m : Machine σ) : Phase → Queue
  | .reaping => if m.config.zombieThreshold ≤ m.zombies.length then m.zombies else []
  | _ => []

omit [Workload σ] in
/-- The first part of a busy cycle: the running process makes a step, a scan is made if it is due,
and the trap that the process raises is handled. With the machine comes the cause of the dispatcher
run that is needed now, if one is. -/
def stepRunning (m : Machine σ) : Except Crash (Option Cause × Machine σ) := do
  let m := (← m.beginCycle.advance).scanIfDue
  match ← m.pendingTrap with
  | none => return (none, m)
  | some trap => return m.handleTrap trap

omit [Workload σ] in
/-- In the cycle that comes now the running process `p` raises a trap, which is handled on machine
`m'`. -/
def Raises (m : Machine σ) (p : Proc) (t : Trap) (m' : Machine σ) : Prop :=
  m.running = some p ∧ ∃ m₁, m.beginCycle.advance = .ok m₁ ∧ m' = m₁.scanIfDue ∧
    m'.pendingTrap = .ok (some t)

section

omit [Workload σ]

variable {m m' : Machine σ} {p : Proc} {t : Trap}

/-- A cycle is a step without a trap, or its trap is handled. -/
theorem exists_raises_of_stepRunning {cause : Option Cause} (running : m.running = some p)
    (h : m.stepRunning = .ok (cause, m')) :
    (∃ m₁, m.beginCycle.advance = .ok m₁ ∧ m' = m₁.scanIfDue ∧ cause = none) ∨
      ∃ t m₁, m.Raises p t m₁ ∧ (cause, m') = m₁.handleTrap t := by
  obtain ⟨m₁, advance, h⟩ := exists_of_bind_eq_ok h
  obtain ⟨t, trap, h⟩ := exists_of_bind_eq_ok h
  cases t with
  | none =>
    cases h
    exact .inl ⟨m₁, advance, rfl, rfl⟩
  | some t =>
    exact .inr ⟨t, m₁.scanIfDue, ⟨running, m₁, advance, rfl, trap⟩, (Except.ok.inj h).symm⟩

end

end Machine

/-- A machine and the books of its run. -/
structure Ledger (σ : Type) where
  machine : Machine σ
  /-- All arrivals so far, oldest first. -/
  arrived : List Arrival := []
  /-- The ended processes that were dropped so far, oldest first. -/
  dropped : Queue := []

/-- What the machine has begun and has still to do. -/
inductive Duty where
  /-- A dispatcher run with these phases to come. A checkpoint stands before each of them. -/
  | phases (cause : Cause) (rest : List Phase)
  /-- The second part of a busy cycle, in which process `pid` ends if it is done. -/
  | closeCycle (pid : Pid)

/-- A moment of a run. The machine is at rest when nothing is pending. -/
structure Moment (σ : Type) where
  ledger : Ledger σ
  /-- The duties, most urgent first. -/
  pending : List Duty := []

/-- Interrupts arrive at rest and at checkpoints. -/
def Duty.Interruptible : List Duty → Prop
  | [] => True
  | .phases _ rest :: _ => rest ≠ []
  | .closeCycle _ :: _ => False

namespace Moment

/-- What can happen next. -/
inductive Next : Moment σ → Moment σ → Prop
  | boot {l : Ledger σ} {m : Machine σ} (h : l.machine.boot = .ok m) :
    Next ⟨l, []⟩ ⟨{ l with machine := m, arrived := l.arrived ++ l.machine.nextArrivals }, []⟩
  | request {l : Ledger σ} {n : Nat} {m : Machine σ} (h : l.machine.requestBatch = .ok (n, m)) :
    Next ⟨l, []⟩ ⟨{ l with machine := m, arrived := l.arrived ++ l.machine.nextArrivals }, []⟩
  | schedule {l : Ledger σ} (cause : Cause) : Next ⟨l, []⟩ ⟨l, [.phases cause Phase.all]⟩
  /-- A cycle in which nothing runs. -/
  | idleCycle {l : Ledger σ} (h : l.machine.running = none) :
    Next ⟨l, []⟩ ⟨{ l with machine := l.machine.beginCycle.countIdle.scanIfDue },
      [.phases .idle Phase.all]⟩
  /-- A cycle of a process, up to its first dispatcher run. -/
  | busyCycle {l : Ledger σ} {p : Proc} {cause : Option Cause} {m : Machine σ}
    (running : l.machine.running = some p) (h : l.machine.stepRunning = .ok (cause, m)) :
    Next ⟨l, []⟩ ⟨{ l with machine := m },
      (cause.map fun cause => .phases cause Phase.all).toList ++ [.closeCycle p.pid]⟩
  | timer {l : Ledger σ} {pending : List Duty} (h : Duty.Interruptible pending) :
    Next ⟨l, pending⟩ ⟨{ l with machine := l.machine.raiseTimer },
      .phases .timer Phase.all :: pending⟩
  | completion {l : Ledger σ} {pending : List Duty} {device : DeviceId} {m : Machine σ}
    (h : Duty.Interruptible pending) (done : l.machine.completeIo device = .ok (some m)) :
    Next ⟨l, pending⟩ ⟨{ l with machine := m }, .phases .ioCompletion Phase.all :: pending⟩
  | phase {l : Ledger σ} {cause : Cause} {phase : Phase} {rest : List Phase} {m : Machine σ}
    {pending : List Duty} (h : l.machine.phase cause phase = .ok m) :
    Next ⟨l, .phases cause (phase :: rest) :: pending⟩
      ⟨{ machine := m, arrived := l.arrived ++ l.machine.arrivalsOf phase,
         dropped := l.dropped ++ l.machine.droppedBy phase }, .phases cause rest :: pending⟩
  /-- A dispatcher run is over. -/
  | done {l : Ledger σ} {cause : Cause} {pending : List Duty} :
    Next ⟨l, .phases cause [] :: pending⟩ ⟨l, pending⟩
  /-- A busy cycle is over, and its process goes on. -/
  | goOn {l : Ledger σ} {pid : Pid} {pending : List Duty}
    (h : l.machine.terminateIfDone pid = none) : Next ⟨l, .closeCycle pid :: pending⟩ ⟨l, pending⟩
  /-- A busy cycle is over, and so is its process. -/
  | terminate {l : Ledger σ} {pid : Pid} {m : Machine σ} {pending : List Duty}
    (h : l.machine.terminateIfDone pid = some m) :
    Next ⟨l, .closeCycle pid :: pending⟩
      ⟨{ l with machine := m }, .phases .termination Phase.all :: pending⟩

/-- The moments of the runs of a machine. -/
def Reachable (m : Machine σ) : Moment σ → Prop := Relation.ReflTransGen Next ⟨{ machine := m }, []⟩

end Moment
end Mlfq
