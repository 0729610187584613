import Mlfq.Proofs.Run.Chronicle

/-! # Diaries

A diary is a moment of a run together with what the processes have done so far, cycle by cycle: the
program counter that the process came to and the device on which it was parked there. -/

namespace Mlfq

/-- One cycle of a process. -/
structure Beat where
  pid : Pid
  /-- The program counter to which the process came. -/
  pc : Nat
  /-- The device on which it was parked there. -/
  request : Option DeviceId
  deriving DecidableEq

namespace Machine

variable {σ : Type} (m : Machine σ)

/-- The device that takes the request of the running process, if it makes one now. -/
def request? : Option DeviceId :=
  match m.pendingTrap with
  | .ok (some (.io device)) => if device.num < m.devices.length then some device else none
  | _ => none

/-- The cycle that comes now, if a process runs. -/
def beat? : Option Beat :=
  match m.running, m.beginCycle.advance with
  | some p, .ok m => some ⟨p.pid, m.cpuPc, m.request?⟩
  | _, _ => none

end Machine

/-- A moment of a run, and the cycles of all processes so far, oldest first. -/
structure Diary (σ : Type) where
  moment : Moment σ
  beats : List Beat := []

/-- The cycle of a process that begins between a moment and the next. -/
def Moment.beats {σ : Type} (mo mo' : Moment σ) : List Beat :=
  if mo'.ledger.machine.iteration = mo.ledger.machine.iteration then []
  else mo.ledger.machine.beat?.toList

namespace Diary

/-- The cycles of process `pid`, oldest first. -/
def history {σ : Type} (d : Diary σ) (pid : Pid) : List Beat := d.beats.filter (·.pid = pid)

variable {σ : Type} [Workload σ]

/-- The run goes on, and a cycle that begins is written down. -/
def Next (d d' : Diary σ) : Prop :=
  Moment.Next d.moment d'.moment ∧ d'.beats = d.beats ++ d.moment.beats d'.moment

/-- The diaries of the runs of a machine. -/
def Reachable (m : Machine σ) : Diary σ → Prop :=
  Relation.ReflTransGen Next ⟨⟨{ machine := m }, []⟩, []⟩

variable {m : Machine σ} {d : Diary σ}

theorem Reachable.moment (reachable : Reachable m d) : Moment.Reachable m d.moment := by
  induction reachable with
  | refl => exact .refl
  | tail _ next ih => exact ih.tail next.1

/-- Every run has a diary. -/
theorem exists_reachable {mo : Moment σ} (reachable : Moment.Reachable m mo) :
    ∃ beats, Reachable m ⟨mo, beats⟩ := by
  induction reachable with
  | refl => exact ⟨[], .refl⟩
  | @tail mo mo' _ next ih =>
    obtain ⟨beats, reachable⟩ := ih
    exact ⟨beats ++ mo.beats mo', reachable.tail ⟨next, rfl⟩⟩

end Diary
end Mlfq
