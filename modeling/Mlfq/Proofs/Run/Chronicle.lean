import Mlfq.Proofs.Run.Basic

/-! # Chronicles

A chronicle is a moment of a run together with the cycles that have begun so far. A cycle belongs
to the process that is running when it begins, or to nobody. -/

namespace Mlfq

/-- A moment of a run, and who was running at the beginning of each cycle so far. -/
structure Chronicle (σ : Type) where
  moment : Moment σ
  /-- One entry a cycle, oldest first; `none` is a cycle that began with an idle CPU. -/
  cycles : List (Option Pid) := []

/-- The cycle that begins between a moment and the next. The machine counts its cycles as they
begin. -/
def Moment.begun {σ : Type} (mo mo' : Moment σ) : List (Option Pid) :=
  if mo'.ledger.machine.iteration = mo.ledger.machine.iteration then []
  else [mo.ledger.machine.runningPid?]

namespace Chronicle

section

variable {σ : Type} (c : Chronicle σ)

/-- The machine at this moment. -/
def machine : Machine σ := c.moment.ledger.machine

/-- The events in the trace so far, oldest first. -/
def events : List Event := c.machine.journal.trace.events

/-- The number of cycles that began with process `pid` running. -/
def ticks (pid : Pid) : Nat := c.cycles.count (some pid)

/-- The number of cycles that began with an idle CPU. -/
def idleTicks : Nat := c.cycles.count none

end

variable {σ : Type} [Workload σ]

/-- The run goes on, and a cycle that begins is written down. -/
def Next (c c' : Chronicle σ) : Prop :=
  Moment.Next c.moment c'.moment ∧ c'.cycles = c.cycles ++ c.moment.begun c'.moment

/-- A chronicle of the same run at the same or a later moment. -/
abbrev Later : Chronicle σ → Chronicle σ → Prop := Relation.ReflTransGen Next

/-- The chronicles of the runs of a machine. -/
def Reachable (m : Machine σ) : Chronicle σ → Prop := Later ⟨⟨{ machine := m }, []⟩, []⟩

variable {m : Machine σ} {c c' : Chronicle σ}

theorem Later.moments (later : Later c c') :
    Relation.ReflTransGen Moment.Next c.moment c'.moment := by
  induction later with
  | refl => exact .refl
  | tail _ next ih => exact ih.tail next.1

theorem Reachable.moment (reachable : Reachable m c) : Moment.Reachable m c.moment :=
  Later.moments reachable

theorem Reachable.trans (reachable : Reachable m c) (later : Later c c') : Reachable m c' :=
  Relation.ReflTransGen.trans reachable later

/-- Every run has a chronicle. -/
theorem exists_later {mo mo' : Moment σ} (path : Relation.ReflTransGen Moment.Next mo mo')
    (cycles : List (Option Pid)) : ∃ cycles', Later ⟨mo, cycles⟩ ⟨mo', cycles'⟩ := by
  induction path with
  | refl => exact ⟨cycles, .refl⟩
  | @tail mo₁ mo₂ _ next ih =>
    obtain ⟨cycles₁, later⟩ := ih
    exact ⟨cycles₁ ++ mo₁.begun mo₂, later.tail ⟨next, rfl⟩⟩

theorem exists_reachable {mo : Moment σ} (reachable : Moment.Reachable m mo) :
    ∃ cycles, Reachable m ⟨mo, cycles⟩ := exists_later reachable []

end Chronicle
end Mlfq
