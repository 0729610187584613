import Mlfq.Proofs.Story.Rule

/-! # The range of the counters

The program counter of a process is at most one past its largest one, wherever its record is: it
stops there only when a request has been finished that was made at the largest one. A process has
wrapped at most once in every cycle. -/

namespace Mlfq

/-- The process has taken no step, and its largest counter is not over the limit. -/
def Proc.NewWithin (limit : Nat) (p : Proc) : Prop := p.maxPc ≤ limit ∧ p.pc = 0 ∧ p.wraps = 0

/-- The counters of a record at a station, if no process has a larger counter than `limit` and so
many cycles have begun. -/
structure Station.InRange (limit cycles : Nat) (x : Station × Proc) : Prop where
  maxPc : x.2.maxPc ≤ limit
  pc : x.2.pc ≤ x.2.maxPc + 1
  /-- A request is made at a point that the process has stepped to. -/
  request : x.1 = .device → x.2.pc ≤ x.2.maxPc
  wraps : x.2.wraps ≤ cycles

namespace Story

variable {limit : Nat} {s s' : Story}

/-- The counters of all records are in range. -/
def InRange (limit : Nat) (s : Story) : Prop :=
  ∀ x ∈ s.roll, Station.InRange limit s.iteration x

/-- Everybody has arrived new, and with a largest counter that is not over the limit. -/
def Small (limit : Nat) (s : Story) : Prop := ∀ p ∈ s.arrived, p.NewWithin limit

/-- A process goes on one point further only from a device, and back from a lock or a
condition. -/
theorem Passes.inRange {due due' : Option Pid} {x x' : Station × Proc} {e : Event} {cycles : Nat}
    (h : Passes due x e x' due') (before : Station.InRange limit cycles x)
    (stepped : due ≠ none → x.1 = .cpu → x.2.pc ≤ x.2.maxPc) :
    Station.InRange limit cycles x' := by
  obtain ⟨maxPc, pc, request, wraps⟩ := before
  cases h with
  | expire | signal | terminate => exact ⟨maxPc, pc, nofun, wraps⟩
  | request => exact ⟨maxPc, pc, fun _ => stepped nofun rfl, wraps⟩
  | complete => exact ⟨maxPc, Nat.succ_le_succ (request rfl), nofun, wraps⟩
  | block | wait => exact ⟨maxPc, (Nat.sub_le _ _).trans pc, nofun, wraps⟩

theorem rule_inRange (limit : Nat) : Rule (Proc.NewWithin limit) (Station.InRange limit) where
  later h := ⟨h.maxPc, h.pc, h.request, Nat.le_succ_of_le h.wraps⟩
  arrive := by
    intro n p q new outline pc wraps
    obtain ⟨maxPc, start, unwrapped⟩ := new
    have same : q.maxPc = p.maxPc := congrArg (·.maxPc) outline
    refine ⟨same ▸ maxPc, ?_, nofun, ?_⟩
    · show q.pc ≤ _
      rw [pc, start]
      exact Nat.zero_le _
    · show q.wraps ≤ _
      rw [wraps, unwrapped]
      exact Nat.zero_le _
  pass passes stepped h := passes.inRange h stepped
  finish h := ⟨h.maxPc, h.pc, nofun, h.wraps⟩
  dispatch h := ⟨h.maxPc, h.pc, nofun, h.wraps⟩
  wake h := ⟨h.maxPc, h.pc, nofun, h.wraps⟩
  tick := by
    intro n p p' advances h
    have wraps : p'.wraps ≤ p.wraps + 1 := by
      cases advances with
      | step => exact Nat.le_succ _
      | wrap => exact Nat.le_refl _
    exact ⟨advances.maxPc_eq ▸ h.maxPc, Nat.le_succ_of_le advances.pc_le, nofun,
      wraps.trans (Nat.succ_le_succ h.wraps)⟩

/-- Whatever happens in a story, the counters stay in range. -/
theorem InRange.next (h : s.InRange limit) (alone : s.onCpu.card ≤ 1) (small : s'.Small limit)
    (next : Next s s') : s'.InRange limit :=
  ((rule_inRange limit).next h alone small next).records

end Story
end Mlfq
