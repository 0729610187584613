import Mlfq.Proofs.Scene.Turnover
import Mlfq.Proofs.Workload.Library

/-! # Rendezvous points

What a counter is to the points of a rendezvous plan. With room around the points the traps of a
process tell it apart whether the process is before a point, at one, or past it. -/

namespace Mlfq

namespace TriggerSet

/-- One step before a point, or at one. -/
def Around (set : TriggerSet) (pc : Nat) : Prop := ∃ t ∈ set.points, pc + 1 = t ∨ pc = t

/-- There is room for the steps before and after each point. -/
def Spaced (set : TriggerSet) : Prop :=
  ∀ t ∈ set.points, 2 ≤ t ∧ ∀ t' ∈ set.points, t < t' → t + 3 ≤ t'

theorem spaced_rendezvous : TriggerSet.rendezvous.Spaced := by
  unfold Spaced
  decide

/-- The trap at a counter, by what the counter is to the points. -/
inductive Phase (set : TriggerSet) (id : ChannelId) (pc : Nat) : Option Trap → Prop
  | quiet (outside : ¬set.Around pc) (off : ∀ last ∈ set.points, pc ≠ last + 1) :
    Phase set id pc none
  | acquire (next : pc + 1 ∈ set.points) : Phase set id pc (some (.rendezvousAcquire id))
  | body (here : pc ∈ set.points) : Phase set id pc (some (.rendezvousBody id))
  | release {last : Nat} (past : pc = last + 1) (here : last ∈ set.points) :
    Phase set id pc (some (.rendezvousRelease id))

variable {set : TriggerSet} {id : ChannelId} {pc : Nat} {t : Option Trap}

theorem phase_of_rendezvousTrapAt (h : set.rendezvousTrapAt id pc = .ok t) :
    set.Phase id pc t := by
  obtain ⟨next, succ, h⟩ := exists_of_bind_eq_ok h
  obtain ⟨-, rfl⟩ := Word.succ_eq_ok_iff.1 succ
  split at h
  case isTrue next =>
    cases h
    exact .acquire (List.contains_iff_mem.1 next)
  case isFalse before =>
    split at h
    case isTrue here =>
      cases h
      exact .body (List.contains_iff_mem.1 here)
    case isFalse off =>
      split at h
      case isTrue past =>
        cases h
        rw [Bool.and_eq_true, decide_eq_true_eq] at past
        exact .release (Nat.succ_pred_eq_of_pos past.1).symm (List.contains_iff_mem.1 past.2)
      case isFalse past =>
        cases h
        refine .quiet ?_ ?_
        · rintro ⟨point, mem, rfl | rfl⟩
          · exact before (List.contains_iff_mem.2 mem)
          · exact off (List.contains_iff_mem.2 mem)
        · rintro last mem rfl
          refine past ?_
          rw [Bool.and_eq_true, decide_eq_true_eq]
          exact ⟨Nat.succ_pos last, List.contains_iff_mem.2 mem⟩

/-- A process that starts is not at a point. -/
theorem Spaced.not_around_zero (spaced : set.Spaced) : ¬set.Around 0 := by
  rintro ⟨point, mem, h⟩
  have far := (spaced point mem).1
  omega

/-- A process that is set back by the rendezvous at a point is outside. -/
theorem Spaced.not_around_sub (spaced : set.Spaced) {point : Nat} (mem : point ∈ set.points) :
    ¬set.Around (point - 2) := by
  rintro ⟨other, mem', h⟩
  have far := spaced point mem
  have far' := (spaced other mem').2 point mem
  omega

/-- A process that has passed a point is outside. -/
theorem Spaced.not_around_succ (spaced : set.Spaced) {point : Nat} (mem : point ∈ set.points) :
    ¬set.Around (point + 1) := by
  rintro ⟨other, mem', h⟩
  have far := (spaced point mem).2 other mem'
  omega

/-- A process that goes on in the section comes to the body or to the release. -/
theorem Phase.of_around (phase : set.Phase id (pc + 1) t) (spaced : set.Spaced)
    (around : set.Around pc) : pc + 1 ∈ set.points ∧ t = some (.rendezvousBody id) ∨
      t = some (.rendezvousRelease id) := by
  obtain ⟨point, mem, own⟩ := around
  cases phase with
  | quiet outside off =>
    rcases own with rfl | rfl
    · exact absurd ⟨_, mem, .inr rfl⟩ outside
    · exact absurd rfl (off _ mem)
  | acquire next =>
    have far := (spaced point mem).2 _ next
    omega
  | body here => exact .inl ⟨here, rfl⟩
  | release => exact .inr rfl

/-- Before the body and before the release a process is in the section. -/
theorem Phase.around_of_advances {p p' : Proc} {trap : Trap}
    (phase : set.Phase id p'.pc (some trap)) (spaced : set.Spaced) (advances : p.Advances p')
    (other : trap ≠ .rendezvousAcquire id) : set.Around p.pc := by
  cases phase with
  | acquire => exact absurd rfl other
  | body here =>
    cases advances with
    | step => exact ⟨_, here, .inl rfl⟩
    | wrap => exact absurd (spaced 0 here).1 (by decide)
  | release past here =>
    cases advances with
    | step => exact ⟨_, here, .inr (Nat.succ.inj past)⟩
    | wrap => cases past

end TriggerSet

/-- A process with a rendezvous plan is one step before a point, or at one. -/
def Proc.InSection (p : Proc) : Prop :=
  ∃ set id, p.plan = .rendezvous set id ∧ set.Around p.pc

/-- Whether there is room around the points of a rendezvous plan. -/
def TrapPlan.Spaced : TrapPlan → Prop
  | .rendezvous set _ => set.Spaced
  | _ => True

theorem TrapPlan.spaced_unbound {plan : TrapPlan} : plan.unbound.Spaced ↔ plan.Spaced := by
  cases plan <;> exact .rfl

/-- The processes that arrive have not started, and there is room around their points. -/
def Arrival.Spaced (a : Arrival) : Prop := ∀ p ∈ a.procs, p.pc = 0 ∧ p.plan.Spaced

/-- The channel that a process is given changes neither its counter nor its points. -/
theorem Arrival.Spaced.of_enrolled {s : Scene} {a : Arrival} (h : a.Spaced) {q : Proc}
    (hq : q ∈ s.enrolled a) : q.pc = 0 ∧ q.plan.Spaced := by
  have bind : ∀ p ∈ a.procs, (p.bindChannel ⟨s.nextChannel⟩).pc = 0 ∧
      (p.bindChannel ⟨s.nextChannel⟩).plan.Spaced := by
    intro p hp
    obtain ⟨start, room⟩ := h p hp
    unfold Proc.bindChannel
    split
    case h_1 set own plan =>
      rw [plan] at room
      exact ⟨start, room⟩
    case h_2 => exact ⟨start, room⟩
  cases a with
  | single | mutexPair => exact h q hq
  | rendezvousPair producer consumer =>
    rcases List.mem_pair.1 hq with rfl | rfl
    · exact bind producer List.mem_cons_self
    · exact bind consumer (List.mem_cons_of_mem _ List.mem_cons_self)

theorem Arrival.Library.spaced {a : Arrival} (h : a.Library) : a.Spaced := by
  intro p hp
  cases h with
  | compute | io =>
    rw [List.mem_singleton.1 hp]
    exact ⟨rfl, trivial⟩
  | mutexPair =>
    rcases List.mem_pair.1 hp with rfl | rfl <;> exact ⟨rfl, trivial⟩
  | rendezvousPair =>
    rcases List.mem_pair.1 hp with rfl | rfl <;> exact ⟨rfl, TriggerSet.spaced_rendezvous⟩

end Mlfq
