import Mlfq.Proofs.Trap

/-! # The standard two-lock program

Which counters raise which trap, and between which counters the second lock is held. -/

namespace Mlfq

namespace MutexProgram

/-- A process of the program never wraps while it may hold a lock. -/
def Spares (program : MutexProgram) (maxPc : Nat) : Prop :=
  ∃ windows, program.holdWindows = .ok windows ∧ ∀ w ∈ windows, ¬(w.1 ≤ maxPc ∧ maxPc < w.2)

/-- The counters of the standard program between an acquisition of the second lock and its
release. -/
def InSecond (pc : Nat) : Prop :=
  6 ≤ pc ∧ pc < 14 ∨ 19 ≤ pc ∧ pc < 30 ∨ 201 ≤ pc ∧ pc < 250 ∨ 501 ≤ pc ∧ pc < 570 ∨
    pc = 34 ∨ pc = 51 ∨ pc = 281 ∨ pc = 301

theorem holdWindows_standard : standard.holdWindows =
    .ok [(5, 15), (33, 36), (18, 31), (50, 54), (200, 251), (280, 283), (500, 571),
      (300, 303)] := by
  rfl

variable {pc : Nat} {first second : LockId} {t : Trap}

/-- The traps of the standard program. -/
theorem standard_trapAt_cases (h : standard.trapAt pc first second = some t) :
    pc ∈ [5, 18, 200, 500] ∧ t = .lock first ∨ pc ∈ [6, 19, 201, 501] ∧ t = .lock second ∨
    pc ∈ [15, 31, 251, 571] ∧ t = .unlock first ∨ pc ∈ [14, 30, 250, 570] ∧ t = .unlock second ∨
    pc ∈ [33, 50, 280, 300] ∧ t = .tryLock first ∨ pc ∈ [34, 51, 281, 301] ∧ t = .tryLock second ∨
    pc ∈ [36, 54, 283, 303] ∧ t = .tryUnlock first ∨
    pc ∈ [35, 52, 282, 302] ∧ t = .tryUnlock second := by
  unfold trapAt at h
  obtain ⟨⟨set, t'⟩, hfind, rfl⟩ := Option.map_eq_some_iff.1 h
  have here := List.find?_some hfind
  have mem := List.mem_of_find?_eq_some hfind
  simp only [List.mem_cons, Prod.mk.injEq, List.not_mem_nil, or_false, standard] at mem
  rcases mem with ⟨rfl, rfl⟩ | ⟨rfl, rfl⟩ | ⟨rfl, rfl⟩ | ⟨rfl, rfl⟩ | ⟨rfl, rfl⟩ | ⟨rfl, rfl⟩ |
    ⟨rfl, rfl⟩ | ⟨rfl, rfl⟩ <;> rw [TriggerSet.contains_ofList] at here <;> simp [here]

theorem standard_trapAt_unlock (h : pc ∈ [14, 30, 250, 570]) :
    standard.trapAt pc first second = some (.unlock second) := by
  simp only [List.mem_cons, List.not_mem_nil, or_false] at h
  rcases h with rfl | rfl | rfl | rfl <;> rfl

theorem standard_trapAt_tryUnlock (h : pc ∈ [35, 52, 282, 302]) :
    standard.trapAt pc first second = some (.tryUnlock second) := by
  simp only [List.mem_cons, List.not_mem_nil, or_false] at h
  rcases h with rfl | rfl | rfl | rfl <;> rfl

/-- Who asks for the second lock holds it from there on, if it gets it. -/
theorem inSecond_of_request {r : Lock.Request} (ne : first ≠ second) (hr : r ≠ .release)
    (trap : standard.trapAt pc first second = some t)
    (request : t.tableRequest? = some (second, r)) : InSecond pc := by
  have cases := standard_trapAt_cases trap
  simp only [List.mem_cons, List.not_mem_nil, or_false] at cases
  unfold InSecond
  rcases cases with ⟨-, rfl⟩ | ⟨here, rfl⟩ | ⟨-, rfl⟩ | ⟨-, rfl⟩ | ⟨-, rfl⟩ | ⟨here, rfl⟩ |
    ⟨-, rfl⟩ | ⟨-, rfl⟩ <;> cases request
  · exact absurd rfl ne
  · omega
  · exact absurd rfl hr
  · exact absurd rfl hr
  · exact absurd rfl ne
  · omega
  · exact absurd rfl hr
  · exact absurd rfl hr

/-- Who is parked on the first lock does not hold the second. -/
theorem not_inSecond_of_acquire (ne : first ≠ second)
    (trap : standard.trapAt pc first second = some t)
    (request : t.tableRequest? = some (first, .acquire)) : ¬InSecond (pc - 1) := by
  have cases := standard_trapAt_cases trap
  simp only [List.mem_cons, List.not_mem_nil, or_false] at cases
  unfold InSecond
  rcases cases with ⟨here, rfl⟩ | ⟨-, rfl⟩ | ⟨-, rfl⟩ | ⟨-, rfl⟩ | ⟨-, rfl⟩ | ⟨-, rfl⟩ |
    ⟨-, rfl⟩ | ⟨-, rfl⟩ <;> cases request
  · omega
  · exact absurd rfl ne

/-- Where the second lock is held the counter does not wrap. -/
theorem InSecond.lt_maxPc {maxPc : Nat} (held : InSecond pc) (le : pc ≤ maxPc)
    (spares : standard.Spares maxPc) : pc < maxPc := by
  obtain ⟨windows, windows_eq, spared⟩ := spares
  rw [holdWindows_standard] at windows_eq
  cases windows_eq
  simp only [List.forall_mem_cons] at spared
  obtain ⟨s₁, s₂, s₃, s₄, s₅, s₆, s₇, s₈, -⟩ := spared
  unfold InSecond at held
  omega

/-- Where the second lock is held the process raises no trap until it releases the lock. -/
theorem InSecond.succ (held : InSecond pc) :
    InSecond (pc + 1) ∧ standard.trapAt (pc + 1) first second = none ∨
      ∃ t, standard.trapAt (pc + 1) first second = some t ∧
        t.tableRequest? = some (second, .release) := by
  unfold InSecond at held
  cases trap : standard.trapAt (pc + 1) first second with
  | none =>
    refine .inl ⟨?_, rfl⟩
    by_contra outside
    unfold InSecond at outside
    have released : pc + 1 ∈ [14, 30, 250, 570] ∨ pc + 1 ∈ [35, 52, 282, 302] := by
      simp only [List.mem_cons, List.not_mem_nil, or_false]
      omega
    rcases released with here | here
    · rw [standard_trapAt_unlock here] at trap
      cases trap
    · rw [standard_trapAt_tryUnlock here] at trap
      cases trap
  | some t =>
    have cases := standard_trapAt_cases trap
    simp only [List.mem_cons, List.not_mem_nil, or_false] at cases
    refine .inr ⟨t, rfl, ?_⟩
    rcases cases with ⟨here, -⟩ | ⟨here, -⟩ | ⟨here, -⟩ | ⟨here, rfl⟩ | ⟨here, -⟩ | ⟨here, -⟩ |
      ⟨here, -⟩ | ⟨here, rfl⟩
    · omega
    · omega
    · omega
    · rfl
    · omega
    · omega
    · omega
    · rfl

/-- A process that holds the second lock goes on in the program or releases the lock. -/
theorem InSecond.step {p p' : Proc} (held : InSecond p.pc) (le : p.pc ≤ p.maxPc)
    (spares : standard.Spares p.maxPc) (advances : p.Advances p') :
    InSecond p'.pc ∧ standard.trapAt p'.pc first second = none ∨
      ∃ t, standard.trapAt p'.pc first second = some t ∧
        t.tableRequest? = some (second, .release) := by
  have lt := held.lt_maxPc le spares
  cases advances with
  | step => exact held.succ
  | wrap past => exact absurd lt (Nat.not_lt_of_ge (Nat.le_of_lt_succ past))

end MutexProgram
end Mlfq
