import Mathlib.Data.List.Chain
import Mlfq.Proofs.Run.Diary
import Mlfq.Proofs.Scene.Core

/-! # The way of a process through its points

A process that shares nothing steps from one program counter to the next, and a request costs it
one more step, so that it never comes to the point after one at which it was parked. Between two
wraps it makes its requests at all of its points but those. -/

namespace Mlfq

namespace Beat

/-- The request of a cycle, with the program counter at which it was made. -/
def asked? (b : Beat) : Option (Nat × DeviceId) := b.request.map (b.pc, ·)

/-- The number of cycles with which the process wrapped. -/
def wraps (bs : List Beat) : Nat := bs.countP (·.pc = 0)

theorem wraps_append (as bs : List Beat) : wraps (as ++ bs) = wraps as + wraps bs :=
  List.countP_append

theorem wraps_singleton (b : Beat) : wraps [b] = if b.pc = 0 then 1 else 0 := by
  simp [wraps, List.countP_singleton]

end Beat

/-- A process with this plan makes I/O requests or raises no traps. -/
def TrapPlan.Solitary : TrapPlan → Prop
  | .none | .io _ => True
  | .mutex _ | .rendezvous .. => False

theorem TrapPlan.solitary_unbound {plan : TrapPlan} : plan.unbound.Solitary ↔ plan.Solitary := by
  cases plan <;> exact .rfl

/-- Whether a process shares anything does not depend on the number of its channel. -/
theorem Proc.solitary_iff_of_outline_eq {p q : Proc} (h : p.outline = q.outline) :
    p.plan.Solitary ↔ q.plan.Solitary := by
  have plan : p.plan.unbound = q.plan.unbound := congrArg (·.plan) h
  rw [← TrapPlan.solitary_unbound, plan, TrapPlan.solitary_unbound]

namespace Proc

variable (p : Proc) (devices : Nat)

/-- The device that `p` asks for at `pc`: the first with that point, if there are so many
devices. -/
def asks (pc : Nat) : Option DeviceId :=
  match p.plan with
  | .io sets => (sets.findIdx? (·.contains pc)).bind fun d => if d < devices then some ⟨d⟩ else none
  | _ => none

/-- The program counter to which `p` steps from `pc`. -/
def stepFrom (pc : Nat) : Nat := if pc + 1 ≤ p.maxPc then pc + 1 else 0

/-- The program counter from which `p` steps after a cycle at `pc`: the end of a request is a step
too. -/
def leavesFrom (pc : Nat) : Nat := if (p.asks devices pc).isSome then pc + 1 else pc

/-- The cycles `bs` of process `p` follow its points, and it steps from `pc` next. -/
structure Walks (bs : List Beat) (pc : Nat) : Prop where
  requests : ∀ b ∈ bs, b.request = p.asks devices b.pc
  steps : bs.IsChain fun b b' => b'.pc = p.stepFrom (p.leavesFrom devices b.pc)
  stands : (bs.getLast?.map fun b => p.leavesFrom devices b.pc).getD 0 = pc

variable {p devices}

@[simp] theorem asks_outline (p : Proc) (devices pc : Nat) :
    p.outline.asks devices pc = p.asks devices pc := by
  have plan : p.outline.plan = p.plan.unbound := rfl
  unfold asks
  rw [plan]
  cases p.plan <;> rfl

theorem asks_eq_of_outline_eq {q : Proc} (h : p.outline = q.outline) (devices pc : Nat) :
    p.asks devices pc = q.asks devices pc := by
  rw [← asks_outline, h, asks_outline]

theorem stepFrom_of_ne {pc : Nat} (h : p.stepFrom pc ≠ 0) :
    p.stepFrom pc = pc + 1 ∧ pc + 1 ≤ p.maxPc := by
  unfold stepFrom at h ⊢
  split at h
  case isTrue le => exact ⟨if_pos le, le⟩
  case isFalse => exact absurd rfl h

theorem maxPc_le_of_stepFrom {pc : Nat} (h : p.stepFrom pc = 0) : p.maxPc ≤ pc := by
  unfold stepFrom at h
  split at h <;> omega

theorem leavesFrom_some {pc : Nat} (h : (p.asks devices pc).isSome = true) :
    p.leavesFrom devices pc = pc + 1 := if_pos h

theorem leavesFrom_none {pc : Nat} (h : (p.asks devices pc).isSome = false) :
    p.leavesFrom devices pc = pc := if_neg (by simp [h])

theorem Advances.pc_eq {p' : Proc} (h : p.Advances p') : p'.pc = p'.stepFrom p.pc := by
  cases h with
  | step le => exact (if_pos le).symm
  | wrap past => exact (if_neg (Nat.not_le.2 past)).symm

/-- A process wraps when it comes to 0. -/
theorem Advances.wraps_eq {p' : Proc} (h : p.Advances p') :
    p'.wraps = p.wraps + if p'.pc = 0 then 1 else 0 := by
  cases h <;> simp

namespace Walks

variable {bs : List Beat} {pc : Nat}

theorem nil : p.Walks devices [] 0 := ⟨nofun, .nil, rfl⟩

/-- One more cycle. -/
theorem snoc (h : p.Walks devices bs pc) {b : Beat} (step : b.pc = p.stepFrom pc)
    (request : b.request = p.asks devices b.pc) :
    p.Walks devices (bs ++ [b]) (p.leavesFrom devices b.pc) := by
  refine ⟨fun x hx => ?_, List.isChain_append.2 ⟨h.steps, .singleton b, ?_⟩, ?_⟩
  · rcases List.mem_append.1 hx with old | new
    · exact h.requests x old
    · rwa [List.mem_singleton.1 new]
  · intro x hx y hy
    obtain rfl : b = y := by simpa using hy
    have stands := h.stands
    rw [Option.mem_def.1 hx] at stands
    rw [step, ← stands]
    rfl
  · rw [List.getLast?_concat]
    rfl

/-- The way depends only on the plan and on the largest program counter. -/
theorem congr {q : Proc} (h : p.Walks devices bs pc) (plan : q.plan = p.plan)
    (maxPc : q.maxPc = p.maxPc) : q.Walks devices bs pc := by
  have asks : q.asks devices = p.asks devices := by
    funext pc
    rw [Proc.asks, Proc.asks, plan]
  have steps : q.stepFrom = p.stepFrom := by
    funext pc
    rw [stepFrom, stepFrom, maxPc]
  have leaves : q.leavesFrom devices = p.leavesFrom devices := by
    funext pc
    rw [leavesFrom, leavesFrom, asks]
  exact ⟨asks ▸ h.requests, by rw [steps, leaves]; exact h.steps, leaves ▸ h.stands⟩

end Walks

/-! ## Passes -/

variable (p devices)

/-- Whether `p` makes a request when it passes `pc`: at a point of it, unless it has made one just
before. -/
def fires : Nat → Bool
  | 0 => (p.asks devices 0).isSome
  | pc + 1 => (p.asks devices (pc + 1)).isSome && !fires pc

/-- The request that `p` makes when it passes `pc`. -/
def fired? (pc : Nat) : Option (Nat × DeviceId) :=
  if p.fires devices pc then (p.asks devices pc).map (pc, ·) else none

variable {p devices}

theorem fired?_eq_of_outline_eq {q : Proc} (h : p.outline = q.outline) (pc : Nat) :
    p.fired? devices pc = q.fired? devices pc := by
  have asks := asks_eq_of_outline_eq h devices
  have fires : p.fires devices pc = q.fires devices pc := by
    induction pc with
    | zero => rw [fires, fires, asks]
    | succ pc ih => rw [fires, fires, asks, ih]
  rw [fired?, fired?, fires, asks]

/-- Where a process goes on after a request it makes none. -/
theorem fires_leavesFrom {pc : Nat} (h : p.fires devices pc = (p.asks devices pc).isSome) :
    p.fires devices (p.leavesFrom devices pc + 1) =
      (p.asks devices (p.leavesFrom devices pc + 1)).isSome := by
  cases asked : (p.asks devices pc).isSome with
  | false =>
    rw [asked] at h
    rw [leavesFrom_none asked, fires, h, Bool.not_false, Bool.and_true]
  | true =>
    rw [asked] at h
    have skipped : p.fires devices (pc + 1) = false := by
      rw [fires, h, Bool.not_true, Bool.and_false]
    rw [leavesFrom_some asked, fires, skipped, Bool.not_false, Bool.and_true]

theorem fired?_of_fires {pc : Nat} (h : p.fires devices pc = (p.asks devices pc).isSome) :
    p.fired? devices pc = (p.asks devices pc).map (pc, ·) := by
  unfold fired?
  rw [h]
  cases p.asks devices pc <;> rfl

/-- Between `pc` and the next point that it comes to a process makes no request. -/
theorem filterMap_fired?_range' {pc : Nat} (h : p.fires devices pc = (p.asks devices pc).isSome)
    (n : Nat) : (List.range' (pc + 1) n).filterMap (p.fired? devices) =
      (List.range' (p.leavesFrom devices pc + 1)
        (n - (p.leavesFrom devices pc - pc))).filterMap (p.fired? devices) := by
  cases asked : (p.asks devices pc).isSome with
  | false => rw [leavesFrom_none asked, Nat.sub_self, Nat.sub_zero]
  | true =>
    rw [asked] at h
    have skipped : p.fires devices (pc + 1) = false := by
      rw [fires, h, Bool.not_true, Bool.and_false]
    have none : p.fired? devices (pc + 1) = none := if_neg (by simp [skipped])
    rw [leavesFrom_some asked, Nat.add_sub_cancel_left]
    cases n with
    | zero => rfl
    | succ n => rw [List.range'_succ, List.filterMap_cons_none none, Nat.add_sub_cancel]

/-- From one cycle to the next wrap. -/
theorem asked_of_chain {b b' : Beat} {pass : List Beat}
    (steps : (b :: (pass ++ [b'])).IsChain fun b b' =>
      b'.pc = p.stepFrom (p.leavesFrom devices b.pc))
    (requests : ∀ x ∈ pass, x.request = p.asks devices x.pc)
    (comes : p.fires devices b.pc = (p.asks devices b.pc).isSome) (wraps : b'.pc = 0)
    (inside : ∀ x ∈ pass, x.pc ≠ 0) :
    pass.filterMap Beat.asked? =
      (List.range' (b.pc + 1) (p.maxPc - b.pc)).filterMap (p.fired? devices) := by
  rw [filterMap_fired?_range' comes]
  induction pass generalizing b with
  | nil =>
    have last := maxPc_le_of_stepFrom ((List.isChain_pair.1 steps).symm.trans wraps)
    have nothing : p.maxPc - b.pc - (p.leavesFrom devices b.pc - b.pc) = 0 := by omega
    rw [nothing]
    rfl
  | cons x pass ih =>
    obtain ⟨step, steps⟩ := List.isChain_cons_cons.1 steps
    have positive := inside x List.mem_cons_self
    rw [step] at positive
    obtain ⟨next, le⟩ := stepFrom_of_ne positive
    rw [next] at step
    have comes' := fires_leavesFrom comes
    rw [← step] at comes'
    have rest := ih steps (fun y hy => requests y (List.mem_cons_of_mem _ hy)) comes'
      (fun y hy => inside y (List.mem_cons_of_mem _ hy))
    have asked : x.asked? = p.fired? devices x.pc := by
      rw [fired?_of_fires comes', Beat.asked?, requests x List.mem_cons_self]
    have leaves : b.pc ≤ p.leavesFrom devices b.pc := by
      unfold leavesFrom
      split <;> omega
    obtain ⟨n, count⟩ : ∃ n, p.maxPc - b.pc - (p.leavesFrom devices b.pc - b.pc) = n + 1 :=
      ⟨p.maxPc - x.pc, by omega⟩
    have left : n = p.maxPc - x.pc := by omega
    have cons : ∀ (y : Beat) (ys : List Beat), (y :: ys).filterMap Beat.asked? =
        y.asked?.toList ++ ys.filterMap Beat.asked? := by
      intro y ys
      rw [List.filterMap_cons]
      cases y.asked? <;> rfl
    rw [count, ← step, List.range'_succ, cons, rest, asked, left, List.filterMap_cons,
      ← filterMap_fired?_range' comes']
    cases p.fired? devices x.pc <;> rfl

/-- Between two wraps a process makes one request at each of its points that does not come directly
after another at which it has made one. -/
theorem Walks.asked_of_pass {pre pass post : List Beat} {b b' : Beat} {pc : Nat}
    (h : p.Walks devices (pre ++ b :: (pass ++ b' :: post)) pc) (wraps : b.pc = 0)
    (wraps' : b'.pc = 0) (inside : ∀ x ∈ pass, x.pc ≠ 0) :
    pass.filterMap Beat.asked? = (List.range' 1 p.maxPc).filterMap (p.fired? devices) := by
  have steps := h.steps
  rw [← List.singleton_append (l := post), ← List.append_assoc pass, ← List.cons_append] at steps
  have own := (List.isChain_append.1 (List.isChain_append.1 steps).2.1).1
  have requests : ∀ x ∈ pass, x.request = p.asks devices x.pc := fun x hx =>
    h.requests x (by simp [hx])
  have comes : p.fires devices b.pc = (p.asks devices b.pc).isSome := by
    rw [wraps]
    rfl
  have asked := asked_of_chain own requests comes wraps' inside
  rwa [wraps] at asked

end Proc
end Mlfq
