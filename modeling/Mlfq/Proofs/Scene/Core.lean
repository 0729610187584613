import Mathlib.Algebra.Order.Group.Multiset
import Mlfq.ReadyQueue
import Mlfq.Trap

/-! # Cores

The core of a record is what stays of it when it is moved from one queue to another. The cores of
several queues together are a multiset, in which the order of service does not show. -/

namespace Mlfq

/-- The plan without the channel that it is given on admission. -/
def TrapPlan.unbound : TrapPlan → TrapPlan
  | .rendezvous triggers _ => .rendezvous triggers ⟨0⟩
  | plan => plan

/-- Only a rendezvous plan is given a channel. -/
theorem TrapPlan.eq_of_unbound_eq {a b : TrapPlan} (h : a.unbound = b.unbound)
    (other : ∀ triggers id, b ≠ .rendezvous triggers id) : a = b := by
  cases b with
  | rendezvous triggers id => exact absurd rfl (other triggers id)
  | none | io | mutex =>
    cases a with
    | rendezvous => cases h
    | none | io | mutex => exact h

namespace Proc

/-- The record without its state, its priority and the mark of its end. -/
def core (p : Proc) : Proc := { p with state := .new, priority := .highest, stopped := false }

@[simp] theorem pid_core (p : Proc) : p.core.pid = p.pid := rfl
@[simp] theorem pc_core (p : Proc) : p.core.pc = p.pc := rfl
@[simp] theorem terminateAfter_core (p : Proc) : p.core.terminateAfter = p.terminateAfter := rfl
@[simp] theorem plan_core (p : Proc) : p.core.plan = p.plan := rfl

@[simp] theorem core_priority (p : Proc) (priority : Priority) :
    { p with priority }.core = p.core := rfl

/-- What of a record never changes after admission: the progress of the process does not show in
it. -/
def profile (p : Proc) : Proc := { p.core with pc := 0, wraps := 0 }

@[simp] theorem profile_core (p : Proc) : p.core.profile = p.profile := rfl
@[simp] theorem pid_profile (p : Proc) : p.profile.pid = p.pid := rfl
@[simp] theorem channel?_profile (p : Proc) : p.profile.channel? = p.channel? := rfl

/-- What of a record never changes: nor does the channel show that it is given on admission. -/
def outline (p : Proc) : Proc := { p.profile with plan := p.plan.unbound }

@[simp] theorem outline_core (p : Proc) : p.core.outline = p.outline := rfl
@[simp] theorem outline_profile (p : Proc) : p.profile.outline = p.outline := rfl
@[simp] theorem pid_outline (p : Proc) : p.outline.pid = p.pid := rfl
@[simp] theorem kind_outline (p : Proc) : p.outline.kind = p.kind := rfl
@[simp] theorem maxPc_outline (p : Proc) : p.outline.maxPc = p.maxPc := rfl

@[simp] theorem terminateAfter_outline (p : Proc) : p.outline.terminateAfter = p.terminateAfter :=
  rfl

@[simp] theorem outline_bindChannel (p : Proc) (channel : ChannelId) :
    (p.bindChannel channel).outline = p.outline := by
  unfold bindChannel
  split
  case h_1 h => simp only [outline, profile, core, TrapPlan.unbound, h]
  case h_2 => rfl

theorem plan_eq_of_outline_eq {p q : Proc} (h : p.outline = q.outline)
    (other : ∀ triggers id, q.plan ≠ .rendezvous triggers id) : p.plan = q.plan :=
  TrapPlan.eq_of_unbound_eq (congrArg Proc.plan h) other

theorem pid_eq_of_core_eq {p q : Proc} (h : q.core = p) : q.pid = p.pid := by rw [← h, pid_core]

/-- The running process takes a step: its counter goes on, or it wraps to 0 after the largest. -/
inductive Advances (p : Proc) : Proc → Prop
  | step (h : p.pc + 1 ≤ p.maxPc) : Advances p { p with pc := p.pc + 1 }
  | wrap (h : p.maxPc < p.pc + 1) : Advances p { p with pc := 0, wraps := p.wraps + 1 }

namespace Advances

variable {p p' : Proc}

theorem profile_eq (h : p.Advances p') : p'.profile = p.profile := by cases h <;> rfl
theorem pid_eq (h : p.Advances p') : p'.pid = p.pid := by cases h <;> rfl
theorem kind_eq (h : p.Advances p') : p'.kind = p.kind := by cases h <;> rfl
theorem plan_eq (h : p.Advances p') : p'.plan = p.plan := by cases h <;> rfl
theorem maxPc_eq (h : p.Advances p') : p'.maxPc = p.maxPc := by cases h <;> rfl

theorem terminateAfter_eq (h : p.Advances p') : p'.terminateAfter = p.terminateAfter := by
  cases h <;> rfl

theorem channel?_eq (h : p.Advances p') : p'.channel? = p.channel? := by cases h <;> rfl

/-- A process that has advanced is not past its largest program counter. -/
theorem pc_le (h : p.Advances p') : p'.pc ≤ p'.maxPc := by
  cases h with
  | step le => exact le
  | wrap => exact Nat.zero_le _

end Advances
end Proc

namespace Queue

/-- The cores of the records of a queue. -/
def cores (q : Queue) : Multiset Proc := (q.map Proc.core : List Proc)

@[simp] theorem cores_nil : cores [] = 0 := rfl

@[simp] theorem cores_cons (p : Proc) (q : Queue) : cores (p :: q) = p.core ::ₘ cores q := rfl

@[simp] theorem cores_append (q r : Queue) : cores (q ++ r) = cores q + cores r := by
  simp [cores]

theorem cores_enqueue (q : Queue) (p : Proc) : cores (q.enqueue p) = p.core ::ₘ cores q := by
  simp [enqueue, add_comm, Multiset.singleton_add]

theorem cores_of_perm {q r : Queue} (h : q.Perm r) : cores q = cores r :=
  Multiset.coe_eq_coe.2 (h.map _)

theorem mem_cores {q : Queue} {p : Proc} : p ∈ cores q ↔ ∃ r ∈ q, r.core = p := by simp [cores]

theorem core_mem_cores {q : Queue} {p : Proc} (h : p ∈ q) : p.core ∈ cores q :=
  mem_cores.2 ⟨p, h, rfl⟩

theorem cores_head?_add_tail (q : Queue) :
    cores q.head?.toList + cores q.tail = cores q := by
  rw [← cores_append]
  cases q <;> rfl

/-- A queue whose records only change in what the core leaves out. -/
theorem cores_map {q : Queue} {f : Proc → Proc} (h : ∀ p, (f p).core = p.core) :
    cores (q.map f) = cores q := by
  simp [cores, Function.comp_def, h]

@[simp] theorem map_outline_cores (q : Queue) :
    (cores q).map Proc.outline = (q.map Proc.outline : List Proc) := by
  simp [cores, Function.comp_def]

theorem map_pid_cores (q : Queue) : (cores q).map (·.pid) = (q.map (·.pid) : List Pid) := by
  simp [cores, Function.comp_def]

end Queue

namespace ReadyQueue

open Queue (cores)

theorem cores_toList_enqueue (ready : ReadyQueue) (p : Proc) :
    cores (ready.enqueue p).toList = p.core ::ₘ cores ready.toList := by
  rw [Queue.cores_of_perm (toList_enqueue_perm ready p), Queue.cores_append, add_comm]
  rfl

theorem cores_toList_enqueueAll (ready : ReadyQueue) (ps : Queue) :
    cores (ready.enqueueAll ps).toList = cores ps + cores ready.toList := by
  unfold enqueueAll
  induction ps generalizing ready with
  | nil => simp
  | cons p ps ih =>
    rw [List.foldl_cons, ih, cores_toList_enqueue, Queue.cores_cons, Multiset.add_cons,
      Multiset.cons_add]

end ReadyQueue
end Mlfq
