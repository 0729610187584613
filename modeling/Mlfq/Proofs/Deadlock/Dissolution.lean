import Mlfq.Proofs.Deadlock.Standstill

/-! # When a mutex pair goes

A member of a pair is marked when it has ended. With the second member the pair goes and its locks
with it, and nobody is parked on them any more. -/

namespace Mlfq

open Queue (cores)

namespace MutexPair

/-- It is noted in the pair that its member `pid` has gone. -/
def Marks (q : MutexPair) (pid : Pid) : Prop :=
  q.left.pid = pid ∧ q.left.retired = true ∨ q.right.pid = pid ∧ q.right.retired = true

variable {q q' : MutexPair} {pid x : Pid}

/-- A mark was there before, or it is that of the process that goes now. -/
theorem marks_of_retire? (h : q.retire? pid = some q') (marked : q'.Marks x) :
    x = pid ∨ q.Marks x := by
  unfold retire? at h
  split at h
  case isTrue left =>
    cases h
    rcases marked with ⟨own, -⟩ | marked
    · exact .inl (own.symm.trans left)
    · exact .inr (.inr marked)
  case isFalse =>
    split at h
    case isTrue right =>
      cases h
      rcases marked with marked | ⟨own, -⟩
      · exact .inr (.inl marked)
      · exact .inl (own.symm.trans right)
    case isFalse => cases h

/-- When both members have gone, each had a mark or goes now. -/
theorem eq_or_marks_of_isAbandoned (h : q.retire? pid = some q') (goes : q'.isAbandoned = true)
    (member : x ∈ q.pids) : x = pid ∨ q.Marks x := by
  have same : q'.pids = q.pids := by rw [← pids_unmarked, unmarked_retire? h, pids_unmarked]
  rw [isAbandoned, Bool.and_eq_true] at goes
  apply marks_of_retire? h
  rcases List.mem_pair.1 (same ▸ member) with left | right
  · exact .inl ⟨left.symm, goes.1⟩
  · exact .inr ⟨right.symm, goes.2⟩

end MutexPair

namespace MutexPairs

variable {pid : Pid} {pairs pairs' : List MutexPair}

/-- While a member stays, a pair is left alone or gets a mark. -/
theorem exists_of_mem_retire_none (h : retire pid pairs = (none, pairs')) {q' : MutexPair}
    (hq : q' ∈ pairs') : q' ∈ pairs ∨ ∃ q ∈ pairs, q.retire? pid = some q' := by
  induction pairs generalizing pairs' with
  | nil =>
    cases h
    exact .inl hq
  | cons q pairs ih =>
    unfold retire at h
    cases marked : q.retire? pid with
    | none =>
      rcases hr : retire pid pairs with ⟨locks, rest⟩
      simp only [marked, hr, Prod.mk.injEq] at h
      obtain ⟨rfl, rfl⟩ := h
      rcases List.mem_cons.1 hq with rfl | hq
      · exact .inl List.mem_cons_self
      · rcases ih hr hq with old | ⟨q₀, hq₀, new⟩
        · exact .inl (List.mem_cons_of_mem _ old)
        · exact .inr ⟨q₀, List.mem_cons_of_mem _ hq₀, new⟩
    | some q₁ =>
      simp only [marked] at h
      split at h
      case isTrue => cases h
      case isFalse =>
        cases h
        rcases List.mem_cons.1 hq with rfl | hq
        · exact .inr ⟨q, List.mem_cons_self, marked⟩
        · exact .inl (List.mem_cons_of_mem _ hq)

/-- The pair that goes with its second member. -/
theorem exists_isAbandoned_of_retire_some {a b : LockId}
    (h : retire pid pairs = (some (a, b), pairs')) :
    ∃ q ∈ pairs, q.locks = [a, b] ∧ ∃ q', q.retire? pid = some q' ∧ q'.isAbandoned = true := by
  induction pairs generalizing pairs' with
  | nil => cases h
  | cons q pairs ih =>
    unfold retire at h
    cases marked : q.retire? pid with
    | none =>
      rcases hr : retire pid pairs with ⟨locks, rest⟩
      simp only [marked, hr, Prod.mk.injEq] at h
      obtain ⟨rfl, rfl⟩ := h
      obtain ⟨q₀, hq₀, goes⟩ := ih hr
      exact ⟨q₀, List.mem_cons_of_mem _ hq₀, goes⟩
    | some q₁ =>
      simp only [marked] at h
      split at h
      case isTrue goes =>
        cases h
        have locks := congrArg MutexPair.locks (MutexPair.unmarked_retire? marked)
        exact ⟨q, List.mem_cons_self, locks.symm, q₁, marked, goes⟩
      case isFalse => cases h

end MutexPairs

namespace Scene

variable {s s' : Scene}

/-- Whoever is marked in its pair has ended. -/
def Marked (s : Scene) : Prop :=
  ∀ q ∈ s.pairs.pairs, ∀ x, q.Marks x → ∃ p, (p ∈ s.zombies ∨ p ∈ s.dropped) ∧ p.pid = x

namespace Marked

/-- Nobody gets a mark, and who has ended stays ended. -/
theorem frame (h : s.Marked) (pairs : ∀ q ∈ s'.pairs.pairs, ∀ x, q.Marks x → q ∈ s.pairs.pairs)
    (ended : ∀ p, p ∈ s.zombies ∨ p ∈ s.dropped → p ∈ s'.zombies ∨ p ∈ s'.dropped) :
    s'.Marked := by
  intro q hq x marked
  obtain ⟨p, hp, own⟩ := h q (pairs q hq x marked) x marked
  exact ⟨p, ended p hp, own⟩

theorem step (h : s.Marked) (step : Step s s') : s'.Marked := by
  have same : ∀ q ∈ s.pairs.pairs, ∀ x, q.Marks x → q ∈ s.pairs.pairs := fun q hq _ _ => hq
  -- The first of the ended processes is dropped.
  have leaves : ∀ {p : Proc} {rest : Queue}, s.zombies = p :: rest →
      ∀ r, r ∈ s.zombies ∨ r ∈ s.dropped → r ∈ rest ∨ r ∈ s.dropped ++ [p] := by
    intro p rest zombie r hr
    rw [zombie, List.mem_cons] at hr
    rw [List.mem_append, List.mem_singleton]
    tauto
  cases step with
  | mutexPair first second reversed =>
    refine h.frame (fun q hq x marked => ?_) fun p hp => hp
    rcases List.mem_append.1 hq with hq | hq
    · exact hq
    · rw [List.mem_singleton.1 hq] at marked
      cases reversed <;> rcases marked with ⟨-, gone⟩ | ⟨-, gone⟩ <;> cases gone
  | terminate running done core =>
    exact h.frame same fun p hp => hp.imp_left fun hp => Queue.mem_enqueue.2 (.inl hp)
  | @retire p rest pairs zombie hr =>
    intro q' hq' x marked
    rcases MutexPairs.exists_of_mem_retire_none hr hq' with old | ⟨q, hq, new⟩
    · exact h q' old x marked
    · rcases MutexPair.marks_of_retire? new marked with rfl | before
      · exact ⟨p, .inl (zombie ▸ List.mem_cons_self), rfl⟩
      · exact h q hq x before
  | dissolve zombie hr =>
    refine h.frame (fun q hq x _ => ?_) fun p hp => ?_
    · rw [pairs_dropLock, pairs_dropLock] at hq
      exact MutexPairs.mem_of_retire_some hr hq
    · rw [zombies_dropLock, zombies_dropLock, dropped_dropLock, dropped_dropLock]
      exact hp
  | drop zombie => exact h.frame same (leaves zombie)
  | leave zombie => exact h.frame same (leaves zombie)
  | close zombie => exact h.frame same (leaves zombie)
  | _ => exact h.frame same fun p hp => hp

/-- With the second member of a pair go two locks on which nobody is parked. -/
theorem waiters_eq_nil (h : s.Marked) (tidy : s.Tidy) (paired : s.Paired) (lawful : s.Lawful)
    {p : Proc} {rest : Queue} {pairs : List MutexPair} {a b : LockId}
    (zombie : s.zombies = p :: rest)
    (hr : MutexPairs.retire p.pid s.pairs.pairs = (some (a, b), pairs)) {id : LockId}
    (hid : id ∈ [a, b]) {l : Lock} (found : s.locks.get? id = some l) : l.waiters = [] := by
  obtain ⟨q, hq, locks, q', retires, goes⟩ := MutexPairs.exists_isAbandoned_of_retire_some hr
  rw [List.eq_nil_iff_forall_not_mem]
  intro w hw
  have parked : w.core ∈ s.parked := core_mem_parked tidy found hw
  have member : w.pid ∈ q.pids := (paired.within q hq id (locks ▸ hid) l found).waiters w hw
  have ended : ∃ z, (z ∈ s.zombies ∨ z ∈ s.dropped) ∧ z.pid = w.pid := by
    rcases MutexPair.eq_or_marks_of_isAbandoned retires goes member with own | marked
    · exact ⟨p, .inl (zombie ▸ List.mem_cons_self), own.symm⟩
    · exact h q hq w.pid marked
  -- Who is parked is neither among the ended processes nor dropped.
  obtain ⟨z, here | dropped, same⟩ := ended
  · obtain ⟨others, split⟩ := Multiset.exists_cons_of_mem (Queue.core_mem_cores here)
    have population : s.population = z.core ::ₘ (others + (s.free + s.parked)) := by
      rw [Scene.population, split, add_comm, Multiset.cons_add]
    have elsewhere : w.core ∈ others + (s.free + s.parked) :=
      Multiset.mem_add.2 (.inr (Multiset.mem_add.2 (.inr parked)))
    exact lawful.pid_ne population elsewhere same.symm
  · exact lawful.pid_notMem_dropped (core_mem_of_lock tidy found hw) dropped same

end Marked

theorem Fresh.marked (fresh : s.Fresh) : s.Marked := by
  intro q hq
  rw [fresh.pairs] at hq
  cases hq

theorem marked_of_steps (fresh : s.Fresh) (steps : Steps s s') : s'.Marked := by
  induction steps with
  | refl => exact fresh.marked
  | tail _ step ih => exact ih.step step

end Scene
end Mlfq
