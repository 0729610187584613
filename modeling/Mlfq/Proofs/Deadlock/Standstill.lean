import Mlfq.Proofs.Deadlock.Monitor

/-! # A deadlock stands still

A lock is only touched by the members of its pair. When both are parked on the locks of the pair,
neither can run and neither has ended, so that nobody touches the pair or its locks any more. -/

namespace Mlfq

open Queue (cores)

namespace MutexPair

/-- A process is parked on a lock of the pair. -/
def Blocks (q : MutexPair) (t : LockTable) (pid : Pid) : Prop :=
  ∃ id ∈ q.locks, ∃ l, t.get? id = some l ∧ l.isAwaitedBy pid = true

/-- Both members are parked on the locks of the pair. -/
def Deadlocked (q : MutexPair) (t : LockTable) : Prop := ∀ pid ∈ q.pids, q.Blocks t pid

variable {q : MutexPair} {t t' : LockTable}

theorem Blocks.awaited {pid : Pid} (h : q.Blocks t pid) (tidy : t.Tidy) : t.Awaited pid := by
  obtain ⟨id, -, l, found, parked⟩ := h
  exact ⟨l, (LockTable.mem_toList_iff tidy).2 ⟨id, found⟩, parked⟩

theorem Deadlocked.of_get?_eq (h : q.Deadlocked t) (same : ∀ id ∈ q.locks, t'.get? id = t.get? id) :
    q.Deadlocked t' := by
  intro pid member
  obtain ⟨id, hid, l, found, parked⟩ := h pid member
  exact ⟨id, hid, l, (same id hid).trans found, parked⟩

/-- In a cycle both members are parked. -/
theorem deadlocked_of_cycle? {held : LockId × LockId} (h : q.cycle? t = some held) :
    q.Deadlocked t := by
  obtain ⟨locks, ⟨l, foundl, -, right⟩, m, foundm, -, left⟩ := of_cycle? h
  have members : held.1 ∈ q.locks ∧ held.2 ∈ q.locks := by
    rcases locks with ⟨first, second⟩ | ⟨first, second⟩ <;> simp [MutexPair.locks, first, second]
  intro pid member
  rcases List.mem_pair.1 member with rfl | rfl
  · exact ⟨held.2, members.2, m, foundm, left⟩
  · exact ⟨held.1, members.1, l, foundl, right⟩

end MutexPair

namespace Scene

variable {s s' s₀ : Scene} {q : MutexPair}

/-- In this scene both members of a mutex pair are parked on its locks. -/
structure Stuck (s : Scene) (q : MutexPair) : Prop where
  mem : q ∈ s.pairs.pairs
  deadlocked : q.Deadlocked s.locks

/-- A pair and its locks are in `s'` what they are in `s`. -/
structure Untouched (q : MutexPair) (s s' : Scene) : Prop where
  mem : q ∈ s'.pairs.pairs
  get?_eq : ∀ id ∈ q.locks, s'.locks.get? id = s.locks.get? id

theorem Stuck.of_untouched (h : s.Stuck q) (same : Untouched q s s') : s'.Stuck q :=
  ⟨same.mem, h.deadlocked.of_get?_eq same.get?_eq⟩

theorem core_mem_parked {id : LockId} {l : Lock} {w : Proc} (tidy : s.Tidy)
    (found : s.locks.get? id = some l) (hw : w ∈ l.waiters) : w.core ∈ s.parked := by
  have mem : l ∈ s.locks.toList := (LockTable.mem_toList_iff tidy.locks).2 ⟨id, found⟩
  have gathered : w ∈ s.locks.toList.flatMap (·.waiters) := List.mem_flatMap.2 ⟨l, mem, hw⟩
  exact Multiset.mem_add.2 (.inl (Multiset.mem_add.2 (.inr (Queue.core_mem_cores gathered))))

/-- Who is parked on a lock of the table is nowhere else. -/
theorem Lawful.pid_notMem_of_deadlocked (lawful : s.Lawful) (tidy : s.Tidy) {p : Proc}
    {rest : Multiset Proc} (here : s.population = p ::ₘ rest) (others : s.parked ≤ rest)
    (deadlocked : q.Deadlocked s.locks) : p.pid ∉ q.pids := by
  intro member
  obtain ⟨id, -, l, found, parked⟩ := deadlocked p.pid member
  obtain ⟨w, hw, same⟩ := Queue.holds_iff.1 parked
  exact lawful.pid_ne here (Multiset.mem_of_le others (core_mem_parked tidy found hw)) same

/-- A member that is parked does not run. -/
theorem Runs.pid_notMem_of_deadlocked {p p' : Proc} {rest : Multiset Proc} {t : Option Trap}
    (runs : s.Runs p p' rest t) (lawful : s.Lawful) (tidy : s.Tidy)
    (deadlocked : q.Deadlocked s.locks) : p'.pid ∉ q.pids := by
  rw [runs.advances.pid_eq]
  exact lawful.pid_notMem_of_deadlocked tidy runs.population_eq
    ((Multiset.le_add_left _ _).trans (Multiset.le_add_right _ _)) deadlocked

/-- A member that is parked has not ended. -/
theorem Lawful.zombie_notMem_of_deadlocked (lawful : s.Lawful) (tidy : s.Tidy) {p : Proc}
    {rest : Queue} (zombie : s.zombies = p :: rest) (deadlocked : q.Deadlocked s.locks) :
    p.pid ∉ q.pids := by
  have here : s.population = p.core ::ₘ (cores rest + (s.free + s.parked)) := by
    rw [population, zombie, Queue.cores_cons, add_comm, Multiset.cons_add]
  have others : s.parked ≤ cores rest + (s.free + s.parked) :=
    (Multiset.le_add_left _ _).trans (Multiset.le_add_left _ _)
  exact lawful.pid_notMem_of_deadlocked tidy (p := p.core) here others deadlocked

/-! ## Steps -/

/-- A pair arrives with locks of its own. -/
theorem Untouched.arrive (paired : s.Paired) (tidy : s.Tidy) (hq : q ∈ s.pairs.pairs)
    {pair : MutexPair} (pairs : s'.pairs = s.pairs.add pair)
    (locks : s'.locks = s.locks.create.2.create.2) : Untouched q s s' := by
  constructor
  · rw [pairs]
    exact List.mem_append_left _ hq
  · intro id hid
    have old : id ∈ s.locks.locks.keys := paired.keys ▸ List.mem_flatMap.2 ⟨q, hq, hid⟩
    obtain ⟨l, found⟩ := Registry.exists_get?_of_mem_keys old
    have lt := tidy.locks.lt id old
    have first : id ≠ s.locks.create.1 := by
      rintro rfl
      exact Nat.lt_irrefl _ lt
    have second : id ≠ s.locks.create.2.create.1 := by
      rintro rfl
      exact absurd lt (Nat.not_lt.2 (Nat.le_succ _))
    rw [locks, tidy.locks.create.get?_create, if_neg second, tidy.locks.get?_create, if_neg first]

/-- A process that is no member is served by a lock of another pair. -/
theorem Untouched.serve (paired : s.Paired) (tidy : s.Tidy) (hq : q ∈ s.pairs.pairs) {p : Proc}
    {t : Trap} {id : LockId} {r : Lock.Request} {l l' : Lock} {out free : Multiset Proc}
    (trap : p.trapAt p.pc s.pairs = .ok (some t)) (request : t.tableRequest? = some (id, r))
    (found : s.locks.get? id = some l) (serves : Lock.Serves p r l l' out)
    (other : p.pid ∉ q.pids) : Untouched q s { s with free, locks := s.locks.set l' } := by
  obtain ⟨q', hq', hid, user⟩ := paired.exists_owner_of_trap trap request
  refine ⟨hq, fun k hk => ?_⟩
  have ne : k ≠ id := by
    rintro rfl
    have same := paired.owner_unique tidy hq hq' hk hid
    exact other (same ▸ user)
  have after := tidy.locks.get?_set found serves.id_eq k
  rw [if_neg ne] at after
  exact after

/-- When a pair goes, other pairs keep their locks. -/
theorem Untouched.dissolve (paired : s.Paired) (tidy : s.Tidy) (hq : q ∈ s.pairs.pairs)
    {pid : Pid} {pairs : List MutexPair} {a b : LockId}
    (h : MutexPairs.retire pid s.pairs.pairs = (some (a, b), pairs)) (other : pid ∉ q.pids) :
    Untouched q s (({ s with pairs := ⟨pairs⟩ }.dropLock a).dropLock b) := by
  obtain ⟨before, q', after, split, -, locks, member⟩ := MutexPairs.split_of_retire_some h
  have hq' : q' ∈ s.pairs.pairs := split ▸ List.mem_append_right _ List.mem_cons_self
  have apart : ∀ id ∈ q.locks, id ∉ q'.locks := by
    intro id hid hid'
    have same := paired.owner_unique tidy hq hq' hid hid'
    exact other (same ▸ member)
  constructor
  · rw [pairs_dropLock, pairs_dropLock]
    have stays := MutexPairs.mem_retire hq other
    rw [h] at stays
    exact stays
  · intro id hid
    have absent := apart id hid
    rw [locks] at absent
    simp only [List.mem_cons, List.not_mem_nil, or_false, not_or] at absent
    rw [get?_dropLock, if_neg absent.2, get?_dropLock, if_neg absent.1]

/-- Nothing that happens touches a pair that is stuck. -/
theorem Stuck.untouched_of_step (stuck : s.Stuck q) (paired : s.Paired) (tidy : s.Tidy)
    (lawful : s.Lawful) (step : Step s s') : Untouched q s s' := by
  have ⟨hq, deadlocked⟩ := stuck
  cases step with
  | mutexPair => exact .arrive paired tidy hq rfl rfl
  | table runs request found serves =>
    exact .serve paired tidy hq runs.trap request found serves
      (runs.pid_notMem_of_deadlocked lawful tidy deadlocked)
  | @retire p rest pairs zombie h =>
    have stays := MutexPairs.mem_retire hq
      (lawful.zombie_notMem_of_deadlocked tidy zombie deadlocked)
    rw [h] at stays
    exact ⟨stays, fun _ _ => rfl⟩
  | dissolve zombie h =>
    exact .dissolve paired tidy hq h (lawful.zombie_notMem_of_deadlocked tidy zombie deadlocked)
  | scan | single | rendezvousPair | goOn | request | channel | complete | terminate | drop |
      leave | close => exact ⟨hq, fun _ _ => rfl⟩

/-- A pair that is stuck is the same at all later times. -/
theorem Stuck.untouched_of_steps (stuck : s.Stuck q) (fresh : s₀.Fresh) (earlier : Steps s₀ s)
    (later : Steps s s') (distinct : Arrival.Distinct s'.arrived) : Untouched q s s' := by
  induction later with
  | refl => exact ⟨stuck.mem, fun _ _ => rfl⟩
  | @tail s₁ s₂ later step ih =>
    have steps := earlier.trans later
    have distinct₁ := distinct_of_prefix (arrived_prefix_of_step step) distinct
    have so_far := ih distinct₁
    have next := (stuck.of_untouched so_far).untouched_of_step (paired_of_steps fresh steps)
      (tidy_of_steps fresh steps) (fresh.lawful steps distinct₁) step
    exact ⟨next.mem, fun id hid => (next.get?_eq id hid).trans (so_far.get?_eq id hid)⟩

/-! ## Scans -/

theorem Stuck.isSome_cycle? (stuck : s.Stuck q) (paired : s.Paired) (tidy : s.Tidy)
    (distinct : Arrival.Distinct s.arrived) : (q.cycle? s.locks).isSome := by
  have awaited := fun pid member => (stuck.deadlocked pid member).awaited tidy.locks
  exact isSome_cycle?_of_awaited paired tidy distinct stuck.mem (awaited _ List.mem_cons_self)
    (awaited _ (List.mem_cons_of_mem _ List.mem_cons_self))

/-- Only a scan changes what the monitor remembers. -/
theorem Step.monitor_cases (step : Step s s') :
    s'.monitor = s.monitor ∨ s'.monitor = (s.monitor.scan s.pairs s.locks).2 := by
  cases step with
  | scan => exact .inr rfl
  | dissolve => exact .inl (by simp)
  | _ => exact .inl rfl

theorem deadlocked_of_steps (steps : Steps s s') (h : s.monitor.deadlocked = true) :
    s'.monitor.deadlocked = true := by
  induction steps with
  | refl => exact h
  | tail _ step ih =>
    rcases step.monitor_cases with same | scanned
    · exact same ▸ ih
    · exact scanned ▸ DeadlockMonitor.deadlocked_scan ih

/-- The first scan that finds a pair stuck remembers it, and so do all later ones. -/
theorem Stuck.mem_reported (stuck : s.Stuck q) (fresh : s₀.Fresh) (earlier : Steps s₀ s)
    (later : Steps s s') (distinct : Arrival.Distinct s'.arrived)
    (scanned : s.monitor.scans < s'.monitor.scans) :
    (q.left.pid, q.right.pid) ∈ s'.monitor.reported := by
  have main : s'.monitor.scans = s.monitor.scans ∨
      (q.left.pid, q.right.pid) ∈ s'.monitor.reported := by
    clear scanned
    induction later with
    | refl => exact .inl rfl
    | @tail s₁ s₂ later step ih =>
      have steps := earlier.trans later
      have distinct₁ := distinct_of_prefix (arrived_prefix_of_step step) distinct
      rcases step.monitor_cases with same | scanned
      · exact same ▸ ih distinct₁
      · have still := stuck.of_untouched (stuck.untouched_of_steps fresh earlier later distinct₁)
        have cycle := still.isSome_cycle? (paired_of_steps fresh steps) (tidy_of_steps fresh steps)
          distinct₁
        exact .inr (scanned ▸ DeadlockMonitor.mem_reported_scan_of_cycle? still.mem cycle)
  exact main.resolve_left (Nat.ne_of_gt scanned)

end Scene
end Mlfq
