import Mlfq.DeadlockMonitor
import Mlfq.Proofs.Deadlock.Pairs
import Mlfq.Proofs.Run.Command
import Mlfq.Proofs.Workload.Library

/-! # The deadlock monitor is exact

The monitor looks for two patterns of holding and waiting only. They are all there is: when both
members of a pair are parked, each on a lock of the pair that the other one holds. -/

namespace Mlfq

/-- Whether the pair is the one that was found. -/
def Deadlock.Names (d : Deadlock) (q : MutexPair) : Prop := d.p1 = q.left.pid ∧ d.p2 = q.right.pid

namespace LockTable

/-- A process is parked on some lock of the table. -/
def Awaited (t : LockTable) (pid : Pid) : Prop := ∃ l ∈ t.toList, l.isAwaitedBy pid = true

/-- One process holds a lock and another is parked on it. -/
def HeldAndAwaited (t : LockTable) (id : LockId) (holder waiter : Pid) : Prop :=
  ∃ l, t.get? id = some l ∧ l.holder = some holder ∧ l.isAwaitedBy waiter = true

theorem mem_toList_iff {t : LockTable} (tidy : t.Tidy) {l : Lock} :
    l ∈ t.toList ↔ ∃ id, t.get? id = some l := Registry.mem_values_iff tidy.nodup

theorem awaited_iff {t : LockTable} (tidy : t.Tidy) {pid : Pid} :
    t.Awaited pid ↔ ∃ id l w, t.get? id = some l ∧ w ∈ l.waiters ∧ w.pid = pid := by
  constructor
  · rintro ⟨l, hl, parked⟩
    obtain ⟨id, found⟩ := (mem_toList_iff tidy).1 hl
    obtain ⟨w, hw, same⟩ := Queue.holds_iff.1 parked
    exact ⟨id, l, w, found, hw, same⟩
  · rintro ⟨id, l, w, found, hw, same⟩
    exact ⟨l, (mem_toList_iff tidy).2 ⟨id, found⟩, Queue.holds_iff.2 ⟨w, hw, same⟩⟩

theorem holdsAndWaits_iff {t : LockTable} {pid : Pid} {held wanted : LockId} :
    t.holdsAndWaits pid held wanted = true ↔
      (∃ l, t.get? held = some l ∧ l.holder = some pid) ∧
      ∃ l, t.get? wanted = some l ∧ l.isAwaitedBy pid = true := by
  simp [holdsAndWaits, Lock.isHeldBy, Option.any_eq_true]

theorem HeldAndAwaited.awaited {t : LockTable} {id : LockId} {holder waiter : Pid}
    (h : t.HeldAndAwaited id holder waiter) (tidy : t.Tidy) : t.Awaited waiter := by
  obtain ⟨l, found, -, parked⟩ := h
  exact ⟨l, (mem_toList_iff tidy).2 ⟨id, found⟩, parked⟩

end LockTable

/-! ## Cycles -/

namespace MutexPair

/-- In a cycle each member holds the lock that the other is parked on. -/
theorem of_cycle? {q : MutexPair} {t : LockTable} {a b : LockId} (h : q.cycle? t = some (a, b)) :
    (a = q.left.first ∧ b = q.left.second ∨ a = q.left.second ∧ b = q.left.first) ∧
    t.HeldAndAwaited a q.left.pid q.right.pid ∧ t.HeldAndAwaited b q.right.pid q.left.pid := by
  have crossed : ∀ {x y}, (t.holdsAndWaits q.left.pid x y && t.holdsAndWaits q.right.pid y x) =
      true → t.HeldAndAwaited x q.left.pid q.right.pid ∧
        t.HeldAndAwaited y q.right.pid q.left.pid := by
    intro x y both
    rw [Bool.and_eq_true, LockTable.holdsAndWaits_iff, LockTable.holdsAndWaits_iff] at both
    obtain ⟨⟨⟨l, hl, left⟩, ⟨l', hl', left'⟩⟩, ⟨m, hm, right⟩, ⟨m', hm', right'⟩⟩ := both
    rw [hl] at hm'
    rw [hl'] at hm
    cases hm
    cases hm'
    exact ⟨⟨l, hl, left, right'⟩, ⟨l', hl', right, left'⟩⟩
  simp only [cycle?] at h
  split at h
  case isTrue both =>
    cases h
    exact ⟨.inl ⟨rfl, rfl⟩, crossed both⟩
  case isFalse =>
    split at h
    case isTrue both =>
      cases h
      exact ⟨.inr ⟨rfl, rfl⟩, crossed both⟩
    case isFalse => cases h

/-- Either way of holding and waiting crosswise is a cycle. -/
theorem isSome_cycle? {q : MutexPair} {t : LockTable} {a b : LockId}
    (locks : a = q.left.first ∧ b = q.left.second ∨ a = q.left.second ∧ b = q.left.first)
    (left : t.holdsAndWaits q.left.pid a b = true)
    (right : t.holdsAndWaits q.right.pid b a = true) : (q.cycle? t).isSome := by
  unfold cycle?
  rcases locks with ⟨rfl, rfl⟩ | ⟨rfl, rfl⟩
  · simp [left, right]
  · simp only [left, right, Bool.and_self, if_true]
    split <;> rfl

end MutexPair

namespace DeadlockMonitor

theorem exists_pair_of_mem_inspect {t : LockTable} {pairs : List MutexPair}
    {monitor : DeadlockMonitor} {d : Deadlock} (h : d ∈ (inspect t pairs monitor).1) :
    ∃ q ∈ pairs, d.Names q ∧ q.cycle? t = some (d.heldByP1, d.heldByP2) := by
  induction pairs generalizing monitor with
  | nil => cases h
  | cons q pairs ih =>
    unfold inspect at h
    cases hq : q.cycle? t with
    | none =>
      simp only [hq] at h
      obtain ⟨q', hq', named, cycle⟩ := ih h
      exact ⟨q', List.mem_cons_of_mem _ hq', named, cycle⟩
    | some held =>
      simp only [hq, List.mem_cons] at h
      rcases h with rfl | h
      · exact ⟨q, List.mem_cons_self, ⟨rfl, rfl⟩, hq⟩
      · obtain ⟨q', hq', named, cycle⟩ := ih h
        exact ⟨q', List.mem_cons_of_mem _ hq', named, cycle⟩

theorem exists_mem_inspect_of_cycle? {t : LockTable} {pairs : List MutexPair}
    {monitor : DeadlockMonitor} {q : MutexPair} (hq : q ∈ pairs) (h : (q.cycle? t).isSome) :
    ∃ d ∈ (inspect t pairs monitor).1, d.Names q := by
  induction pairs generalizing monitor with
  | nil => cases hq
  | cons q' pairs ih =>
    unfold inspect
    cases hc : q'.cycle? t with
    | none =>
      rcases List.mem_cons.1 hq with rfl | hq
      · rw [hc] at h
        cases h
      · exact ih hq
    | some held =>
      rcases List.mem_cons.1 hq with rfl | hq
      · exact ⟨_, List.mem_cons_self, rfl, rfl⟩
      · obtain ⟨d, hd, named⟩ := ih hq
        exact ⟨d, List.mem_cons_of_mem _ hd, named⟩

end DeadlockMonitor

namespace Scene

variable {s : Scene}

/-- A parked member waits for the other member, on a lock of their pair. -/
theorem exists_lock_of_awaited (paired : s.Paired) (tidy : s.Tidy)
    (distinct : Arrival.Distinct s.arrived) {q : MutexPair} (hq : q ∈ s.pairs.pairs) {pid : Pid}
    (member : pid ∈ q.pids) (parked : s.locks.Awaited pid) : ∃ id ∈ q.locks, ∃ l x,
      s.locks.get? id = some l ∧ l.isAwaitedBy pid = true ∧ l.holder = some x ∧ x ∈ q.pids ∧
      x ≠ pid := by
  obtain ⟨id, l, w, found, hw, same⟩ := (LockTable.awaited_iff tidy.locks).1 parked
  obtain ⟨q', hq', hid⟩ := paired.exists_owner found
  have within := paired.within q' hq' id hid l found
  have own : q' = q := paired.pair_unique distinct hq' hq (within.waiters w hw) (same ▸ member)
  obtain ⟨x, held, other⟩ := (paired.sound id l found).exists_holder hw
  exact ⟨id, own ▸ hid, l, x, found, Queue.holds_iff.2 ⟨w, hw, same⟩, held,
    own ▸ within.holder x held, same ▸ other⟩

/-- When both members of a pair are parked, they are in a cycle. -/
theorem isSome_cycle?_of_awaited (paired : s.Paired) (tidy : s.Tidy)
    (distinct : Arrival.Distinct s.arrived) {q : MutexPair} (hq : q ∈ s.pairs.pairs)
    (left : s.locks.Awaited q.left.pid) (right : s.locks.Awaited q.right.pid) :
    (q.cycle? s.locks).isSome := by
  have mem_left : q.left.pid ∈ q.pids := List.mem_cons_self
  have mem_right : q.right.pid ∈ q.pids := List.mem_cons_of_mem _ List.mem_cons_self
  obtain ⟨b, hb, l, x, foundb, parkedl, heldb, hx, xl⟩ :=
    exists_lock_of_awaited paired tidy distinct hq mem_left left
  obtain ⟨a, ha, m, y, founda, parkedr, helda, hy, yr⟩ :=
    exists_lock_of_awaited paired tidy distinct hq mem_right right
  have hx : x = q.right.pid := by
    rcases List.mem_cons.1 hx with rfl | hx
    · exact absurd rfl xl
    · exact List.mem_singleton.1 hx
  have hy : y = q.left.pid := by
    rcases List.mem_cons.1 hy with rfl | hy
    · rfl
    · exact absurd (List.mem_singleton.1 hy) yr
  have ne : a ≠ b := by
    rintro rfl
    rw [foundb] at founda
    cases founda
    rw [heldb] at helda
    cases helda
    exact xl hy
  have locks : a = q.left.first ∧ b = q.left.second ∨ a = q.left.second ∧ b = q.left.first := by
    simp only [MutexPair.locks, List.mem_cons, List.not_mem_nil, or_false] at ha hb
    rcases ha with rfl | rfl <;> rcases hb with rfl | rfl
    · exact absurd rfl ne
    · exact .inl ⟨rfl, rfl⟩
    · exact .inr ⟨rfl, rfl⟩
    · exact absurd rfl ne
  exact MutexPair.isSome_cycle? locks
    (LockTable.holdsAndWaits_iff.2 ⟨⟨m, founda, hy ▸ helda⟩, l, foundb, parkedl⟩)
    (LockTable.holdsAndWaits_iff.2 ⟨⟨l, foundb, hx ▸ heldb⟩, m, founda, parkedr⟩)

end Scene

/-- The monitor reports a pair exactly when both members are parked on locks. Then each of the two
holds one lock of the pair, and the other is parked on it. -/
theorem scan_exact {σ : Type} [Workload σ] {config : Config} {workload : σ}
    {logLevel : Option Level} {mo : Moment σ}
    (reachable : Moment.Reachable (.start config workload logLevel) mo)
    (distinct : Arrival.Distinct mo.ledger.arrived) (monitor : DeadlockMonitor) :
    let m := mo.ledger.machine
    let found := (monitor.scan m.pairs m.locks).1
    (∀ q ∈ m.pairs.pairs, (∃ d ∈ found, d.Names q) ↔
      m.locks.Awaited q.left.pid ∧ m.locks.Awaited q.right.pid) ∧
    ∀ d ∈ found, ∃ q ∈ m.pairs.pairs, d.Names q ∧
      d.heldByP1 ∈ q.locks ∧ d.heldByP2 ∈ q.locks ∧ d.heldByP1 ≠ d.heldByP2 ∧
      m.locks.HeldAndAwaited d.heldByP1 d.p1 d.p2 ∧
      m.locks.HeldAndAwaited d.heldByP2 d.p2 d.p1 := by
  have steps := Scene.steps_of_reachable reachable
  have fresh := Scene.fresh_start config workload logLevel
  have tidy := Scene.tidy_of_steps fresh steps
  have paired := Scene.paired_of_steps fresh steps
  refine ⟨fun q hq => ⟨?_, ?_⟩, fun d hd => ?_⟩
  · rintro ⟨d, hd, named⟩
    obtain ⟨q', hq', named', cycle⟩ := DeadlockMonitor.exists_pair_of_mem_inspect hd
    have left : d.p1 ∈ q.pids := named.1 ▸ List.mem_cons_self
    have left' : d.p1 ∈ q'.pids := named'.1 ▸ List.mem_cons_self
    have same : q' = q := paired.pair_unique distinct hq' hq left' left
    obtain ⟨-, right, left⟩ := MutexPair.of_cycle? (same ▸ cycle)
    exact ⟨left.awaited tidy.locks, right.awaited tidy.locks⟩
  · rintro ⟨left, right⟩
    exact DeadlockMonitor.exists_mem_inspect_of_cycle? hq
      (Scene.isSome_cycle?_of_awaited paired tidy distinct hq left right)
  · obtain ⟨q, hq, named, cycle⟩ := DeadlockMonitor.exists_pair_of_mem_inspect hd
    obtain ⟨locks, right, left⟩ := MutexPair.of_cycle? cycle
    have ne := paired.first_ne_second tidy hq
    rw [← named.1, ← named.2] at left right
    have members : d.heldByP1 ∈ q.locks ∧ d.heldByP2 ∈ q.locks ∧ d.heldByP1 ≠ d.heldByP2 := by
      rcases locks with ⟨first, second⟩ | ⟨second, first⟩ <;> rw [first, second]
      · exact ⟨List.mem_cons_self, List.mem_cons_of_mem _ List.mem_cons_self, ne⟩
      · exact ⟨List.mem_cons_of_mem _ List.mem_cons_self, List.mem_cons_self, ne.symm⟩
    exact ⟨q, hq, named, members.1, members.2.1, members.2.2, right, left⟩

/-- Two processes over two locks, in opposite orders. -/
def ScriptedWorkload.crossed : ScriptedWorkload := ⟨[[.mutexPair 600 true]]⟩

/-- The first process takes its first lock, the second takes the other, and each then asks for the
lock of the other one. -/
def Command.crossing : List Command :=
  [.boot] ++ List.replicate 6 (.tick []) ++ [.timerInterrupt []] ++ List.replicate 7 (.tick [])

/-- A run in which the monitor finds the two members of a pair parked crosswise. -/
theorem scan_exact_crossed : ∃ mo : Moment ScriptedWorkload,
    Moment.Reachable (.start {} .crossed none) mo ∧ Arrival.Distinct mo.ledger.arrived ∧
    ∃ q ∈ mo.ledger.machine.pairs.pairs,
      mo.ledger.machine.locks.Awaited q.left.pid ∧ mo.ledger.machine.locks.Awaited q.right.pid := by
  have run : ((Machine.start {} ScriptedWorkload.crossed none).performAll
      Command.crossing).toOption.any
      (fun m => (m.monitor.scan m.pairs m.locks).1 != []) = true := by decide +kernel
  obtain ⟨mo, reachable, -, found⟩ := Moment.exists_reachable_of_performAll run
  have distinct := (Moment.distinct_of_library reachable).2
  obtain ⟨exact, cycles⟩ := scan_exact reachable distinct mo.ledger.machine.monitor
  obtain ⟨d, hd⟩ := List.exists_mem_of_ne_nil _ (bne_iff_ne.1 found)
  obtain ⟨q, hq, named, -⟩ := cycles d hd
  exact ⟨mo, reachable, distinct, q, hq, (exact q hq).1 ⟨d, hd, named⟩⟩

end Mlfq
