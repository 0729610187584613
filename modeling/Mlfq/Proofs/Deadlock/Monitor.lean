import Mlfq.Proofs.Deadlock.Exact
import Mlfq.Proofs.Story.Basic

/-! # What the deadlock monitor remembers

The monitor remembers every pair that it has ever found, each once. A pair is news exactly when it
is not remembered yet, so that what is told about a scan is what the scan adds to the memory. -/

namespace Mlfq

/-- The pairs whose deadlock is reported by these events, in the order of the reports. -/
def reports (events : List Event) : List (Pid × Pid) := events.filterMap Event.pair?

@[simp] theorem reports_append (as bs : List Event) :
    reports (as ++ bs) = reports as ++ reports bs := List.filterMap_append ..

namespace DeadlockMonitor

/-- The monitor after it has found the pair `x`. -/
def remember (monitor : DeadlockMonitor) (x : Pid × Pid) : DeadlockMonitor :=
  { monitor with reported := monitor.reported.insert x, deadlocked := true }

/-- The pairs that a scan finds for the first time. -/
def news (found : List Deadlock) : List (Pid × Pid) := reports (found.filterMap Deadlock.news?)

variable {t : LockTable} {pairs : List MutexPair} {q : MutexPair}

theorem inspect_of_none (h : q.cycle? t = none) (monitor : DeadlockMonitor) :
    inspect t (q :: pairs) monitor = inspect t pairs monitor := by
  rw [inspect, h]

theorem inspect_of_some {a b : LockId} (h : q.cycle? t = some (a, b)) (monitor : DeadlockMonitor) :
    inspect t (q :: pairs) monitor =
      let x := (q.left.pid, q.right.pid)
      let (found, after) := inspect t pairs (monitor.remember x)
      ({ p1 := x.1, p2 := x.2, heldByP1 := a, heldByP2 := b,
         firstSeen := !monitor.reported.contains x } :: found, after) := by
  have memory : (if (!monitor.reported.contains (q.left.pid, q.right.pid)) = true then
      (q.left.pid, q.right.pid) :: monitor.reported else monitor.reported) =
      monitor.reported.insert (q.left.pid, q.right.pid) := by
    rw [List.insert]
    cases monitor.reported.elem (q.left.pid, q.right.pid) <;> simp
  rw [inspect, h]
  simp only [memory]
  rfl

theorem news_cons (d : Deadlock) (found : List Deadlock) :
    news (d :: found) = if d.firstSeen then (d.p1, d.p2) :: news found else news found := by
  unfold news reports Deadlock.news?
  cases seen : d.firstSeen <;> simp [seen, Event.pair?]

/-- An inspection adds what is news to the memory and forgets nothing. -/
theorem reported_inspect (t : LockTable) (pairs : List MutexPair) (monitor : DeadlockMonitor) :
    (inspect t pairs monitor).2.reported =
      (news (inspect t pairs monitor).1).reverse ++ monitor.reported := by
  induction pairs generalizing monitor with
  | nil => rfl
  | cons q pairs ih =>
    cases hq : q.cycle? t with
    | none => rw [inspect_of_none hq, ih]
    | some held =>
      simp only [inspect_of_some hq, news_cons, ih, remember]
      by_cases known : (q.left.pid, q.right.pid) ∈ monitor.reported
      · simp [known]
      · simp [known]

theorem nodup_inspect (t : LockTable) (pairs : List MutexPair) {monitor : DeadlockMonitor}
    (h : monitor.reported.Nodup) : (inspect t pairs monitor).2.reported.Nodup := by
  induction pairs generalizing monitor with
  | nil => exact h
  | cons q pairs ih =>
    cases hq : q.cycle? t with
    | none =>
      rw [inspect_of_none hq]
      exact ih h
    | some held =>
      rw [inspect_of_some hq]
      exact ih h.insert

/-- What is found is remembered. -/
theorem mem_reported_of_mem_inspect {monitor : DeadlockMonitor} {d : Deadlock}
    (h : d ∈ (inspect t pairs monitor).1) :
    (d.p1, d.p2) ∈ (inspect t pairs monitor).2.reported := by
  induction pairs generalizing monitor with
  | nil => cases h
  | cons q pairs ih =>
    cases hq : q.cycle? t with
    | none =>
      rw [inspect_of_none hq] at h ⊢
      exact ih h
    | some held =>
      rw [inspect_of_some hq] at h ⊢
      rcases List.mem_cons.1 h with rfl | h
      · rw [reported_inspect]
        exact List.mem_append_right _ List.mem_insert_self
      · exact ih h

theorem scans_inspect (t : LockTable) (pairs : List MutexPair) (monitor : DeadlockMonitor) :
    (inspect t pairs monitor).2.scans = monitor.scans := by
  induction pairs generalizing monitor with
  | nil => rfl
  | cons q pairs ih =>
    cases hq : q.cycle? t with
    | none => rw [inspect_of_none hq, ih]
    | some held =>
      rw [inspect_of_some hq]
      exact ih _

theorem deadlocked_inspect (t : LockTable) (pairs : List MutexPair) {monitor : DeadlockMonitor}
    (h : monitor.deadlocked = true) : (inspect t pairs monitor).2.deadlocked = true := by
  induction pairs generalizing monitor with
  | nil => exact h
  | cons q pairs ih =>
    cases hq : q.cycle? t with
    | none =>
      rw [inspect_of_none hq]
      exact ih h
    | some held =>
      rw [inspect_of_some hq]
      exact ih rfl

/-- The monitor says that there was a deadlock exactly when it remembers one. -/
def Honest (monitor : DeadlockMonitor) : Prop :=
  monitor.deadlocked = true ↔ monitor.reported ≠ []

theorem Honest.remember (monitor : DeadlockMonitor) (x : Pid × Pid) :
    (monitor.remember x).Honest :=
  iff_of_true rfl (List.ne_nil_of_mem List.mem_insert_self)

theorem Honest.inspect (t : LockTable) (pairs : List MutexPair) {monitor : DeadlockMonitor}
    (h : monitor.Honest) : (inspect t pairs monitor).2.Honest := by
  induction pairs generalizing monitor with
  | nil => exact h
  | cons q pairs ih =>
    cases hq : q.cycle? t with
    | none =>
      rw [inspect_of_none hq]
      exact ih h
    | some held =>
      rw [inspect_of_some hq]
      exact ih (.remember monitor _)

/-! ## Scans -/

section Scans

variable (monitor : DeadlockMonitor) (pairs : MutexPairs) (t : LockTable)

@[simp] theorem scans_scan : (monitor.scan pairs t).2.scans = monitor.scans + 1 := scans_inspect ..

theorem reported_scan : (monitor.scan pairs t).2.reported =
    (news (monitor.scan pairs t).1).reverse ++ monitor.reported := reported_inspect ..

variable {monitor pairs t}

theorem nodup_scan (h : monitor.reported.Nodup) : (monitor.scan pairs t).2.reported.Nodup :=
  nodup_inspect _ _ h

theorem deadlocked_scan (h : monitor.deadlocked = true) :
    (monitor.scan pairs t).2.deadlocked = true := deadlocked_inspect _ _ h

theorem Honest.scan (h : monitor.Honest) : (monitor.scan pairs t).2.Honest :=
  .inspect t pairs.pairs h

/-- A pair in a cycle is found and remembered. -/
theorem mem_reported_scan_of_cycle? {q : MutexPair} (hq : q ∈ pairs.pairs)
    (h : (q.cycle? t).isSome) : (q.left.pid, q.right.pid) ∈ (monitor.scan pairs t).2.reported := by
  obtain ⟨d, hd, left, right⟩ := exists_mem_inspect_of_cycle? hq h
  rw [← left, ← right]
  exact mem_reported_of_mem_inspect hd

end Scans
end DeadlockMonitor
end Mlfq
