import Mathlib.Data.List.Flatten
import Mathlib.Data.List.Pairwise
import Mlfq.Proofs.Scene.Books
import Mlfq.Proofs.Scene.Simulation

/-! # Processes are known by their numbers

When all arrivals carry different numbers, a number leads to one record at most, and what the
record can tell of its process is what arrived under the number. -/

namespace Mlfq

open Queue (cores)

/-- Lists that together have no repetition have no element in common. -/
theorem eq_of_nodup_flatMap {α β : Type} {f : α → List β} {as : List α} {a b : α} {x : β}
    (nodup : (as.flatMap f).Nodup) (ha : a ∈ as) (hb : b ∈ as) (hxa : x ∈ f a) (hxb : x ∈ f b) :
    a = b := by
  by_contra ne
  have disjoint := (List.nodup_flatMap.1 nodup).2
  have symm : Std.Symm (Function.onFun List.Disjoint f) := ⟨fun _ _ h => h.symm⟩
  exact disjoint.forall ha hb ne hxa hxb

/-- All processes of the arrivals have different numbers. -/
def Arrival.Distinct (arrived : List Arrival) : Prop :=
  ((arrived.flatMap Arrival.procs).map (·.pid)).Nodup

/-- A number belongs to one arrival. -/
theorem Arrival.Distinct.arrival_unique {arrived : List Arrival} (h : Arrival.Distinct arrived)
    {a b : Arrival} (ha : a ∈ arrived) (hb : b ∈ arrived) {pid : Pid}
    (mem : pid ∈ a.procs.map (·.pid)) (mem' : pid ∈ b.procs.map (·.pid)) : a = b := by
  rw [Arrival.Distinct, List.map_flatMap] at h
  exact eq_of_nodup_flatMap h ha hb mem mem'

/-- Who comes later has another number. -/
theorem Arrival.Distinct.pid_ne {arrived : List Arrival} {a : Arrival}
    (h : Arrival.Distinct (arrived ++ [a])) {x y : Pid}
    (hx : x ∈ (arrived.flatMap Arrival.procs).map (·.pid)) (hy : y ∈ a.procs.map (·.pid)) :
    x ≠ y := by
  rw [Arrival.Distinct, List.flatMap_append, List.map_append, List.nodup_append] at h
  apply h.2.2 x hx y
  rwa [List.flatMap_cons, List.flatMap_nil, List.append_nil]

namespace Scene

variable {s s' : Scene}

theorem fresh_start {σ : Type} (config : Config) (workload : σ) (logLevel : Option Level) :
    ({ machine := .start config workload logLevel } : Ledger σ).scene.Fresh := by
  have devices : (List.replicate config.ioDevices ({} : Device)).map (·.queue) =
      List.replicate config.ioDevices [] := List.map_replicate ..
  refine ⟨⟨⟨List.nodup_nil, by simp [Ledger.scene, Machine.start, Registry.keys], ?_⟩,
    List.nodup_nil, by simp [Ledger.scene, Machine.start, Registry.keys]⟩, ?_, rfl, rfl, rfl, rfl,
    rfl, rfl⟩
  · intro id l found
    cases found
  · simp [population, parked, Ledger.scene, Machine.start, Machine.onCpu, devices, LockTable.toList,
      Registry.values]

theorem arrived_prefix_of_step (step : Step s s') : s.arrived <+: s'.arrived := by
  cases step with
  | single | mutexPair | rendezvousPair => exact List.prefix_append ..
  | dissolve => simp only [arrived_dropLock, List.prefix_rfl]
  | _ => exact List.prefix_rfl

/-- Who was dropped stays so. -/
theorem arrived_prefix_of_steps (steps : Steps s s') : s.arrived <+: s'.arrived := by
  induction steps with
  | refl => exact List.prefix_rfl
  | tail _ step ih => exact ih.trans (arrived_prefix_of_step step)

theorem dropped_prefix_of_step (step : Step s s') : s.dropped <+: s'.dropped := by
  cases step with
  | drop | leave | close => exact List.prefix_append ..
  | dissolve => simp only [dropped_dropLock, List.prefix_rfl]
  | _ => exact List.prefix_rfl

/-- The numbers of everybody who is somewhere or was dropped. -/
theorem map_pid_books (s : Scene) : (outlines s.books).map (·.pid) =
    s.population.map (·.pid) + (s.dropped.map (·.pid) : List Pid) := by
  rw [books, outlines_add, outlines_profiles, outlines_profiles, Multiset.map_add, map_pid_outlines,
    map_pid_outlines, Queue.map_pid_cores]

theorem map_pid_guests (arrived : List Arrival) : (guests arrived).map (·.pid) =
    ((arrived.flatMap Arrival.procs).map (·.pid) : List Pid) := by
  rw [guests, map_pid_outlines, Queue.map_pid_cores]

/-- The scene is one of a run in which all processes so far have different numbers. -/
structure Lawful (s : Scene) : Prop where
  books : outlines s.books ≤ guests s.arrived
  distinct : Arrival.Distinct s.arrived

namespace Lawful

theorem nodup_books (h : s.Lawful) :
    (s.population.map (·.pid) + (s.dropped.map (·.pid) : List Pid)).Nodup := by
  rw [← map_pid_books]
  apply Multiset.nodup_of_le (Multiset.map_le_map h.books)
  rw [map_pid_guests]
  exact Multiset.coe_nodup.2 h.distinct

theorem nodup (h : s.Lawful) : (s.population.map (·.pid)).Nodup :=
  Multiset.nodup_of_le (Multiset.le_add_right _ _) h.nodup_books

/-- A process is not in two places. -/
theorem pid_ne (h : s.Lawful) {p q : Proc} {rest : Multiset Proc}
    (hp : s.population = p ::ₘ rest) (hq : q ∈ rest) : q.pid ≠ p.pid := by
  have nodup := h.nodup
  rw [hp, Multiset.map_cons, Multiset.nodup_cons] at nodup
  exact fun same => nodup.1 (Multiset.mem_map.2 ⟨q, hq, same⟩)

theorem pid_notMem_dropped (h : s.Lawful) {p q : Proc} (hp : p ∈ s.population)
    (hq : q ∈ s.dropped) : q.pid ≠ p.pid := by
  have disjoint := (Multiset.nodup_add.1 h.nodup_books).2.2
  intro same
  apply Multiset.disjoint_left.1 disjoint (Multiset.mem_map_of_mem _ hp)
  exact Multiset.mem_coe.2 (List.mem_map.2 ⟨q, hq, same⟩)

/-- Everybody who is somewhere or was dropped has arrived. -/
theorem outline_mem (h : s.Lawful) {p : Proc} (hp : p.profile ∈ s.books) :
    ∃ q ∈ s.arrived.flatMap Arrival.procs, q.outline = p.outline := by
  have mem : p.profile.outline ∈ guests s.arrived :=
    Multiset.mem_of_le h.books (Multiset.mem_map_of_mem _ hp)
  rw [guests, outlines, Queue.map_outline_cores, Multiset.mem_coe] at mem
  exact List.mem_map.1 mem

theorem pid_mem_arrived (h : s.Lawful) {p : Proc} (hp : p.profile ∈ s.books) :
    p.pid ∈ (s.arrived.flatMap Arrival.procs).map (·.pid) := by
  obtain ⟨q, hq, same⟩ := h.outline_mem hp
  exact List.mem_map.2 ⟨q, hq, congrArg (·.pid) same⟩

/-- What arrived under the number of a process is that process. -/
theorem outline_eq (h : s.Lawful) {p q : Proc} (hp : p.profile ∈ s.books)
    (hq : q ∈ s.arrived.flatMap Arrival.procs) (same : q.pid = p.pid) : q.outline = p.outline := by
  obtain ⟨r, hr, outline⟩ := h.outline_mem hp
  have pid : r.pid = q.pid := (congrArg Proc.pid outline).trans same.symm
  rw [← List.inj_on_of_nodup_map h.distinct hr hq pid, outline]

end Lawful

theorem Fresh.lawful (fresh : s.Fresh) (steps : Steps s s')
    (distinct : Arrival.Distinct s'.arrived) : s'.Lawful := ⟨books_le_guests fresh steps, distinct⟩

theorem distinct_of_prefix {as bs : List Arrival} (h : as <+: bs) (distinct : Arrival.Distinct bs) :
    Arrival.Distinct as := by
  obtain ⟨rest, rfl⟩ := h
  rw [Arrival.Distinct, List.flatMap_append, List.map_append] at distinct
  exact distinct.of_append_left

end Scene
end Mlfq
