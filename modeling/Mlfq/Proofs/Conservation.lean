import Mlfq.Proofs.Channel.Binding
import Mlfq.Proofs.Run.Command
import Mlfq.Proofs.Scene.Places

/-! # No process is lost

Whoever has arrived is in one place, once, until it is dropped after its end. -/

namespace Mlfq

open Queue (cores)

namespace Scene

variable {s s' : Scene}

/-- The books balance as long as nobody is parked on a channel that goes. -/
theorem balanced_of_steps (fresh : s.Fresh) (steps : Steps s s')
    (distinct : Arrival.Distinct s'.arrived) (coupled : ∀ a ∈ s'.arrived, a.Coupled) :
    outlines s'.books = guests s'.arrived := by
  induction steps with
  | refl =>
    rw [fresh.books, fresh.arrived]
    rfl
  | @tail s₁ s₂ steps step ih =>
    have earlier := arrived_prefix_of_step step
    have distinct₁ := distinct_of_prefix earlier distinct
    have coupled₁ : ∀ a ∈ s₁.arrived, a.Coupled := fun a ha => coupled a (earlier.subset ha)
    have tidy := tidy_of_steps fresh steps
    have ih := ih distinct₁ coupled₁
    rcases Step.books tidy step with kept | come | closed
    · rw [kept.1, kept.2, ih]
    · obtain ⟨a, arrived, books⟩ := come
      rw [arrived, books, guests_concat, outlines_add, outlines_profiles, outlines_enrolled, ih]
    · obtain ⟨p, rest, id, c, zombie, -, found, goes, same, lost⟩ := closed
      have bound := bound_of_steps fresh steps coupled₁
      have nobody := bound.parked_eq_nil_of_close tidy (fresh.lawful steps distinct₁) zombie found
        goes
      rw [nobody, Queue.cores_nil, profiles_zero, add_zero] at lost
      rw [same, lost, ih]

/-- Who has arrived is somewhere or was dropped. -/
theorem mem_or_mem_dropped (balanced : outlines s.books = guests s.arrived) {pid : Pid} :
    pid ∈ (s.arrived.flatMap Arrival.procs).map (·.pid) ↔
      pid ∈ s.population.map (·.pid) ∨ pid ∈ s.dropped.map (·.pid) := by
  rw [← Multiset.mem_coe, ← map_pid_guests, ← balanced, map_pid_books, Multiset.mem_add,
    Multiset.mem_coe]

end Scene

/-- Everybody who has arrived is in one place or was dropped, and nobody else is anywhere. -/
structure Ledger.Conserves {σ : Type} (l : Ledger σ) : Prop where
  arrived : ∀ pid ∈ (l.arrived.flatMap Arrival.procs).map (·.pid),
    pid ∈ l.dropped.map (·.pid) ∧ l.machine.Lacks pid ∨
    pid ∉ l.dropped.map (·.pid) ∧ ∃ place, l.machine.KeepsAt pid place
  others : ∀ pid ∉ (l.arrived.flatMap Arrival.procs).map (·.pid),
    pid ∉ l.dropped.map (·.pid) ∧ l.machine.Lacks pid
  dropped : (l.dropped.map (·.pid)).Nodup

/-- Nobody is lost or in two places, provided that all processes have different numbers and that
those with a channel arrive in pairs. -/
theorem Moment.conserves_of_distinct {σ : Type} [Workload σ] {config : Config} {workload : σ}
    {logLevel : Option Level} {mo : Moment σ}
    (reachable : Moment.Reachable (.start config workload logLevel) mo)
    (distinct : Arrival.Distinct mo.ledger.arrived)
    (coupled : ∀ a ∈ mo.ledger.arrived, a.Coupled) : mo.ledger.Conserves := by
  have steps := Scene.steps_of_reachable reachable
  have fresh := Scene.fresh_start config workload logLevel
  have tidy := Scene.tidy_of_steps fresh steps
  have lawful := fresh.lawful steps distinct
  have balanced := Scene.balanced_of_steps fresh steps distinct coupled
  have disjoint : ∀ pid ∈ mo.ledger.scene.population.map (·.pid),
      pid ∉ mo.ledger.dropped.map (·.pid) := by
    intro pid here gone
    obtain ⟨p, hp, rfl⟩ := Multiset.mem_map.1 here
    obtain ⟨q, hq, same⟩ := List.mem_map.1 gone
    exact lawful.pid_notMem_dropped hp hq same
  refine ⟨?_, ?_, Multiset.coe_nodup.1 (Multiset.nodup_add.1 lawful.nodup_books).2.1⟩
  · intro pid come
    rcases (Scene.mem_or_mem_dropped balanced).1 come with here | gone
    · exact .inr ⟨disjoint pid here, lawful.exists_keepsAt tidy here⟩
    · exact .inl ⟨gone, Scene.lacks_of_notMem tidy fun here => disjoint pid here gone⟩
  · intro pid unknown
    have absent := fun h => unknown ((Scene.mem_or_mem_dropped balanced).2 h)
    exact ⟨fun gone => absent (.inr gone), Scene.lacks_of_notMem tidy fun here =>
      absent (.inl here)⟩

/-- At every moment of every run, each process that has arrived is in one place or was dropped out
of the ended ones, provided that all processes have different numbers and that those with a channel
arrive in pairs. The workloads of the library see to both. -/
theorem conserves_of_reachable {σ : Type} [Workload σ] {config : Config} {workload : σ}
    {logLevel : Option Level} {mo : Moment σ}
    (reachable : Moment.Reachable (.start config workload logLevel) mo) :
    (Workload.Library σ →
      Arrival.Distinct mo.ledger.arrived ∧ ∀ a ∈ mo.ledger.arrived, a.Coupled) ∧
    (Arrival.Distinct mo.ledger.arrived → (∀ a ∈ mo.ledger.arrived, a.Coupled) →
      mo.ledger.Conserves) := by
  constructor
  · intro library
    obtain ⟨arrivals, distinct⟩ := Moment.distinct_of_library reachable
    exact ⟨distinct, fun a ha => (arrivals a ha).coupled⟩
  · exact Moment.conserves_of_distinct reachable

/-- A run in which a process has ended and is dropped while a rendezvous pair goes on. -/
theorem conserves_of_reachable_ended : ∃ mo : Moment ScriptedWorkload,
    Moment.Reachable (.start { zombieThreshold := 1 } ⟨[[.compute 1 1, .rendezvousPair 100]]⟩ none)
      mo ∧ mo.ledger.Conserves ∧
    mo.ledger.machine.census.computeBound = ⟨1, 1⟩ ∧ mo.ledger.machine.zombies = [] := by
  have run : ((Machine.start { zombieThreshold := 1 }
      (⟨[[.compute 1 1, .rendezvousPair 100]]⟩ : ScriptedWorkload) none).performAll
        [.boot, .tick [], .tick [], .tick []]).toOption.any
      (fun m => m.census.computeBound = ⟨1, 1⟩ && m.zombies.isEmpty) = true := by decide +kernel
  obtain ⟨mo, reachable, -, ended⟩ := Moment.exists_reachable_of_performAll run
  obtain ⟨library, conserves⟩ := conserves_of_reachable reachable
  obtain ⟨distinct, coupled⟩ := library inferInstance
  rw [Bool.and_eq_true, decide_eq_true_eq, List.isEmpty_iff] at ended
  exact ⟨mo, reachable, conserves distinct coupled, ended⟩

end Mlfq
