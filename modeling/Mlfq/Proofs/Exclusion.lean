import Mlfq.Proofs.Channel.Section

/-! # The lock of a channel guards its rendezvous

The two sides of a channel are never both in the section around a rendezvous point, and whoever is
in it holds the lock. -/

namespace Mlfq

variable {σ : Type}

/-- The lock of a channel guards the sections of its sides: whoever is in its section holds the
lock, so that the two are never both in it, and the body and the release of a rendezvous find the
lock with the process that raises them. -/
structure Ledger.GuardsSections (l : Ledger σ) : Prop where
  traps : ∀ p t m id, l.machine.Raises p t m →
    t = .rendezvousBody id ∨ t = .rendezvousRelease id →
    ∃ c, m.channels.get? id = some c ∧ c.lock.holder = some p.pid
  inside : ∀ id c, l.machine.channels.get? id = some c → ∀ place, ∀ r ∈ l.machine.resumingAt place,
    r.pid ∈ [c.producer, c.consumer] → r.InSection → c.lock.holder = some r.pid
  apart : ∀ id c, l.machine.channels.get? id = some c → ∀ place place',
    ∀ r ∈ l.machine.resumingAt place, ∀ r' ∈ l.machine.resumingAt place',
    r.pid = c.producer → r'.pid = c.consumer → ¬(r.InSection ∧ r'.InSection)

/-- The lock of every channel guards the sections of its sides at every moment of every run of a
library workload. -/
theorem guardsSections_of_reachable [Workload σ] [Workload.Library σ] {config : Config}
    {workload : σ} {logLevel : Option Level} {mo : Moment σ}
    (reachable : Moment.Reachable (.start config workload logLevel) mo) :
    mo.ledger.GuardsSections := by
  obtain ⟨library, distinct⟩ := Moment.distinct_of_library reachable
  have steps := Scene.steps_of_reachable reachable
  have fresh := Scene.fresh_start config workload logLevel
  have sided : ∀ a ∈ mo.ledger.arrived, a.Sided := fun a ha => (library a ha).sided
  have spaced : ∀ a ∈ mo.ledger.arrived, a.Spaced := fun a ha => (library a ha).spaced
  have regular := Scene.regular_of_steps fresh steps distinct sided spaced
  have guarded := Scene.guarded_of_steps fresh steps distinct sided spaced
  have inside : ∀ id c, mo.ledger.machine.channels.get? id = some c → ∀ place,
      ∀ r ∈ mo.ledger.machine.resumingAt place, r.pid ∈ [c.producer, c.consumer] →
      r.InSection → c.lock.holder = some r.pid := by
    intro id c found place r hr side inside
    have here := Scene.core_mem_population regular.met.tidy hr
    have uses := regular.channel?_of_side (p := r.core) here inside found side
    exact guarded r.core here id c uses found inside
  refine ⟨?_, inside, ?_⟩
  · intro p t m id raises trap
    obtain ⟨p', runs, channels⟩ := raises.exists_runs mo.ledger.arrived mo.ledger.dropped
    have request : t.channel? = some id := by rcases trap with rfl | rfl <;> rfl
    have other : t ≠ .rendezvousAcquire id := by rcases trap with rfl | rfl <;> exact nofun
    have here := runs.population_eq ▸ Multiset.mem_cons_self _ _
    have uses := runs.advances.channel?_eq ▸ Proc.channel?_of_trapAt runs.trap request
    obtain ⟨c, found⟩ := regular.reached _ here id uses
    exact ⟨c, channels ▸ found, guarded.holder_of_runs regular runs request found other⟩
  · rintro id c found place place' r hr r' hr' left right ⟨within, within'⟩
    have held := inside id c found place r hr (by simp [left]) within
    have held' := inside id c found place' r' hr' (by simp [right]) within'
    have same : r.pid = r'.pid := Option.some.inj (held.symm.trans held')
    rw [left, right] at same
    exact regular.met.seated.producer_ne_consumer distinct found same

/-- A run in which the producer of a pair has come into its section and is about to meet the
consumer, after the timer has stopped it on the way. -/
theorem guardsSections_of_reachable_meeting : ∃ mo : Moment ScriptedWorkload,
    Moment.Reachable (.start {} ⟨[[.rendezvousPair 100]]⟩ none) mo ∧ mo.ledger.GuardsSections ∧
    ∃ p m id, mo.ledger.machine.Raises p (.rendezvousBody id) m := by
  have run : ((Machine.start {} (⟨[[.rendezvousPair 100]]⟩ : ScriptedWorkload) none).performAll
      ([.boot, .tick [], .timerInterrupt []] ++ List.replicate 68 (.tick []))).toOption.any
      (fun m => m.running.isSome &&
        m.beginCycle.advance.toOption.any fun m₁ =>
          m₁.scanIfDue.pendingTrap.toOption.any fun t =>
            t.any (· = .rendezvousBody ⟨0⟩)) = true := by decide +kernel
  obtain ⟨mo, reachable, -, test⟩ := Moment.exists_reachable_of_performAll run
  rw [Bool.and_eq_true, Option.isSome_iff_exists] at test
  obtain ⟨⟨p, running⟩, test⟩ := test
  refine ⟨mo, reachable, guardsSections_of_reachable reachable, p, ?_⟩
  cases advance : mo.ledger.machine.beginCycle.advance with
  | error crash =>
    rw [advance] at test
    cases test
  | ok m₁ =>
    rw [advance] at test
    have test : m₁.scanIfDue.pendingTrap.toOption.any
      (fun t => t.any (· = .rendezvousBody ⟨0⟩)) = true := test
    cases trap : m₁.scanIfDue.pendingTrap with
    | error crash =>
      rw [trap] at test
      cases test
    | ok t =>
      rw [trap] at test
      have test : t.any (· = .rendezvousBody ⟨0⟩) = true := test
      obtain ⟨t', rfl, body⟩ := (Option.any_eq_true _ _).1 test
      rw [decide_eq_true_eq] at body
      exact ⟨m₁.scanIfDue, ⟨0⟩, running, m₁, advance, rfl, body ▸ trap⟩

end Mlfq
