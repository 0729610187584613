import Mlfq.Proofs.Scene.Turnover

/-! # The books balance

Everybody who has arrived is somewhere or was dropped, unless it was parked on a channel when the
channel was removed. Records are compared by their profiles, which only admission changes. -/

namespace Mlfq

open Queue (cores)

/-- The profiles of records. -/
def profiles (ps : Multiset Proc) : Multiset Proc := ps.map Proc.profile

@[simp] theorem profiles_zero : profiles 0 = 0 := rfl
@[simp] theorem profiles_add (ps qs : Multiset Proc) :
    profiles (ps + qs) = profiles ps + profiles qs := Multiset.map_add ..
@[simp] theorem profiles_cons (p : Proc) (ps : Multiset Proc) :
    profiles (p ::ₘ ps) = {p.profile} + profiles ps := by
  rw [profiles, Multiset.map_cons, ← Multiset.singleton_add]
  rfl

/-- The outlines of records. -/
def outlines (ps : Multiset Proc) : Multiset Proc := ps.map Proc.outline

@[simp] theorem outlines_add (ps qs : Multiset Proc) :
    outlines (ps + qs) = outlines ps + outlines qs := Multiset.map_add ..

@[simp] theorem outlines_profiles (ps : Multiset Proc) : outlines (profiles ps) = outlines ps := by
  simp [outlines, profiles, Function.comp_def]

theorem map_pid_outlines (ps : Multiset Proc) : (outlines ps).map (·.pid) = ps.map (·.pid) := by
  simp [outlines, Function.comp_def]

namespace Scene

/-- Everybody who is somewhere or was dropped. -/
def books (s : Scene) : Multiset Proc := profiles s.population + profiles (cores s.dropped)

/-- Everybody who comes with these arrivals. -/
def guests (arrived : List Arrival) : Multiset Proc :=
  outlines (cores (arrived.flatMap Arrival.procs))

variable {s s' : Scene}

theorem guests_concat (arrived : List Arrival) (a : Arrival) :
    guests (arrived ++ [a]) = outlines (cores a.procs) + guests arrived := by
  simp only [guests, List.flatMap_append, Queue.cores_append, outlines_add, List.flatMap_cons,
    List.flatMap_nil, List.append_nil]
  rw [add_comm]

/-- The channel that a process is given does not show in its outline. -/
theorem outlines_enrolled (s : Scene) (a : Arrival) :
    outlines (cores (s.enrolled a)) = outlines (cores a.procs) := by
  cases a with
  | single | mutexPair => rfl
  | rendezvousPair producer consumer => simp [enrolled, outlines, Arrival.procs]

theorem map_pid_enrolled (s : Scene) (a : Arrival) :
    (s.enrolled a).map (·.pid) = a.procs.map (·.pid) := by
  cases a with
  | single | mutexPair => rfl
  | rendezvousPair producer consumer => simp [enrolled, Arrival.procs]

/-! ## Steps -/

/-- A record that moves keeps its profile. -/
theorem books_of_move {p q : Proc} {others : Multiset Proc} (before : s.population = p ::ₘ others)
    (after : s'.population = q ::ₘ others) (profile : q.profile = p.profile)
    (dropped : s'.dropped = s.dropped) : s'.books = s.books := by
  rw [books, books, before, after, dropped, profiles_cons, profiles_cons, profile]

theorem books_of_come {newcomers : Multiset Proc}
    (population : s'.population = newcomers + s.population) (dropped : s'.dropped = s.dropped) :
    s'.books = profiles newcomers + s.books := by
  rw [books, books, population, dropped, profiles_add, add_assoc]

/-- A record that is dropped stays in the books. Others are lost with it. -/
theorem books_of_close {p : Proc} {lost : Multiset Proc}
    (population : s.population = p.core ::ₘ (s'.population + lost))
    (dropped : s'.dropped = s.dropped ++ [p]) : s'.books + profiles lost = s.books := by
  rw [books, books, population, dropped, Queue.cores_append, Queue.cores_cons, Queue.cores_nil,
    profiles_cons, profiles_add, profiles_add, profiles_cons, profiles_zero]
  abel

theorem books_of_drop {p : Proc} (population : s.population = p.core ::ₘ s'.population)
    (dropped : s'.dropped = s.dropped ++ [p]) : s'.books = s.books := by
  rw [← add_zero s'.population] at population
  rw [← books_of_close population dropped, profiles_zero, add_zero]

/-- What a step does to the books. Nothing, unless somebody arrives, or a channel goes and takes
with it who is parked on it. -/
theorem Step.books (tidy : s.Tidy) (step : Step s s') :
    (s'.arrived = s.arrived ∧ s'.books = s.books) ∨
    (∃ a, s'.arrived = s.arrived ++ [a] ∧
      s'.books = profiles (cores (s.enrolled a)) + s.books) ∨
    ∃ p rest id c, s.zombies = p :: rest ∧ p.channel? = some id ∧ s.channels.get? id = some c ∧
      (c.retire p.pid).isAbandoned = true ∧ s'.arrived = s.arrived ∧
      s'.books + profiles (cores c.parked) = s.books := by
  cases step with
  | scan | retire => exact .inl ⟨rfl, rfl⟩
  | single p =>
    exact .inr (.inl ⟨.single p, rfl, books_of_come (population_single s p _) rfl⟩)
  | mutexPair first second reversed =>
    exact .inr (.inl ⟨.mutexPair first second reversed, rfl,
      books_of_come (population_mutexPair s first second reversed _ _) rfl⟩)
  | rendezvousPair producer consumer =>
    exact .inr (.inl ⟨.rendezvousPair producer consumer, rfl,
      books_of_come (population_rendezvousPair s producer consumer _ _) rfl⟩)
  | goOn runs ignored =>
    obtain ⟨others, before, after⟩ := exists_population_goOn runs
    exact .inl ⟨rfl, books_of_move before after runs.advances.profile_eq rfl⟩
  | request runs found core =>
    obtain ⟨others, before, after⟩ := exists_population_request runs found core
    exact .inl ⟨rfl, books_of_move before after runs.advances.profile_eq rfl⟩
  | table runs request found serves =>
    obtain ⟨others, q, before, after, resumes⟩ := exists_population_table tidy runs found serves
    have profile := resumes.profile_eq.trans runs.advances.profile_eq
    exact .inl ⟨rfl, books_of_move before after profile rfl⟩
  | channel runs request found serves =>
    obtain ⟨others, q, before, after, same⟩ := exists_population_channel tidy runs found serves
    exact .inl ⟨rfl, books_of_move before after (same.trans runs.advances.profile_eq) rfl⟩
  | complete found =>
    obtain ⟨others, before, after⟩ := exists_population_complete found
    exact .inl ⟨rfl, books_of_move before after rfl rfl⟩
  | terminate running done core =>
    refine .inl ⟨rfl, ?_⟩
    rw [Scene.books, population_terminate running core]
    rfl
  | @dissolve p rest pairs a b zombie h =>
    refine .inl ⟨by rw [arrived_dropLock, arrived_dropLock], ?_⟩
    rw [Scene.books, population_dissolve tidy, dropped_dropLock, dropped_dropLock]
    rfl
  | drop zombie => exact .inl ⟨rfl, books_of_drop (population_drop zombie _) rfl⟩
  | leave zombie bound found stays =>
    exact .inl ⟨rfl, books_of_drop (population_leave tidy zombie found _) rfl⟩
  | @close p rest id c zombie bound found goes =>
    exact .inr (.inr ⟨p, rest, id, c, zombie, bound, found, goes, rfl,
      books_of_close (population_close tidy zombie found _) rfl⟩)

/-- Whoever is in the books was there before or has just arrived. -/
theorem Step.mem_books (tidy : s.Tidy) (step : Step s s') {p : Proc} (hp : p ∈ s'.books) :
    p ∈ s.books ∨
      ∃ a, s'.arrived = s.arrived ++ [a] ∧ ∃ q ∈ s.enrolled a, q.profile = p := by
  rcases Step.books tidy step with kept | come | closed
  · exact .inl (kept.2 ▸ hp)
  · obtain ⟨a, arrived, books⟩ := come
    rw [books] at hp
    rcases Multiset.mem_add.1 hp with new | old
    · obtain ⟨r, hr, rfl⟩ := Multiset.mem_map.1 new
      obtain ⟨q, hq, rfl⟩ := Queue.mem_cores.1 hr
      exact .inr ⟨a, arrived, q, hq, q.profile_core.symm⟩
    · exact .inl old
  · obtain ⟨p, rest, id, c, -, -, -, -, -, lost⟩ := closed
    rw [← lost]
    exact .inl (Multiset.mem_add.2 (.inl hp))

theorem profile_mem_books {p : Proc} (hp : p ∈ s.population) : p.profile ∈ s.books :=
  Multiset.mem_add.2 (.inl (Multiset.mem_map_of_mem _ hp))

theorem profile_mem_books_of_dropped {p : Proc} (hp : p ∈ s.dropped) : p.profile ∈ s.books := by
  rw [← p.profile_core]
  exact Multiset.mem_add.2 (.inr (Multiset.mem_map_of_mem _ (Queue.core_mem_cores hp)))

/-- The scene before anything has happened. -/
structure Fresh (s : Scene) : Prop where
  tidy : s.Tidy
  population : s.population = 0
  locks : s.locks.locks.keys = []
  channels : s.channels.keys = []
  pairs : s.pairs.pairs = []
  monitor : s.monitor.deadlocked = false
  arrived : s.arrived = []
  dropped : s.dropped = []

theorem Fresh.books (fresh : s.Fresh) : s.books = 0 := by
  rw [Scene.books, fresh.population, fresh.dropped]
  rfl

/-- Nobody is anywhere at first. -/
theorem Fresh.notMem_population (fresh : s.Fresh) (p : Proc) : p ∉ s.population := by
  rw [fresh.population]
  exact Multiset.notMem_zero p

theorem tidy_of_steps (fresh : s.Fresh) (steps : Steps s s') : s'.Tidy := fresh.tidy.steps steps

/-- Nobody is in two places, nobody comes back, and nobody comes from nowhere. -/
theorem books_le_guests (fresh : s.Fresh) (steps : Steps s s') :
    outlines s'.books ≤ guests s'.arrived := by
  induction steps with
  | refl =>
    rw [fresh.books]
    exact Multiset.zero_le _
  | @tail s₁ s₂ steps step ih =>
    rcases Step.books (tidy_of_steps fresh steps) step with kept | come | closed
    · rw [kept.1, kept.2]
      exact ih
    · obtain ⟨a, arrived, books⟩ := come
      rw [arrived, books, guests_concat, outlines_add, outlines_profiles, outlines_enrolled]
      exact Multiset.add_le_add_left ih
    · obtain ⟨p, rest, id, c, -, -, -, -, same, lost⟩ := closed
      rw [same]
      rw [← lost, outlines_add] at ih
      exact (Multiset.le_add_right _ _).trans ih

end Scene
end Mlfq
