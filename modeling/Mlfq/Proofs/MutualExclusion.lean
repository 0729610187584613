import Mlfq.Proofs.Channel.Points
import Mlfq.Proofs.Channel.Rendezvous
import Mlfq.Proofs.Deadlock.Exact
import Mlfq.Proofs.Mutex.Holding
import Mlfq.Proofs.Story.Growth

/-! # The locks of a mutex pair exclude its members

Where only the holder of a lock can release it, a mutex user that has waited for a lock holds it
until the release that ends the round. So the two members of a pair are never both within a round on
the same lock. The try rounds use the same locks, but they take a lock only if it is free. -/

namespace Mlfq

open Queue (cores)

namespace Scene

variable {s s' : Scene} {p p₁ p' : Proc}

theorem strict_of_step (step : Step s s') : s'.strict = s.strict := by
  cases step with
  | dissolve => rw [strict_dropLock, strict_dropLock]
  | _ => rfl

theorem strict_of_steps (steps : Steps s s') : s'.strict = s.strict := by
  induction steps with
  | refl => rfl
  | tail _ step ih => exact (strict_of_step step).trans ih

/-! ## Pairs that stay -/

/-- A mutex pair whose members never end is still there. -/
def KeepsPairs (s : Scene) : Prop :=
  ∀ first second reversed, .mutexPair first second reversed ∈ s.arrived →
    first.terminateAfter = 0 → second.terminateAfter = 0 →
    ∃ q ∈ s.pairs.pairs, q.pids = [first.pid, second.pid]

namespace KeepsPairs

/-- Nothing changes as long as no pair comes or goes. -/
theorem frame (h : s.KeepsPairs) (pairs : s'.pairs = s.pairs)
    (arrived : ∀ first second reversed, .mutexPair first second reversed ∈ s'.arrived →
      .mutexPair first second reversed ∈ s.arrived) : s'.KeepsPairs := by
  intro first second reversed come endless endless'
  rw [pairs]
  exact h first second reversed (arrived first second reversed come) endless endless'

/-- Only a pair with a member that has ended is touched when an ended process goes. -/
theorem retire (h : s.KeepsPairs) (lawful : s.Lawful) (ended : s.Ended) {rest : Queue}
    (zombie : s.zombies = p :: rest)
    (pairs : s'.pairs.pairs = (MutexPairs.retire p.pid s.pairs.pairs).2)
    (arrived : s'.arrived = s.arrived) : s'.KeepsPairs := by
  intro first second reversed come endless endless'
  rw [arrived] at come
  obtain ⟨q, hq, pids⟩ := h first second reversed come endless endless'
  have gone : p ∈ s.zombies ∨ p ∈ s.dropped := .inl (zombie ▸ List.mem_cons_self)
  have guest : ∀ g ∈ [first, second], g ∈ s.arrived.flatMap Arrival.procs := fun g hg =>
    List.mem_flatMap.2 ⟨_, come, hg⟩
  have other : p.pid ∉ q.pids := by
    rw [pids]
    intro member
    rcases List.mem_pair.1 member with own | own
    · exact ended.pid_ne lawful (guest first List.mem_cons_self) endless gone own
    · exact ended.pid_ne lawful (guest second (by simp)) endless' gone own
  exact ⟨q, pairs ▸ MutexPairs.mem_retire hq other, pids⟩

theorem step (h : s.KeepsPairs) (lawful : s.Lawful) (ended : s.Ended) (step : Step s s') :
    s'.KeepsPairs := by
  cases step with
  | single p => exact h.frame rfl fun _ _ _ come => by simpa using come
  | rendezvousPair producer consumer => exact h.frame rfl fun _ _ _ come => by simpa using come
  | mutexPair first second reversed =>
    intro first' second' reversed' come endless endless'
    rcases List.mem_append.1 come with old | new
    · obtain ⟨q, hq, pids⟩ := h first' second' reversed' old endless endless'
      exact ⟨q, List.mem_append_left _ hq, pids⟩
    · cases List.mem_singleton.1 new
      refine ⟨_, List.mem_append_right _ List.mem_cons_self, ?_⟩
      cases reversed <;> rfl
  | retire zombie hr => exact h.retire lawful ended zombie (by rw [hr]) rfl
  | dissolve zombie hr =>
    refine h.retire lawful ended zombie ?_ ?_
    · rw [pairs_dropLock, pairs_dropLock, hr]
    · rw [arrived_dropLock, arrived_dropLock]
  | _ => exact h.frame rfl fun _ _ _ come => come

end KeepsPairs

theorem keepsPairs_of_steps (fresh : s.Fresh) (steps : Steps s s')
    (distinct : Arrival.Distinct s'.arrived) : s'.KeepsPairs := by
  induction steps with
  | refl =>
    intro first second reversed come
    rw [fresh.arrived] at come
    cases come
  | @tail s₁ s₂ steps step ih =>
    have distinct := distinct_of_prefix (arrived_prefix_of_step step) distinct
    exact (ih distinct).step (fresh.lawful steps distinct) (ended_of_steps fresh steps) step

/-! ## Rounds -/

/-- Whoever is within a round in which it has waited for a lock holds the lock. -/
def Secured (s : Scene) : Prop :=
  ∀ p ∈ s.population, p.plan = .mutex .standard → ∀ mem, s.pairs.find? p.pid = some mem →
    ∀ which, MutexProgram.standard.InBlocking which p.pc → s.locks.HeldBy (mem.lock which) p.pid

namespace Secured

open MutexProgram (standard)

/-- A process that starts is in no round. -/
theorem not_inBlocking_zero (which : WhichLock) : ¬standard.InBlocking which 0 := by
  intro inside
  rcases inside.pred with opening | ⟨before, next, -⟩
  · exact Nat.lt_irrefl 0 (MutexProgram.pos_of_mem_standard opening)
  · cases next

/-- A process that is within a round after a step was so before, or it has just come to the point at
which the round begins. -/
theorem inBlocking_of_advances (advances : p.Advances p') {which : WhichLock}
    (inside : standard.InBlocking which p'.pc) :
    p'.pc ∈ (standard.set .lock which).points ∨ standard.InBlocking which p.pc := by
  cases advances with
  | step =>
    rcases inside.pred with opening | ⟨before, next, within⟩
    · exact .inl opening
    · cases next
      exact .inr within
  | wrap => exact absurd inside (not_inBlocking_zero which)

variable (h : s.Secured) (tidy : s.Tidy) (paired : s.Paired)

include h paired in
/-- A process goes on. -/
theorem goesOn {rest : Multiset Proc} {t : Option Trap} (runs : s.Runs p p' rest t)
    (ignored : ∀ t' ∈ t, s.Ignores p' t') (plan : p'.plan = .mutex standard) {mem : PairMember}
    (found : s.pairs.find? p'.pid = some mem) {which : WhichLock}
    (inside : standard.InBlocking which p'.pc) : s.locks.HeldBy (mem.lock which) p'.pid := by
  have here : p ∈ s.population := runs.population_eq ▸ Multiset.mem_cons_self p _
  rcases inBlocking_of_advances runs.advances inside with opening | within
  · -- The trap at the opening point is not ignored.
    have trap := runs.trap
    rw [trapAt_of_member plan found, MutexProgram.orderly_standard.trapAt_eq opening] at trap
    cases trap
    have missing : s.locks.get? (mem.lock which) = none := ignored _ rfl
    obtain ⟨l, there⟩ := paired.exists_lock found which
    rw [missing] at there
    cases there
  · rw [runs.advances.pid_eq] at found ⊢
    exact h p here (runs.advances.plan_eq.symm.trans plan) mem found which within

include h tidy paired in
/-- A process is served by a lock. -/
theorem served {rest : Multiset Proc} {t : Trap} {id : LockId} {r : Lock.Request} {l l' : Lock}
    {out : Multiset Proc} (runs : s.Runs p p₁ rest (some t))
    (request : t.tableRequest? = some (id, r)) (there : s.locks.get? id = some l)
    (serves : Lock.Serves p₁ r l l' out) (resumes : Lock.Resumes p₁ r l l' p')
    (plan : p'.plan = .mutex standard) {mem : PairMember}
    (found : s.pairs.find? p'.pid = some mem) {which : WhichLock}
    (inside : standard.InBlocking which p'.pc) :
    (s.locks.set l').HeldBy (mem.lock which) p'.pid := by
  have here : p ∈ s.population := runs.population_eq ▸ Multiset.mem_cons_self p _
  have pid : p'.pid = p₁.pid := congrArg (·.pid) resumes.profile_eq
  have plan₁ : p₁.plan = .mutex standard := (congrArg (·.plan) resumes.profile_eq).symm.trans plan
  rw [pid] at found ⊢
  obtain ⟨action, which', own, asked, point⟩ := runs.exists_action plan₁ found request
  have before : standard.InBlocking which p.pc → s.locks.HeldBy (mem.lock which) p₁.pid := by
    intro within
    rw [runs.advances.pid_eq] at found ⊢
    exact h p here (runs.advances.plan_eq.symm.trans plan₁) mem found which within
  cases resumes with
  | on taken =>
    rcases inBlocking_of_advances runs.advances inside with opening | within
    · -- It has asked for the lock and got it.
      have trap := runs.trap
      rw [trapAt_of_member plan₁ found, MutexProgram.orderly_standard.trapAt_eq opening] at trap
      cases trap
      cases request
      exact (tidy.locks.heldBy_set there serves.id_eq).2 (taken rfl)
    · refine heldBy_set_of_own tidy there serves (before within) fun same => ?_
      have this : which' = which := paired.lock_injective tidy found (own.symm.trans same.symm)
      rw [asked]
      exact MutexProgram.request_ne_release_of_inBlocking inside (this ▸ point)
  | back asks =>
    -- It resumes where it was before, and was not in the way of a release.
    have within : standard.InBlocking which p.pc := by
      have pos := MutexProgram.pos_of_mem_standard point
      cases runs.advances with
      | step => exact inside
      | wrap => exact absurd pos (Nat.lt_irrefl 0)
    refine heldBy_set_of_own tidy there serves (before within) fun _ => ?_
    rw [asks]
    exact nofun

include h tidy paired in
theorem step (paired' : s'.Paired) (lawful : s.Lawful) (io : s.ServesIo)
    (distinct : Arrival.Distinct s'.arrived) (strict : s.strict = true)
    (start : ∀ a ∈ s'.arrived, a.Spaced) (step : Step s s') : s'.Secured := by
  intro p' hp plan mem found which inside
  cases step.fares tidy paired lawful io distinct hp plan with
  | @arrives a arrived enrolled =>
    have come : a ∈ s'.arrived := arrived ▸ List.mem_append_right _ List.mem_cons_self
    obtain ⟨q, hq, rfl⟩ := Queue.mem_cores.1 enrolled
    rw [Proc.pc_core, ((start a come).of_enrolled hq).1] at inside
    exact absurd inside (not_inBlocking_zero which)
  | stays here member gained kept =>
    obtain ⟨mem₀, found₀, same⟩ := member mem found
    obtain ⟨l', there⟩ := paired'.exists_lock found which
    refine kept strict _ l' there ?_
    rw [← same]
    exact h p' here plan mem₀ found₀ which inside
  | goesOn runs ignored pairs locks =>
    rw [locks]
    rw [pairs] at found
    exact h.goesOn paired runs ignored plan found inside
  | served runs request there serves resumes pairs locks =>
    rw [locks]
    rw [pairs] at found
    exact h.served tidy paired runs request there serves resumes plan found inside

end Secured

theorem secured_of_steps (fresh : s.Fresh) (steps : Steps s s')
    (distinct : Arrival.Distinct s'.arrived) (start : ∀ a ∈ s'.arrived, a.Spaced)
    (strict : s.strict = true) : s'.Secured := by
  induction steps with
  | refl => exact fun p hp => absurd hp (fresh.notMem_population p)
  | @tail s₁ s₂ steps step ih =>
    have arrived := arrived_prefix_of_step step
    have earlier := distinct_of_prefix arrived distinct
    have before := ih earlier fun a ha => start a (arrived.subset ha)
    exact before.step (tidy_of_steps fresh steps) (paired_of_steps fresh steps)
      (paired_of_steps fresh (steps.tail step)) (fresh.lawful steps earlier)
      (servesIo_of_steps fresh steps) distinct ((strict_of_steps steps).trans strict) start step

end Scene

/-! ## Runs -/

variable {σ : Type}

namespace Machine

variable {m m' : Machine σ} {p : Proc} {t : Trap}

/-- The step of the process that raises a trap, and the scan after it, leave the locks alone. -/
theorem Raises.frame (h : m.Raises p t m') : m'.runningPid? = some p.pid ∧
    m'.locks = m.locks ∧ m'.config = m.config := by
  obtain ⟨running, m₁, advance, rfl, -⟩ := h
  obtain ⟨q, pc, rfl, advances⟩ := Scene.exists_of_advance (m := m.beginCycle) running advance
  have pid : q.pid = p.pid := advances.pid_eq
  have step : ({ m.beginCycle with running := some q, cpuPc := pc } : Machine σ).runningPid? =
      some p.pid := congrArg some pid
  obtain ⟨sinceScan, monitor, journal, scan⟩ := Scene.scanIfDue_eq
    ({ m.beginCycle with running := some q, cpuPc := pc } : Machine σ)
  rw [scan]
  exact ⟨step, rfl, rfl⟩

/-- What the release of a lock tells: the process that released it, which is the running one, held
it if the configuration is strict. -/
def OwnRelease (m : Machine σ) (e : Event) : Prop :=
  ∀ pid id woken, e = .lockReleased pid id woken →
    m.runningPid? = some pid ∧ m.locks.HeldBy id pid

theorem OwnRelease.of_not_isRelease {e : Event} (h : e.isRelease = false) : m.OwnRelease e := by
  rintro pid id woken rfl
  cases h

theorem grows_unlock (m : Machine σ) (strict : m.config.strictUnlock = true) (id : LockId) :
    m.journal.Grows m.OwnRelease (m.unlock id).journal := by
  unfold unlock
  split
  · rename_i p l running found
    split
    · exact .event (.refl _) nofun _
    · rename_i skip
      rw [strict, Bool.true_and, Bool.not_eq_true', Bool.not_eq_false, Lock.isHeldBy,
        beq_iff_eq] at skip
      dsimp only
      split
      · refine .event (.refl _) ?_ _
        rintro pid id' woken same
        cases same
        exact ⟨congrArg (Option.map Proc.pid) running, l, found, skip⟩
      · exact .refl _
  · exact .refl _

/-- Where only the holder of a lock can release it, every release is told of its holder. -/
theorem grows_handleTrap (m : Machine σ) (strict : m.config.strictUnlock = true) (t : Trap) :
    m.journal.Grows m.OwnRelease (m.handleTrap t).2.journal := by
  let m₀ := m.measure fun c => { c with traps := c.traps.increment t.label }
  cases t with
  | unlock id | tryUnlock id => exact m₀.grows_unlock strict id
  | rendezvousBody id => exact (m₀.grows_rendezvous id).mono fun _ => .of_not_isRelease
  | _ =>
    exact (routine_handleTrap m (by simp)).journal.mono fun _ plain => .of_not_isRelease plain.2

theorem OwnRelease.of_raises (raises : m.Raises p t m') {e : Event} (h : m'.OwnRelease e) :
    m.OwnRelease e := by
  obtain ⟨pid, locks, -⟩ := raises.frame
  intro pid' id woken same
  obtain ⟨running, held⟩ := h pid' id woken same
  refine ⟨?_, locks ▸ held⟩
  rw [← running, pid]
  exact congrArg (Option.map Proc.pid) raises.1

end Machine

theorem Moment.Next.grows [Workload σ] {mo mo' : Moment σ} (next : Next mo mo')
    (strict : mo.ledger.machine.config.strictUnlock = true) :
    mo.ledger.machine.journal.Grows mo.ledger.machine.OwnRelease mo'.ledger.machine.journal := by
  rcases next.routine_or_raises with routine | ⟨p, t, m₁, raises, handled⟩
  · exact routine.journal.mono fun _ plain => .of_not_isRelease plain.2
  · have config : m₁.config = mo.ledger.machine.config := raises.frame.2.2
    have released := (m₁.grows_handleTrap (config ▸ strict) t).mono fun _ h => h.of_raises raises
    rw [handled]
    exact (raises.routine.journal.mono fun _ plain => .of_not_isRelease plain.2).trans released

/-- The locks of the mutex pairs exclude their members: a lock is released by its holder only, a
mutex user holds a lock as long as it is within a round in which it has waited for it, and so the
members of a pair are never both within such rounds on the same lock. -/
structure Moment.ExcludesMembers [Workload σ] (mo : Moment σ) : Prop where
  releases : ∀ mo', Next mo mo' →
    mo.ledger.machine.journal.Grows mo.ledger.machine.OwnRelease mo'.ledger.machine.journal
  inside : ∀ place, ∀ r ∈ mo.ledger.machine.resumingAt place, r.kind = .mutexUser →
    r.plan = .mutex .standard ∧ ∃ mem, mo.ledger.machine.pairs.find? r.pid = some mem ∧
      ∀ which, MutexProgram.standard.InBlocking which r.pc →
        mo.ledger.machine.locks.HeldBy (mem.lock which) r.pid
  apart : ∀ q ∈ mo.ledger.machine.pairs.pairs, ∀ place place',
    ∀ r ∈ mo.ledger.machine.resumingAt place, ∀ r' ∈ mo.ledger.machine.resumingAt place',
    r.pid = q.left.pid → r'.pid = q.right.pid →
    ∀ which which', q.left.lock which = q.right.lock which' →
      ¬(MutexProgram.standard.InBlocking which r.pc ∧
        MutexProgram.standard.InBlocking which' r'.pc)

/-- The mutex users of the library come in pairs, run the standard program and never end. -/
theorem Arrival.Library.exists_of_mutexUser {a : Arrival} (h : a.Library) {g : Proc}
    (hg : g ∈ a.procs) (kind : g.kind = .mutexUser) : ∃ first second reversed,
    a = .mutexPair first second reversed ∧ first.terminateAfter = 0 ∧ second.terminateAfter = 0 ∧
      g.plan = .mutex .standard := by
  cases h with
  | compute | io =>
    rw [List.mem_singleton.1 hg] at kind
    cases kind
  | mutexPair first second maxPc₁ maxPc₂ reversed =>
    refine ⟨_, _, _, rfl, rfl, rfl, ?_⟩
    rcases List.mem_pair.1 hg with rfl | rfl <;> rfl
  | rendezvousPair =>
    rcases List.mem_pair.1 hg with rfl | rfl <;> cases kind

namespace Scene

variable {s : Scene}

/-- A mutex user of the library runs the standard program and has a pair. -/
theorem exists_member_of_mutexUser (library : ∀ a ∈ s.arrived, a.Library) (lawful : s.Lawful)
    (paired : s.Paired) (keeps : s.KeepsPairs) {p : Proc} (hp : p ∈ s.population)
    (kind : p.kind = .mutexUser) :
    p.plan = .mutex .standard ∧ ∃ mem, s.pairs.find? p.pid = some mem := by
  obtain ⟨g, hg, outline⟩ := lawful.outline_mem (profile_mem_books hp)
  obtain ⟨a, come, hga⟩ := List.mem_flatMap.1 hg
  have same : g.kind = .mutexUser := (congrArg Proc.kind outline).trans kind
  obtain ⟨first, second, reversed, rfl, endless, endless', plan⟩ :=
    (library a come).exists_of_mutexUser hga same
  have own : p.plan = g.plan := by
    apply Proc.plan_eq_of_outline_eq outline.symm
    intro triggers id
    rw [plan]
    exact TrapPlan.noConfusion
  refine ⟨own.trans plan, ?_⟩
  obtain ⟨q, hq, pids⟩ := keeps first second reversed come endless endless'
  have pid : g.pid = p.pid := congrArg (·.pid) outline
  have member : p.pid ∈ q.pids := by
    rw [pids, ← pid]
    exact List.mem_map_of_mem hga
  obtain ⟨mem, found⟩ := MutexPair.exists_member? member
  exact ⟨mem, paired.find?_eq lawful.distinct hq found⟩

/-- The members of a pair of the library are mutex users. -/
theorem kind_of_member (library : ∀ a ∈ s.arrived, a.Library) (lawful : s.Lawful)
    (paired : s.Paired) {q : MutexPair} (hq : q ∈ s.pairs.pairs) {p : Proc}
    (hp : p ∈ s.population) (member : p.pid ∈ q.pids) : p.kind = .mutexUser := by
  obtain ⟨first, second, reversed, come, made⟩ := paired.origin q hq
  rw [made.pids_eq] at member
  have users : ∀ g ∈ [first, second], g.kind = .mutexUser := by
    cases library _ come
    simp [Proc.mutexUser]
  obtain ⟨g, hg, same⟩ : ∃ g ∈ [first, second], g.pid = p.pid := by
    rcases List.mem_pair.1 member with own | own
    · exact ⟨first, List.mem_cons_self, own.symm⟩
    · exact ⟨second, by simp, own.symm⟩
  have outline := lawful.outline_eq (profile_mem_books hp) (List.mem_flatMap.2 ⟨_, come, hg⟩) same
  exact (congrArg Proc.kind outline).symm.trans (users g hg)

/-- The members of a pair are two processes. -/
theorem Paired.left_ne_right (h : s.Paired) (distinct : Arrival.Distinct s.arrived)
    {q : MutexPair} (hq : q ∈ s.pairs.pairs) : q.left.pid ≠ q.right.pid := by
  have nodup : q.pids.Nodup :=
    (List.nodup_flatMap.1 (h.members.nodup distinct)).1 q hq
  exact fun same => (List.nodup_cons.1 nodup).1 (same ▸ List.mem_cons_self)

end Scene

/-- The locks of the mutex pairs exclude their members at every moment of every run of a library
workload in which only the holder of a lock can release it. -/
theorem excludesMembers_of_reachable [Workload σ] [Workload.Library σ] {config : Config}
    {workload : σ} {logLevel : Option Level} {mo : Moment σ}
    (reachable : Moment.Reachable (.start config workload logLevel) mo)
    (strict : config.strictUnlock = true) : mo.ExcludesMembers := by
  obtain ⟨library, distinct⟩ := Moment.distinct_of_library reachable
  have steps := Scene.steps_of_reachable reachable
  have fresh := Scene.fresh_start config workload logLevel
  have tidy := Scene.tidy_of_steps fresh steps
  have paired := Scene.paired_of_steps fresh steps
  have lawful := fresh.lawful steps distinct
  have keeps := Scene.keepsPairs_of_steps fresh steps distinct
  have secured := Scene.secured_of_steps fresh steps distinct
    (fun a ha => (library a ha).spaced) strict
  have strict' : mo.ledger.machine.config.strictUnlock = true :=
    (Scene.strict_of_steps steps).trans strict
  have inside : ∀ place, ∀ r ∈ mo.ledger.machine.resumingAt place, r.kind = .mutexUser →
      r.plan = .mutex .standard ∧ ∃ mem, mo.ledger.machine.pairs.find? r.pid = some mem ∧
        ∀ which, MutexProgram.standard.InBlocking which r.pc →
          mo.ledger.machine.locks.HeldBy (mem.lock which) r.pid := by
    intro place r hr kind
    have here := Scene.core_mem_population tidy hr
    obtain ⟨plan, mem, found⟩ :=
      Scene.exists_member_of_mutexUser library lawful paired keeps here kind
    exact ⟨plan, mem, found, secured r.core here plan mem found⟩
  refine ⟨fun mo' next => next.grows strict', inside, ?_⟩
  rintro q hq place place' r hr r' hr' left right which which' same ⟨within, within'⟩
  have ne := paired.left_ne_right distinct hq
  have user : r.kind = .mutexUser := Scene.kind_of_member (p := r.core) library lawful paired hq
    (Scene.core_mem_population tidy hr) (left ▸ List.mem_cons_self)
  have user' : r'.kind = .mutexUser := Scene.kind_of_member (p := r'.core) library lawful paired hq
    (Scene.core_mem_population tidy hr') (right ▸ List.mem_cons_of_mem _ List.mem_cons_self)
  obtain ⟨-, mem, found, held⟩ := inside place r hr user
  obtain ⟨-, mem', found', held'⟩ := inside place' r' hr' user'
  have own : mem = q.left := by
    have member : q.member? r.pid = some q.left := if_pos left.symm
    exact Option.some.inj (found.symm.trans (paired.find?_eq distinct hq member))
  have own' : mem' = q.right := by
    have member : q.member? r'.pid = some q.right := by
      rw [MutexPair.member?, right, if_neg ne, if_pos rfl]
    exact Option.some.inj (found'.symm.trans (paired.find?_eq distinct hq member))
  have first := held which within
  have second := held' which' within'
  rw [own, same] at first
  rw [own'] at second
  exact ne (left ▸ right ▸ first.unique second)

/-- A run in which a member of a pair is within a round on each of its locks, and its partner waits
for one of them. -/
theorem excludesMembers_of_reachable_crossed : ∃ mo : Moment ScriptedWorkload,
    Moment.Reachable (.start { strictUnlock := true } .crossed none) mo ∧ mo.ExcludesMembers ∧
    (∃ r ∈ mo.ledger.machine.resumingAt .cpu, r.kind = .mutexUser ∧
      ∀ which, MutexProgram.standard.InBlocking which r.pc) ∧
    ∃ l ∈ mo.ledger.machine.locks.toList, l.waiters ≠ [] := by
  have run : ((Machine.start { strictUnlock := true } ScriptedWorkload.crossed none).performAll
      (.boot :: List.replicate 8 (.tick []) ++ .timerInterrupt [] ::
        List.replicate 6 (.tick []))).toOption.any (fun m =>
          m.onCpu.any (fun r => r.kind = .mutexUser && r.pc == 8) &&
            m.locks.toList.any fun l => !l.waiters.isEmpty) = true := by decide +kernel
  obtain ⟨mo, reachable, -, test⟩ := Moment.exists_reachable_of_performAll run
  rw [Bool.and_eq_true] at test
  obtain ⟨r, hr, test'⟩ := List.any_eq_true.1 test.1
  obtain ⟨l, hl, parked⟩ := List.any_eq_true.1 test.2
  rw [Bool.and_eq_true, decide_eq_true_eq, beq_iff_eq] at test'
  refine ⟨mo, reachable, excludesMembers_of_reachable reachable rfl,
    ⟨r, hr, test'.1, fun which => ?_⟩, l, hl, ?_⟩
  · rw [test'.2]
    cases which with
    | first => exact ⟨0, 5, 15, rfl, rfl, by decide, by decide⟩
    | second => exact ⟨0, 6, 14, rfl, rfl, by decide, by decide⟩
  · rw [Bool.not_eq_true', List.isEmpty_eq_false_iff] at parked
    exact parked

end Mlfq
