import Mlfq.Proofs.Channel.Section
import Mlfq.Proofs.Mutex.Holding

/-! # No process wraps while it holds a lock

A program counter that wraps skips the release that ends a round. A process whose largest counter is
in none of its rounds never wraps while it holds a lock: between the request for a lock and its
release it does not come to its largest counter. Nothing is asked of its partner, which may even
release the locks of others. -/

namespace Mlfq

open Queue (cores)

/-! ## The lock of a channel -/

namespace Channel

variable {p : Proc} {t : Trap} {c c' : Channel} {out : Multiset Proc}

/-- Who holds the lock of a channel after a service held it before or was served. -/
theorem Serves.holder_cases (serves : Serves p t c c' out) {x : Pid}
    (held : c'.lock.holder = some x) : c.lock.holder = some x ∨ x = p.pid := by
  cases serves with
  | lock request service => exact (service.holder_cases held).imp (·.2) (·.1)
  | wait =>
    rw [lock_parking, Lock.holder_freed] at held
    cases held
  | @turn id c role kind turn =>
    rw [lock_taking] at held
    rcases c.signalled_cases p (c.waiting role.other) with same | service
    · exact .inl (same ▸ held)
    · exact (service.holder_cases held).imp (·.2) (·.1)

/-- A process that holds the lock after a service is in the section around a point. -/
theorem Serves.exists_around (serves : Serves p t c c' out) {set : TriggerSet} {id : ChannelId}
    (phase : set.Phase id p.pc (some t)) :
    ∃ q, out + cores c'.parked = q ::ₘ cores c.parked ∧ q.profile = p.profile ∧ q.pc ≤ p.pc ∧
      (c'.lock.holder = some p.pid → set.Around q.pc) := by
  cases phase with
  | acquire next =>
    cases serves with
    | lock request service =>
      obtain ⟨q, balanced, resumes⟩ := service.exists_cons
      refine ⟨q, cores_parked_lock balanced, resumes.profile_eq, ?_⟩
      cases resumes with
      | on => exact ⟨Nat.le_refl _, fun _ => ⟨_, next, .inl rfl⟩⟩
      | back _ kept other => exact ⟨Nat.sub_le _ _, fun held => absurd (kept.symm.trans held) other⟩
  | body here =>
    cases serves with
    | lock request => cases request
    | @wait id' _ role q kind turn core =>
      refine ⟨{ p with pc := p.pc - 2 }, core ▸ c.cores_parked_parking q role, rfl,
        Nat.sub_le _ _, fun held => ?_⟩
      rw [lock_parking, Lock.holder_freed] at held
      cases held
    | @turn id' _ role kind turn =>
      exact ⟨p, c.cores_parked_taking p role, rfl, Nat.le_refl _, fun _ => ⟨_, here, .inr rfl⟩⟩
  | release past here =>
    cases serves with
    | lock request service =>
      obtain ⟨q, balanced, resumes⟩ := service.exists_cons
      cases request
      cases resumes with
      | on =>
        refine ⟨p, cores_parked_lock balanced, rfl, Nat.le_refl _, fun held => ?_⟩
        obtain ⟨-, asks⟩ := (service.holder_cases held).resolve_left fun other => other.1 rfl
        exact absurd rfl asks
      | back asked => cases asked

end Channel

namespace Scene

variable {s s' : Scene} {p p₁ p' : Proc} {pid : Pid}

/-! ## Who has arrived -/

/-- Everybody who has arrived under this number is as described. -/
def ArrivedAs (s : Scene) (pid : Pid) (described : Proc → Prop) : Prop :=
  ∀ g ∈ s.arrived.flatMap Arrival.procs, g.pid = pid → described g

namespace ArrivedAs

variable {described : Proc → Prop}

theorem of_prefix (h : s'.ArrivedAs pid described) (arrived : s.arrived <+: s'.arrived) :
    s.ArrivedAs pid described := by
  intro g hg own
  obtain ⟨a, come, hga⟩ := List.mem_flatMap.1 hg
  exact h g (List.mem_flatMap.2 ⟨a, arrived.subset come, hga⟩) own

/-- The record of such a process has the outline of one that is as described. -/
theorem exists_outline (h : s.ArrivedAs pid described) (lawful : s.Lawful)
    (hp : p ∈ s.population) (own : p.pid = pid) : ∃ g, described g ∧ g.outline = p.outline := by
  obtain ⟨g, hg, outline⟩ := lawful.outline_mem (profile_mem_books hp)
  have same : g.pid = p.pid := congrArg (·.pid) outline
  exact ⟨g, h g hg (same.trans own), outline⟩

end ArrivedAs

/-! ## Two-lock programs -/

section Program

variable {program : MutexProgram}

/-- Everybody who has arrived under this number runs the program and spares its rounds. -/
def Runners (s : Scene) (pid : Pid) (program : MutexProgram) : Prop :=
  s.ArrivedAs pid fun g => g.plan = .mutex program ∧ program.Spares g.maxPc

/-- What the record of such a process says. -/
theorem Runners.of_mem (h : s.Runners pid program) (lawful : s.Lawful) (hp : p ∈ s.population)
    (own : p.pid = pid) : p.plan = .mutex program ∧ program.Spares p.maxPc := by
  obtain ⟨g, ⟨plan, spares⟩, outline⟩ := h.exists_outline lawful hp own
  have plans : p.plan = g.plan := by
    apply Proc.plan_eq_of_outline_eq outline.symm
    intro triggers id
    rw [plan]
    exact TrapPlan.noConfusion
  have maxPc : g.maxPc = p.maxPc := congrArg (·.maxPc) outline
  exact ⟨plans.trans plan, maxPc ▸ spares⟩

/-- What the process holds it may hold at its counter, which is not past the largest one. -/
def HoldsInRounds (s : Scene) (pid : Pid) (program : MutexProgram) : Prop :=
  ∀ p ∈ s.population, p.pid = pid → ∀ mem, s.pairs.find? pid = some mem → ∀ which,
    s.locks.HeldBy (mem.lock which) pid → program.MayHold which p.pc ∧ p.pc ≤ p.maxPc

namespace HoldsInRounds

variable (h : s.HoldsInRounds pid program) (orderly : program.Orderly)
  (runners : s.Runners pid program) (lawful : s.Lawful)

include h orderly runners lawful in
/-- A process that holds a lock is not at its largest counter. -/
theorem lt_maxPc (hp : p ∈ s.population) (own : p.pid = pid) {mem : PairMember}
    (found : s.pairs.find? pid = some mem) {which : WhichLock}
    (held : s.locks.HeldBy (mem.lock which) pid) : p.pc < p.maxPc := by
  obtain ⟨within, le⟩ := h p hp own mem found which held
  exact within.lt_maxPc orderly le (runners.of_mem lawful hp own).2

include h orderly runners lawful in
/-- A process that holds a lock does not wrap with its next step. It goes on in the round or comes
to the end of it. -/
theorem advances {rest : Multiset Proc} {t : Option Trap} (runs : s.Runs p p' rest t)
    (own : p.pid = pid) {mem : PairMember} (found : s.pairs.find? pid = some mem)
    {which : WhichLock} (held : s.locks.HeldBy (mem.lock which) pid) :
    p'.pc = p.pc + 1 ∧ program.MayHold which p.pc ∧ (program.MayHold which p'.pc ∨
      ∃ action : MutexProgram.Action, action.request = .release ∧
        t = some (action.trap (mem.lock which))) := by
  have here : p ∈ s.population := runs.population_eq ▸ Multiset.mem_cons_self p _
  have plan := (runners.of_mem lawful here own).1
  have within := (h p here own mem found which held).1
  have room := h.lt_maxPc orderly runners lawful here own found held
  have trap := runs.trap
  have plan' := runs.advances.plan_eq.trans plan
  have found' : s.pairs.find? p'.pid = some mem := by
    rw [runs.advances.pid_eq, own, found]
  rw [trapAt_of_member plan' found'] at trap
  cases runs.advances with
  | wrap past => exact absurd room (Nat.not_lt.2 (Nat.le_of_lt_succ past))
  | step =>
    refine ⟨rfl, within, ?_⟩
    rcases within.succ with inside | ⟨action, release, closing⟩
    · exact .inl inside
    · have raised := orderly.trapAt_eq closing mem
      exact .inr ⟨action, release, (Except.ok.inj trap).symm.trans raised⟩

include h orderly runners lawful in
/-- A process goes on. If it held a lock at the end of a round, the release would not be ignored. -/
theorem goesOn {rest : Multiset Proc} {t : Option Trap} (runs : s.Runs p p' rest t)
    (ignored : ∀ t' ∈ t, s.Ignores p' t') (own : p'.pid = pid) {mem : PairMember}
    (found : s.pairs.find? pid = some mem) {which : WhichLock}
    (held : s.locks.HeldBy (mem.lock which) pid) :
    program.MayHold which p'.pc ∧ p'.pc ≤ p'.maxPc := by
  have before : p.pid = pid := runs.advances.pid_eq.symm.trans own
  obtain ⟨-, -, inside | ⟨action, release, rfl⟩⟩ :=
    h.advances orderly runners lawful runs before found held
  · exact ⟨inside, runs.advances.pc_le⟩
  · obtain ⟨l, there, holder⟩ := held
    have refused : ∀ l, s.locks.get? (mem.lock which) = some l → l.holder ≠ some p'.pid := by
      have ignores := ignored _ rfl
      cases action with
      | lock | tryLock => cases release
      | unlock | tryUnlock => exact ignores
    exact absurd (own ▸ holder) (refused l there)

include h orderly runners lawful in
/-- A process is served by a lock. It holds the lock afterwards only if it has just asked for it. -/
theorem served (tidy : s.Tidy) (paired : s.Paired) {rest : Multiset Proc} {t : Trap} {id : LockId}
    {r : Lock.Request} {l l' : Lock} {out : Multiset Proc} (runs : s.Runs p p₁ rest (some t))
    (request : t.tableRequest? = some (id, r)) (there : s.locks.get? id = some l)
    (serves : Lock.Serves p₁ r l l' out) (resumes : Lock.Resumes p₁ r l l' p')
    (own : p'.pid = pid) {mem : PairMember} (found : s.pairs.find? pid = some mem)
    {which : WhichLock} (held : (s.locks.set l').HeldBy (mem.lock which) pid) :
    program.MayHold which p'.pc ∧ p'.pc ≤ p'.maxPc := by
  have own₁ : p₁.pid = pid := (congrArg (·.pid) resumes.profile_eq).symm.trans own
  have before : p.pid = pid := runs.advances.pid_eq.symm.trans own₁
  have here : p ∈ s.population := runs.population_eq ▸ Multiset.mem_cons_self p _
  have plan := runs.advances.plan_eq.trans (runners.of_mem lawful here before).1
  have le := runs.advances.pc_le
  rcases eq_or_ne (mem.lock which) id with same | aside
  · -- It is the lock that serves the process.
    rw [same, tidy.locks.heldBy_set there serves.id_eq] at held
    cases resumes with
    | on =>
      rcases serves.holder_cases held with ⟨other, -⟩ | ⟨-, asks⟩
      · exact absurd own₁.symm other
      · have found₁ : s.pairs.find? p₁.pid = some mem := own₁.symm ▸ found
        obtain ⟨action, which', lock, asked, point⟩ := runs.exists_action plan found₁ request
        have this : which' = which := paired.lock_injective tidy found (lock.symm.trans same.symm)
        exact ⟨orderly.mayHold_of_mem (asked ▸ asks) (this ▸ point), le⟩
    | back _ kept other => exact absurd (own₁ ▸ kept.symm.trans held) other
  · -- It holds the lock since before.
    rw [tidy.locks.heldBy_set_of_ne there serves.id_eq aside] at held
    obtain ⟨next, within, inside⟩ := h.advances orderly runners lawful runs before found held
    cases resumes with
    | on =>
      rcases inside with inside | ⟨action, -, released⟩
      · exact ⟨inside, le⟩
      · cases released
        rw [MutexProgram.Action.tableRequest?_trap] at request
        cases request
        exact absurd rfl aside
    | back =>
      have pc : p₁.pc - 1 = p.pc := by omega
      exact ⟨pc.symm ▸ within, Nat.le_trans (Nat.sub_le _ _) le⟩

include h orderly runners lawful in
theorem step (tidy : s.Tidy) (paired : s.Paired) (io : s.ServesIo)
    (distinct : Arrival.Distinct s'.arrived) (runners' : s'.Runners pid program)
    (lawful' : s'.Lawful) (step : Step s s') : s'.HoldsInRounds pid program := by
  intro p' hp own mem found which held
  have plan := (runners'.of_mem lawful' hp own).1
  cases step.fares tidy paired lawful io distinct hp plan with
  | arrives _ _ none => exact absurd (own ▸ held) (none _)
  | stays here member gained =>
    rw [← own] at found held
    obtain ⟨mem₀, found₀, same⟩ := member mem found
    refine h p' here own mem₀ (own ▸ found₀) which ?_
    rw [same, ← own]
    exact gained _ held
  | goesOn runs ignored pairs locks =>
    rw [locks] at held
    rw [pairs] at found
    exact h.goesOn orderly runners lawful runs ignored own found held
  | served runs request there serves resumes pairs locks =>
    rw [locks] at held
    rw [pairs] at found
    exact h.served orderly runners lawful tidy paired runs request there serves resumes own found
      held

end HoldsInRounds

theorem holdsInRounds_of_steps (fresh : s.Fresh) (steps : Steps s s')
    (distinct : Arrival.Distinct s'.arrived) (orderly : program.Orderly)
    (runners : s'.Runners pid program) : s'.HoldsInRounds pid program := by
  induction steps with
  | refl => exact fun p hp => absurd hp (fresh.notMem_population p)
  | @tail s₁ s₂ steps step ih =>
    have arrived := arrived_prefix_of_step step
    have earlier := distinct_of_prefix arrived distinct
    have before := runners.of_prefix arrived
    exact (ih earlier before).step orderly before (fresh.lawful steps earlier)
      (tidy_of_steps fresh steps) (paired_of_steps fresh steps) (servesIo_of_steps fresh steps)
      distinct runners (fresh.lawful (steps.tail step) distinct) step

end Program

/-! ## Rendezvous plans -/

/-- Whoever holds the lock of a channel has arrived. -/
def KnowsHolders (s : Scene) : Prop :=
  ∀ id c, s.channels.get? id = some c → ∀ x, c.lock.holder = some x →
    x ∈ (s.arrived.flatMap Arrival.procs).map (·.pid)

theorem KnowsHolders.step (h : s.KnowsHolders) (tidy : s.Tidy) (lawful : s.Lawful)
    (step : Step s s') : s'.KnowsHolders := by
  obtain ⟨as, arrived⟩ := arrived_prefix_of_step step
  have later : ∀ x ∈ (s.arrived.flatMap Arrival.procs).map (·.pid),
      x ∈ (s'.arrived.flatMap Arrival.procs).map (·.pid) := by
    intro x hx
    rw [← arrived, List.flatMap_append, List.map_append]
    exact List.mem_append_left _ hx
  intro id c' found x held
  refine later x ?_
  cases channelStep_of_step tidy step found with
  | kept before => exact h id c' before x held
  | @served p p' rest t c out runs request before serves =>
    rcases serves.holder_cases held with old | rfl
    · exact h id c before x old
    · have here : p ∈ s.population := runs.population_eq ▸ Multiset.mem_cons_self p _
      rw [runs.advances.pid_eq]
      exact lawful.pid_mem_arrived (profile_mem_books here)
  | left zombie before same =>
    rw [same, Channel.lock_retire] at held
    exact h id _ before x held
  | made arrived new same =>
    rw [same] at held
    cases held

theorem knowsHolders_of_steps (fresh : s.Fresh) (steps : Steps s s')
    (distinct : Arrival.Distinct s'.arrived) : s'.KnowsHolders := by
  induction steps with
  | refl =>
    intro id c found
    rw [fresh.get?_channels] at found
    cases found
  | @tail s₁ s₂ steps step ih =>
    have earlier := distinct_of_prefix (arrived_prefix_of_step step) distinct
    exact (ih earlier).step (tidy_of_steps fresh steps) (fresh.lawful steps earlier) step

section Rendezvous

variable {set : TriggerSet}

/-- Everybody who has arrived under this number meets at these points and spares the sections around
them. -/
def Meeters (s : Scene) (pid : Pid) (set : TriggerSet) : Prop :=
  s.ArrivedAs pid fun g => (∃ id, g.plan = .rendezvous set id) ∧
    ∀ t ∈ set.points, ¬(t - 1 ≤ g.maxPc ∧ g.maxPc < t + 1)

/-- What the record of such a process says. -/
theorem Meeters.of_mem (h : s.Meeters pid set) (lawful : s.Lawful) (hp : p ∈ s.population)
    (own : p.pid = pid) : (∃ id, p.plan = .rendezvous set id) ∧
      ∀ t ∈ set.points, ¬(t - 1 ≤ p.maxPc ∧ p.maxPc < t + 1) := by
  obtain ⟨g, ⟨⟨id, plan⟩, spares⟩, outline⟩ := h.exists_outline lawful hp own
  have maxPc : g.maxPc = p.maxPc := congrArg (·.maxPc) outline
  have plans : g.plan.unbound = p.plan.unbound := congrArg (·.plan) outline
  refine ⟨?_, maxPc ▸ spares⟩
  rw [plan] at plans
  cases plan' : p.plan with
  | rendezvous set' id' =>
    rw [plan'] at plans
    cases plans
    exact ⟨id', rfl⟩
  | none | io | mutex =>
    rw [plan'] at plans
    cases plans

/-- If the process holds the lock of a channel, it is its own channel, and the process is in the
section around a point and not past its largest counter. -/
def HoldsAround (s : Scene) (pid : Pid) (set : TriggerSet) : Prop :=
  ∀ p ∈ s.population, p.pid = pid → ∀ id c, s.channels.get? id = some c →
    c.lock.holder = some pid → p.channel? = some id ∧ set.Around p.pc ∧ p.pc ≤ p.maxPc

namespace HoldsAround

/-- Nothing changes as long as nobody gets the lock of a channel and the process does not move,
unless it holds none. -/
theorem frame (h : s.HoldsAround pid set)
    (channels : ∀ id c', s'.channels.get? id = some c' → c'.lock.holder = some pid →
      ∃ c, s.channels.get? id = some c ∧ c.lock.holder = some pid)
    (population : ∀ p ∈ s'.population, p.pid = pid → p ∈ s.population ∨
      ∀ id c, s.channels.get? id = some c → c.lock.holder ≠ some pid) : s'.HoldsAround pid set := by
  intro p hp own id c' found held
  obtain ⟨c, before, holder⟩ := channels id c' found held
  rcases population p hp own with here | none
  · exact h p here own id c before holder
  · exact absurd holder (none id c before)

variable (h : s.HoldsAround pid set) (spaced : set.Spaced) (meeters : s.Meeters pid set)
  (lawful : s.Lawful)

include h meeters lawful in
/-- A process that holds the lock of a channel is not at its largest counter. -/
theorem lt_maxPc (hp : p ∈ s.population) (own : p.pid = pid) {id : ChannelId} {c : Channel}
    (found : s.channels.get? id = some c) (held : c.lock.holder = some pid) : p.pc < p.maxPc := by
  obtain ⟨-, ⟨point, mem, at_⟩, le⟩ := h p hp own id c found held
  have outside := (meeters.of_mem lawful hp own).2 point mem
  omega

include h spaced meeters lawful in
/-- A process that holds the lock of a channel does not wrap with its next step, with which it comes
to the body of a rendezvous or releases the lock. -/
theorem advances {rest : Multiset Proc} {t : Option Trap} (runs : s.Runs p p' rest t)
    (own : p.pid = pid) {id : ChannelId} {c : Channel} (found : s.channels.get? id = some c)
    (held : c.lock.holder = some pid) : p'.channel? = some id ∧
      (set.Around p'.pc ∧ t = some (.rendezvousBody id) ∨ t = some (.rendezvousRelease id)) := by
  have here : p ∈ s.population := runs.population_eq ▸ Multiset.mem_cons_self p _
  obtain ⟨⟨id', plan⟩, -⟩ := meeters.of_mem lawful here own
  obtain ⟨uses, around, -⟩ := h p here own id c found held
  have bound : id' = id := by
    rw [Proc.channel?, plan] at uses
    exact Option.some.inj uses
  subst bound
  have room := h.lt_maxPc meeters lawful here own found held
  refine ⟨runs.advances.channel?_eq.trans uses, ?_⟩
  have phase := Regular.phase_of_runs runs (runs.advances.plan_eq.trans plan)
  cases runs.advances with
  | wrap past => exact absurd room (Nat.not_lt.2 (Nat.le_of_lt_succ past))
  | step =>
    rcases phase.of_around spaced around with ⟨point, body⟩ | release
    · exact .inl ⟨⟨_, point, .inr rfl⟩, body⟩
    · exact .inr release

include h spaced meeters lawful in
/-- A process goes on. A release would not be ignored. -/
theorem goesOn {rest : Multiset Proc} {t : Option Trap} (runs : s.Runs p p' rest t)
    (ignored : ∀ t' ∈ t, s.Ignores p' t') : { s with free := p' ::ₘ rest }.HoldsAround pid set := by
  obtain ⟨others, before, after⟩ := exists_population_goOn runs
  intro w hw own id c found held
  rcases mem_or_eq_of_move before after hw with rfl | ⟨-, old⟩
  · have own' : p.pid = pid := runs.advances.pid_eq.symm.trans own
    obtain ⟨uses, ⟨around, -⟩ | rfl⟩ := h.advances spaced meeters lawful runs own' found held
    · exact ⟨uses, around, runs.advances.pc_le⟩
    · have missing : s.channels.get? id = none := ignored _ rfl
      rw [missing] at found
      cases found
  · exact h w old own id c found held

include h meeters lawful in
/-- A channel serves a process. -/
theorem served (tidy : s.Tidy) {rest : Multiset Proc} {t : Trap} {id : ChannelId} {c c' : Channel}
    {out : Multiset Proc} (runs : s.Runs p p' rest (some t)) (request : t.channel? = some id)
    (found : s.channels.get? id = some c) (serves : Channel.Serves p' t c c' out) :
    { s with free := out + rest, channels := s.channels.set id c' }.HoldsAround pid set := by
  have here : p ∈ s.population := runs.population_eq ▸ Multiset.mem_cons_self p _
  have uses : p'.channel? = some id := Proc.channel?_of_trapAt runs.trap request
  have uses₀ : p.channel? = some id := runs.advances.channel?_eq.symm.trans uses
  obtain ⟨others, before, after⟩ := exists_population_set_channel tidy found
  rw [runs.running, Multiset.cons_add, Multiset.cons_add] at before
  intro w hw own id₁ c₁ found₁ held
  rw [Registry.get?_set (Registry.mem_keys_of_get? found)] at found₁
  -- The record that moves is that of the process that is served.
  have moved : w ∈ s.population ∧ w.pid ≠ p'.pid ∨ p.pid = pid ∧ w.profile = p'.profile ∧
      w.pc ≤ p'.pc ∧ (c'.lock.holder = some pid → set.Around w.pc) := by
    by_cases same : p.pid = pid
    · obtain ⟨⟨id', plan⟩, -⟩ := meeters.of_mem lawful here same
      have phase := Regular.phase_of_runs runs (runs.advances.plan_eq.trans plan)
      obtain ⟨q, balanced, profile, le, around⟩ := serves.exists_around phase
      rw [after, add_of_served balanced] at hw
      rcases Multiset.mem_cons.1 hw with rfl | hw
      · rw [runs.advances.pid_eq, same] at around
        exact .inr ⟨same, profile, le, around⟩
      · refine .inl ⟨before ▸ Multiset.mem_cons_of_mem hw, ?_⟩
        exact runs.advances.pid_eq ▸ lawful.pid_ne before hw
    · obtain ⟨q, balanced, profile⟩ := serves.exists_cons
      rw [after, add_of_served balanced] at hw
      have other : p'.pid ≠ pid := runs.advances.pid_eq ▸ same
      rcases Multiset.mem_cons.1 hw with rfl | hw
      · exact absurd ((congrArg (·.pid) profile).symm.trans own) other
      · exact .inl ⟨before ▸ Multiset.mem_cons_of_mem hw, own ▸ other.symm⟩
  rcases moved with ⟨stays, other⟩ | ⟨same, profile, le, around⟩
  · split at found₁
    · obtain rfl := ‹id₁ = id›
      cases found₁
      rcases serves.holder_cases held with old | new
      · exact h w stays own id₁ c found old
      · exact absurd (own.trans new) other
    · exact h w stays own id₁ c₁ found₁ held
  · split at found₁
    · obtain rfl := ‹id₁ = id›
      cases found₁
      have maxPc : w.maxPc = p'.maxPc := congrArg (·.maxPc) profile
      refine ⟨?_, around held, maxPc ▸ Nat.le_trans le runs.advances.pc_le⟩
      rw [← w.channel?_profile, profile, Proc.channel?_profile, uses]
    · have bound := (h p here same id₁ c₁ found₁ held).1
      rw [uses₀] at bound
      exact absurd (Option.some.inj bound).symm ‹¬id₁ = id›

include h in
/-- Whoever arrives holds no lock. -/
theorem arrive (known : s.KnowsHolders) {a : Arrival}
    (distinct : Arrival.Distinct (s.arrived ++ [a]))
    (population : s'.population = cores (s.enrolled a) + s.population)
    (channels : ∀ id c', s'.channels.get? id = some c' → c'.lock.holder = some pid →
      ∃ c, s.channels.get? id = some c ∧ c.lock.holder = some pid) : s'.HoldsAround pid set := by
  refine h.frame channels fun p hp own => ?_
  rw [population, Multiset.mem_add] at hp
  rcases hp with new | old
  · refine .inr fun id c found held => ?_
    obtain ⟨g, hg, rfl⟩ := Queue.mem_cores.1 new
    have late : pid ∈ a.procs.map (·.pid) := by
      rw [← map_pid_enrolled s a, ← own]
      exact List.mem_map.2 ⟨g, hg, rfl⟩
    exact distinct.pid_ne (known id c found pid held) late rfl
  · exact .inl old

/-- A record with another plan may move. -/
theorem old_of_move (meeters : s.Meeters pid set) (lawful : s.Lawful) {q : Proc}
    {others : Multiset Proc} (before : s.population = p ::ₘ others)
    (after : s'.population = q ::ₘ others) (profile : q.profile = p.profile)
    (other : p.channel? = none) : ∀ w ∈ s'.population, w.pid = pid → w ∈ s.population := by
  intro w hw own
  rcases mem_or_eq_of_move before after hw with rfl | ⟨-, old⟩
  · have here : p ∈ s.population := before ▸ Multiset.mem_cons_self p others
    obtain ⟨⟨id, plan⟩, -⟩ := meeters.of_mem lawful here ((congrArg (·.pid) profile).symm.trans own)
    rw [Proc.channel?, plan] at other
    cases other
  · exact old

include h spaced meeters lawful in
theorem step (tidy : s.Tidy) (io : s.ServesIo) (known : s.KnowsHolders)
    (distinct : Arrival.Distinct s'.arrived) (step : Step s s') : s'.HoldsAround pid set := by
  have same : ∀ id c, s.channels.get? id = some c → c.lock.holder = some pid →
      ∃ c', s.channels.get? id = some c' ∧ c'.lock.holder = some pid :=
    fun id c found held => ⟨c, found, held⟩
  cases step with
  | scan | retire => exact h.frame same fun p hp _ => .inl hp
  | single p => exact h.arrive known distinct (population_single s p _) same
  | mutexPair first second reversed =>
    exact h.arrive known distinct (population_mutexPair s first second reversed _ _) same
  | rendezvousPair producer consumer =>
    refine h.arrive known distinct (population_rendezvousPair s producer consumer _ _)
      fun id c found held => ?_
    rw [Registry.get?_add tidy.fresh] at found
    split at found
    · cases found
      cases held
    · exact ⟨c, found, held⟩
  | goOn runs ignored => exact h.goesOn spaced meeters lawful runs ignored
  | request runs found core =>
    obtain ⟨others, before, after⟩ := exists_population_request runs found core
    have old := old_of_move meeters lawful before after runs.advances.profile_eq ?_
    · exact h.frame same fun w hw own => .inl (old w hw own)
    · obtain ⟨sets, plan⟩ := Proc.plan_of_trapAt_io runs.trap
      rw [← runs.advances.channel?_eq, Proc.channel?, plan]
  | table runs request found serves =>
    obtain ⟨others, q, before, after, resumes⟩ := exists_population_table tidy runs found serves
    have profile := resumes.profile_eq.trans runs.advances.profile_eq
    have old := old_of_move meeters lawful before after profile ?_
    · exact h.frame same fun w hw own => .inl (old w hw own)
    · exact runs.advances.channel?_eq ▸ Proc.channel?_of_tableRequest runs.trap request
  | channel runs request found serves =>
    exact h.served meeters lawful tidy runs request found serves
  | complete found =>
    obtain ⟨others, before, after⟩ := exists_population_complete found
    have old := old_of_move meeters lawful before after rfl ?_
    · exact h.frame same fun w hw own => .inl (old w hw own)
    · obtain ⟨sets, plan⟩ := io _ (List.mem_of_getElem? found) _ List.mem_cons_self
      rw [Proc.channel?, Proc.plan_core, plan]
  | terminate running done core =>
    refine h.frame same fun w hw _ => ?_
    rw [population_terminate running core] at hw
    exact .inl hw
  | dissolve zombie hr =>
    refine h.frame (fun id c found held => ?_) fun w hw _ => ?_
    · rw [channels_dropLock, channels_dropLock] at found
      exact ⟨c, found, held⟩
    · rw [population_dissolve tidy] at hw
      exact .inl hw
  | drop zombie =>
    exact h.frame same fun w hw _ => .inl (mem_of_drop zombie hw)
  | leave zombie bound found stays =>
    refine h.frame (fun id c' found' held => ?_) fun w hw _ =>
      .inl (mem_of_leave tidy zombie found hw)
    obtain ⟨d, before, same⟩ :=
      Registry.exists_of_set (·.lock) found (Channel.lock_retire ..) found'
    exact ⟨d, before, same ▸ held⟩
  | close zombie bound found goes =>
    exact h.frame (fun id c' found' held => ⟨c', Registry.get?_of_erase found', held⟩)
      fun w hw _ => .inl (mem_of_close tidy zombie found hw)

end HoldsAround

theorem holdsAround_of_steps (fresh : s.Fresh) (steps : Steps s s')
    (distinct : Arrival.Distinct s'.arrived) (spaced : set.Spaced) (meeters : s'.Meeters pid set) :
    s'.HoldsAround pid set := by
  induction steps with
  | refl => exact fun p hp => absurd hp (fresh.notMem_population p)
  | @tail s₁ s₂ steps step ih =>
    have arrived := arrived_prefix_of_step step
    have earlier := distinct_of_prefix arrived distinct
    have before := meeters.of_prefix arrived
    exact (ih earlier before).step spaced before (fresh.lawful steps earlier)
      (tidy_of_steps fresh steps) (servesIo_of_steps fresh steps)
      (knowsHolders_of_steps fresh steps earlier) distinct step

end Rendezvous
end Scene

/-! ## Runs -/

variable {σ : Type}

namespace Machine

variable {m m' : Machine σ} {p : Proc}

/-- In the cycle that comes now the running process `p` wraps, after which the machine is `m'`. -/
def Wraps (m : Machine σ) (p : Proc) (m' : Machine σ) : Prop :=
  m.running = some p ∧ m.beginCycle.advance = .ok m' ∧
    ∃ p', m'.running = some p' ∧ p'.wraps = p.wraps + 1

/-- A process wraps at its largest counter, and leaves the locks and the channels alone. -/
theorem Wraps.spec (h : m.Wraps p m') (arrived : List Arrival) (dropped : Queue) :
    m.current p ∈ (⟨m, arrived, dropped⟩ : Ledger σ).scene.population ∧
      (m.current p).maxPc ≤ (m.current p).pc ∧ m'.locks = m.locks ∧ m'.channels = m.channels := by
  obtain ⟨running, advance, p', running', wrapped⟩ := h
  obtain ⟨q, pc, rfl, advances⟩ := Scene.exists_of_advance (m := m.beginCycle) running advance
  obtain rfl : q = p' := Option.some.inj running'
  refine ⟨?_, ?_, rfl, rfl⟩
  · rw [Scene.population, Scene.scene_of_running p running]
    have free : m.current p ∈ m.current p ::ₘ m.queued := Multiset.mem_cons_self _ _
    exact Multiset.mem_add.2 (.inl (Multiset.mem_add.2 (.inl free)))
  · have count : (m.current p).wraps + 1 = ({ q with pc }.core).wraps := wrapped.symm
    generalize same : ({ q with pc }.core) = after at count
    have advances : (m.current p).Advances after := same ▸ advances
    cases advances with
    | step => exact absurd count (Nat.succ_ne_self _)
    | wrap past => exact Nat.le_of_lt_succ past

end Machine

/-- Whoever wraps does so with empty hands: a process whose largest counter is in none of the rounds
of its orderly program holds no lock when it wraps, and a process that meets another at the standard
points, with its largest counter in none of the sections around them, no lock of a channel. -/
structure Ledger.WrapsEmptyHanded (l : Ledger σ) : Prop where
  locks : ∀ g ∈ l.arrived.flatMap Arrival.procs, ∀ program, g.plan = .mutex program →
    program.Orderly → program.Spares g.maxPc →
    ∀ p m, l.machine.Wraps p m → p.pid = g.pid → ∀ id, ¬m.locks.HeldBy id p.pid
  channels : ∀ g ∈ l.arrived.flatMap Arrival.procs, ∀ id, g.plan = .rendezvous .rendezvous id →
    (∀ t ∈ TriggerSet.rendezvous.points, ¬(t - 1 ≤ g.maxPc ∧ g.maxPc < t + 1)) →
    ∀ p m, l.machine.Wraps p m → p.pid = g.pid →
    ∀ id c, m.channels.get? id = some c → c.lock.holder ≠ some p.pid

/-- The standard program is orderly and its rounds are apart from each other. Whoever wraps does so
with empty hands at every moment of every run in which all processes have different numbers. -/
theorem wrapsEmptyHanded_of_reachable [Workload σ] {config : Config} {workload : σ}
    {logLevel : Option Level} {mo : Moment σ}
    (reachable : Moment.Reachable (.start config workload logLevel) mo)
    (distinct : Arrival.Distinct mo.ledger.arrived) :
    (MutexProgram.standard.Orderly ∧ ∃ windows, MutexProgram.standard.holdWindows = .ok windows ∧
      windows.Pairwise fun v w => v.2 ≤ w.1 ∨ w.2 ≤ v.1) ∧ mo.ledger.WrapsEmptyHanded := by
  refine ⟨⟨MutexProgram.orderly_standard, _, MutexProgram.holdWindows_standard, by decide⟩, ?_⟩
  have steps := Scene.steps_of_reachable reachable
  have fresh := Scene.fresh_start config workload logLevel
  have lawful := fresh.lawful steps distinct
  refine ⟨?_, ?_⟩
  · intro g hg program plan orderly spares p m wraps own id held
    obtain ⟨here, largest, locks, -⟩ := wraps.spec mo.ledger.arrived mo.ledger.dropped
    rw [locks] at held
    have runners : mo.ledger.scene.Runners p.pid program := fun g' hg' same =>
      List.inj_on_of_nodup_map distinct hg' hg (same.trans own) ▸ ⟨plan, spares⟩
    have rounds := Scene.holdsInRounds_of_steps fresh steps distinct orderly runners
    obtain ⟨mem, which, found, rfl⟩ :=
      (Scene.paired_of_steps fresh steps).exists_member_of_heldBy distinct held
    have room := rounds.lt_maxPc orderly runners lawful here rfl found held
    exact Nat.not_le.2 room largest
  · intro g hg id₀ plan spares p m wraps own id c found held
    obtain ⟨here, largest, -, channels⟩ := wraps.spec mo.ledger.arrived mo.ledger.dropped
    rw [channels] at found
    have meeters : mo.ledger.scene.Meeters p.pid .rendezvous := fun g' hg' same =>
      List.inj_on_of_nodup_map distinct hg' hg (same.trans own) ▸ ⟨⟨id₀, plan⟩, spares⟩
    have around := Scene.holdsAround_of_steps fresh steps distinct TriggerSet.spaced_rendezvous
      meeters
    have room := around.lt_maxPc meeters lawful here rfl found held
    exact Nat.not_le.2 room largest

/-- Whether the running process is one of this kind with this largest counter and is about to
wrap. -/
def Machine.isWrapping (m : Machine σ) (kind : Proc.Kind) (maxPc : Nat) : Bool :=
  m.running.any fun p => decide (p.kind = kind ∧ p.maxPc = maxPc) &&
    m.beginCycle.advance.toOption.any fun m' => m'.running.any fun p' => p'.wraps == p.wraps + 1

/-- A process of the library that is about to wrap is found by taking its next step. -/
theorem Moment.exists_wraps_of_library [Workload σ] [Workload.Library σ] {config : Config}
    {workload : σ} {logLevel : Option Level} {mo : Moment σ}
    (reachable : Moment.Reachable (.start config workload logLevel) mo)
    {kind : Proc.Kind} {maxPc : Nat}
    (test : mo.ledger.machine.isWrapping kind maxPc = true) :
    ∃ p m, mo.ledger.machine.Wraps p m ∧ ∃ a ∈ mo.ledger.arrived, a.Library ∧
      ∃ g ∈ a.procs, g.pid = p.pid ∧ g.kind = kind ∧ g.maxPc = maxPc := by
  obtain ⟨p, running, test⟩ := (Option.any_eq_true _ _).1 test
  rw [Bool.and_eq_true, decide_eq_true_eq] at test
  obtain ⟨⟨kind, maxPc⟩, test⟩ := test
  obtain ⟨m, step, test⟩ := (Option.any_eq_true _ _).1 test
  obtain ⟨p', running', count⟩ := (Option.any_eq_true _ _).1 test
  have advance : mo.ledger.machine.beginCycle.advance = .ok m := by
    cases same : mo.ledger.machine.beginCycle.advance with
    | error crash =>
      rw [same] at step
      cases step
    | ok m₁ =>
      rw [same] at step
      exact congrArg _ (Option.some.inj step)
  have wraps : mo.ledger.machine.Wraps p m := ⟨running, advance, p', running', beq_iff_eq.1 count⟩
  -- The record of the process has the outline of its arrival.
  obtain ⟨library, distinct⟩ := Moment.distinct_of_library reachable
  have lawful := (Scene.fresh_start _ _ _).lawful (Scene.steps_of_reachable reachable) distinct
  have here := (wraps.spec mo.ledger.arrived mo.ledger.dropped).1
  obtain ⟨g, hg, outline⟩ := lawful.outline_mem (Scene.profile_mem_books here)
  obtain ⟨a, come, hga⟩ := List.mem_flatMap.1 hg
  have same : g.pid = p.pid ∧ g.kind = p.kind ∧ g.maxPc = p.maxPc :=
    ⟨congrArg (·.pid) outline, congrArg (·.kind) outline, congrArg (·.maxPc) outline⟩
  exact ⟨p, m, wraps, a, come, library a come, g, hga, same.1, same.2.1.trans kind,
    same.2.2.trans maxPc⟩

/-- A run in which a mutex user is about to wrap while its partner holds a lock, and a run in which
a producer is about to wrap. -/
theorem wrapsEmptyHanded_of_reachable_pairs :
    (∃ mo : Moment ScriptedWorkload,
      Moment.Reachable (.start {} ⟨[[.mutexPair 16 false]]⟩ none) mo ∧
      mo.ledger.WrapsEmptyHanded ∧
      (∃ p m, mo.ledger.machine.Wraps p m ∧
        ∃ g ∈ mo.ledger.arrived.flatMap Arrival.procs, g.pid = p.pid ∧
          g.plan = .mutex .standard ∧ MutexProgram.standard.Spares g.maxPc) ∧
      ∃ l ∈ mo.ledger.machine.locks.toList, l.holder = some ⟨1⟩) ∧
    ∃ mo : Moment ScriptedWorkload,
      Moment.Reachable (.start {} ⟨[[.rendezvousPair 71]]⟩ none) mo ∧
      mo.ledger.WrapsEmptyHanded ∧
      ∃ p m, mo.ledger.machine.Wraps p m ∧
        ∃ g ∈ mo.ledger.arrived.flatMap Arrival.procs, g.pid = p.pid ∧
          (∃ id, g.plan = .rendezvous .rendezvous id) ∧
          ∀ t ∈ TriggerSet.rendezvous.points, ¬(t - 1 ≤ g.maxPc ∧ g.maxPc < t + 1) := by
  refine ⟨?_, ?_⟩
  · have run : ((Machine.start {} (⟨[[.mutexPair 16 false]]⟩ : ScriptedWorkload) none).performAll
        (.boot :: List.replicate 17 (.tick []) ++ .timerInterrupt [] ::
          List.replicate 9 (.tick []) ++ [.timerInterrupt []])).toOption.any (fun m =>
        m.isWrapping .mutexUser 16 &&
          m.locks.toList.any fun l => l.holder = some ⟨1⟩) = true := by decide +kernel
    obtain ⟨mo, reachable, -, test⟩ := Moment.exists_reachable_of_performAll run
    rw [Bool.and_eq_true] at test
    obtain ⟨p, m, wraps, a, come, library, g, hg, pid, kind, maxPc⟩ :=
      Moment.exists_wraps_of_library reachable test.1
    obtain ⟨l, hl, held⟩ := List.any_eq_true.1 test.2
    have distinct := (Moment.distinct_of_library reachable).2
    refine ⟨mo, reachable, (wrapsEmptyHanded_of_reachable reachable distinct).2,
      ⟨p, m, wraps, g, List.mem_flatMap.2 ⟨a, come, hg⟩, pid, (library.plan_of_kind hg).1 kind,
        maxPc ▸ ⟨_, MutexProgram.holdWindows_standard, by decide⟩⟩,
      l, hl, of_decide_eq_true held⟩
  · have run : ((Machine.start {} (⟨[[.rendezvousPair 71]]⟩ : ScriptedWorkload) none).performAll
        (.boot :: List.replicate 72 (.tick []))).toOption.any
        (·.isWrapping .producer 71) = true := by decide +kernel
    obtain ⟨mo, reachable, -, test⟩ := Moment.exists_reachable_of_performAll run
    obtain ⟨p, m, wraps, a, come, library, g, hg, pid, kind, maxPc⟩ :=
      Moment.exists_wraps_of_library reachable test
    have distinct := (Moment.distinct_of_library reachable).2
    exact ⟨mo, reachable, (wrapsEmptyHanded_of_reachable reachable distinct).2, p, m, wraps, g,
      List.mem_flatMap.2 ⟨a, come, hg⟩, pid, (library.plan_of_kind hg).2 (.inl kind),
      maxPc ▸ by decide⟩

end Mlfq
