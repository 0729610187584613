import Mlfq.Proofs.Channel.Points
import Mlfq.Proofs.Channel.Rendezvous

/-! # The section around a rendezvous point

A member of a rendezvous pair holds the lock of its channel from one step before a rendezvous point
until the step after it. Nothing but its counter sees to that: neither the body of a rendezvous nor
the release of the lock asks who holds it. -/

namespace Mlfq

open Queue (cores)

/-! ## Services -/

namespace Channel

@[simp] theorem lock_retire (c : Channel) (pid : Pid) : (c.retire pid).lock = c.lock := by
  unfold retire
  split
  · rfl
  · split <;> rfl

/-- A process that is served at a point, and that has the lock if it does not ask for it, has the
lock afterwards as long as it is in the section. No other process loses the lock. -/
theorem Serves.exists_section {p : Proc} {t : Trap} {c c' : Channel} {out : Multiset Proc}
    (serves : Serves p t c c' out) {set : TriggerSet} {id : ChannelId} (spaced : set.Spaced)
    (phase : set.Phase id p.pc (some t))
    (held : t ≠ .rendezvousAcquire id → c.lock.holder = some p.pid) :
    ∃ q, out + cores c'.parked = q ::ₘ cores c.parked ∧ q.profile = p.profile ∧
      (set.Around q.pc → c'.lock.holder = some p.pid) ∧
      ∀ x, x ≠ p.pid → c.lock.holder = some x → c'.lock.holder = some x := by
  -- Who has the lock is the only one who can lose it.
  have mine : c.lock.holder = some p.pid →
      ∀ x, x ≠ p.pid → c.lock.holder = some x → c'.lock.holder = some x :=
    fun own x ne other => absurd (Option.some.inj (other.symm.trans own)) ne
  cases phase with
  | acquire next =>
    cases serves with
    | lock request service =>
      cases request
      cases service with
      | take hr free =>
        refine ⟨p, cores_parked_lock (Multiset.singleton_add p _), rfl, fun _ => rfl, ?_⟩
        intro x ne other
        rcases free with none | own
        · rw [none] at other
          cases other
        · exact absurd (Option.some.inj (other.symm.trans own)) ne
      | @park _ h q taken other core =>
        refine ⟨{ p with pc := p.pc - 1 }, cores_parked_lock ?_, rfl, fun around => ?_,
          fun _ _ other => other⟩
        · rw [Queue.cores_enqueue, core, zero_add]
        · exact absurd around (spaced.not_around_sub next)
  | body here =>
    have own := held Trap.noConfusion
    cases serves with
    | lock request => cases request
    | @wait id' _ role q kind turn core =>
      refine ⟨{ p with pc := p.pc - 2 }, core ▸ c.cores_parked_parking q role, rfl,
        fun around => ?_, mine own⟩
      exact absurd around (spaced.not_around_sub here)
    | @turn id' _ role kind turn =>
      refine ⟨p, c.cores_parked_taking p role, rfl, fun _ => ?_, mine own⟩
      rw [lock_taking]
      cases c.waiting role.other with
      | nil => exact own
      | cons => rw [signalled, Lock.tryAcquire_open (.inr own)]
  | release past here =>
    have own := held Trap.noConfusion
    cases serves with
    | lock request service =>
      obtain ⟨q, balanced, resumes⟩ := service.exists_cons
      cases resumes with
      | on =>
        refine ⟨_, cores_parked_lock balanced, rfl, fun around => ?_, mine own⟩
        rw [past] at around
        exact absurd around (spaced.not_around_succ here)
      | back _ _ other => exact absurd own other

end Channel

namespace Scene

variable {s s' : Scene}

/-! ## Who finds the channel -/

/-- Whoever has a channel finds it. -/
def Open (s : Scene) : Prop :=
  ∀ p ∈ s.population, ∀ id, p.channel? = some id → ∃ c, s.channels.get? id = some c

/-- Whoever is somewhere was somewhere before or has just arrived. -/
theorem Lawful.mem_population (lawful : s'.Lawful) (tidy : s.Tidy) (step : Step s s') {p : Proc}
    (hp : p ∈ s'.population) : (∃ q ∈ s.population, q.profile = p.profile) ∨
      ∃ a, s'.arrived = s.arrived ++ [a] ∧ ∃ q ∈ s.enrolled a, q.profile = p.profile := by
  refine (step.mem_books tidy (profile_mem_books hp)).imp_left fun old => ?_
  rcases Multiset.mem_add.1 old with here | gone
  · exact Multiset.mem_map.1 here
  · obtain ⟨q, hq, same⟩ := Multiset.mem_map.1 gone
    obtain ⟨r, hr, rfl⟩ := Queue.mem_cores.1 hq
    have pid : r.pid = p.pid := congrArg (·.pid) same
    exact absurd pid (lawful.pid_notMem_dropped hp ((dropped_prefix_of_step step).subset hr))

/-- A channel stays, or it goes with its second side. -/
theorem exists_channel_or_close (tidy : s.Tidy) (step : Step s s') {id : ChannelId} {c : Channel}
    (found : s.channels.get? id = some c) : (∃ c', s'.channels.get? id = some c') ∨
      ∃ p rest, s.zombies = p :: rest ∧ (c.retire p.pid).isAbandoned = true ∧
        s'.dropped = s.dropped ++ [p] ∧ p.channel? = some id := by
  -- A registry in which an entry is set still has the others.
  have set : ∀ {id₀ c₀ c₁}, s.channels.get? id₀ = some c₀ →
      ∃ c', (s.channels.set id₀ c₁).get? id = some c' := by
    intro id₀ c₀ c₁ found₀
    rw [Registry.get?_set (Registry.mem_keys_of_get? found₀)]
    split
    · exact ⟨_, rfl⟩
    · exact ⟨_, found⟩
  cases step with
  | scan | single | mutexPair | goOn | request | table | complete | terminate | retire | drop =>
    exact .inl ⟨c, found⟩
  | rendezvousPair producer consumer =>
    refine .inl ?_
    rw [Registry.get?_add tidy.fresh]
    split
    · exact ⟨_, rfl⟩
    · exact ⟨_, found⟩
  | channel runs request found₀ serves => exact .inl (set found₀)
  | dissolve =>
    rw [channels_dropLock, channels_dropLock]
    exact .inl ⟨c, found⟩
  | leave zombie bound found₀ stays => exact .inl (set found₀)
  | @close p rest id₀ c₀ zombie bound found₀ goes =>
    by_cases same : id = id₀
    · subst same
      rw [found] at found₀
      cases found₀
      exact .inr ⟨p, rest, zombie, goes, rfl, bound⟩
    · refine .inl ⟨c, ?_⟩
      rw [Registry.get?_erase, if_neg same]
      exact found

theorem Open.step (h : s.Open) (bound : s.Bound) (tidy : s.Tidy) (lawful : s'.Lawful)
    (coupled : ∀ a ∈ s'.arrived, a.Coupled) (step : Step s s') : s'.Open := by
  intro p hp id uses
  have dropped := (dropped_prefix_of_step step).subset
  rcases lawful.mem_population tidy step hp with ⟨q, hq, same⟩ | ⟨a, arrived, q, hq, same⟩
  · have before : q.channel? = some id := by
      rw [← q.channel?_profile, same, p.channel?_profile, uses]
    obtain ⟨c, found⟩ := h q hq id before
    rcases exists_channel_or_close tidy step found with stays | ⟨z, rest, zombie, goes, drop, -⟩
    · exact stays
    · -- Both sides were dropped, and the process is one of them.
      obtain ⟨role, side⟩ := bound.has _ (profile_mem_books hq) id before c found
      have pid : q.pid = p.pid := congrArg (·.pid) same
      have own : c.partner role = p.pid := side.trans pid
      rcases Channel.gone_retire (Channel.gone_of_isAbandoned goes role) with gone | last
      · obtain ⟨r, hr, partner⟩ := bound.gone id c found role gone
        exact absurd (partner.trans own) (lawful.pid_notMem_dropped hp (dropped hr))
      · have mem : z ∈ s'.dropped := drop ▸ List.mem_append_right _ List.mem_cons_self
        exact absurd (last.symm.trans own) (lawful.pid_notMem_dropped hp mem)
  · have new : q.channel? = some id := by
      rw [← q.channel?_profile, same, p.channel?_profile, uses]
    have mem : a ∈ s'.arrived := arrived ▸ List.mem_append_right _ List.mem_cons_self
    obtain ⟨rfl, producer, consumer, rfl, -⟩ := Bound.of_enrolled (coupled a mem) hq new
    obtain ⟨-, lock, channels⟩ := made_of_step step arrived
    exact ⟨_, by rw [channels, Registry.get?_add tidy.fresh, if_pos rfl]⟩

theorem open_of_steps (fresh : s.Fresh) (steps : Steps s s')
    (distinct : Arrival.Distinct s'.arrived) (coupled : ∀ a ∈ s'.arrived, a.Coupled) :
    s'.Open := by
  induction steps with
  | refl => exact fun p hp => absurd hp (fresh.notMem_population p)
  | @tail s₁ s₂ steps step ih =>
    have arrived := arrived_prefix_of_step step
    have before : ∀ a ∈ s₁.arrived, a.Coupled := fun a ha => coupled a (arrived.subset ha)
    have earlier := distinct_of_prefix arrived distinct
    exact (ih earlier before).step (bound_of_steps fresh steps before) (tidy_of_steps fresh steps)
      (fresh.lawful (steps.tail step) distinct) coupled step

/-! ## Who holds the lock -/

/-- Whoever is in the section of a channel holds its lock. -/
def Guarded (s : Scene) : Prop := ∀ p ∈ s.population, ∀ id c, p.channel? = some id →
  s.channels.get? id = some c → p.InSection → c.lock.holder = some p.pid

/-- The scene is one of a run in which processes that use a channel are sides of it with room
around their points. -/
structure Regular (s : Scene) : Prop where
  met : s.Met
  bound : s.Bound
  reached : s.Open
  sided : ∀ a ∈ s.arrived, a.Sided
  spaced : ∀ a ∈ s.arrived, a.Spaced

theorem regular_of_steps (fresh : s.Fresh) (steps : Steps s s')
    (distinct : Arrival.Distinct s'.arrived) (sided : ∀ a ∈ s'.arrived, a.Sided)
    (spaced : ∀ a ∈ s'.arrived, a.Spaced) : s'.Regular :=
  have coupled : ∀ a ∈ s'.arrived, a.Coupled := fun a ha => (sided a ha).coupled
  ⟨met_of_steps fresh steps distinct sided, bound_of_steps fresh steps coupled,
    open_of_steps fresh steps distinct coupled, sided, spaced⟩

variable {p p' : Proc} {rest : Multiset Proc} {set : TriggerSet} {id : ChannelId}

namespace Regular

/-- There is room around the points of everybody. -/
theorem spaced_of_plan (h : s.Regular) (hp : p ∈ s.population)
    (plan : p.plan = .rendezvous set id) : set.Spaced := by
  obtain ⟨q, hq, outline⟩ := h.met.lawful.outline_mem (profile_mem_books hp)
  obtain ⟨a, ha, hq⟩ := List.mem_flatMap.1 hq
  have same : q.plan.unbound = p.plan.unbound := congrArg (·.plan) outline
  have spaced := (h.spaced a ha q hq).2
  rw [← TrapPlan.spaced_unbound, same, plan] at spaced
  exact spaced

/-- What a process that takes a step at its points is to them. -/
theorem phase_of_runs {t : Option Trap} (runs : s.Runs p p' rest t)
    (plan : p'.plan = .rendezvous set id) : set.Phase id p'.pc t := by
  have trap := runs.trap
  rw [Proc.trapAt, plan] at trap
  exact TriggerSet.phase_of_rendezvousTrapAt trap

/-- A process whose trap is about a channel has a rendezvous plan, with room around its points. -/
theorem exists_phase (h : s.Regular) {t : Trap} (runs : s.Runs p p' rest (some t))
    (request : t.channel? = some id) :
    ∃ set, p'.plan = .rendezvous set id ∧ p.plan = .rendezvous set id ∧ set.Spaced ∧
      set.Phase id p'.pc (some t) := by
  have uses := Proc.channel?_of_trapAt runs.trap request
  cases plan : p'.plan with
  | none | io | mutex =>
    rw [Proc.channel?, plan] at uses
    cases uses
  | rendezvous set id' =>
    rw [Proc.channel?, plan] at uses
    cases uses
    have plan₀ : p.plan = .rendezvous set id := runs.advances.plan_eq.symm.trans plan
    have here : p ∈ s.population := runs.population_eq ▸ Multiset.mem_cons_self p _
    exact ⟨set, rfl, plan₀, h.spaced_of_plan here plan₀, phase_of_runs runs plan⟩

/-- A process of which a channel takes no notice is not in its section. -/
theorem not_inSection_of_ignored (h : s.Regular) {t : Option Trap} (runs : s.Runs p p' rest t)
    (ignored : ∀ t' ∈ t, s.Ignores p' t') : ¬p'.InSection := by
  rintro ⟨set, id, plan, around⟩
  have here : p ∈ s.population := runs.population_eq ▸ Multiset.mem_cons_self p _
  have plan₀ : p.plan = .rendezvous set id := runs.advances.plan_eq.symm.trans plan
  have uses : p.channel? = some id := by rw [Proc.channel?, plan₀]
  obtain ⟨c, found⟩ := h.reached p here id uses
  cases phase_of_runs runs plan with
  | quiet outside => exact outside around
  | acquire next =>
    have missing : s.channels.get? id = none := ignored _ rfl
    rw [found] at missing
    cases missing
  | body mem =>
    rcases ignored _ rfl with missing | sideless
    · rw [found] at missing
      cases missing
    · obtain ⟨role, kind, -⟩ :=
        h.met.seated.exists_role h.bound h.met.lawful h.sided here uses found
      rw [runs.advances.kind_eq, kind] at sideless
      cases sideless
  | release past mem =>
    rw [past] at around
    exact (h.spaced_of_plan here plan₀).not_around_succ mem around

end Regular

namespace Guarded

/-- At the body of a rendezvous and at the release of the lock a process holds the lock. -/
theorem holder_of_runs (h : s.Guarded) (regular : s.Regular) {t : Trap}
    (runs : s.Runs p p' rest (some t)) (request : t.channel? = some id) {c : Channel}
    (found : s.channels.get? id = some c) (other : t ≠ .rendezvousAcquire id) :
    c.lock.holder = some p.pid := by
  obtain ⟨set, -, plan, spaced, phase⟩ := regular.exists_phase runs request
  have here : p ∈ s.population := runs.population_eq ▸ Multiset.mem_cons_self p _
  have uses : p.channel? = some id := by rw [Proc.channel?, plan]
  have around := phase.around_of_advances spaced runs.advances other
  exact h p here id c uses found ⟨set, id, plan, around⟩

/-- Nobody comes into a section while no lock of a channel changes. -/
theorem frame (h : s.Guarded) (channels : ∀ id c', s'.channels.get? id = some c' →
      ∃ c, s.channels.get? id = some c ∧ c'.lock = c.lock)
    (population : ∀ p ∈ s'.population, p ∈ s.population ∨ ¬p.InSection) : s'.Guarded := by
  intro p hp id c' uses found inside
  obtain ⟨c, before, lock⟩ := channels id c' found
  rcases population p hp with old | outside
  · rw [lock]
    exact h p old id c uses before inside
  · exact absurd inside outside

/-- A channel serves a process. -/
theorem serve (h : s.Guarded) (regular : s.Regular) {t : Trap} {c c' : Channel}
    {out : Multiset Proc} (runs : s.Runs p p' rest (some t)) (request : t.channel? = some id)
    (found : s.channels.get? id = some c) (serves : Channel.Serves p' t c c' out) :
    { s with free := out + rest, channels := s.channels.set id c' }.Guarded := by
  obtain ⟨set, plan, -, spaced, phase⟩ := regular.exists_phase runs request
  have pid := runs.advances.pid_eq
  obtain ⟨q, balanced, profile, own, kept⟩ := serves.exists_section spaced phase fun other =>
    (h.holder_of_runs regular runs request found other).trans (congrArg some pid.symm)
  obtain ⟨others, before, after⟩ := exists_population_set_channel regular.met.tidy found
  rw [runs.running, Multiset.cons_add, Multiset.cons_add] at before
  intro w hw id' c₁ uses found₁ inside
  rw [after, add_of_served balanced] at hw
  rw [Registry.get?_set (Registry.mem_keys_of_get? found)] at found₁
  rcases Multiset.mem_cons.1 hw with rfl | hw
  · -- The process that is served uses the channel.
    have plan' : w.plan = .rendezvous set id := (congrArg (·.plan) profile).trans plan
    obtain ⟨set', id₁, plan₁, around⟩ := inside
    rw [plan'] at plan₁
    cases plan₁
    rw [Proc.channel?, plan'] at uses
    cases uses
    rw [if_pos rfl] at found₁
    cases found₁
    have same : w.pid = p'.pid := congrArg (·.pid) profile
    rw [same]
    exact own around
  · have ne : w.pid ≠ p'.pid := pid ▸ regular.met.lawful.pid_ne before hw
    have old : w ∈ s.population := before ▸ Multiset.mem_cons_of_mem hw
    split at found₁
    case isTrue same =>
      cases found₁
      exact kept w.pid ne (h w old id' c uses (same ▸ found) inside)
    case isFalse => exact h w old id' c₁ uses found₁ inside

/-- A rendezvous pair arrives with its channel. -/
theorem arrive (h : s.Guarded) (regular : s.Regular) {producer consumer : Proc}
    (newcomers : ∀ p ∈ cores (s.enrolled (.rendezvousPair producer consumer)), ¬p.InSection)
    (population : s'.population =
      cores (s.enrolled (.rendezvousPair producer consumer)) + s.population) {c : Channel}
    (channels : s'.channels = s.channels.add ⟨s.nextChannel⟩ c) : s'.Guarded := by
  intro p hp id c' uses found inside
  rw [population, Multiset.mem_add] at hp
  rcases hp with new | old
  · exact absurd inside (newcomers p new)
  · have lt := regular.bound.lt _ (profile_mem_books old) id uses
    rw [channels, Registry.get?_add regular.met.tidy.fresh, if_neg ?_] at found
    · exact h p old id c' uses found inside
    · rintro rfl
      exact Nat.lt_irrefl _ lt

/-- Who arrives has not started. -/
theorem not_inSection_of_enrolled (spaced : ∀ a ∈ s'.arrived, a.Spaced) {a : Arrival}
    (arrived : s'.arrived = s.arrived ++ [a]) (hp : p ∈ cores (s.enrolled a)) : ¬p.InSection := by
  have mem : a ∈ s'.arrived := arrived ▸ List.mem_append_right _ List.mem_cons_self
  obtain ⟨q, hq, rfl⟩ := Queue.mem_cores.1 hp
  obtain ⟨start, room⟩ := (spaced a mem).of_enrolled hq
  rintro ⟨set, id, plan, around⟩
  have plan : q.plan = .rendezvous set id := plan
  have around : set.Around q.pc := around
  rw [plan] at room
  rw [start] at around
  exact room.not_around_zero around

/-- After an arrival everybody was there before or is in no section. -/
theorem old_or_outside_of_arrival (spaced : ∀ a ∈ s'.arrived, a.Spaced) {a : Arrival}
    (arrived : s'.arrived = s.arrived ++ [a])
    (after : s'.population = cores (s.enrolled a) + s.population) :
    ∀ w ∈ s'.population, w ∈ s.population ∨ ¬w.InSection := by
  intro w hw
  rw [after, Multiset.mem_add] at hw
  exact hw.symm.imp_right (not_inSection_of_enrolled spaced arrived)

/-- A process without a channel comes into no section when it moves. -/
theorem old_or_outside_of_move {q : Proc} {others : Multiset Proc}
    (before : s.population = p ::ₘ others) (after : s'.population = q ::ₘ others)
    (profile : q.profile = p.profile) (other : p.channel? = none) :
    ∀ w ∈ s'.population, w ∈ s.population ∨ ¬w.InSection := by
  intro w hw
  rcases mem_or_eq_of_move before after hw with rfl | ⟨-, old⟩
  · right
    rintro ⟨set, id, plan, -⟩
    rw [← p.channel?_profile, ← profile, w.channel?_profile, Proc.channel?, plan] at other
    cases other
  · exact .inl old

theorem step (h : s.Guarded) (regular : s.Regular) (spaced : ∀ a ∈ s'.arrived, a.Spaced)
    (step : Step s s') : s'.Guarded := by
  have tidy := regular.met.tidy
  have same : ∀ id c, s.channels.get? id = some c →
      ∃ c', s.channels.get? id = some c' ∧ c.lock = c'.lock := fun id c found => ⟨c, found, rfl⟩
  have planless : ∀ {p p' : Proc} {rest : Multiset Proc} {t : Option Trap},
      s.Runs p p' rest t → p'.channel? = none → p.channel? = none :=
    fun runs none => runs.advances.channel?_eq.symm.trans none
  cases step with
  | scan => exact h.frame same fun p hp => .inl hp
  | retire zombie hr => exact h.frame same fun p hp => .inl hp
  | single p =>
    exact h.frame same (old_or_outside_of_arrival spaced rfl (population_single s p _))
  | mutexPair first second reversed =>
    exact h.frame same
      (old_or_outside_of_arrival spaced rfl (population_mutexPair s first second reversed _ _))
  | rendezvousPair producer consumer =>
    exact h.arrive regular (fun p hp => not_inSection_of_enrolled spaced rfl hp)
      (population_rendezvousPair s producer consumer _ _) rfl
  | goOn runs ignored =>
    obtain ⟨others, before, after⟩ := exists_population_goOn runs
    refine h.frame same fun w hw => ?_
    rcases mem_or_eq_of_move before after hw with rfl | ⟨-, old⟩
    · exact .inr (regular.not_inSection_of_ignored runs ignored)
    · exact .inl old
  | request runs found core =>
    obtain ⟨others, before, after⟩ := exists_population_request runs found core
    refine h.frame same (old_or_outside_of_move before after runs.advances.profile_eq
      (planless runs ?_))
    obtain ⟨sets, plan⟩ := Proc.plan_of_trapAt_io runs.trap
    rw [Proc.channel?, plan]
  | table runs request found serves =>
    obtain ⟨others, q, before, after, resumes⟩ := exists_population_table tidy runs found serves
    exact h.frame same (old_or_outside_of_move before after
      (resumes.profile_eq.trans runs.advances.profile_eq)
      (planless runs (Proc.channel?_of_tableRequest runs.trap request)))
  | channel runs request found serves => exact h.serve regular runs request found serves
  | complete found =>
    obtain ⟨others, before, after⟩ := exists_population_complete found
    refine h.frame same (old_or_outside_of_move before after rfl ?_)
    obtain ⟨sets, plan⟩ := regular.met.servesIo _ (List.mem_of_getElem? found) _ List.mem_cons_self
    rw [Proc.channel?, Proc.plan_core, plan]
  | terminate running done core =>
    refine h.frame same fun w hw => ?_
    rw [population_terminate running core] at hw
    exact .inl hw
  | dissolve zombie hr =>
    refine h.frame (fun id c found => ?_) fun w hw => ?_
    · rw [channels_dropLock, channels_dropLock] at found
      exact ⟨c, found, rfl⟩
    · rw [population_dissolve tidy] at hw
      exact .inl hw
  | drop zombie =>
    exact h.frame same fun w hw => .inl (mem_of_drop zombie hw)
  | leave zombie bound found stays =>
    exact h.frame (fun _ _ => Registry.exists_of_set (·.lock) found (Channel.lock_retire ..))
      fun w hw => .inl (mem_of_leave tidy zombie found hw)
  | close zombie bound found goes =>
    exact h.frame (fun id c' found' => ⟨c', Registry.get?_of_erase found', rfl⟩)
      fun w hw => .inl (mem_of_close tidy zombie found hw)

end Guarded

theorem guarded_of_steps (fresh : s.Fresh) (steps : Steps s s')
    (distinct : Arrival.Distinct s'.arrived) (sided : ∀ a ∈ s'.arrived, a.Sided)
    (spaced : ∀ a ∈ s'.arrived, a.Spaced) : s'.Guarded := by
  induction steps with
  | refl => exact fun p hp => absurd hp (fresh.notMem_population p)
  | @tail s₁ s₂ steps step ih =>
    have arrived := arrived_prefix_of_step step
    have distinct := distinct_of_prefix arrived distinct
    have sided : ∀ a ∈ s₁.arrived, a.Sided := fun a ha => sided a (arrived.subset ha)
    have earlier : ∀ a ∈ s₁.arrived, a.Spaced := fun a ha => spaced a (arrived.subset ha)
    exact (ih distinct sided earlier).step (regular_of_steps fresh steps distinct sided earlier)
      spaced step

/-- Whoever is in a section and a side of a channel uses that channel. -/
theorem Regular.channel?_of_side (h : s.Regular) (hp : p ∈ s.population) (inside : p.InSection)
    {c : Channel} (found : s.channels.get? id = some c) (side : p.pid ∈ [c.producer, c.consumer]) :
    p.channel? = some id := by
  obtain ⟨set, id', plan, -⟩ := inside
  have uses : p.channel? = some id' := by rw [Proc.channel?, plan]
  obtain ⟨c', found'⟩ := h.reached p hp id' uses
  obtain ⟨role, own⟩ := h.bound.has _ (profile_mem_books hp) id' uses c' found'
  have side' : p.pid ∈ [c'.producer, c'.consumer] :=
    p.pid_profile ▸ own ▸ Channel.Alternates.partner_mem c' role
  -- Both channels were made for the pair of the process.
  obtain ⟨producer, consumer, come, left, right⟩ := h.met.seated.origin id c found
  have member : ∃ q ∈ [producer, consumer], q.pid = p.pid := by
    rcases List.mem_pair.1 side with same | same
    · exact ⟨producer, List.mem_cons_self, left.symm.trans same.symm⟩
    · exact ⟨consumer, List.mem_cons_of_mem _ List.mem_cons_self, right.symm.trans same.symm⟩
  obtain ⟨q, hq, same⟩ := member
  have sides := h.met.seated.sides_of_arrival h.met.lawful.distinct found' come hq (same ▸ side')
  rw [uses, h.met.seated.unique id' id c' c found' found (sides.1.trans left.symm)]

end Scene

end Mlfq
