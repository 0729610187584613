import Mlfq.Proofs.Journey.Machine
import Mlfq.Proofs.Story.Topics

/-! # The ways of records through a run

What can become of the records between a moment and the next, with what is told meanwhile. Nothing
is asked of the processes. -/

namespace Mlfq

/-- A timer interrupt is under way that will demote the running process. -/
def Duty.Expires (pending : List Duty) : Prop :=
  ∃ rest, .phases .timer rest ∈ pending ∧ Phase.preemption ∈ rest

theorem Duty.Expires.mono {pending pending' : List Duty} (h : Duty.Expires pending)
    (sub : pending ⊆ pending') : Duty.Expires pending' := by
  obtain ⟨rest, mem, still⟩ := h
  exact ⟨rest, sub mem, still⟩

namespace Moment

variable {σ : Type} [Workload σ]

/-- What becomes of the records between a moment and the next. -/
inductive Passage (mo mo' : Moment σ) : Prop
  | move {topics : List Event.Topic} (conveys : mo.ledger.machine.Conveys mo'.ledger.machine)
    (tells : mo.ledger.machine.Tells topics mo'.ledger.machine)
    (quiet : .expiry ∉ topics ∧ .reset ∉ topics) (arrived : mo'.ledger.arrived = mo.ledger.arrived)
    (expires : Duty.Expires mo.pending →
      Duty.Expires mo'.pending ∨ mo'.ledger.machine.running = none)
  | stop (holds : ∀ x, mo'.ledger.machine.Holds x → mo.ledger.machine.Holds x ∨
      ∃ p, mo.ledger.machine.running = some p ∧
        x = (.cpu, { p with state := .interrupted, pc := mo.ledger.machine.cpuPc }))
    (tells : mo.ledger.machine.Tells [.timer] mo'.ledger.machine)
    (arrived : mo'.ledger.arrived = mo.ledger.arrived) (expires : Duty.Expires mo'.pending)
  | arrive {as : List Arrival} (holds : ∀ x, mo'.ledger.machine.Holds x →
      mo.ledger.machine.Holds x ∨ Machine.Enters as x)
    (tells : mo.ledger.machine.Tells [.arrival] mo'.ledger.machine)
    (arrived : mo'.ledger.arrived = mo.ledger.arrived ++ as) (expires : ¬ Duty.Expires mo.pending)
  | reset {as : List Arrival} {m : Machine σ} {n : Nat}
    (holds : ∀ x, mo'.ledger.machine.Holds x →
      (∃ y, mo.ledger.machine.Holds y ∧ x = Machine.afterReset y) ∨ Machine.Enters as x)
    (tells : mo.ledger.machine.Tells [.arrival] m)
    (told : mo'.ledger.machine = m.emit (.prioritiesReset n))
    (arrived : mo'.ledger.arrived = mo.ledger.arrived ++ as)
    (expires : Duty.Expires mo.pending → Duty.Expires mo'.pending)
  | expire {p : Proc} {m : Machine σ} (running : mo.ledger.machine.running = some p)
    (holds : ∀ x, mo'.ledger.machine.Holds x →
      mo.ledger.machine.Holds x ∧ x.1 ≠ .cpu ∨ x = (.ready p.priority.demoted,
        { p with pc := mo.ledger.machine.cpuPc, priority := p.priority.demoted, state := .ready }))
    (queued : ∃ r, mo'.ledger.machine.Holds (.ready p.priority.demoted, r) ∧ r.pid = p.pid)
    (tells : mo.ledger.machine.Tells [] m)
    (told : mo'.ledger.machine.journal =
      (m.emit (.quantumExpired p.pid p.priority.demoted)).journal)
    (arrived : mo'.ledger.arrived = mo.ledger.arrived)

variable {mo mo' : Moment σ}

omit [Workload σ] in
theorem Passage.arrived_prefix (h : Passage mo mo') : mo.ledger.arrived <+: mo'.ledger.arrived := by
  cases h with
  | move _ _ _ arrived | stop _ _ arrived | expire _ _ _ _ _ arrived =>
    exact arrived ▸ List.prefix_rfl
  | arrive _ _ arrived | reset _ _ _ arrived => exact arrived ▸ List.prefix_append ..

/-- What tells nothing tells of no demotion and no reset. -/
theorem unmentioned : .expiry ∉ ([] : List Event.Topic) ∧ .reset ∉ ([] : List Event.Topic) :=
  ⟨List.not_mem_nil, List.not_mem_nil⟩

/-- A phase other than the demotion leaves the demotion to come. -/
theorem expires_of_phase {cause : Cause} {phase : Phase} {rest : List Phase} {pending : List Duty}
    (other : cause = .timer → phase ≠ .preemption)
    (h : Duty.Expires (.phases cause (phase :: rest) :: pending)) :
    Duty.Expires (.phases cause rest :: pending) := by
  obtain ⟨phases, mem, still⟩ := h
  rcases List.mem_cons.1 mem with here | later
  · cases here
    have ne : Phase.preemption ≠ phase := fun same => other rfl same.symm
    exact ⟨rest, List.mem_cons_self, (List.mem_cons.1 still).resolve_left ne⟩
  · exact ⟨phases, List.mem_cons_of_mem _ later, still⟩

omit [Workload σ] in
theorem passage_of_preempt (l : Ledger σ) (pending pending' : List Duty) :
    Passage ⟨l, pending⟩ ⟨{ l with machine := l.machine.preempt }, pending'⟩ := by
  cases running : l.machine.running with
  | none =>
    have still : l.machine.preempt = l.machine := by rw [Machine.preempt, running]
    rw [still]
    exact .move (.refl _) (.refl [] _) unmentioned rfl fun _ => .inr running
  | some p =>
    refine .expire running (fun x => Machine.holds_preempt running)
      (Machine.exists_holds_preempt running)
      (m := l.machine.measure fun c => { c with quantumExpiries := c.quantumExpiries + 1 })
      (.measure (.refl [] _) _) ?_ rfl
    simp only [Machine.preempt, running]
    rfl

theorem passage_of_phase {l : Ledger σ} {cause : Cause} {phase : Phase} {rest : List Phase}
    {m : Machine σ} {pending : List Duty} (h : l.machine.phase cause phase = .ok m) :
    Passage ⟨l, .phases cause (phase :: rest) :: pending⟩
      ⟨⟨m, l.arrived ++ l.machine.arrivalsOf phase, l.dropped ++ l.machine.droppedBy phase⟩,
        .phases cause rest :: pending⟩ := by
  by_cases expiry : cause = .timer ∧ phase = .preemption
  · obtain ⟨rfl, rfl⟩ := expiry
    cases h
    simp only [if_true, Machine.arrivalsOf, Machine.droppedBy, List.append_nil]
    exact passage_of_preempt l _ _
  · have other : cause = .timer → phase ≠ .preemption := fun timer same => expiry ⟨timer, same⟩
    have expires : Duty.Expires (.phases cause (phase :: rest) :: pending) →
        Duty.Expires (.phases cause rest :: pending) := expires_of_phase other
    by_cases reset : phase = .priorityReset
    · obtain rfl := reset
      simp only [Machine.phase, Machine.arrivalsOf, Machine.droppedBy, List.append_nil] at h ⊢
      split at h
      case isTrue due =>
        rw [if_pos due]
        obtain ⟨m₁, n, tells, rfl⟩ := Machine.exists_of_resetPriorities h
        exact .reset (fun x => Machine.holds_resetPriorities h) tells rfl rfl expires
      case isFalse early =>
        cases h
        rw [if_neg early, List.append_nil]
        exact .move (.refl _) (.refl [] _) unmentioned rfl fun h => .inl (expires h)
    · have arrived : l.arrived ++ l.machine.arrivalsOf phase = l.arrived := by
        cases phase with
        | priorityReset => exact absurd rfl reset
        | _ => exact List.append_nil _
      have conveys := Machine.conveys_phase reset other h
      by_cases preemption : phase = .preemption
      · obtain rfl := preemption
        -- Without a timer nothing happens.
        simp only [Machine.phase, if_neg fun timer => other timer rfl] at h
        cases h
        exact .move conveys (.refl [] _) unmentioned arrived fun h => .inl (expires h)
      · have quiet : .expiry ∉ phase.topics ∧ .reset ∉ phase.topics := by
          cases phase <;> first | exact absurd rfl reset | exact absurd rfl preemption | decide
        exact .move conveys (Machine.tells_phase h) quiet arrived fun h => .inl (expires h)

/-- What can become of the records in a run. -/
theorem Next.passage (h : Next mo mo') (tidy : mo.ledger.machine.locks.Tidy) : Passage mo mo' := by
  cases h with
  | boot h =>
    obtain ⟨⟨n, m₁⟩, request, h⟩ := exists_of_bind_eq_ok h
    cases h
    refine .arrive (fun x hx => Machine.holds_requestBatch request hx)
      ((Machine.tells_requestBatch request).log _) rfl ?_
    rintro ⟨rest, mem, -⟩
    cases mem
  | request h =>
    refine .arrive (fun x => Machine.holds_requestBatch h) (Machine.tells_requestBatch h) rfl ?_
    rintro ⟨rest, mem, -⟩
    cases mem
  | schedule cause =>
    exact .move (.refl _) (.refl [] _) unmentioned rfl
      fun h => .inl (h.mono (List.nil_subset _))
  | @idleCycle l idle =>
    let counted := l.machine.beginCycle.countIdle
    have conveys : Machine.Conveys l.machine counted := .of_eq rfl
    have tells : Machine.Tells [.deadlock] l.machine counted := .of_eq rfl rfl rfl rfl
    exact .move (conveys.trans (Machine.conveys_scanIfDue counted))
      (tells.trans (Machine.tells_scanIfDue counted)) (by decide) rfl
      fun h => .inl (h.mono (List.nil_subset _))
  | busyCycle running h =>
    exact .move (Machine.conveys_stepRunning tidy running h) (Machine.tells_stepRunning running h)
      (by decide) rfl fun h => .inl (h.mono (List.nil_subset _))
  | timer allowed =>
    exact .stop (fun x => Machine.holds_raiseTimer) (Machine.tells_raiseTimer _) rfl
      ⟨Phase.all, List.mem_cons_self, by decide⟩
  | completion allowed done =>
    exact .move (Machine.conveys_completeIo done) (Machine.tells_completeIo done) (by decide) rfl
      fun h => .inl (h.mono (List.subset_cons_self _ _))
  | phase h => exact passage_of_phase h
  | @done l cause pending =>
    refine .move (.refl _) (.refl [] _) unmentioned rfl fun h => .inl ?_
    obtain ⟨rest, mem, still⟩ := h
    rcases List.mem_cons.1 mem with here | later
    · cases here
      cases still
    · exact ⟨rest, later, still⟩
  | @goOn l pid pending unfinished =>
    refine .move (.refl _) (.refl [] _) unmentioned rfl fun h => .inl ?_
    obtain ⟨rest, mem, still⟩ := h
    exact ⟨rest, (List.mem_cons.1 mem).resolve_left nofun, still⟩
  | @terminate l pid m pending h =>
    refine .move (Machine.conveys_terminateIfDone h) (Machine.tells_terminateIfDone h) (by decide)
      rfl fun h => .inl ?_
    obtain ⟨rest, mem, still⟩ := h
    exact ⟨rest, .tail _ ((List.mem_cons.1 mem).resolve_left nofun), still⟩

/-- A process has one record at most. -/
theorem record_unique {config : Config} {workload : σ} {logLevel : Option Level}
    (reachable : Reachable (.start config workload logLevel) mo)
    (distinct : Arrival.Distinct mo.ledger.arrived) {x y : Place × Proc}
    (hx : mo.ledger.machine.Holds x) (hy : mo.ledger.machine.Holds y)
    (same : x.2.pid = y.2.pid) : x = y := by
  have steps := Scene.steps_of_reachable reachable
  have fresh := Scene.fresh_start config workload logLevel
  have tidy := Scene.tidy_of_steps fresh steps
  have nodup := (fresh.lawful steps distinct).nodup
  rw [Scene.map_pid_population tidy, Multiset.coe_nodup, List.map_flatMap] at nodup
  obtain ⟨place, p⟩ := x
  obtain ⟨place', q⟩ := y
  have mem : p.pid ∈ (mo.ledger.machine.recordsAt place').map (·.pid) :=
    same ▸ List.mem_map_of_mem hy
  obtain rfl : place = place' := eq_of_nodup_flatMap nodup (Machine.mem_places hx)
    (Machine.mem_places hy) (List.mem_map_of_mem hx) mem
  have here := (List.nodup_flatMap.1 nodup).1 place (Machine.mem_places hx)
  exact congrArg _ (List.inj_on_of_nodup_map here hx hy same)

end Moment
end Mlfq
