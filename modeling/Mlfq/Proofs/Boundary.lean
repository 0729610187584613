import Mlfq.Proofs.Accounting
import Mlfq.Proofs.Run.Command
import Mlfq.Proofs.Story.Rule

/-! # The largest counter

The program counter of a process stays at its largest one or below, but for one way past it: the end
of a request that was made at the largest counter leads one point further. Only a process with a
request at its largest counter goes this way, and it never waits there. -/

namespace Mlfq

variable {σ : Type}

/-- Whether the process makes a request when it comes to this point. -/
def Proc.requestsAt (p : Proc) (pc : Nat) : Bool :=
  match p.plan with
  | .io devices => devices.any (·.contains pc)
  | _ => false

/-- The process has gone past its largest counter with the end of a request made there. -/
structure Proc.Overshoots (p : Proc) : Prop where
  pc : p.pc = p.maxPc + 1
  request : p.requestsAt p.maxPc = true

/-- In which stations nobody waits for anything but the CPU. -/
def Station.isOpen : Station → Bool
  | .line | .cpu | .ended => true
  | _ => false

/-- A record of a process that has arrived is not past its largest counter, or just behind it. -/
structure Station.Bounded (arrived : List Proc) (x : Station × Proc) : Prop where
  arrived : ∃ q ∈ arrived, q.outline = x.2.outline
  pc : x.2.pc ≤ x.2.maxPc ∨ x.1.isOpen = true ∧ x.2.Overshoots
  /-- The request that is being served was made where the process is. -/
  request : x.1 = .device → x.2.requestsAt x.2.pc = true

theorem Proc.requestsAt_of_trapAt {p : Proc} {pc : Nat} {pairs : MutexPairs} {d : DeviceId}
    (h : p.trapAt pc pairs = .ok (some (.io d))) : p.requestsAt pc = true := by
  obtain ⟨devices, plan⟩ := plan_of_trapAt_io h
  rw [trapAt, plan] at h
  simp only [Except.ok.injEq, Option.map_eq_some_iff] at h
  obtain ⟨i, found, -⟩ := h
  obtain ⟨inRange, here, -⟩ := List.findIdx?_eq_some_iff_getElem.1 found
  rw [requestsAt, plan]
  exact List.any_eq_true.2 ⟨devices[i], List.getElem_mem inRange, here⟩

theorem Proc.requestsAt_eq_of_outline_eq {p q : Proc} (h : p.outline = q.outline) (pc : Nat) :
    p.requestsAt pc = q.requestsAt pc := by
  have plan : p.plan.unbound = q.plan.unbound := congrArg Proc.plan h
  have unbound : ∀ r : Proc, r.requestsAt pc = { r with plan := r.plan.unbound }.requestsAt pc := by
    intro r
    unfold requestsAt
    cases r.plan <;> rfl
  rw [unbound p, unbound q, plan]
  rfl

namespace Story

variable {arrived : List Proc}

theorem Passes.bounded {due due' : Option Pid} {x x' : Station × Proc} {e : Event}
    (h : Passes due x e x' due') (before : Station.Bounded arrived x)
    (stepped : due ≠ none → x.1 = .cpu → x.2.pc ≤ x.2.maxPc) : Station.Bounded arrived x' := by
  obtain ⟨known, pc, request⟩ := before
  cases h with
  | expire | terminate => exact ⟨known, pc, nofun⟩
  | request countdown trap =>
    exact ⟨known, .inl (stepped nofun rfl), fun _ => Proc.requestsAt_of_trapAt trap⟩
  | complete p d =>
    -- The request was made at the largest counter at most.
    have le : p.pc ≤ p.maxPc := pc.resolve_right fun past => nomatch past.1
    refine ⟨known, ?_, nofun⟩
    rcases Nat.lt_or_eq_of_le le with lt | last
    · exact .inl lt
    · exact .inr ⟨rfl, congrArg (· + 1) last, (last ▸ request rfl : p.requestsAt p.maxPc = true)⟩
  | block | wait =>
    exact ⟨known, .inl ((Nat.sub_le _ _).trans (stepped nofun rfl)), nofun⟩
  | signal p => exact ⟨known, .inl (pc.resolve_right fun past => nomatch past.1), nofun⟩

/-- Where records are bounded by the largest counters, they stay so. -/
theorem rule_bounded (arrived : List Proc) :
    Rule (fun p => p ∈ arrived ∧ p.pc = 0) fun _ => Station.Bounded arrived where
  later h := h
  arrive := by
    rintro n p q ⟨mem, start⟩ outline pc -
    exact ⟨⟨p, mem, outline.symm⟩, .inl ((pc.trans start).trans_le (Nat.zero_le _)), nofun⟩
  pass passes stepped h := passes.bounded h stepped
  finish h := ⟨h.arrived, h.pc, nofun⟩
  dispatch h := ⟨h.arrived, h.pc, nofun⟩
  wake h := ⟨h.arrived, .inl (h.pc.resolve_right fun past => nomatch past.1), nofun⟩
  tick := by
    intro n p p' advances ⟨⟨q, mem, outline⟩, _, _⟩
    have same : p'.outline = p.outline := by
      rw [← p'.outline_profile, advances.profile_eq, p.outline_profile]
    exact ⟨⟨q, mem, outline.trans same.symm⟩, .inl advances.pc_le, nofun⟩

end Story

/-! ## Runs -/

/-- No process has gone past its largest counter, or one with a request there has, which waits for
nothing but the CPU. -/
structure Chronicle.StaysInside (c : Chronicle σ) : Prop where
  records : ∀ place, ∀ r ∈ c.machine.resumingAt place,
    r.pc ≤ r.maxPc ∨ place.station.isOpen = true ∧ r.Overshoots
  /-- Those who were dispatched resumed at such a counter. -/
  dispatched : ∀ pid priority pc, .dispatched pid priority pc ∈ c.events →
    ∃ q ∈ c.moment.ledger.arrived.flatMap Arrival.procs, q.pid = pid ∧
      (pc ≤ q.maxPc ∨ pc = q.maxPc + 1 ∧ q.requestsAt q.maxPc = true)

variable {c : Chronicle σ}

/-- The processes of the library arrive at the counter 0, and their records are bounded from there
on. -/
theorem Chronicle.Reachable.bounded [Workload σ] [Workload.Library σ] {config : Config}
    {workload : σ} {logLevel : Option Level}
    (reachable : Chronicle.Reachable (.start config workload logLevel) c) :
    (∀ x ∈ c.story.roll, Station.Bounded c.story.arrived x) ∧
      ∀ e ∈ c.story.events, Story.FromLine (fun _ => Station.Bounded c.story.arrived) e := by
  have new := Story.allNew_of_library (Moment.distinct_of_library reachable.moment).1
  exact (Story.rule_bounded c.story.arrived).of_reachable reachable fun p hp => ⟨hp, (new p hp).1⟩

/-- At every moment of a run of a library workload, the counters of all processes stay inside, but
for those with a request at their largest counter. -/
theorem staysInside_of_reachable [Workload σ] [Workload.Library σ] {config : Config} {workload : σ}
    {logLevel : Option Level}
    (reachable : Chronicle.Reachable (.start config workload logLevel) c) : c.StaysInside := by
  obtain ⟨records, told⟩ := reachable.bounded
  constructor
  · intro place r hr
    have tidy := Story.tidy_of_reachable reachable
    have bounded := (records _ (Ledger.mem_roll_of_mem_resumingAt tidy hr)).pc
    exact bounded.imp_right fun past => ⟨past.1, past.2.pc, past.2.request⟩
  · intro pid priority pc he
    obtain ⟨-, p, ⟨⟨q, mem, outline⟩, bounded, -⟩, rfl, rfl⟩ := told _ he pid priority pc rfl
    have maxPc : q.maxPc = p.maxPc := congrArg (·.maxPc) outline
    refine ⟨q, mem, congrArg (·.pid) outline, ?_⟩
    rw [maxPc, Proc.requestsAt_eq_of_outline_eq outline]
    exact bounded.imp_right fun past => ⟨past.2.pc, past.2.request⟩

/-- One of two processes has gone past its largest counter, the other is parked below its own. -/
theorem staysInside_of_reachable_past : ∃ c : Chronicle ScriptedWorkload,
    Chronicle.Reachable (.start {} ⟨[[.io 3 0 [[3]], .io 5 0 [[], [2]]]]⟩ none) c ∧
    c.StaysInside ∧ (∃ r ∈ c.machine.resumingAt .cpu, r.Overshoots) ∧
    ∃ r ∈ c.machine.resumingAt (.device ⟨1⟩), r.pc = 2 ∧ r.pc ≤ r.maxPc := by
  have run : ((Machine.start {}
      (⟨[[.io 3 0 [[3]], .io 5 0 [[], [2]]]]⟩ : ScriptedWorkload) none).performAll
        [.boot, .tick [], .tick [], .tick [], .tick [], .tick [], .tick [],
          .ioInterrupt ⟨0⟩ []]).toOption.any
      (fun m => (m.resumingAt .cpu).any (fun r => r.pc = 4 && r.maxPc = 3 && r.requestsAt 3) &&
        (m.resumingAt (.device ⟨1⟩)).any fun r => r.pc = 2) = true := by
    decide +kernel
  obtain ⟨mo, moments, -, test⟩ := Moment.exists_reachable_of_performAll run
  obtain ⟨cycles, reachable⟩ := Chronicle.exists_reachable moments
  simp only [Bool.and_eq_true, List.any_eq_true, decide_eq_true_eq] at test
  obtain ⟨⟨r, hr, ⟨pc, maxPc⟩, request⟩, q, hq, two⟩ := test
  have inside := staysInside_of_reachable reachable
  have parked := (inside.records (.device ⟨1⟩) q hq).resolve_right fun past => nomatch past.1
  exact ⟨⟨mo, cycles⟩, reachable, inside, ⟨r, hr, by rw [pc, maxPc], by rwa [maxPc]⟩, q, hq, two,
    parked⟩

/-- A process with a request at counter 3, its largest one, is dispatched at 4. -/
theorem staysInside_overshoots : ∃ c : Chronicle ScriptedWorkload,
    Chronicle.Reachable (.start {} ⟨[[.io 3 0 [[3]]]]⟩ none) c ∧ c.moment.pending = [] ∧
    ∃ p, c.machine.running = some p ∧ p.maxPc = 3 ∧ c.machine.cpuPc = 4 ∧
      .dispatched p.pid p.priority 4 ∈ c.events := by
  have run : ((Machine.start {} (⟨[[.io 3 0 [[3]]]]⟩ : ScriptedWorkload) none).performAll
      [.boot, .tick [], .tick [], .tick [], .tick [], .ioInterrupt ⟨0⟩ []]).toOption.any
      (fun m => m.running.any fun p => p.maxPc = 3 && m.cpuPc = 4 &&
        m.journal.trace.events.contains (.dispatched p.pid p.priority 4)) = true := by
    decide +kernel
  obtain ⟨mo, moments, rest, test⟩ := Moment.exists_reachable_of_performAll run
  obtain ⟨cycles, reachable⟩ := Chronicle.exists_reachable moments
  simp only [Option.any_eq_true, Bool.and_eq_true, decide_eq_true_eq, List.contains_iff_mem] at test
  obtain ⟨p, running, ⟨maxPc, pc⟩, told⟩ := test
  exact ⟨⟨mo, cycles⟩, reachable, rest, p, running, maxPc, pc, told⟩

/-- A random workload makes no request at the largest counter of a process. -/
theorem RandomWorkload.requestsAt_maxPc {config : Config} {workload : RandomWorkload}
    {logLevel : Option Level} {mo : Moment RandomWorkload}
    (reachable : Moment.Reachable (.start config workload logLevel) mo) {q : Proc}
    (arrived : q ∈ mo.ledger.arrived.flatMap Arrival.procs) : q.requestsAt q.maxPc = false := by
  obtain ⟨a, ha, hq⟩ := List.mem_flatMap.1 arrived
  obtain ⟨w, -, drawn⟩ := Moment.drawn_of_reachable reachable a ha
  cases drawn with
  | compute =>
    rw [List.mem_singleton.1 hq]
    rfl
  | io pid maxPc terminateAfter positive inside =>
    rw [List.mem_singleton.1 hq]
    exact List.any_eq_false.2 fun set hset => (inside set hset).symm ▸ Bool.false_ne_true
  | mutexPair | rendezvousPair => rcases List.mem_pair.1 hq with rfl | rfl <;> rfl

/-- In a run of a random workload no counter goes past the largest one of its process. -/
theorem pc_le_maxPc_of_random {config : Config} {workload : RandomWorkload}
    {logLevel : Option Level} {c : Chronicle RandomWorkload}
    (reachable : Chronicle.Reachable (.start config workload logLevel) c) (place : Place) {r : Proc}
    (hr : r ∈ c.machine.resumingAt place) : r.pc ≤ r.maxPc := by
  have here := Ledger.mem_roll_of_mem_resumingAt (Story.tidy_of_reachable reachable) hr
  obtain ⟨⟨q, arrived, outline⟩, pc, -⟩ := reachable.bounded.1 _ here
  refine pc.resolve_right ?_
  rintro ⟨-, -, request⟩
  have maxPc : q.maxPc = r.core.maxPc := congrArg (·.maxPc) outline
  have nothing := RandomWorkload.requestsAt_maxPc reachable.moment arrived
  rw [Proc.requestsAt_eq_of_outline_eq outline, maxPc] at nothing
  exact Bool.false_ne_true (nothing.symm.trans request)

end Mlfq
