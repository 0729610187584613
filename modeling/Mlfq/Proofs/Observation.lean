import Mlfq.Proofs.Conservation
import Mlfq.Proofs.Twin.Calls

/-! # Scheduling does not depend on how it is observed

Whether a trace is recorded, how often deadlocks are looked for and when ended processes are dropped
makes no difference to the schedule: the same calls lead to machines that agree on everything
else. -/

namespace Mlfq

variable {σ : Type}

namespace Machine

/-- The process is somewhere and has not ended. -/
def Lives (m : Machine σ) (pid : Pid) : Prop :=
  ∃ place, place ≠ .zombies ∧ ∃ p ∈ m.recordsAt place, p.pid = pid

/-- Every mutex pair and every channel of the one machine with a member that has not ended is in the
other too and in the same state, but for the marks of members that were dropped. -/
structure Covers (m m' : Machine σ) : Prop where
  pairs : ∀ q ∈ m.pairs.pairs, (∃ x ∈ q.pids, m.Lives x) →
    ∃ q' ∈ m'.pairs.pairs, q'.unmarked = q.unmarked
  locks : ∀ q ∈ m.pairs.pairs, (∃ x ∈ q.pids, m.Lives x) → ∀ id ∈ q.locks,
    ∃ l, m.locks.get? id = some l ∧ m'.locks.get? id = some l
  channels : ∀ id c, m.channels.get? id = some c → m.Lives c.producer ∨ m.Lives c.consumer →
    ∃ c', m'.channels.get? id = some c' ∧ c'.unmarked = c.unmarked

/-- Two machines are in the same state but for what is observed of them and for what belongs to
ended processes only. -/
structure Agrees (m m' : Machine σ) : Prop where
  running : m'.running = m.running
  cpuPc : m'.cpuPc = m.cpuPc
  newcomers : m'.newcomers = m.newcomers
  ready : m'.ready = m.ready
  /-- The devices have the same queues and the same countdowns. -/
  devices : m'.devices = m.devices
  census : m'.census = m.census
  gen : m'.gen = m.gen
  /-- The workload has the same state, its generator included. -/
  workload : m'.workload = m.workload
  pids : m'.pids = m.pids
  iteration : m'.iteration = m.iteration
  sinceReset : m'.sinceReset = m.sinceReset
  executing : m'.executing = m.executing
  lives : ∀ pid, m'.Lives pid ↔ m.Lives pid
  there : m.Covers m'
  back : m'.Covers m

end Machine

namespace Ledger

variable {l l' : Ledger σ}

/-- The processes that live are those that have come and have not ended. -/
theorem Conserves.lives_iff (h : l.Conserves) {pid : Pid} : l.machine.Lives pid ↔
    pid ∈ (l.arrived.flatMap Arrival.procs).map (·.pid) ∧ pid ∉ l.ended.map (·.pid) := by
  rw [ended, List.map_append, List.mem_append, not_or]
  constructor
  · rintro ⟨place, living, p, hp, rfl⟩
    by_cases come : p.pid ∈ (l.arrived.flatMap Arrival.procs).map (·.pid)
    · rcases h.arrived _ come with ⟨-, lacks⟩ | ⟨left, own, -, elsewhere⟩
      · exact absurd rfl (lacks place p hp)
      · refine ⟨come, left, fun ended => ?_⟩
        obtain ⟨z, hz, same⟩ := List.mem_map.1 ended
        obtain rfl : place = own := by_contra fun ne => elsewhere place ne p hp rfl
        exact elsewhere .zombies (Ne.symm living) z hz same
    · exact absurd rfl ((h.others _ come).2 place p hp)
  · rintro ⟨come, left, goesOn⟩
    rcases h.arrived _ come with ⟨gone, -⟩ | ⟨-, place, once, -⟩
    · exact absurd gone left
    · have here := List.count_pos_iff.1 (once ▸ Nat.one_pos)
      obtain ⟨p, hp, own⟩ := List.mem_map.1 here
      refine ⟨place, ?_, p, hp, own⟩
      rintro rfl
      exact goesOn here

/-- What is there in the one run for a process that lives is there in the other. -/
theorem Mirrors.covers (h : l.Mirrors l') (order : l.InOrder) (order' : l'.InOrder)
    (lives : ∀ pid, l.machine.Lives pid → pid ∉ l'.goneIds) : l.machine.Covers l'.machine := by
  have pair : ∀ q ∈ l.machine.pairs.pairs, (∃ x ∈ q.pids, l.machine.Lives x) →
      ∃ q' ∈ l'.machine.pairs.pairs, q'.unmarked = q.unmarked := fun q hq ⟨x, hx, living⟩ =>
    h.exists_pair order order' hq hx (lives x living)
  refine ⟨pair, fun q hq living id hid => ?_, fun id c found living => ?_⟩
  · obtain ⟨q', hq', same⟩ := pair q hq living
    have hid' : id ∈ q'.locks := by rwa [← q'.locks_unmarked, same, q.locks_unmarked]
    obtain ⟨a, found⟩ := Registry.exists_get?_of_mem_keys
      (order.paired.keys ▸ List.mem_flatMap.2 ⟨q, hq, hid⟩ : id ∈ l.machine.locks.locks.keys)
    obtain ⟨b, found'⟩ := Registry.exists_get?_of_mem_keys
      (order'.paired.keys ▸ List.mem_flatMap.2 ⟨q', hq', hid'⟩ : id ∈ l'.machine.locks.locks.keys)
    exact ⟨a, found, h.locks id a b found found' ▸ found'⟩
  · rcases h.there id c found with there | ⟨-, producer, consumer⟩
    · exact there
    · rcases living with living | living
      · exact absurd producer (lives _ living)
      · exact absurd consumer (lives _ living)

/-- Machines of runs that mirror each other agree. -/
theorem Mirrors.agrees (h : l.Mirrors l') (order : l.InOrder) (order' : l'.InOrder)
    (conserves : l.Conserves) (conserves' : l'.Conserves) : l.machine.Agrees l'.machine := by
  have lives : ∀ pid, l'.machine.Lives pid ↔ l.machine.Lives pid := fun pid => by
    rw [conserves.lives_iff, conserves'.lives_iff, h.arrived, h.ended]
  have left : ∀ pid, l.machine.Lives pid → pid ∉ l.goneIds := fun pid living gone =>
    (conserves.lives_iff.1 living).2 (List.map_subset _ (List.subset_append_left ..) gone)
  have left' : ∀ pid, l'.machine.Lives pid → pid ∉ l'.goneIds := fun pid living gone =>
    (conserves'.lives_iff.1 living).2 (List.map_subset _ (List.subset_append_left ..) gone)
  have surface := h.surface
  exact
    { running := congrArg (·.running) surface
      cpuPc := congrArg (·.cpuPc) surface
      newcomers := congrArg (·.newcomers) surface
      ready := congrArg (·.ready) surface
      devices := congrArg (·.devices) surface
      census := congrArg (·.census) surface
      gen := congrArg (·.gen) surface
      workload := congrArg (·.workload) surface
      pids := congrArg (·.pids) surface
      iteration := congrArg (·.iteration) surface
      sinceReset := congrArg (·.sinceReset) surface
      executing := congrArg (·.executing) surface
      lives
      there := h.covers order order' fun pid living => left' pid ((lives pid).2 living)
      back := h.symm.covers order' order fun pid living => left pid ((lives pid).1 living) }

end Ledger

/-- Two machines that differ only in what is recorded, in when deadlocks are looked for and in when
ended processes are dropped are led by the same calls, with the same interrupts, to machines that
agree, or both to the same fault. All processes are to have different numbers, and a process with a
rendezvous plan is to arrive in a rendezvous pair. -/
theorem agrees_of_performAll [Workload σ] {config config' : Config}
    (same : config'.unobserved = config.unobserved) {workload : σ}
    {logLevel logLevel' : Option Level}
    (orderly : ∀ mo, Moment.Reachable (.start config workload logLevel) mo →
      Arrival.Distinct mo.ledger.arrived ∧ ∀ a ∈ mo.ledger.arrived, a.Coupled)
    (calls : List Command) :
    Outcomes Machine.Agrees ((Machine.start config workload logLevel).performAll calls)
      ((Machine.start config' workload logLevel').performAll calls) := by
  let k : Comparison σ := ⟨config, config', same, workload, logLevel, logLevel'⟩
  have orderly : k.Orderly := orderly
  have twins := (Comparison.Twins.start k).performAll orderly calls
  refine twins.mono fun m m' _ _ both => ?_
  obtain ⟨arrived, dropped, dropped', first, second, mirrors⟩ := both
  obtain ⟨distinct, coupled⟩ := orderly _ first
  obtain ⟨order, order'⟩ := orderly.order first second rfl
  exact mirrors.agrees order order' (Moment.conserves_of_distinct first distinct coupled)
    (Moment.conserves_of_distinct second distinct coupled)

/-- Whatever has come of given arrivals is as they are. -/
theorem Moment.orderly_of_given {config : Config} {given : List Arrival} {logLevel : Option Level}
    (distinct : Arrival.Distinct given) (coupled : ∀ a ∈ given, a.Coupled)
    {mo : Moment GivenArrivals} (reachable : Reachable (.start config ⟨given⟩ logLevel) mo) :
    Arrival.Distinct mo.ledger.arrived ∧ ∀ a ∈ mo.ledger.arrived, a.Coupled := by
  rcases arrived_of_given reachable with none | all
  · rw [none]
    exact ⟨List.nodup_nil, fun a ha => absurd ha List.not_mem_nil⟩
  · rw [all]
    exact ⟨distinct, coupled⟩

/-- Two mutex users that end, and one that ends beside one that takes a lock. -/
def GivenArrivals.parting : GivenArrivals where
  arrivals :=
    [.mutexPair
        { pid := ⟨0⟩, kind := .mutexUser, maxPc := 1, terminateAfter := 1 }
        { pid := ⟨1⟩, kind := .mutexUser, maxPc := 1, terminateAfter := 1 } false,
      .mutexPair
        { pid := ⟨2⟩, kind := .mutexUser, maxPc := 1, terminateAfter := 1 }
        (.mutexUser ⟨3⟩ 600) false]

/-- Two runs of which one has dropped three ended processes, and with them a pair, while the other
has kept them. -/
theorem agrees_of_performAll_parting : ∃ m m' : Machine GivenArrivals, m.Agrees m' ∧
    m.zombies.length = 3 ∧ m'.zombies = [] ∧ m.pairs.pairs.length = 2 ∧
    m'.pairs.pairs.length = 1 ∧ m.locks.get? ⟨0⟩ ≠ none ∧ m'.locks.get? ⟨0⟩ = none ∧
    m'.locks.HeldBy ⟨2⟩ ⟨3⟩ := by
  let calls : List Command := .boot :: List.replicate 13 (.tick [])
  let observed : Config := { recordTrace := false, scanInterval := 1, zombieThreshold := 1 }
  have run : ((Machine.start {} GivenArrivals.parting none).performAll calls).toOption.any
      (fun m => m.zombies.length = 3 && (m.pairs.pairs.length = 2 &&
        (m.locks.get? ⟨0⟩).isSome)) = true := by decide +kernel
  have run' : ((Machine.start observed GivenArrivals.parting none).performAll calls).toOption.any
      (fun m => m.zombies.isEmpty && (m.pairs.pairs.length = 1 && ((m.locks.get? ⟨0⟩).isNone &&
        (m.locks.get? ⟨2⟩).any fun l => l.holder = some ⟨3⟩))) = true := by decide +kernel
  have distinct : Arrival.Distinct GivenArrivals.parting.arrivals := by
    rw [Arrival.Distinct]
    decide
  have coupled : ∀ a ∈ GivenArrivals.parting.arrivals, a.Coupled := by
    intro a ha
    rcases List.mem_pair.1 ha with rfl | rfl <;> exact ⟨rfl, rfl⟩
  have orderly : ∀ mo, Moment.Reachable (.start {} GivenArrivals.parting none) mo →
      Arrival.Distinct mo.ledger.arrived ∧ ∀ a ∈ mo.ledger.arrived, a.Coupled :=
    fun _ => Moment.orderly_of_given distinct coupled
  have same : observed.unobserved = ({} : Config).unobserved := rfl
  have agrees := @agrees_of_performAll _ _ _ _ same _ none none orderly calls
  obtain ⟨m, m', agrees, kept, dropped⟩ := agrees.exists_of_any run run'
  simp only [Bool.and_eq_true, decide_eq_true_eq, List.isEmpty_iff, Option.isSome_iff_ne_none,
    Option.isNone_iff_eq_none, Option.any_eq_true] at kept dropped
  obtain ⟨zombies, pairs, there⟩ := kept
  obtain ⟨none, one, gone, held⟩ := dropped
  exact ⟨m, m', agrees, zombies, none, pairs, one, there, gone, held⟩

end Mlfq
