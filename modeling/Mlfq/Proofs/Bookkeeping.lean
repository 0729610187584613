import Mlfq.Proofs.Channel.Closing
import Mlfq.Proofs.Shared.Pairs

/-! # Locks and channels are there as long as they are needed

What processes share is made when they arrive and removed when they are dropped, in several places
that have to agree. So nobody meets a lock or a channel that does not exist. -/

namespace Mlfq

variable {σ : Type}

/-- The lock or the channel that a trap is about exists. -/
def Machine.Finds (m : Machine σ) (t : Trap) : Prop :=
  (∀ id r, t.tableRequest? = some (id, r) → ∃ l, m.locks.get? id = some l) ∧
    ∀ id, t.channel? = some id → ∃ c, m.channels.get? id = some c

/-- The pairs, the locks and the channels agree with who has come and who was dropped. -/
structure Ledger.KeepsBooks (l : Ledger σ) : Prop where
  /-- The locks of the table are those of the pairs, two for each. -/
  locks : l.machine.locks.locks.keys = l.machine.pairs.pairs.flatMap MutexPair.locks
  distinct : l.machine.locks.locks.keys.Nodup
  shares : ∀ q ∈ l.machine.pairs.pairs, q.Shares
  pairs : ∀ first second reversed, .mutexPair first second reversed ∈ l.arrived →
    ((∃ q ∈ l.machine.pairs.pairs, q.MadeFor first.pid second.pid reversed) ↔
      ¬∀ p ∈ [first, second], p.pid ∈ l.goneIds)
  pairOrigin : ∀ q ∈ l.machine.pairs.pairs, ∃ first second reversed,
    .mutexPair first second reversed ∈ l.arrived ∧ q.MadeFor first.pid second.pid reversed
  /-- A channel that its members do not use stays. -/
  channels : ∀ producer consumer, .rendezvousPair producer consumer ∈ l.arrived →
    ((∃ id c, l.machine.channels.get? id = some c ∧ c.producer = producer.pid ∧
        c.consumer = consumer.pid) ↔
      ¬∀ p ∈ [producer, consumer], p.channel? ≠ none ∧ p.pid ∈ l.goneIds)
  channelOrigin : ∀ id c, l.machine.channels.get? id = some c → ∃ producer consumer,
    .rendezvousPair producer consumer ∈ l.arrived ∧ c.producer = producer.pid ∧
      c.consumer = consumer.pid
  apart : ∀ id c, l.machine.channels.get? id = some c → c.lock.id ∉ l.machine.locks.locks.keys
  unique : ∀ id id' c c', l.machine.channels.get? id = some c →
    l.machine.channels.get? id' = some c' → c.lock.id = c'.lock.id → id = id'
  /-- Whatever trap the running process may raise, it is about something that exists. -/
  finds : ∀ p, l.machine.running = some p → ∀ pc t,
    p.trapAt pc l.machine.pairs = .ok (some t) → l.machine.Finds t
  /-- No trap is handled that misses its lock or its channel. -/
  handles : ∀ p t m, l.machine.Raises p t m → m.Finds t

namespace Scene

variable {l : Ledger σ}

/-- Who runs is in the population. -/
theorem current_mem_population {p : Proc} (running : l.machine.running = some p) :
    l.machine.current p ∈ l.scene.population := by
  have free : l.scene.free = l.machine.current p ::ₘ l.machine.queued :=
    congrArg Scene.free (scene_of_running p running)
  rw [population, free]
  exact Multiset.mem_add.2 (.inl (Multiset.mem_add.2 (.inl (Multiset.mem_cons_self _ _))))

/-- A process that finds its channel meets nothing that does not exist. -/
theorem finds_of_trapAt (paired : l.scene.Paired) (reached : l.scene.Open) {p q : Proc} {t : Trap}
    (hp : p ∈ l.scene.population) (uses : q.channel? = p.channel?)
    (trap : q.trapAt q.pc l.machine.pairs = .ok (some t)) : l.machine.Finds t := by
  constructor
  · intro id r request
    obtain ⟨own, hown, hid, -⟩ := paired.exists_owner_of_trap trap request
    have mem : id ∈ l.machine.locks.locks.keys :=
      paired.keys ▸ List.mem_flatMap.2 ⟨own, hown, hid⟩
    exact Registry.exists_get?_of_mem_keys mem
  · intro id request
    exact reached p hp id (uses ▸ Proc.channel?_of_trapAt trap request)

/-- The trap that the running process raises is about something that exists. -/
theorem finds_of_raises (paired : l.scene.Paired) (reached : l.scene.Open) {p : Proc} {t : Trap}
    {m : Machine σ} (raises : l.machine.Raises p t m) : m.Finds t := by
  obtain ⟨p', runs, channels⟩ := raises.exists_runs l.arrived l.dropped
  have shared : m.locks = l.machine.locks := congrArg (·.2.1) raises.shared_eq
  have finds := finds_of_trapAt paired reached (current_mem_population raises.1)
    runs.advances.channel?_eq runs.trap
  rwa [Machine.Finds, ← shared, ← channels] at finds

end Scene

/-- At every moment of every run, locks and channels are there exactly as long as the pairs to which
they belong, and no trap is about one that is not there. All processes are to have different
numbers, and a process with a rendezvous plan is to arrive in a rendezvous pair together with
another one. -/
theorem keepsBooks_of_reachable [Workload σ] {config : Config} {workload : σ}
    {logLevel : Option Level} {mo : Moment σ}
    (reachable : Moment.Reachable (.start config workload logLevel) mo)
    (distinct : Arrival.Distinct mo.ledger.arrived)
    (joined : ∀ a ∈ mo.ledger.arrived, a.Joined) : mo.ledger.KeepsBooks := by
  have steps := Scene.steps_of_reachable reachable
  have fresh := Scene.fresh_start config workload logLevel
  have coupled : ∀ a ∈ mo.ledger.arrived, a.Coupled := fun a ha => (joined a ha).coupled
  have tidy := Scene.tidy_of_steps fresh steps
  have lawful := fresh.lawful steps distinct
  have paired := Scene.paired_of_steps fresh steps
  have reached := Scene.open_of_steps fresh steps distinct coupled
  have numbered := Scene.numbered_of_steps fresh steps
  have closing := Scene.closing_of_steps fresh steps distinct joined
  have lists := Moment.lists_of_reachable reachable distinct
  refine ⟨paired.keys, tidy.locks.nodup, fun q hq => ?_, fun first second reversed come => ?_,
    paired.origin, fun producer consumer come => closing.exists_channel_iff lawful come,
    (Scene.seated_of_steps fresh steps distinct).origin, numbered.apart, numbered.unique,
    fun p running pc t trap => ?_, fun p t m => Scene.finds_of_raises paired reached⟩
  · obtain ⟨first, second, reversed, -, made⟩ := paired.origin q hq
    exact made.shares
  · constructor
    · rintro ⟨q, hq, made⟩ both
      refine lists.not_both distinct hq fun x hx => ?_
      rw [made.pids_eq] at hx
      rcases List.mem_pair.1 hx with rfl | rfl
      · exact both first List.mem_cons_self
      · exact both second (List.mem_cons_of_mem _ List.mem_cons_self)
    · intro left
      refine lists.listed first second reversed come fun both => left fun p hp => ?_
      rcases List.mem_pair.1 hp with rfl | rfl
      · exact both.1
      · exact both.2
  · exact Scene.finds_of_trapAt (q := { p with pc }) paired reached
      (Scene.current_mem_population running) rfl trap

/-! ## Given arrivals -/

namespace Moment

variable {config : Config} {given : List Arrival} {logLevel : Option Level}
  {mo : Moment GivenArrivals}

/-- When there is a channel, the one batch has come. -/
theorem arrived_of_channel (reachable : Reachable (.start config ⟨given⟩ logLevel) mo)
    {id : ChannelId} {c : Channel} (found : mo.ledger.machine.channels.get? id = some c) :
    mo.ledger.arrived = given := by
  refine (arrived_of_given reachable).resolve_left fun none => ?_
  have distinct : Arrival.Distinct mo.ledger.arrived := none ▸ List.nodup_nil
  have seated := Scene.seated_of_steps (Scene.fresh_start _ _ _)
    (Scene.steps_of_reachable reachable) distinct
  obtain ⟨producer, consumer, come, -⟩ := seated.origin id c found
  have come : .rendezvousPair producer consumer ∈ mo.ledger.arrived := come
  rw [none] at come
  cases come

/-- When there are no processes any more, all that have come were dropped. -/
theorem mem_goneIds_of_nobody (reachable : Reachable (.start config ⟨given⟩ logLevel) mo)
    (distinct : Arrival.Distinct mo.ledger.arrived) (coupled : ∀ a ∈ mo.ledger.arrived, a.Coupled)
    (nobody : mo.ledger.machine.places.flatMap mo.ledger.machine.recordsAt = []) {p : Proc}
    (come : p ∈ mo.ledger.arrived.flatMap Arrival.procs) : p.pid ∈ mo.ledger.goneIds := by
  have fresh := Scene.fresh_start config (GivenArrivals.mk given) logLevel
  have steps := Scene.steps_of_reachable reachable
  have balanced := Scene.balanced_of_steps fresh steps distinct coupled
  refine ((Scene.mem_or_mem_dropped balanced).1 (List.mem_map_of_mem come)).resolve_left ?_
  rw [Scene.map_pid_population (Scene.tidy_of_steps fresh steps), nobody]
  exact Multiset.notMem_zero p.pid

end Moment

/-- Two mutex users that end and a rendezvous pair that does not. -/
def GivenArrivals.leaving : GivenArrivals where
  arrivals :=
    [.mutexPair
        { pid := ⟨0⟩, kind := .mutexUser, maxPc := 1, terminateAfter := 1 }
        { pid := ⟨1⟩, kind := .mutexUser, maxPc := 1, terminateAfter := 1 } false,
      .rendezvousPair
        { pid := ⟨2⟩, kind := .producer, maxPc := 9, terminateAfter := 0
          plan := .rendezvous (.ofList [3]) ⟨0⟩ }
        { pid := ⟨3⟩, kind := .consumer, maxPc := 9, terminateAfter := 0
          plan := .rendezvous (.ofList [3]) ⟨0⟩ }]

/-- A run in which a mutex pair has gone and a rendezvous pair goes on. -/
theorem keepsBooks_of_reachable_leaving : ∃ mo : Moment GivenArrivals,
    Moment.Reachable (.start { zombieThreshold := 1 } .leaving none) mo ∧
    mo.ledger.KeepsBooks ∧ mo.ledger.arrived = GivenArrivals.leaving.arrivals ∧
    mo.ledger.machine.pairs.pairs = [] ∧ ∃ c, mo.ledger.machine.channels.get? ⟨0⟩ = some c := by
  have run : ((Machine.start { zombieThreshold := 1 } GivenArrivals.leaving none).performAll
      ([.boot] ++ List.replicate 6 (.tick []))).toOption.any (fun m =>
        m.pairs.pairs.isEmpty && (m.channels.get? ⟨0⟩).isSome) = true := by decide +kernel
  obtain ⟨mo, reachable, -, test⟩ := Moment.exists_reachable_of_performAll run
  rw [Bool.and_eq_true, List.isEmpty_iff, Option.isSome_iff_exists] at test
  obtain ⟨gone, c, found⟩ := test
  have arrived := Moment.arrived_of_channel reachable found
  refine ⟨mo, reachable, keepsBooks_of_reachable reachable ?_ ?_, arrived, gone, c, found⟩
  · rw [arrived, Arrival.Distinct]
    decide
  · rw [arrived]
    intro a ha
    rcases List.mem_pair.1 ha with rfl | rfl
    · exact ⟨rfl, rfl⟩
    · exact iff_of_false (Option.some_ne_none _) (Option.some_ne_none _)

/-- A rendezvous pair of which neither member has a rendezvous plan. -/
def Arrival.sidelessPair : Arrival :=
  .rendezvousPair
    { pid := ⟨0⟩, kind := .producer, maxPc := 1, terminateAfter := 1 }
    { pid := ⟨1⟩, kind := .consumer, maxPc := 1, terminateAfter := 1 }

/-- Both members of a rendezvous pair have ended and were dropped, and their channel, which they
have never used, is still there. -/
theorem exists_channel_sideless : ∃ mo : Moment GivenArrivals,
    Moment.Reachable (.start { zombieThreshold := 1 } ⟨[.sidelessPair]⟩ none) mo ∧
    mo.pending = [] ∧ Arrival.Distinct mo.ledger.arrived ∧ (∀ a ∈ mo.ledger.arrived, a.Joined) ∧
    ∃ producer consumer, .rendezvousPair producer consumer ∈ mo.ledger.arrived ∧
      (∀ p ∈ [producer, consumer], p.pid ∈ mo.ledger.goneIds) ∧
      ∃ id c, mo.ledger.machine.channels.get? id = some c ∧ c.producer = producer.pid ∧
        c.consumer = consumer.pid := by
  have run : ((Machine.start { zombieThreshold := 1 } (⟨[.sidelessPair]⟩ : GivenArrivals)
      none).performAll ([.boot] ++ List.replicate 5 (.tick []))).toOption.any (fun m =>
        (m.places.flatMap m.recordsAt).isEmpty && (m.channels.get? ⟨0⟩).any fun c =>
          c.producer = ⟨0⟩ && c.consumer = ⟨1⟩) = true := by decide +kernel
  obtain ⟨mo, reachable, rest, test⟩ := Moment.exists_reachable_of_performAll run
  rw [Bool.and_eq_true, List.isEmpty_iff, Option.any_eq_true] at test
  obtain ⟨nobody, c, found, sides⟩ := test
  rw [Bool.and_eq_true, decide_eq_true_eq, decide_eq_true_eq] at sides
  have arrived := Moment.arrived_of_channel reachable found
  have distinct : Arrival.Distinct mo.ledger.arrived := by
    rw [arrived, Arrival.Distinct]
    decide
  have joined : ∀ a ∈ mo.ledger.arrived, a.Joined := by
    rw [arrived]
    intro a ha
    rw [List.mem_singleton.1 ha]
    exact Iff.rfl
  have come : Arrival.sidelessPair ∈ mo.ledger.arrived := arrived ▸ List.mem_cons_self
  refine ⟨mo, reachable, rest, distinct, joined, _, _, come, fun p hp => ?_, ⟨0⟩, c, found, sides⟩
  exact Moment.mem_goneIds_of_nobody reachable distinct (fun a ha => (joined a ha).coupled) nobody
    (List.mem_flatMap.2 ⟨_, come, hp⟩)

end Mlfq
