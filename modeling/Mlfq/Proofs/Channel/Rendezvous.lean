import Mlfq.Proofs.Channel.Sides
import Mlfq.Proofs.Conservation
import Mlfq.Proofs.Deadlock.Pairs
import Mlfq.Proofs.Device

/-! # A rendezvous pair does not block itself

The sides of a channel wait only while it is not their turn, and never both. A member that does not
end and is neither parked on its channel nor on a device can run. -/

namespace Mlfq

open Queue (cores)

/-- New, ready or running. -/
def Place.Runnable : Place → Prop
  | .newcomers | .ready _ | .cpu => True
  | _ => False

/-- The process is new, ready or running. -/
def Machine.Awake {σ : Type} (m : Machine σ) (pid : Pid) : Prop :=
  ∃ place : Place, place.Runnable ∧ m.KeepsAt pid place

namespace Scene

variable {s s' : Scene}

/-- Only processes that were to end have ended. -/
def Ended (s : Scene) : Prop := ∀ p, p ∈ s.zombies ∨ p ∈ s.dropped → p.terminateAfter ≠ 0

theorem Ended.step (h : s.Ended) (step : Step s s') : s'.Ended := by
  -- The oldest of the ended processes is dropped.
  have drop : ∀ {p : Proc} {rest : Queue}, s.zombies = p :: rest →
      ∀ q, q ∈ rest ∨ q ∈ s.dropped ++ [p] → q.terminateAfter ≠ 0 := by
    intro p rest zombie q hq
    apply h q
    rw [zombie]
    rcases hq with stays | gone
    · exact .inl (List.mem_cons_of_mem p stays)
    · rcases List.mem_append.1 gone with old | new
      · exact .inr old
      · exact .inl (List.mem_singleton.1 new ▸ List.mem_cons_self)
  cases step with
  | @terminate p q rest running done core =>
    rintro r (ended | dropped)
    · rcases Queue.mem_enqueue.1 ended with old | rfl
      · exact h r (.inl old)
      · have wraps := (Proc.shouldTerminate_iff p).1 done
        rw [← r.terminateAfter_core, core]
        exact Nat.ne_of_gt wraps.1
    · exact h r (.inr dropped)
  | drop zombie | leave zombie | close zombie => exact drop zombie
  | dissolve =>
    rw [Ended, zombies_dropLock, zombies_dropLock, dropped_dropLock, dropped_dropLock]
    exact h
  | _ => exact h

theorem Fresh.ended (fresh : s.Fresh) : s.Ended := by
  rintro p (ended | dropped)
  · have mem : p.core ∈ s.population := Multiset.mem_add.2 (.inr (Queue.core_mem_cores ended))
    exact absurd mem (fresh.notMem_population _)
  · rw [fresh.dropped] at dropped
    cases dropped

theorem ended_of_steps (fresh : s.Fresh) (steps : Steps s s') : s'.Ended := by
  induction steps with
  | refl => exact fresh.ended
  | tail _ step ih => exact ih.step step

/-- Who was not to end has not ended. -/
theorem Ended.pid_ne (h : s.Ended) (lawful : s.Lawful) {p : Proc}
    (guest : p ∈ s.arrived.flatMap Arrival.procs) (endless : p.terminateAfter = 0) {r : Proc}
    (ended : r ∈ s.zombies ∨ r ∈ s.dropped) : r.pid ≠ p.pid := by
  intro same
  have known : r.profile ∈ s.books := by
    rcases ended with zombie | dropped
    · have here : r.core ∈ s.population :=
        Multiset.mem_add.2 (.inr (Queue.core_mem_cores zombie))
      exact r.profile_core ▸ profile_mem_books here
    · exact profile_mem_books_of_dropped dropped
  have outline := congrArg Proc.terminateAfter (lawful.outline_eq known guest same.symm)
  rw [Proc.terminateAfter_outline, Proc.terminateAfter_outline] at outline
  exact h r ended (outline.symm.trans endless)

/-- The scene is one of a run in which all processes have different numbers and a process that uses
a channel is a side of it. -/
structure Met (s : Scene) : Prop where
  tidy : s.Tidy
  lawful : s.Lawful
  paired : s.Paired
  seated : s.Seated
  servesIo : s.ServesIo
  ended : s.Ended
  balanced : outlines s.books = guests s.arrived
  alternates : ∀ id c, s.channels.get? id = some c → c.Alternates

theorem met_of_steps (fresh : s.Fresh) (steps : Steps s s')
    (distinct : Arrival.Distinct s'.arrived) (sided : ∀ a ∈ s'.arrived, a.Sided) : s'.Met where
  tidy := tidy_of_steps fresh steps
  lawful := fresh.lawful steps distinct
  paired := paired_of_steps fresh steps
  seated := seated_of_steps fresh steps distinct
  servesIo := servesIo_of_steps fresh steps
  ended := ended_of_steps fresh steps
  balanced := balanced_of_steps fresh steps distinct fun a ha => (sided a ha).coupled
  alternates := alternates_of_steps fresh steps distinct sided

namespace Met

variable {σ : Type} {l : Ledger σ} {producer consumer p : Proc}

/-- A member of a rendezvous pair is not parked on a lock of the table. -/
theorem pid_ne_of_waiter (h : s.Met) (come : .rendezvousPair producer consumer ∈ s.arrived)
    (member : p ∈ [producer, consumer]) {id : LockId} {k : Lock}
    (found : s.locks.get? id = some k) {w : Proc} (hw : w ∈ k.waiters) : w.pid ≠ p.pid := by
  intro same
  obtain ⟨q, hq, hid⟩ := h.paired.exists_owner found
  obtain ⟨first, second, reversed, come', made⟩ := h.paired.origin q hq
  have user := (h.paired.within q hq id hid k found).waiters w hw
  rw [made.pids_eq, same] at user
  have own : Arrival.rendezvousPair producer consumer = .mutexPair first second reversed :=
    h.lawful.distinct.arrival_unique come come' (List.mem_map_of_mem member) user
  cases own

theorem pid_ne_of_ended (h : s.Met) (guest : p ∈ s.arrived.flatMap Arrival.procs)
    (endless : p.terminateAfter = 0) {r : Proc} (ended : r ∈ s.zombies ∨ r ∈ s.dropped) :
    r.pid ≠ p.pid := h.ended.pid_ne h.lawful guest endless ended

/-- Where a member of a rendezvous pair that never ends can be. -/
theorem place_cases (h : l.scene.Met) (come : .rendezvousPair producer consumer ∈ l.arrived)
    (member : p ∈ [producer, consumer]) (endless : p.terminateAfter = 0) :
    l.machine.Awake p.pid ∨
    ((∃ sets, p.plan = .io sets) ∧ ∃ device, l.machine.KeepsAt p.pid (.device device)) ∨
    ∃ id c, l.scene.channels.get? id = some c ∧ c.isAwaitedBy p.pid = true := by
  have guest : p ∈ l.scene.arrived.flatMap Arrival.procs := List.mem_flatMap.2 ⟨_, come, member⟩
  rcases (mem_or_mem_dropped h.balanced).1 (List.mem_map_of_mem guest) with here | gone
  · obtain ⟨place, kept⟩ := h.lawful.exists_keepsAt h.tidy here
    obtain ⟨r, hr, same⟩ : ∃ r ∈ l.machine.recordsAt place, r.pid = p.pid :=
      List.mem_map.1 (List.count_pos_iff.1 (kept.1 ▸ Nat.one_pos))
    cases place with
    | newcomers | ready | cpu =>
      refine .inl ⟨_, ?_, kept⟩
      trivial
    | device d =>
      obtain ⟨device, found, hr⟩ := exists_of_mem_getD hr
      have found : l.scene.devices[d.num]? = some device.queue := by
        rw [Ledger.scene, List.getElem?_map, found]
        rfl
      obtain ⟨sets, plan⟩ := h.servesIo _ (List.mem_of_getElem? found) r hr
      have known := profile_mem_books (core_mem_of_device found hr)
      have outline : p.outline = r.outline := h.lawful.outline_eq known guest same.symm
      have own : p.plan = r.plan := by
        apply Proc.plan_eq_of_outline_eq outline
        intro triggers id
        rw [plan]
        exact TrapPlan.noConfusion
      exact .inr (.inl ⟨⟨sets, own.trans plan⟩, d, kept⟩)
    | tableLock id =>
      obtain ⟨k, found, hr⟩ := exists_of_mem_getD hr
      exact absurd same (h.pid_ne_of_waiter come member found hr)
    | channelLock id =>
      obtain ⟨c, found, hr⟩ := exists_of_mem_getD hr
      have parked : r ∈ c.parked := List.mem_append_left _ hr
      exact .inr (.inr ⟨id, c, found, Channel.isAwaitedBy_iff.2 ⟨r, parked, same⟩⟩)
    | fill id =>
      obtain ⟨c, found, hr⟩ := exists_of_mem_getD hr
      have parked : r ∈ c.parked := List.mem_append_right _ (List.mem_append_left _ hr)
      exact .inr (.inr ⟨id, c, found, Channel.isAwaitedBy_iff.2 ⟨r, parked, same⟩⟩)
    | empty id =>
      obtain ⟨c, found, hr⟩ := exists_of_mem_getD hr
      have parked : r ∈ c.parked := List.mem_append_right _ (List.mem_append_right _ hr)
      exact .inr (.inr ⟨id, c, found, Channel.isAwaitedBy_iff.2 ⟨r, parked, same⟩⟩)
    | zombies => exact absurd same (h.pid_ne_of_ended guest endless (.inl hr))
  · obtain ⟨r, hr, same⟩ := List.mem_map.1 gone
    exact absurd same (h.pid_ne_of_ended guest endless (.inr hr))

/-- The members of a rendezvous pair are not both parked on channels. -/
theorem not_both_parked (h : s.Met) (come : .rendezvousPair producer consumer ∈ s.arrived)
    {id id' : ChannelId} {c c' : Channel} (found : s.channels.get? id = some c)
    (found' : s.channels.get? id' = some c') (parked : c.isAwaitedBy producer.pid = true)
    (parked' : c'.isAwaitedBy consumer.pid = true) : False := by
  have distinct := h.lawful.distinct
  have alternates := h.alternates id c found
  obtain ⟨left, right⟩ := h.seated.sides_of_arrival distinct found come List.mem_cons_self
    (alternates.mem_sides parked)
  obtain ⟨left', -⟩ := h.seated.sides_of_arrival distinct found' come
    (List.mem_cons_of_mem _ List.mem_cons_self) ((h.alternates id' c' found').mem_sides parked')
  have own : id = id' := h.seated.unique id id' c c' found found' (left.trans left'.symm)
  subst own
  rw [found] at found'
  cases found'
  exact alternates.not_both_awaited (h.seated.producer_ne_consumer distinct found)
    ⟨left ▸ parked, right ▸ parked'⟩

end Met
end Scene

/-- Nobody waits on a condition that holds or while holding the lock of the channel, and the two
sides of a channel are never both parked on it. So one of two members that never end can run, unless
one of them makes requests of devices and waits for a device. -/
structure Ledger.TakesTurns {σ : Type} (g : Ledger σ) : Prop where
  fill : ∀ id c, g.machine.channels.get? id = some c → c.fill ≠ [] → c.full = false
  empty : ∀ id c, g.machine.channels.get? id = some c → c.empty ≠ [] → c.full = true
  apart : ∀ id c, g.machine.channels.get? id = some c → ∀ w ∈ c.fill ++ c.empty,
    c.lock.holder ≠ some w.pid
  sides : ∀ id c, g.machine.channels.get? id = some c →
    ¬(c.isAwaitedBy c.producer = true ∧ c.isAwaitedBy c.consumer = true)
  awake : ∀ producer consumer, .rendezvousPair producer consumer ∈ g.arrived →
    producer.terminateAfter = 0 → consumer.terminateAfter = 0 →
    g.machine.Awake producer.pid ∨ g.machine.Awake consumer.pid ∨
      ∃ p ∈ [producer, consumer], (∃ sets, p.plan = .io sets) ∧
        ∃ device, g.machine.KeepsAt p.pid (.device device)

/-- At every moment of every run, the members of each rendezvous pair take turns, provided that all
processes have different numbers and that a process with a rendezvous plan arrives as the producer
or the consumer of a pair and is of that kind. -/
theorem takesTurns_of_reachable {σ : Type} [Workload σ] {config : Config} {workload : σ}
    {logLevel : Option Level} {mo : Moment σ}
    (reachable : Moment.Reachable (.start config workload logLevel) mo)
    (distinct : Arrival.Distinct mo.ledger.arrived) (sided : ∀ a ∈ mo.ledger.arrived, a.Sided) :
    mo.ledger.TakesTurns := by
  have steps := Scene.steps_of_reachable reachable
  have fresh := Scene.fresh_start config workload logLevel
  have met := Scene.met_of_steps fresh steps distinct sided
  constructor
  · intro id c found parked
    have turn : (!c.full) = true := (met.alternates id c found).turn .consumer parked
    rwa [Bool.not_eq_true'] at turn
  · intro id c found parked
    exact (met.alternates id c found).turn .producer parked
  · intro id c found w hw
    rcases List.mem_append.1 hw with fill | empty
    · exact (met.alternates id c found).apart .consumer w fill
    · exact (met.alternates id c found).apart .producer w empty
  · intro id c found
    have ne := met.seated.producer_ne_consumer distinct found
    exact (met.alternates id c found).not_both_awaited ne
  · intro producer consumer come endless endless'
    have left : producer ∈ [producer, consumer] := List.mem_cons_self
    have right : consumer ∈ [producer, consumer] := List.mem_cons_of_mem _ List.mem_cons_self
    rcases met.place_cases come left endless with awake | io | ⟨id, c, found, parked⟩
    · exact .inl awake
    · exact .inr (.inr ⟨producer, left, io⟩)
    · rcases met.place_cases come right endless' with awake | io | ⟨id', c', found', parked'⟩
      · exact .inr (.inl awake)
      · exact .inr (.inr ⟨consumer, right, io⟩)
      · exact (met.not_both_parked come found found' parked parked').elim

/-- A run in which the consumer waits for a value and the producer goes on. -/
theorem takesTurns_of_reachable_waiting : ∃ mo : Moment ScriptedWorkload,
    Moment.Reachable (.start {} ⟨[[.rendezvousPair 100]]⟩ none) mo ∧
    mo.ledger.TakesTurns ∧
    ∃ c ∈ mo.ledger.machine.channels.values, c.isAwaitedBy c.consumer = true := by
  have run : ((Machine.start {} (⟨[[.rendezvousPair 100]]⟩ : ScriptedWorkload) none).performAll
      ([.boot, .tick [], .timerInterrupt []] ++ List.replicate 72 (.tick []))).toOption.any
      (fun m => m.channels.values.any fun c => c.isAwaitedBy c.consumer) = true := by decide +kernel
  obtain ⟨mo, reachable, -, waits⟩ := Moment.exists_reachable_of_performAll run
  obtain ⟨library, distinct⟩ := Moment.distinct_of_library reachable
  have sided : ∀ a ∈ mo.ledger.arrived, a.Sided := fun a ha => (library a ha).sided
  exact ⟨mo, reachable, takesTurns_of_reachable reachable distinct sided, List.any_eq_true.1 waits⟩

/-! ## A member that waits for a device

Nothing makes both members of a pair use its channel. One that makes requests of devices instead can
leave the other waiting, with nobody to run. -/

/-- A workload of one batch with given arrivals. -/
structure GivenArrivals where
  arrivals : List Arrival

instance : Workload GivenArrivals := ⟨fun w pids _ => .ok ⟨w.arrivals, pids, ⟨[]⟩⟩⟩

theorem Moment.arrived_of_given {config : Config} {given : List Arrival} {logLevel : Option Level}
    {mo : Moment GivenArrivals} (h : Reachable (.start config ⟨given⟩ logLevel) mo) :
    mo.ledger.arrived = [] ∨ mo.ledger.arrived = given := by
  have good := arrivals_induction (fun (w : GivenArrivals) _ arrived =>
    w.arrivals = given ∧ arrived = [] ∨ w.arrivals = [] ∧ arrived = given) ?_ (.inl ⟨rfl, rfl⟩) h
  · rcases good with ⟨-, none⟩ | ⟨-, all⟩
    · exact .inl none
    · exact .inr all
  · intro w pids census batch arrived answer earlier
    cases answer
    rcases earlier with ⟨now, rfl⟩ | ⟨none, rfl⟩
    · exact .inr ⟨rfl, now⟩
    · exact .inr ⟨rfl, by rw [none, List.append_nil]⟩

/-- Nobody is awake when nobody runs and nobody is in line. -/
theorem Machine.not_awake {σ : Type} {m : Machine σ} (idle : m.running = none)
    (newcomers : m.newcomers = []) (ready : m.ready.toList = []) (pid : Pid) : ¬m.Awake pid := by
  rintro ⟨place, runnable, kept, -⟩
  obtain ⟨r, hr, -⟩ : ∃ r ∈ m.recordsAt place, r.pid = pid :=
    List.mem_map.1 (List.count_pos_iff.1 (kept ▸ Nat.one_pos))
  cases place with
  | newcomers =>
    rw [recordsAt, newcomers] at hr
    cases hr
  | ready level =>
    rw [ReadyQueue.toList_eq_flatMap] at ready
    have none : m.recordsAt (.ready level) = [] :=
      List.flatMap_eq_nil_iff.1 ready level (List.mem_finRange level)
    rw [none] at hr
    cases hr
  | cpu =>
    rw [recordsAt, idle] at hr
    cases hr
  | device | tableLock | channelLock | fill | empty | zombies => cases runnable

/-- A producer that only makes requests of a device, and a consumer. -/
def Arrival.mixedPair : Arrival :=
  .rendezvousPair
    { pid := ⟨0⟩, kind := .producer, maxPc := 100, terminateAfter := 0, plan := .io [.ofList [2]] }
    { pid := ⟨1⟩, kind := .consumer, maxPc := 100, terminateAfter := 0
      plan := .rendezvous (.ofList [3]) ⟨0⟩ }

/-- At rest the producer is parked on a device and the consumer on its condition, although neither
of them ever ends. -/
theorem exists_asleep_mixedPair : ∃ mo : Moment GivenArrivals,
    Moment.Reachable (.start { ioDevices := 1 } ⟨[.mixedPair]⟩ none) mo ∧ mo.pending = [] ∧
    Arrival.Distinct mo.ledger.arrived ∧ (∀ a ∈ mo.ledger.arrived, a.Sided) ∧
    ∃ producer consumer, .rendezvousPair producer consumer ∈ mo.ledger.arrived ∧
      producer.terminateAfter = 0 ∧ consumer.terminateAfter = 0 ∧
      ¬mo.ledger.machine.Awake producer.pid ∧ ¬mo.ledger.machine.Awake consumer.pid := by
  have run : ((Machine.start { ioDevices := 1 } (⟨[.mixedPair]⟩ : GivenArrivals) none).performAll
      ([.boot] ++ List.replicate 6 (.tick []))).toOption.any (fun m =>
        m.running.isNone && (m.newcomers.isEmpty && (m.ready.toList.isEmpty &&
          (m.channels.get? ⟨0⟩).isSome))) = true := by decide +kernel
  obtain ⟨mo, reachable, rest, asleep⟩ := Moment.exists_reachable_of_performAll run
  rw [Bool.and_eq_true, Bool.and_eq_true, Bool.and_eq_true, Option.isNone_iff_eq_none,
    List.isEmpty_iff, List.isEmpty_iff, Option.isSome_iff_exists] at asleep
  obtain ⟨idle, newcomers, ready, c, found⟩ := asleep
  have arrived : mo.ledger.arrived = [.mixedPair] := by
    rcases Moment.arrived_of_given reachable with none | all
    · -- A channel is there, so somebody has come.
      have distinct : Arrival.Distinct mo.ledger.arrived := by
        rw [none]
        exact List.nodup_nil
      have seated := Scene.seated_of_steps (Scene.fresh_start _ _ _)
        (Scene.steps_of_reachable reachable) distinct
      obtain ⟨producer, consumer, come, -⟩ := seated.origin _ c found
      have come : .rendezvousPair producer consumer ∈ mo.ledger.arrived := come
      rw [none] at come
      cases come
    · exact all
  have asleep := Machine.not_awake idle newcomers ready
  refine ⟨mo, reachable, rest, ?_, ?_, ?_⟩
  · rw [arrived, Arrival.Distinct]
    decide
  · rw [arrived]
    intro a ha
    rw [List.mem_singleton.1 ha]
    exact ⟨fun uses => absurd rfl uses, fun _ => rfl⟩
  · exact ⟨_, _, arrived ▸ List.mem_cons_self, rfl, rfl, asleep _, asleep _⟩

end Mlfq
