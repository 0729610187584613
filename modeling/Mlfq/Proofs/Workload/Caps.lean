import Mlfq.Proofs.Headcount
import Mlfq.Proofs.Workload.Library

/-! # The caps of a random workload

A random workload holds its candidates against the census that it is shown and against what it has
drawn in the same batch. Since the census counts who is there, the caps hold for the records that
can be found. -/

namespace Mlfq

/-- The cap that is meant for a kind. The partners of a rendezvous have one between them. -/
def Caps.limit (caps : Caps) : Proc.Kind → Nat
  | .ioBound => caps.ioLive
  | .computeBound => caps.computeLive
  | .mutexUser => caps.mutexCreated
  | .producer | .consumer => caps.rendezvousPairs

/-- What is held against the cap of a kind: those that live, or all that were ever created. -/
def Census.charged (c : Census) : Proc.Kind → Nat
  | .ioBound => c.ioBound.live
  | .computeBound => c.computeBound.live
  | .mutexUser => c.mutexUser.created
  | .producer => c.producer.created
  | .consumer => c.consumer.created

theorem Census.charged_noteAll_le (c : Census) (ps : Queue) (kind : Proc.Kind) :
    (c.noteAll ps).charged kind ≤ c.charged kind + Queue.headcount kind ps := by
  have created := c.created_noteAll kind ps
  have terminated := c.terminated_noteAll kind ps
  cases kind <;> simp only [charged, tally, Tally.live] at * <;> omega

theorem Census.charged_noteTerminated_le (c : Census) (ended kind : Proc.Kind) :
    (c.noteTerminated ended).charged kind ≤ c.charged kind := by
  have created := c.created_noteTerminated ended kind
  have terminated := c.terminated_noteTerminated ended kind
  cases kind <;> simp only [charged, tally, Tally.live] at * <;> omega

/-- Mutex users come by twos, and partners of a rendezvous one of each kind. -/
theorem Arrival.Library.headcount_pairs {a : Arrival} (h : a.Library) :
    Even (Queue.headcount .mutexUser a.procs) ∧
      Queue.headcount .producer a.procs = Queue.headcount .consumer a.procs := by
  cases h with
  | compute | io | rendezvousPair => exact ⟨⟨0, rfl⟩, rfl⟩
  | mutexPair => exact ⟨⟨1, rfl⟩, rfl⟩

theorem Arrival.headcount_pairs_of_library {as : List Arrival} (h : ∀ a ∈ as, a.Library) :
    Even (Queue.headcount .mutexUser (as.flatMap procs)) ∧
      Queue.headcount .producer (as.flatMap procs) =
        Queue.headcount .consumer (as.flatMap procs) := by
  induction as with
  | nil => exact ⟨⟨0, rfl⟩, rfl⟩
  | cons a as ih =>
    obtain ⟨even, equal⟩ := (h a List.mem_cons_self).headcount_pairs
    obtain ⟨even', equal'⟩ := ih fun b hb => h b (List.mem_cons_of_mem a hb)
    simp only [List.flatMap_cons, Queue.headcount_append]
    exact ⟨even.add even', by rw [equal, equal']⟩

namespace RandomWorkload

/-- What of a draft is held against the cap of a kind. -/
def Draft.charged (d : Draft) : Proc.Kind → Nat
  | .ioBound => d.io
  | .computeBound => d.compute
  | .mutexUser => d.mutex
  | .producer | .consumer => d.pairs

/-- Between two drafts these arrivals are made. They are charged, and no cap is passed. -/
structure Draft.Makes (w : RandomWorkload) (d : Draft) (as : List Arrival) (d' : Draft) : Prop where
  charged : ∀ kind, d'.charged kind =
    d.charged kind + Queue.headcount kind (as.flatMap Arrival.procs)
  capped : ∀ kind, d.charged kind ≤ w.caps.limit kind → d'.charged kind ≤ w.caps.limit kind

theorem Candidate.makes {w : RandomWorkload} {d : Draft} {c : Option Arrival × Draft}
    (h : Candidate w d c) : d.Makes w c.1.toList c.2 := by
  cases h with
  | dropped gen => exact ⟨fun kind => rfl, fun kind => id⟩
  | ioBound | computeBound | mutexPair | rendezvousPair =>
    refine ⟨fun kind => ?_, fun kind le => ?_⟩
    · cases kind <;> simp [Draft.charged, Arrival.procs, Proc.ioBound, Proc.computeBound,
        Proc.mutexUser, Proc.partner]
    · cases kind <;> simp only [Draft.charged, Caps.limit] at le ⊢ <;> omega

theorem makes_candidates (w : RandomWorkload) (n : Nat) (d : Draft) :
    d.Makes w (w.candidates n d).1 (w.candidates n d).2 := by
  have nothing : ∀ d, Draft.Makes w d [] d := fun d => ⟨fun kind => rfl, fun kind => id⟩
  refine candidates_induction (R := Draft.Makes w) nothing ?_ n d
  intro d c as d' spec rest
  refine ⟨fun kind => ?_, fun kind le => rest.capped kind (spec.makes.capped kind le)⟩
  rw [rest.charged, spec.makes.charged, List.flatMap_append, Queue.headcount_append, Nat.add_assoc]

theorem length_candidates_le (w : RandomWorkload) (n : Nat) (d : Draft) :
    (w.candidates n d).1.length ≤ n := by
  induction n generalizing d with
  | zero => exact Nat.le_refl 0
  | succ n ih =>
    have one (c : Option Arrival) : c.toList.length ≤ 1 := by cases c <;> simp
    show ((w.candidate d).1.toList ++ (w.candidates n (w.candidate d).2).1).length ≤ n + 1
    rw [List.length_append, Nat.add_comm]
    exact Nat.add_le_add (ih _) (one _)

/-- A batch is always to be had as long as there is a number to draw, and it keeps to the caps. -/
theorem exists_batch {w : RandomWorkload} (positive : 0 < w.maxBatch) (pids : PidAllocator)
    {census : Census} (paired : census.producer.created = census.consumer.created) :
    ∃ batch, Workload.batch w pids census = .ok batch ∧ batch.arrivals.length < w.maxBatch ∧
      batch.rest.caps = w.caps ∧ batch.rest.maxBatch = w.maxBatch ∧
      ∀ kind, census.charged kind ≤ w.caps.limit kind → census.charged kind +
        Queue.headcount kind (batch.arrivals.flatMap Arrival.procs) ≤ w.caps.limit kind := by
  have few : (w.gen.below w.maxBatch).1 < w.maxBatch := Xoshiro.below_lt positive w.gen
  let d := Draft.start (w.gen.below w.maxBatch).2 pids census
  have made : d.Makes w (w.made pids census).1 (w.made pids census).2 := w.makes_candidates _ d
  have charged : ∀ kind, d.charged kind = census.charged kind := by
    intro kind
    cases kind <;> first | rfl | exact paired
  refine ⟨_, batch_of_pos positive pids census, (w.length_candidates_le _ d).trans_lt few, rfl, rfl,
    fun kind le => ?_⟩
  have capped := made.capped kind (charged kind ▸ le)
  rwa [made.charged, charged] at capped

end RandomWorkload

/-! ## Runs -/

/-- The machine asks a workload with the limits of `w`, and no cap is passed in its census. -/
structure Machine.Capped (w : RandomWorkload) (m : Machine RandomWorkload) : Prop where
  caps : m.workload.caps = w.caps
  maxBatch : m.workload.maxBatch = w.maxBatch
  within : ∀ kind, m.census.charged kind ≤ w.caps.limit kind

/-- The caps are kept whatever happens, and what comes at a time is smaller than the batch limit. -/
theorem Machine.Capped.shift {w : RandomWorkload} {l l' : Ledger RandomWorkload}
    (h : l.machine.Capped w) (positive : 0 < w.maxBatch)
    (paired : l.machine.census.producer.created = l.machine.census.consumer.created)
    (shift : l.Shift l') : l'.machine.Capped w ∧
      ∃ as, l'.arrived = l.arrived ++ as ∧ as.length < w.maxBatch := by
  obtain ⟨caps, maxBatch, within⟩ := h
  have nobody : l'.arrived = l.arrived →
      ∃ as, l'.arrived = l.arrived ++ as ∧ as.length < w.maxBatch := by
    intro arrived
    exact ⟨[], by rw [arrived, List.append_nil], positive⟩
  cases shift with
  | keep backdrop arrived | drop backdrop arrived =>
    obtain ⟨workload, -, census, -⟩ := Machine.of_backdrop backdrop
    refine ⟨⟨workload ▸ caps, workload ▸ maxBatch, fun kind => ?_⟩, nobody arrived⟩
    rw [census]
    exact within kind
  | ending p backdrop arrived =>
    obtain ⟨workload, -, census, -⟩ := Machine.of_backdrop backdrop
    refine ⟨⟨workload ▸ caps, workload ▸ maxBatch, fun kind => ?_⟩, nobody arrived⟩
    rw [census]
    exact (Census.charged_noteTerminated_le _ p.kind kind).trans (within kind)
  | come batch answer backdrop arrived =>
    obtain ⟨workload, -, census, -⟩ := Machine.of_backdrop backdrop
    obtain ⟨batch', answer', length, caps', maxBatch', capped⟩ :=
      RandomWorkload.exists_batch (maxBatch ▸ positive) l.machine.pids paired
    obtain rfl : batch = batch' := Except.ok.inj (answer.symm.trans answer')
    refine ⟨⟨?_, ?_, fun kind => ?_⟩, batch.arrivals, arrived, maxBatch ▸ length⟩
    · rw [workload, caps', caps]
    · rw [workload, maxBatch', maxBatch]
    · rw [census]
      rw [caps] at capped
      exact (Census.charged_noteAll_le ..).trans (capped kind (within kind))

/-- The caps hold for the processes that are there and for those that have come, and the batch for
which the workload would be asked now is to be had and smaller than the batch limit. -/
structure Ledger.KeepsCaps (l : Ledger RandomWorkload) (caps : Caps) (maxBatch : Nat) : Prop where
  ioBound : l.machine.alive.headcount .ioBound ≤ caps.ioLive
  computeBound : l.machine.alive.headcount .computeBound ≤ caps.computeLive
  evenMutexUsers : Even (Queue.headcount .mutexUser (l.arrived.flatMap Arrival.procs))
  mutexUsers : Queue.headcount .mutexUser (l.arrived.flatMap Arrival.procs) ≤ caps.mutexCreated
  partners : Queue.headcount .producer (l.arrived.flatMap Arrival.procs) =
    Queue.headcount .consumer (l.arrived.flatMap Arrival.procs)
  rendezvousPairs :
    Queue.headcount .producer (l.arrived.flatMap Arrival.procs) ≤ caps.rendezvousPairs
  batch : ∃ batch, Workload.batch l.machine.workload l.machine.pids l.machine.census = .ok batch ∧
    batch.arrivals.length < maxBatch

namespace Moment

variable {config : Config} {workload : RandomWorkload} {logLevel : Option Level}
  {mo : Moment RandomWorkload}

/-- In the census there are as many producers as consumers. -/
theorem paired_of_reachable (reachable : Reachable (.start config workload logLevel) mo) :
    mo.ledger.machine.census.producer.created = mo.ledger.machine.census.consumer.created := by
  have counted := (counted_of_reachable reachable).created
  have library := (distinct_of_library reachable).1
  exact (counted .producer).trans
    ((Arrival.headcount_pairs_of_library library).2.trans (counted .consumer).symm)

theorem capped_of_reachable (positive : 0 < workload.maxBatch)
    (reachable : Reachable (.start config workload logLevel) mo) :
    mo.ledger.machine.Capped workload := by
  induction reachable with
  | refl => exact ⟨rfl, rfl, fun kind => by cases kind <;> exact Nat.zero_le _⟩
  | tail path next ih => exact (ih.shift positive (paired_of_reachable path) next.shift).1

end Moment

/-- At every moment of every run of a random workload with a positive batch limit the caps hold for
the processes that really exist, and whatever happens next brings fewer arrivals than the batch
limit. -/
theorem keepsCaps_of_reachable {config : Config} {workload : RandomWorkload}
    {logLevel : Option Level} {mo : Moment RandomWorkload}
    (reachable : Moment.Reachable (.start config workload logLevel) mo)
    (positive : 0 < workload.maxBatch) :
    mo.ledger.KeepsCaps workload.caps workload.maxBatch ∧ ∀ mo', mo.Next mo' →
      ∃ as, mo'.ledger.arrived = mo.ledger.arrived ++ as ∧ as.length < workload.maxBatch := by
  obtain ⟨library, distinct⟩ := Moment.distinct_of_library reachable
  obtain ⟨even, partners⟩ := Arrival.headcount_pairs_of_library library
  have live := Moment.live_eq_headcount reachable distinct fun a ha => (library a ha).coupled
  have created := (Moment.counted_of_reachable reachable).created
  have paired := Moment.paired_of_reachable reachable
  have capped := Moment.capped_of_reachable positive reachable
  obtain ⟨batch, answer, length, -⟩ :=
    RandomWorkload.exists_batch (capped.maxBatch ▸ positive) mo.ledger.machine.pids paired
  refine ⟨⟨?_, ?_, even, ?_, partners, ?_, batch, answer, capped.maxBatch ▸ length⟩, ?_⟩
  · rw [← live]
    exact capped.within .ioBound
  · rw [← live]
    exact capped.within .computeBound
  · rw [← created]
    exact capped.within .mutexUser
  · rw [← created]
    exact capped.within .producer
  · intro mo' next
    exact (capped.shift positive paired next.shift).2

/-- Low caps. The one for mutex users is odd. -/
def Config.crowded : Config :=
  { maxBatch := 20
    caps := { ioLive := 1, computeLive := 2, mutexCreated := 3, rendezvousPairs := 1 } }

/-- A random run in which all caps are reached, but for the one that no even number can reach. -/
theorem keepsCaps_of_reachable_crowded : ∃ mo : Moment RandomWorkload,
    Moment.Reachable (.start .crowded (.ofConfig .crowded) none) mo ∧
    0 < (RandomWorkload.ofConfig .crowded).maxBatch ∧ mo.ledger.KeepsCaps Config.crowded.caps 20 ∧
    mo.ledger.machine.dispatches = 1 ∧
    ∀ x ∈ [(Proc.Kind.ioBound, 1), (.computeBound, 2), (.mutexUser, 2), (.producer, 1)],
      mo.ledger.machine.alive.headcount x.1 = x.2 := by
  have run : ((Machine.start .crowded (RandomWorkload.ofConfig .crowded) none).performAll
      [.boot, .tick [], .tick []]).toOption.any (fun m => m.dispatches = 1 &&
        [(Proc.Kind.ioBound, 1), (.computeBound, 2), (.mutexUser, 2), (.producer, 1)].all
          fun x => m.alive.headcount x.1 = x.2) = true := by decide +kernel
  obtain ⟨mo, reachable, -, full⟩ := Moment.exists_reachable_of_performAll run
  rw [Bool.and_eq_true, decide_eq_true_eq, List.all_eq_true] at full
  refine ⟨mo, reachable, by decide, ?_, full.1, fun x hx => of_decide_eq_true (full.2 x hx)⟩
  exact (keepsCaps_of_reachable reachable (by decide)).1

end Mlfq
