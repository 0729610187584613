import Mlfq.Config
import Mlfq.Workload.Scripted

/-! # Random workloads

A random workload draws a number of candidates below the batch limit, and for each candidate one of
four categories. A candidate whose category is at its cap is dropped. Pair members get a largest
program counter at which no lock is held, so that a wrap never skips a release. -/

namespace Mlfq

/-- The state of a random workload. -/
structure RandomWorkload where
  gen : Xoshiro
  caps : Caps
  maxBatch : Nat
  ioDevices : Nat
  reversePairs : Bool

namespace RandomWorkload

/-- The random workload of a configuration. -/
def ofConfig (c : Config) : RandomWorkload :=
  { gen := c.seed.workload, caps := c.caps, maxBatch := c.maxBatch, ioDevices := c.ioDevices,
    reversePairs := c.reversePairs }

/-- The half-open intervals in which a pair member may hold a lock: those of the standard program,
and the step before and at each rendezvous point. -/
def holdWindows : List (Nat × Nat) :=
  MutexProgram.standard.holdWindows.toOption.getD [] ++
    TriggerSet.rendezvous.points.map fun t => (t - 1, t + 1)

/-- Whether no lock is held at `maxPc`. -/
def isSafe (maxPc : Nat) : Bool := !holdWindows.any fun (lo, hi) => lo ≤ maxPc && maxPc < hi

/-- A largest program counter between 20 and 419. -/
def drawMaxPc (gen : Xoshiro) : Nat × Xoshiro :=
  let (n, gen) := gen.below 400
  (20 + n, gen)

/-- The largest program counter that `drawMaxPc` can give. -/
def lastMaxPc : Nat := 419

/-- The word `1 <<< 30` stands for the largest program counter 120, at which no lock is held. If it
comes, a safe counter is drawn, then or before. -/
theorem search_drawMaxPc_isSome_of_nextWord {gen : Xoshiro} {k fuel : Nat} (hk : k < fuel)
    (word : (gen.after k).nextWord.1 = 1 <<< 30) :
    (Xoshiro.search drawMaxPc isSafe fuel gen).isSome = true := by
  induction k generalizing gen fuel with
  | zero =>
    obtain ⟨fuel, rfl⟩ : ∃ n, fuel = n + 1 := ⟨fuel - 1, by omega⟩
    have word : gen.nextWord.1 = 1 <<< 30 := word
    have drawn : (drawMaxPc gen).1 = 120 := by
      rw [drawMaxPc, Xoshiro.below_of_accepts (by rw [word]; decide), word]
      rfl
    rw [Xoshiro.search_succ, drawn, if_pos (by decide +kernel)]
    rfl
  | succ k ih =>
    obtain ⟨fuel, rfl⟩ : ∃ n, fuel = n + 1 := ⟨fuel - 1, by omega⟩
    rw [Xoshiro.after_succ] at word
    by_cases accepted : Xoshiro.accepts 400 gen.nextWord.1 = true
    · have rest : (drawMaxPc gen).2 = gen.nextWord.2 := by
        rw [drawMaxPc, Xoshiro.below_of_accepts accepted]
      rw [Xoshiro.search_succ, rest]
      split
      · rfl
      · exact ih (by omega) word
    · -- The first word is rejected, so that the first counter is drawn from the later ones.
      have same : drawMaxPc gen = drawMaxPc gen.nextWord.2 := by
        rw [drawMaxPc, Xoshiro.below_of_not_accepts accepted]
        rfl
      rw [Xoshiro.search_succ, same, ← Xoshiro.search_succ]
      exact ih (by omega) word

theorem search_drawMaxPc_isSome (gen : Xoshiro) :
    (Xoshiro.search drawMaxPc isSafe Xoshiro.State.period gen).isSome = true := by
  obtain ⟨k, hk, state⟩ := gen.exists_after_state_eq (s := ⟨0, 0, 0, 2 ^ 39⟩) (by decide)
  refine search_drawMaxPc_isSome_of_nextWord hk ?_
  simp only [Xoshiro.nextWord, Xoshiro.next, state]
  decide

/-- A largest program counter at which no lock is held. -/
@[irreducible] def drawSafeMaxPc (gen : Xoshiro) : Nat × Xoshiro :=
  (Xoshiro.search drawMaxPc isSafe Xoshiro.State.period gen).get (search_drawMaxPc_isSome gen)

/-- After how many wraps a process ends: six in a thousand never end, the others after 1 to 30. -/
def drawTerminateAfter (gen : Xoshiro) : Nat × Xoshiro :=
  let (lot, gen) := gen.below 1000
  if lot ≤ 5 then (0, gen)
  else
    let (n, gen) := gen.below 30
    (1 + n, gen)

/-- Up to `fuel` increasing trap points after `pc` and below `maxPc`, each at most `step` past the
one before. -/
def drawPoints (maxPc step : Nat) : Nat → Nat → Xoshiro → List Nat × Xoshiro
  | 0, _, gen => ([], gen)
  | fuel + 1, pc, gen =>
    let (n, gen) := gen.below step
    let pc := pc + 1 + n
    if maxPc ≤ pc then ([], gen)
    else
      let (points, gen) := drawPoints maxPc step fuel pc gen
      (pc :: points, gen)

/-- Deals points to the devices in turn, so that no two devices share a point. -/
def deal (devices : Nat) (points : List Nat) : List TriggerSet :=
  (List.range devices).map fun d =>
    .ofList ((points.zipIdx.filter fun (_, i) => i % devices = d).map (·.1))

/-- The trigger sets of an I/O-bound process, at most four points for each device. -/
def drawTriggers (devices maxPc : Nat) (gen : Xoshiro) : List TriggerSet × Xoshiro :=
  let (points, gen) := drawPoints maxPc (max (maxPc / 4) 1) (devices * 4) 0 gen
  (deal devices points, gen)

/-- A random I/O-bound process. -/
def drawIoBound (devices : Nat) (pid : Pid) (gen : Xoshiro) : Proc × Xoshiro :=
  let (maxPc, gen) := drawMaxPc gen
  let (terminateAfter, gen) := drawTerminateAfter gen
  let (triggers, gen) := drawTriggers devices maxPc gen
  (.ioBound pid maxPc terminateAfter triggers, gen)

/-- A random compute-bound process. -/
def drawComputeBound (pid : Pid) (gen : Xoshiro) : Proc × Xoshiro :=
  let (maxPc, gen) := drawMaxPc gen
  let (terminateAfter, gen) := drawTerminateAfter gen
  (.computeBound pid maxPc terminateAfter, gen)

/-- A batch in the making: the generator, the ids, and what there is of each category. -/
structure Draft where
  gen : Xoshiro
  pids : PidAllocator
  /-- I/O-bound processes alive. -/
  io : Nat
  /-- Compute-bound processes alive. -/
  compute : Nat
  /-- Mutex users ever created. -/
  mutex : Nat
  /-- Rendezvous pairs ever created. -/
  pairs : Nat

/-- One candidate of a batch: its category is drawn, and the arrival too unless the category is at
its cap. -/
def candidate (w : RandomWorkload) (d : Draft) : Option Arrival × Draft :=
  let (category, gen) := d.gen.below 4
  match category with
  | 0 =>
    if d.io < w.caps.ioLive then
      let (pid, pids) := d.pids.next
      let (p, gen) := drawIoBound w.ioDevices pid gen
      (some (.single p), { d with gen, pids, io := d.io + 1 })
    else (none, { d with gen })
  | 1 =>
    if d.compute < w.caps.computeLive then
      let (pid, pids) := d.pids.next
      let (p, gen) := drawComputeBound pid gen
      (some (.single p), { d with gen, pids, compute := d.compute + 1 })
    else (none, { d with gen })
  | 2 =>
    if d.mutex + 2 ≤ w.caps.mutexCreated then
      let (maxPc1, gen) := drawSafeMaxPc gen
      let (first, pids) := d.pids.next
      let (maxPc2, gen) := drawSafeMaxPc gen
      let (second, pids) := pids.next
      (some (.mutexPair (.mutexUser first maxPc1) (.mutexUser second maxPc2) w.reversePairs),
        { d with gen, pids, mutex := d.mutex + 2 })
    else (none, { d with gen })
  | _ =>
    if d.pairs < w.caps.rendezvousPairs then
      let (maxPc1, gen) := drawSafeMaxPc gen
      let (producer, pids) := d.pids.next
      let (maxPc2, gen) := drawSafeMaxPc gen
      let (consumer, pids) := pids.next
      (some (.rendezvousPair (.partner .producer producer maxPc1)
        (.partner .consumer consumer maxPc2)), { d with gen, pids, pairs := d.pairs + 1 })
    else (none, { d with gen })

/-- The arrivals of so many candidates. -/
def candidates (w : RandomWorkload) : Nat → Draft → List Arrival × Draft
  | 0, d => ([], d)
  | n + 1, d =>
    let (a, d) := w.candidate d
    let (rest, d) := w.candidates n d
    (a.toList ++ rest, d)

/-- A batch of fewer than `maxBatch` candidates. The batch limit 0 leaves no number to draw. -/
def draw (w : RandomWorkload) (pids : PidAllocator) (census : Census) :
    Except Fault (Batch RandomWorkload) :=
  if w.maxBatch = 0 then .error .emptyRange
  else
    let (n, gen) := w.gen.below w.maxBatch
    let (arrivals, d) := w.candidates n
      { gen, pids, io := census.ioBound.live, compute := census.computeBound.live,
        mutex := census.mutexUser.created, pairs := census.producer.created }
    .ok ⟨arrivals, d.pids, { w with gen := d.gen }⟩

instance : Workload RandomWorkload := ⟨draw⟩

/-- A safe counter was drawn, and is safe. -/
theorem drawSafeMaxPc_spec (gen : Xoshiro) :
    isSafe (drawSafeMaxPc gen).1 = true ∧ ∃ gen', drawMaxPc gen' = drawSafeMaxPc gen := by
  unfold drawSafeMaxPc
  exact Xoshiro.of_search_eq_some (Option.some_get (search_drawMaxPc_isSome gen)).symm

end RandomWorkload
end Mlfq
