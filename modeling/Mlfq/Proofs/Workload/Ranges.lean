import Mlfq.Machine.Traps
import Mlfq.Workload.Random

/-! # Draws from ranges with elements

A batch can be drawn so that a range without elements is a fault wherever a number is drawn. Only
the limit of a batch can leave no number to draw, which the draw of a batch checks; all other ranges
have elements, so that the two draws are the same. -/

namespace Mlfq

/-- A computation that draws numbers. -/
abbrev Drawing := StateT Xoshiro (Except Fault)

namespace Drawing

/-- A number below `n`. There has to be one. -/
def roll (n : Nat) : Drawing Nat := fun gen =>
  if n = 0 then .error .emptyRange else .ok (gen.below n)

/-- A largest program counter between 20 and 419. -/
def maxPc : Drawing Nat := do return 20 + (← roll 400)

/-- The first of at most `fuel` draws that is accepted. -/
def search {α : Type} (draw : Drawing α) (accept : α → Bool) :
    Nat → Xoshiro → Except Fault (Option (α × Xoshiro))
  | 0, _ => return none
  | fuel + 1, gen => do
    let (a, gen) ← draw gen
    if accept a then return some (a, gen) else search draw accept fuel gen

/-- A largest program counter at which no lock is held. One has to be found. -/
def safeMaxPc : Drawing Nat := fun gen => do
  match ← search maxPc RandomWorkload.isSafe Xoshiro.State.period gen with
  | some drawn => return drawn
  | none => throw .emptyRange

/-- After how many wraps a process ends. -/
def terminateAfter : Drawing Nat := do
  if (← roll 1000) ≤ 5 then return 0 else return 1 + (← roll 30)

/-- Increasing trap points after a point and below `last`. -/
def points (last step : Nat) : Nat → Nat → Drawing (List Nat)
  | 0, _ => return []
  | fuel + 1, pc => do
    let pc := pc + 1 + (← roll step)
    if last ≤ pc then return [] else return pc :: (← points last step fuel pc)

/-- A random I/O-bound process. -/
def ioBound (devices : Nat) (pid : Pid) : Drawing Proc := do
  let last ← maxPc
  let wraps ← terminateAfter
  let points ← points last (max (last / 4) 1) (devices * 4) 0
  return .ioBound pid last wraps (RandomWorkload.deal devices points)

/-- A random compute-bound process. -/
def computeBound (pid : Pid) : Drawing Proc := do
  let last ← maxPc
  return .computeBound pid last (← terminateAfter)

/-! ## Each draw -/

variable (gen : Xoshiro)

/-- After a draw that succeeds the next one goes on. -/
theorem bind_eq {α β : Type} {x : Drawing α} {gen : Xoshiro} {drawn : α × Xoshiro}
    (h : x gen = .ok drawn) (f : α → Drawing β) : (x >>= f) gen = f drawn.1 drawn.2 := by
  show x gen >>= _ = _
  rw [h]
  rfl

theorem roll_eq {n : Nat} (positive : 0 < n) : roll n gen = .ok (gen.below n) :=
  if_neg (Nat.ne_of_gt positive)

theorem maxPc_eq : maxPc gen = .ok (RandomWorkload.drawMaxPc gen) := rfl

theorem search_eq {α : Type} {draw : Drawing α} {draw' : Xoshiro → α × Xoshiro}
    (h : ∀ gen, draw gen = .ok (draw' gen)) (accept : α → Bool) (fuel : Nat) (gen : Xoshiro) :
    search draw accept fuel gen = .ok (Xoshiro.search draw' accept fuel gen) := by
  induction fuel generalizing gen with
  | zero => rfl
  | succ fuel ih =>
    simp only [search, h, bind, Except.bind, Xoshiro.search_succ]
    split
    · rfl
    · exact ih _

theorem safeMaxPc_eq : safeMaxPc gen = .ok (RandomWorkload.drawSafeMaxPc gen) := by
  have found : search maxPc RandomWorkload.isSafe Xoshiro.State.period gen =
      .ok (some (RandomWorkload.drawSafeMaxPc gen)) := by
    rw [search_eq maxPc_eq, RandomWorkload.drawSafeMaxPc, Option.some_get]
  rw [safeMaxPc, found]
  rfl

theorem terminateAfter_eq : terminateAfter gen = .ok (RandomWorkload.drawTerminateAfter gen) := by
  rw [terminateAfter, bind_eq (roll_eq gen (by decide)), RandomWorkload.drawTerminateAfter]
  rcases gen.below 1000 with ⟨lot, gen'⟩
  dsimp only
  split
  · rfl
  · rw [bind_eq (roll_eq gen' (by decide))]
    rcases gen'.below 30 with ⟨n, gen''⟩
    rfl

theorem points_eq (last fuel pc : Nat) {step : Nat} (positive : 0 < step) :
    points last step fuel pc gen = .ok (RandomWorkload.drawPoints last step fuel pc gen) := by
  induction fuel generalizing pc gen with
  | zero => rfl
  | succ fuel ih =>
    rw [points, bind_eq (roll_eq gen positive), RandomWorkload.drawPoints]
    dsimp only
    split
    · rfl
    · rw [bind_eq (ih _ _)]
      rfl

theorem ioBound_eq (devices : Nat) (pid : Pid) :
    ioBound devices pid gen = .ok (RandomWorkload.drawIoBound devices pid gen) := by
  have step : ∀ last, 0 < max (last / 4) 1 := fun last => Nat.lt_of_lt_of_le Nat.one_pos
    (Nat.le_max_right _ _)
  rw [ioBound, bind_eq (maxPc_eq gen), RandomWorkload.drawIoBound]
  rcases RandomWorkload.drawMaxPc gen with ⟨last, gen₁⟩
  rw [bind_eq (terminateAfter_eq gen₁)]
  dsimp only
  rcases RandomWorkload.drawTerminateAfter gen₁ with ⟨wraps, gen₂⟩
  rw [bind_eq (points_eq gen₂ _ _ _ (step last))]
  rfl

theorem computeBound_eq (pid : Pid) :
    computeBound pid gen = .ok (RandomWorkload.drawComputeBound pid gen) := by
  rw [computeBound, bind_eq (maxPc_eq gen), RandomWorkload.drawComputeBound]
  rcases RandomWorkload.drawMaxPc gen with ⟨last, gen₁⟩
  rw [bind_eq (terminateAfter_eq gen₁)]
  dsimp only
  rcases RandomWorkload.drawTerminateAfter gen₁ with ⟨wraps, gen₂⟩
  rfl

end Drawing

namespace RandomWorkload

/-! ## Batches -/

/-- One candidate of a batch, every draw from a range that is looked at. -/
def rollCandidate (w : RandomWorkload) (d : Draft) : Except Fault (Option Arrival × Draft) := do
  let (category, gen) ← Drawing.roll 4 d.gen
  match category with
  | 0 =>
    if d.io < w.caps.ioLive then
      let (pid, pids) := d.pids.next
      let (p, gen) ← Drawing.ioBound w.ioDevices pid gen
      return (some (.single p), { d with gen, pids, io := d.io + 1 })
    else return (none, { d with gen })
  | 1 =>
    if d.compute < w.caps.computeLive then
      let (pid, pids) := d.pids.next
      let (p, gen) ← Drawing.computeBound pid gen
      return (some (.single p), { d with gen, pids, compute := d.compute + 1 })
    else return (none, { d with gen })
  | 2 =>
    if d.mutex + 2 ≤ w.caps.mutexCreated then
      let (maxPc1, gen) ← Drawing.safeMaxPc gen
      let (first, pids) := d.pids.next
      let (maxPc2, gen) ← Drawing.safeMaxPc gen
      let (second, pids) := pids.next
      return (some (.mutexPair (.mutexUser first maxPc1) (.mutexUser second maxPc2) w.reversePairs),
        { d with gen, pids, mutex := d.mutex + 2 })
    else return (none, { d with gen })
  | _ =>
    if d.pairs < w.caps.rendezvousPairs then
      let (maxPc1, gen) ← Drawing.safeMaxPc gen
      let (producer, pids) := d.pids.next
      let (maxPc2, gen) ← Drawing.safeMaxPc gen
      let (consumer, pids) := pids.next
      return (some (.rendezvousPair (.partner .producer producer maxPc1)
        (.partner .consumer consumer maxPc2)), { d with gen, pids, pairs := d.pairs + 1 })
    else return (none, { d with gen })

/-- The arrivals of so many candidates. -/
def rollCandidates (w : RandomWorkload) : Nat → Draft → Except Fault (List Arrival × Draft)
  | 0, d => return ([], d)
  | n + 1, d => do
    let (a, d) ← w.rollCandidate d
    let (rest, d) ← w.rollCandidates n d
    return (a.toList ++ rest, d)

/-- A batch of fewer than `maxBatch` candidates. -/
def roll (w : RandomWorkload) (pids : PidAllocator) (census : Census) :
    Except Fault (Batch RandomWorkload) := do
  let (n, gen) ← Drawing.roll w.maxBatch w.gen
  let (arrivals, d) ← w.rollCandidates n
    { gen, pids, io := census.ioBound.live, compute := census.computeBound.live,
      mutex := census.mutexUser.created, pairs := census.producer.created }
  return ⟨arrivals, d.pids, { w with gen := d.gen }⟩

theorem rollCandidate_eq (w : RandomWorkload) (d : Draft) :
    w.rollCandidate d = .ok (w.candidate d) := by
  have category := Drawing.roll_eq d.gen (by decide : 0 < 4)
  rcases drawn : d.gen.below 4 with ⟨_ | _ | _ | _, gen⟩ <;>
    simp only [rollCandidate, candidate, category, drawn, bind, Except.bind, Drawing.ioBound_eq,
      Drawing.computeBound_eq, Drawing.safeMaxPc_eq] <;>
    split <;> rfl

theorem rollCandidates_eq (w : RandomWorkload) (n : Nat) (d : Draft) :
    w.rollCandidates n d = .ok (w.candidates n d) := by
  induction n generalizing d with
  | zero => rfl
  | succ n ih =>
    simp only [rollCandidates, candidates, rollCandidate_eq, ih, bind, Except.bind]
    rfl

/-- No draw of a batch is from a range without elements, unless there is no number of candidates to
draw. -/
theorem roll_eq_draw (w : RandomWorkload) (pids : PidAllocator) (census : Census) :
    w.roll pids census = w.draw pids census := by
  unfold roll draw
  by_cases empty : w.maxBatch = 0
  · rw [if_pos empty, Drawing.roll, if_pos empty]
    rfl
  · rw [if_neg empty, Drawing.roll_eq w.gen (Nat.pos_of_ne_zero empty)]
    simp only [rollCandidates_eq, bind, Except.bind]
    rfl

end RandomWorkload

/-! ## Devices -/

/-- The time of a request, drawn from a range that is looked at. -/
def Machine.rollCountdown {σ : Type} (m : Machine σ) (priority : Priority) :
    Except Fault (Nat × Machine σ) := do
  let (n, gen) ← Drawing.roll 100 m.gen
  return (Word.satAdd (m.config.quantum priority.val) (10 + n), { m with gen })

theorem Machine.rollCountdown_eq {σ : Type} (m : Machine σ) (priority : Priority) :
    m.rollCountdown priority = .ok (m.drawCountdown priority) := by
  rw [rollCountdown, Drawing.roll_eq m.gen (by decide), drawCountdown]
  rcases m.gen.below 100 with ⟨n, gen⟩
  rfl

end Mlfq
