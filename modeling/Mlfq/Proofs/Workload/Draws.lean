import Mathlib.Data.List.Count
import Mathlib.Data.List.Nodup
import Mlfq.Workload.Random

/-! # The draws of a random workload

Whatever numbers are drawn, a largest program counter is from the range of the draws, a process ends
after few wraps or never, and the trap points of a process that makes requests are dealt to the
devices in turn, so that each gets a fair share and no two share a point. What one candidate can
come to is said once, in `Candidate`, for all that is proved about batches. -/

namespace Mlfq

/-! ## Sets of points -/

namespace TriggerSet

theorem length_insertPoint_le (point : Nat) (points : List Nat) :
    (insertPoint point points).length ≤ points.length + 1 := by
  induction points with
  | nil => exact Nat.le_refl _
  | cons q qs ih =>
    unfold insertPoint
    split
    · exact Nat.le_refl _
    · split
      · exact Nat.le_succ _
      · exact Nat.succ_le_succ ih

/-- A set has at most as many points as were given. -/
theorem length_points_ofList_le (points : List Nat) :
    (ofList points).points.length ≤ points.length := by
  induction points with
  | nil => exact Nat.le_refl _
  | cons p ps ih => exact Nat.le_trans (length_insertPoint_le p _) (Nat.succ_le_succ ih)

theorem mem_points_ofList {points : List Nat} {point : Nat} :
    point ∈ (ofList points).points ↔ point ∈ points := by
  rw [← List.contains_iff_mem]
  exact contains_ofList

end TriggerSet

namespace RandomWorkload

/-! ## Dealing -/

/-- Of so many numbers in a row, one in `devices` leaves this remainder. -/
theorem countP_range_le (devices d k : Nat) :
    (List.range (devices * k)).countP (· % devices = d) ≤ k := by
  induction k with
  | zero => exact Nat.le_refl _
  | succ k ih =>
    have round : (List.range devices).countP (fun i => (devices * k + i) % devices = d) ≤ 1 := by
      have same : (List.range devices).countP (fun i => (devices * k + i) % devices = d) =
          (List.range devices).count d := by
        refine List.countP_congr fun i hi => ?_
        rw [Nat.mul_add_mod, Nat.mod_eq_of_lt (List.mem_range.1 hi), decide_eq_true_eq, beq_iff_eq]
      rw [same]
      exact List.nodup_iff_count_le_one.1 List.nodup_range d
    rw [Nat.mul_succ, List.range_add, List.countP_append, List.countP_map]
    exact Nat.add_le_add ih round

/-- The points that one of the devices is dealt. -/
def share (devices : Nat) (points : List Nat) (d : Nat) : List Nat :=
  (points.zipIdx.filter fun (_, i) => i % devices = d).map (·.1)

theorem deal_eq (devices : Nat) (points : List Nat) :
    deal devices points = (List.range devices).map fun d => .ofList (share devices points d) := rfl

/-- A device is dealt the points at every so many-th position. -/
theorem mem_share {devices d point : Nat} {points : List Nat} :
    point ∈ share devices points d ↔ ∃ i, points[i]? = some point ∧ i % devices = d := by
  simp only [share, List.mem_map, List.mem_filter, decide_eq_true_eq]
  constructor
  · rintro ⟨⟨p, i⟩, ⟨mem, turn⟩, rfl⟩
    exact ⟨i, List.mk_mem_zipIdx_iff_getElem?.1 mem, turn⟩
  · rintro ⟨i, found, turn⟩
    exact ⟨(point, i), ⟨List.mk_mem_zipIdx_iff_getElem?.2 found, turn⟩, rfl⟩

theorem length_share_le {devices k : Nat} {points : List Nat} (few : points.length ≤ devices * k)
    (d : Nat) : (share devices points d).length ≤ k := by
  have positions : (share devices points d).length =
      (List.range points.length).countP (· % devices = d) := by
    rw [share, List.length_map, ← List.countP_eq_length_filter, List.range_eq_range',
      ← List.zipIdx_map_snd 0 points, List.countP_map]
    rfl
  rw [positions]
  exact Nat.le_trans (List.range_sublist.2 few).countP_le (countP_range_le devices d k)

/-- What is dealt to one device is not dealt to another. -/
theorem share_disjoint {devices d d' : Nat} {points : List Nat} (nodup : points.Nodup)
    (ne : d ≠ d') : (share devices points d).Disjoint (share devices points d') := by
  intro point here there
  obtain ⟨i, hi, turn⟩ := mem_share.1 here
  obtain ⟨j, hj, turn'⟩ := mem_share.1 there
  have inside : i < points.length := (List.getElem?_eq_some_iff.1 hi).1
  obtain rfl : i = j := (List.getElem?_inj inside nodup).1 (hi.trans hj.symm)
  exact ne (turn.symm.trans turn')

/-- The trap points of a process with this largest counter, for so many devices: at most four for
each, all inside the range of the counter, and none for two devices. -/
structure Dealt (devices maxPc : Nat) (sets : List TriggerSet) : Prop where
  length : sets.length = devices
  few : ∀ set ∈ sets, set.points.length ≤ 4
  inside : ∀ set ∈ sets, ∀ point ∈ set.points, 1 ≤ point ∧ point ≤ maxPc - 1
  disjoint : sets.Pairwise fun set set' => set.points.Disjoint set'.points

/-- No device is asked at the first point or from the largest one on. -/
theorem Dealt.contains_eq_false {devices maxPc pc : Nat} {sets : List TriggerSet}
    (dealt : Dealt devices maxPc sets) (outside : pc = 0 ∨ maxPc ≤ pc) {set : TriggerSet}
    (h : set ∈ sets) : set.contains pc = false := by
  rw [← Bool.not_eq_true, TriggerSet.contains, List.contains_iff_mem]
  intro mem
  have := dealt.inside set h pc mem
  omega

/-- Increasing points that are few enough are dealt fairly. -/
theorem dealt_deal {devices maxPc : Nat} {points : List Nat} (few : points.length ≤ devices * 4)
    (increasing : points.Pairwise (· < ·)) (inside : ∀ point ∈ points, 0 < point ∧ point < maxPc) :
    Dealt devices maxPc (deal devices points) := by
  have share_of_mem : ∀ {set}, set ∈ deal devices points →
      ∃ d, set = .ofList (share devices points d) := by
    intro set h
    obtain ⟨d, -, rfl⟩ := List.mem_map.1 (deal_eq devices points ▸ h)
    exact ⟨d, rfl⟩
  constructor
  case length => rw [deal_eq, List.length_map, List.length_range]
  case few =>
    intro set h
    obtain ⟨d, rfl⟩ := share_of_mem h
    exact Nat.le_trans (TriggerSet.length_points_ofList_le _) (length_share_le few d)
  case inside =>
    intro set h point hp
    obtain ⟨d, rfl⟩ := share_of_mem h
    obtain ⟨i, found, -⟩ := mem_share.1 (TriggerSet.mem_points_ofList.1 hp)
    have range := inside point (List.mem_of_getElem? found)
    omega
  case disjoint =>
    have nodup : points.Nodup := increasing.imp Nat.ne_of_lt
    rw [deal_eq, List.pairwise_map]
    refine List.nodup_range.imp fun {d d'} ne point here there => ?_
    exact share_disjoint nodup ne (TriggerSet.mem_points_ofList.1 here)
      (TriggerSet.mem_points_ofList.1 there)

/-! ## Draws -/

theorem range_drawMaxPc (gen : Xoshiro) : 20 ≤ (drawMaxPc gen).1 ∧ (drawMaxPc gen).1 ≤ 419 := by
  have below := Xoshiro.below_lt (n := 400) (by decide) gen
  show 20 ≤ 20 + (gen.below 400).1 ∧ 20 + (gen.below 400).1 ≤ 419
  omega

/-- A largest counter that suits a member of a pair. -/
structure Suits (maxPc : Nat) : Prop where
  range : 20 ≤ maxPc ∧ maxPc ≤ 419
  safe : isSafe maxPc = true

theorem suits_drawSafeMaxPc (gen : Xoshiro) : Suits (drawSafeMaxPc gen).1 := by
  obtain ⟨safe, gen', drawn⟩ := drawSafeMaxPc_spec gen
  exact ⟨drawn ▸ range_drawMaxPc gen', safe⟩

theorem drawTerminateAfter_le (gen : Xoshiro) : (drawTerminateAfter gen).1 ≤ 30 := by
  unfold drawTerminateAfter
  rcases gen.below 1000 with ⟨lot, gen'⟩
  have below := Xoshiro.below_lt (n := 30) (by decide) gen'
  dsimp only
  split
  · exact Nat.zero_le _
  · show 1 + (gen'.below 30).1 ≤ 30
    omega

/-- The points are drawn upward, and below the largest program counter. -/
theorem lt_of_mem_drawPoints (maxPc step fuel pc : Nat) (gen : Xoshiro) :
    ∀ point ∈ (drawPoints maxPc step fuel pc gen).1, pc < point ∧ point < maxPc := by
  induction fuel generalizing pc gen with
  | zero => exact fun _ h => absurd h List.not_mem_nil
  | succ fuel ih =>
    simp only [drawPoints]
    split
    · exact fun _ h => absurd h List.not_mem_nil
    · intro point h
      rcases List.mem_cons.1 h with rfl | h
      · omega
      · have lt := ih _ _ point h
        omega

/-- At most so many points are drawn, in increasing order. -/
theorem drawPoints_spec (maxPc step fuel pc : Nat) (gen : Xoshiro) :
    (drawPoints maxPc step fuel pc gen).1.length ≤ fuel ∧
      (drawPoints maxPc step fuel pc gen).1.Pairwise (· < ·) := by
  induction fuel generalizing pc gen with
  | zero => exact ⟨Nat.le_refl _, .nil⟩
  | succ fuel ih =>
    simp only [drawPoints]
    split
    · exact ⟨Nat.zero_le _, .nil⟩
    · obtain ⟨few, increasing⟩ := ih (pc + 1 + (gen.below step).1) (gen.below step).2
      refine ⟨Nat.succ_le_succ few, List.pairwise_cons.2 ⟨fun point later => ?_, increasing⟩⟩
      exact (lt_of_mem_drawPoints _ _ _ _ _ point later).1

theorem dealt_drawTriggers (devices maxPc : Nat) (gen : Xoshiro) :
    Dealt devices maxPc (drawTriggers devices maxPc gen).1 := by
  obtain ⟨few, increasing⟩ := drawPoints_spec maxPc (max (maxPc / 4) 1) (devices * 4) 0 gen
  exact dealt_deal few increasing (lt_of_mem_drawPoints _ _ _ _ gen)

/-! ## Candidates -/

theorem exists_drawIoBound (devices : Nat) (pid : Pid) (gen : Xoshiro) :
    ∃ maxPc terminateAfter sets gen', drawIoBound devices pid gen =
        (.ioBound pid maxPc terminateAfter sets, gen') ∧
      (20 ≤ maxPc ∧ maxPc ≤ 419) ∧ terminateAfter ≤ 30 ∧ Dealt devices maxPc sets :=
  ⟨_, _, _, _, rfl, range_drawMaxPc gen, drawTerminateAfter_le _, dealt_drawTriggers ..⟩

theorem exists_drawComputeBound (pid : Pid) (gen : Xoshiro) :
    ∃ maxPc terminateAfter gen', drawComputeBound pid gen =
        (.computeBound pid maxPc terminateAfter, gen') ∧
      (20 ≤ maxPc ∧ maxPc ≤ 419) ∧ terminateAfter ≤ 30 :=
  ⟨_, _, _, rfl, range_drawMaxPc gen, drawTerminateAfter_le _⟩

/-- What a candidate can come to: nothing, if its category is at its cap, or an arrival of its
category, with what was drawn for it. -/
inductive Candidate (w : RandomWorkload) (d : Draft) : Option Arrival × Draft → Prop
  | dropped (gen : Xoshiro) : Candidate w d (none, { d with gen })
  | ioBound {maxPc terminateAfter : Nat} {sets : List TriggerSet} (gen : Xoshiro)
    (room : d.io < w.caps.ioLive) (range : 20 ≤ maxPc ∧ maxPc ≤ 419) (few : terminateAfter ≤ 30)
    (dealt : Dealt w.ioDevices maxPc sets) :
    Candidate w d (some (.single (.ioBound d.pids.next.1 maxPc terminateAfter sets)),
      { d with gen, pids := d.pids.next.2, io := d.io + 1 })
  | computeBound {maxPc terminateAfter : Nat} (gen : Xoshiro)
    (room : d.compute < w.caps.computeLive) (range : 20 ≤ maxPc ∧ maxPc ≤ 419)
    (few : terminateAfter ≤ 30) :
    Candidate w d (some (.single (.computeBound d.pids.next.1 maxPc terminateAfter)),
      { d with gen, pids := d.pids.next.2, compute := d.compute + 1 })
  | mutexPair {maxPc₁ maxPc₂ : Nat} (gen : Xoshiro) (room : d.mutex + 2 ≤ w.caps.mutexCreated)
    (suits₁ : Suits maxPc₁) (suits₂ : Suits maxPc₂) :
    Candidate w d (some (.mutexPair (.mutexUser d.pids.next.1 maxPc₁)
        (.mutexUser d.pids.next.2.next.1 maxPc₂) w.reversePairs),
      { d with gen, pids := d.pids.next.2.next.2, mutex := d.mutex + 2 })
  | rendezvousPair {maxPc₁ maxPc₂ : Nat} (gen : Xoshiro) (room : d.pairs < w.caps.rendezvousPairs)
    (suits₁ : Suits maxPc₁) (suits₂ : Suits maxPc₂) :
    Candidate w d (some (.rendezvousPair (.partner .producer d.pids.next.1 maxPc₁)
        (.partner .consumer d.pids.next.2.next.1 maxPc₂)),
      { d with gen, pids := d.pids.next.2.next.2, pairs := d.pairs + 1 })

theorem candidate_spec (w : RandomWorkload) (d : Draft) : Candidate w d (w.candidate d) := by
  unfold candidate
  rcases d.gen.below 4 with ⟨_ | _ | _ | category, gen⟩ <;> simp only <;> split
  any_goals exact .dropped gen
  case isTrue room =>
    obtain ⟨maxPc, terminateAfter, sets, gen', drawn, range, few, dealt⟩ :=
      exists_drawIoBound w.ioDevices d.pids.next.1 gen
    rw [drawn]
    exact .ioBound gen' room range few dealt
  case isTrue room =>
    obtain ⟨maxPc, terminateAfter, gen', drawn, range, few⟩ :=
      exists_drawComputeBound d.pids.next.1 gen
    rw [drawn]
    exact .computeBound gen' room range few
  case isTrue room =>
    exact .mutexPair _ room (suits_drawSafeMaxPc _) (suits_drawSafeMaxPc _)
  case isTrue room =>
    exact .rendezvousPair _ room (suits_drawSafeMaxPc _) (suits_drawSafeMaxPc _)

/-- What is composed from the candidates, one by one, and holds of none of them, holds of them
all. -/
theorem candidates_induction {w : RandomWorkload} {R : Draft → List Arrival → Draft → Prop}
    (none : ∀ d, R d [] d)
    (first : ∀ d c as d', Candidate w d c → R c.2 as d' → R d (c.1.toList ++ as) d')
    (n : Nat) (d : Draft) : R d (w.candidates n d).1 (w.candidates n d).2 := by
  induction n generalizing d with
  | zero => exact none d
  | succ n ih => exact first d _ _ _ (w.candidate_spec d) (ih (w.candidate d).2)

/-- The draft before the first candidate of a batch. -/
def Draft.start (gen : Xoshiro) (pids : PidAllocator) (census : Census) : Draft :=
  { gen, pids, io := census.ioBound.live, compute := census.computeBound.live,
    mutex := census.mutexUser.created, pairs := census.producer.created }

/-- The arrivals of a batch, and the draft after its last candidate. -/
def made (w : RandomWorkload) (pids : PidAllocator) (census : Census) : List Arrival × Draft :=
  w.candidates (w.gen.below w.maxBatch).1 (.start (w.gen.below w.maxBatch).2 pids census)

theorem batch_eq (w : RandomWorkload) (pids : PidAllocator) (census : Census) :
    Workload.batch w pids census = if w.maxBatch = 0 then .error .emptyRange else
      .ok ⟨(w.made pids census).1, (w.made pids census).2.pids,
        { w with gen := (w.made pids census).2.gen }⟩ := rfl

theorem batch_of_pos {w : RandomWorkload} (positive : 0 < w.maxBatch) (pids : PidAllocator)
    (census : Census) : Workload.batch w pids census =
      .ok ⟨(w.made pids census).1, (w.made pids census).2.pids,
        { w with gen := (w.made pids census).2.gen }⟩ := by
  rw [batch_eq, if_neg (Nat.ne_of_gt positive)]

theorem eq_of_batch {w : RandomWorkload} {pids : PidAllocator} {census : Census}
    {batch : Batch RandomWorkload} (h : Workload.batch w pids census = .ok batch) :
    batch = ⟨(w.made pids census).1, (w.made pids census).2.pids,
      { w with gen := (w.made pids census).2.gen }⟩ := by
  rw [batch_eq] at h
  split at h
  · cases h
  · exact (Except.ok.inj h).symm

end RandomWorkload
end Mlfq
