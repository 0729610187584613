import Mlfq.Proofs.Run.Source
import Mlfq.Proofs.Scene.Identity
import Mlfq.Proofs.Workload.Draws

/-! # The library workloads

The workloads of the library make five kinds of processes only, and they number them one after the
other. -/

namespace Mlfq

/-! ## Numbers -/

/-- The processes get the next numbers in order. -/
structure PidAllocator.HandsOut (pids : PidAllocator) (ps : List Proc) (pids' : PidAllocator) :
    Prop where
  nums : ps.map (·.pid.num) = List.range' pids.allocated ps.length
  allocated : pids'.allocated = pids.allocated + ps.length

namespace PidAllocator.HandsOut

variable {pids pids' pids'' : PidAllocator} {ps qs : List Proc}

theorem nil (pids : PidAllocator) : pids.HandsOut [] pids := ⟨rfl, rfl⟩

theorem append (h : pids.HandsOut ps pids') (h' : pids'.HandsOut qs pids'') :
    pids.HandsOut (ps ++ qs) pids'' := by
  constructor
  · rw [List.map_append, h.nums, h'.nums, h.allocated, List.length_append, List.range'_append_1]
  · rw [h'.allocated, h.allocated, List.length_append, Nat.add_assoc]

theorem nodup (h : pids.HandsOut ps pids') : (ps.map (·.pid)).Nodup := by
  have nums : ((ps.map (·.pid)).map (·.num)).Nodup := by
    rw [List.map_map]
    exact h.nums ▸ List.nodup_range'
  exact nums.of_map

end PidAllocator.HandsOut

/-! ## Arrivals -/

/-- The arrivals that the workloads of the library make. -/
inductive Arrival.Library : Arrival → Prop
  | compute (pid : Pid) (maxPc terminateAfter : Nat) :
    Library (.single (.computeBound pid maxPc terminateAfter))
  | io (pid : Pid) (maxPc terminateAfter : Nat) (devices : List TriggerSet) :
    Library (.single (.ioBound pid maxPc terminateAfter devices))
  | mutexPair (first second : Pid) (maxPc₁ maxPc₂ : Nat) (reversed : Bool) :
    Library (.mutexPair (.mutexUser first maxPc₁) (.mutexUser second maxPc₂) reversed)
  | rendezvousPair (producer consumer : Pid) (maxPc₁ maxPc₂ : Nat) :
    Library (.rendezvousPair (.partner .producer producer maxPc₁)
      (.partner .consumer consumer maxPc₂))

/-- The kind of a process of the library tells its plan. -/
theorem Arrival.Library.plan_of_kind {a : Arrival} (h : a.Library) {g : Proc} (hg : g ∈ a.procs) :
    (g.kind = .mutexUser → g.plan = .mutex .standard) ∧
      (g.kind = .producer ∨ g.kind = .consumer → ∃ id, g.plan = .rendezvous .rendezvous id) := by
  cases h with
  | compute | io =>
    rw [List.mem_singleton.1 hg]
    exact ⟨nofun, nofun⟩
  | mutexPair =>
    rcases List.mem_pair.1 hg with rfl | rfl <;> exact ⟨fun _ => rfl, nofun⟩
  | rendezvousPair =>
    rcases List.mem_pair.1 hg with rfl | rfl <;> exact ⟨nofun, fun _ => ⟨_, rfl⟩⟩

/-- A workload of the library. -/
class Workload.Library (σ : Type) [Workload σ] : Prop where
  spec : ∀ {w : σ} {pids : PidAllocator} {census : Census} {batch : Batch σ},
    Workload.batch w pids census = .ok batch → (∀ a ∈ batch.arrivals, a.Library) ∧
      pids.HandsOut (batch.arrivals.flatMap Arrival.procs) batch.pids

instance : Workload.Library NoArrivals where
  spec h := by
    cases h
    refine ⟨fun a ha => ?_, .nil _⟩
    cases ha

/-! ## Scripted workloads -/

theorem Outline.arrival_spec (o : Outline) (pids : PidAllocator) :
    (o.arrival pids).1.Library ∧ pids.HandsOut (o.arrival pids).1.procs (o.arrival pids).2 := by
  cases o with
  | compute maxPc terminateAfter => exact ⟨.compute _ _ _, rfl, rfl⟩
  | io maxPc terminateAfter points => exact ⟨.io _ _ _ _, rfl, rfl⟩
  | mutexPair maxPc reversed => exact ⟨.mutexPair _ _ _ _ _, rfl, rfl⟩
  | rendezvousPair maxPc => exact ⟨.rendezvousPair _ _ _ _, rfl, rfl⟩

theorem Outline.arrivals_spec (os : List Outline) (pids : PidAllocator) :
    (∀ a ∈ (Outline.arrivals pids os).1, a.Library) ∧
      pids.HandsOut ((Outline.arrivals pids os).1.flatMap Arrival.procs)
        (Outline.arrivals pids os).2 := by
  induction os generalizing pids with
  | nil =>
    refine ⟨fun a ha => ?_, .nil _⟩
    cases ha
  | cons o os ih =>
    obtain ⟨library, numbers⟩ := o.arrival_spec pids
    obtain ⟨library', numbers'⟩ := ih (o.arrival pids).2
    refine ⟨fun a ha => ?_, numbers.append numbers'⟩
    rcases List.mem_cons.1 ha with rfl | ha
    · exact library
    · exact library' a ha

instance : Workload.Library ScriptedWorkload where
  spec {w pids census batch} h := by
    obtain ⟨batches⟩ := w
    cases batches with
    | nil =>
      cases h
      refine ⟨fun a ha => ?_, .nil _⟩
      cases ha
    | cons outlines rest =>
      cases h
      exact Outline.arrivals_spec outlines pids

/-! ## Random workloads -/

namespace RandomWorkload

/-- The arrivals that a random workload makes. No request is made at 0 or at the largest program
counter, and the members of pairs hold no lock at their largest one. -/
inductive Drawn (w : RandomWorkload) : Arrival → Prop
  | compute (pid : Pid) (maxPc terminateAfter : Nat) :
    Drawn w (.single (.computeBound pid maxPc terminateAfter))
  | io (pid : Pid) (maxPc terminateAfter : Nat) {devices : List TriggerSet}
    (positive : ∀ set ∈ devices, set.contains 0 = false)
    (inside : ∀ set ∈ devices, set.contains maxPc = false) :
    Drawn w (.single (.ioBound pid maxPc terminateAfter devices))
  | mutexPair (first second : Pid) {maxPc₁ maxPc₂ : Nat} (safe₁ : isSafe maxPc₁ = true)
    (safe₂ : isSafe maxPc₂ = true) :
    Drawn w (.mutexPair (.mutexUser first maxPc₁) (.mutexUser second maxPc₂) w.reversePairs)
  | rendezvousPair (producer consumer : Pid) {maxPc₁ maxPc₂ : Nat} (safe₁ : isSafe maxPc₁ = true)
    (safe₂ : isSafe maxPc₂ = true) :
    Drawn w (.rendezvousPair (.partner .producer producer maxPc₁)
      (.partner .consumer consumer maxPc₂))

theorem Drawn.library {w : RandomWorkload} {a : Arrival} (h : w.Drawn a) : a.Library := by
  cases h with
  | compute => exact .compute _ _ _
  | io => exact .io _ _ _ _
  | mutexPair => exact .mutexPair _ _ _ _ _
  | rendezvousPair => exact .rendezvousPair _ _ _ _

/-- A candidate that is not dropped is drawn, and takes its numbers from the draft. -/
theorem Candidate.drawn {w : RandomWorkload} {d : Draft} {c : Option Arrival × Draft}
    (h : Candidate w d c) : (∀ a ∈ c.1, w.Drawn a) ∧
      d.pids.HandsOut (c.1.toList.flatMap Arrival.procs) c.2.pids := by
  cases h with
  | dropped gen =>
    refine ⟨fun a ha => ?_, .nil _⟩
    cases ha
  | ioBound gen room range few dealt =>
    refine ⟨fun a ha => ?_, rfl, rfl⟩
    cases ha
    exact .io _ _ _ (fun set => dealt.contains_eq_false (.inl rfl))
      fun set => dealt.contains_eq_false (.inr (Nat.le_refl _))
  | computeBound gen room range few =>
    refine ⟨fun a ha => ?_, rfl, rfl⟩
    cases ha
    exact .compute _ _ _
  | mutexPair gen room suits₁ suits₂ =>
    refine ⟨fun a ha => ?_, rfl, rfl⟩
    cases ha
    exact .mutexPair _ _ suits₁.safe suits₂.safe
  | rendezvousPair gen room suits₁ suits₂ =>
    refine ⟨fun a ha => ?_, rfl, rfl⟩
    cases ha
    exact .rendezvousPair _ _ suits₁.safe suits₂.safe

theorem drawn_candidates (w : RandomWorkload) (n : Nat) (d : Draft) :
    (∀ a ∈ (w.candidates n d).1, w.Drawn a) ∧
      d.pids.HandsOut ((w.candidates n d).1.flatMap Arrival.procs) (w.candidates n d).2.pids := by
  refine candidates_induction (w := w) (R := fun d as d' => (∀ a ∈ as, w.Drawn a) ∧
    d.pids.HandsOut (as.flatMap Arrival.procs) d'.pids)
    (fun d => ⟨fun a ha => absurd ha List.not_mem_nil, .nil _⟩) ?_ n d
  rintro d c as d' spec ⟨drawn, numbers⟩
  obtain ⟨first, number⟩ := spec.drawn
  rw [List.flatMap_append]
  refine ⟨fun a ha => ?_, number.append numbers⟩
  rcases List.mem_append.1 ha with here | later
  · exact first a (Option.mem_toList.1 here)
  · exact drawn a later

theorem drawn_of_batch {w : RandomWorkload} {pids : PidAllocator} {census : Census}
    {batch : Batch RandomWorkload} (h : Workload.batch w pids census = .ok batch) :
    (∀ a ∈ batch.arrivals, w.Drawn a) ∧
      pids.HandsOut (batch.arrivals.flatMap Arrival.procs) batch.pids ∧
      batch.rest.reversePairs = w.reversePairs := by
  obtain rfl := eq_of_batch h
  obtain ⟨drawn, numbers⟩ := w.drawn_candidates _ _
  exact ⟨drawn, numbers, rfl⟩

end RandomWorkload

instance : Workload.Library RandomWorkload where
  spec h := by
    obtain ⟨drawn, numbers, -⟩ := RandomWorkload.drawn_of_batch h
    exact ⟨fun a ha => (drawn a ha).library, numbers⟩

/-! ## Runs -/

/-- The processes of the library have different numbers in every run. -/
theorem Moment.distinct_of_library {σ : Type} [Workload σ] [Workload.Library σ] {config : Config}
    {workload : σ} {logLevel : Option Level} {mo : Moment σ}
    (h : Moment.Reachable (.start config workload logLevel) mo) :
    (∀ a ∈ mo.ledger.arrived, a.Library) ∧ Arrival.Distinct mo.ledger.arrived := by
  have good := Moment.arrivals_induction (fun _ pids arrived => (∀ a ∈ arrived, a.Library) ∧
    PidAllocator.HandsOut {} (arrived.flatMap Arrival.procs) pids) ?_ ?_ h
  · exact ⟨good.1, good.2.nodup⟩
  · intro w pids census batch arrived answer earlier
    obtain ⟨library, numbers⟩ := Workload.Library.spec answer
    constructor
    · intro a ha
      rcases List.mem_append.1 ha with ha | ha
      · exact earlier.1 a ha
      · exact library a ha
    · rw [List.flatMap_append]
      exact earlier.2.append numbers
  · refine ⟨fun a ha => ?_, .nil _⟩
    cases ha

/-- The arrivals of a random workload are drawn, and it goes on reversing its mutex pairs or not. -/
theorem Moment.drawn_of_reachable {config : Config} {workload : RandomWorkload}
    {logLevel : Option Level} {mo : Moment RandomWorkload}
    (h : Moment.Reachable (.start config workload logLevel) mo) :
    ∀ a ∈ mo.ledger.arrived,
      ∃ w : RandomWorkload, w.reversePairs = workload.reversePairs ∧ w.Drawn a := by
  have good := Moment.arrivals_induction (fun (w : RandomWorkload) _ arrived =>
    w.reversePairs = workload.reversePairs ∧ ∀ a ∈ arrived,
      ∃ w : RandomWorkload, w.reversePairs = workload.reversePairs ∧ w.Drawn a) ?_ ?_ h
  · exact good.2
  · intro w pids census batch arrived answer earlier
    obtain ⟨drawn, -, same⟩ := RandomWorkload.drawn_of_batch answer
    refine ⟨same.trans earlier.1, fun a ha => ?_⟩
    rcases List.mem_append.1 ha with ha | ha
    · exact earlier.2 a ha
    · exact ⟨w, earlier.1, drawn a ha⟩
  · refine ⟨rfl, fun a ha => ?_⟩
    cases ha

/-- The arrivals of a random workload that does not reverse its mutex pairs. -/
theorem Moment.drawn_of_not_reversed {config : Config} {workload : RandomWorkload}
    {logLevel : Option Level} {mo : Moment RandomWorkload} (kept : workload.reversePairs = false)
    (h : Moment.Reachable (.start config workload logLevel) mo) :
    ∀ a ∈ mo.ledger.arrived, ∃ w : RandomWorkload, w.reversePairs = false ∧ w.Drawn a :=
  kept ▸ drawn_of_reachable h

end Mlfq
