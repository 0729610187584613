import Mlfq.Proofs.Story.Accounts
import Mlfq.Proofs.Story.Range
import Mlfq.Proofs.Workload.Parameters

/-! # Requests are answered

A workload of the library answers every request with new processes. How large their program counters
can get is decided by the script, or by the draws of a random workload. -/

namespace Mlfq

variable {limit : Nat}

/-- From this state on every request is answered, with new processes that have no larger counter
than `limit`. -/
def Workload.Supplies {σ : Type} [Workload σ] (limit : Nat) (w : σ) : Prop :=
  ∃ keeps : σ → Prop, keeps w ∧ ∀ w, keeps w → ∀ pids census, ∃ batch,
    Workload.batch w pids census = .ok batch ∧
      (∀ a ∈ batch.arrivals, ∀ p ∈ a.procs, p.NewWithin limit) ∧ keeps batch.rest

/-- A request is answered, and so are the later ones. -/
theorem Workload.Supplies.exists_batch {σ : Type} [Workload σ] {w : σ}
    (h : Workload.Supplies limit w) (pids : PidAllocator) (census : Census) : ∃ batch,
    Workload.batch w pids census = .ok batch ∧
      (∀ a ∈ batch.arrivals, ∀ p ∈ a.procs, p.NewWithin limit) ∧
      Workload.Supplies limit batch.rest := by
  obtain ⟨keeps, start, answers⟩ := h
  obtain ⟨batch, answer, new, still⟩ := answers w start pids census
  exact ⟨batch, answer, new, keeps, still, answers⟩

/-! ## Scripted workloads -/

/-- The largest program counter of the processes of an outline. -/
def Outline.maxPc : Outline → Nat
  | .compute maxPc _ | .io maxPc _ _ | .mutexPair maxPc _ | .rendezvousPair maxPc => maxPc

theorem Outline.newWithin_of_arrival {o : Outline} (small : o.maxPc ≤ limit) (pids : PidAllocator) :
    ∀ p ∈ (o.arrival pids).1.procs, p.NewWithin limit := by
  intro p hp
  cases o with
  | compute | io =>
    rw [List.mem_singleton.1 hp]
    exact ⟨small, rfl, rfl⟩
  | mutexPair | rendezvousPair =>
    rcases List.mem_pair.1 hp with rfl | rfl <;> exact ⟨small, rfl, rfl⟩

theorem Outline.newWithin_of_arrivals {os : List Outline} (small : ∀ o ∈ os, o.maxPc ≤ limit)
    (pids : PidAllocator) :
    ∀ a ∈ (Outline.arrivals pids os).1, ∀ p ∈ a.procs, p.NewWithin limit := by
  induction os generalizing pids with
  | nil =>
    intro a ha
    cases ha
  | cons o os ih =>
    intro a ha
    rcases List.mem_cons.1 ha with rfl | later
    · exact newWithin_of_arrival (small o List.mem_cons_self) pids
    · exact ih (fun o ho => small o (List.mem_cons_of_mem _ ho)) (o.arrival pids).2 a later

theorem ScriptedWorkload.supplies {w : ScriptedWorkload}
    (small : ∀ outlines ∈ w.batches, ∀ o ∈ outlines, o.maxPc ≤ limit) :
    Workload.Supplies limit w := by
  refine ⟨fun w => ∀ outlines ∈ w.batches, ∀ o ∈ outlines, o.maxPc ≤ limit, small, ?_⟩
  rintro ⟨_ | ⟨outlines, rest⟩⟩ small pids census
  · refine ⟨_, rfl, fun a ha => ?_, small⟩
    cases ha
  · refine ⟨_, rfl, ?_, fun os hos => small os (List.mem_cons_of_mem _ hos)⟩
    exact Outline.newWithin_of_arrivals (small outlines List.mem_cons_self) pids

/-! ## Random workloads -/

namespace RandomWorkload

theorem supplies {w : RandomWorkload} (positive : 0 < w.maxBatch) (small : lastMaxPc ≤ limit) :
    Workload.Supplies limit w := by
  refine ⟨fun w => 0 < w.maxBatch, positive, fun w positive pids census => ?_⟩
  have answer := batch_of_pos positive pids census
  refine ⟨_, answer, fun a ha p hp => ?_, positive⟩
  have library := (Workload.Library.spec answer).1 a ha
  obtain ⟨pc, wraps, -⟩ := library.new_of_mem hp
  have drawn : p.maxPc ≤ lastMaxPc := (w.withinDraws_candidates _ _ a ha p hp).maxPc.2
  exact ⟨drawn.trans small, pc, wraps⟩

end RandomWorkload

/-! ## The library -/

/-- A configuration without a defect leaves a number of candidates to draw. -/
theorem Config.two_le_maxBatch {c : Config} (valid : c.defect? = none) : 2 ≤ c.maxBatch :=
  Nat.le_of_not_lt (of_decide_eq_false (check_eq_false valid 9 rfl))

/-- A workload of the library whose processes have no larger counter than `limit`. A random workload
is that of a configuration without a defect. -/
inductive Workload.Within (limit : Nat) : {σ : Type} → [Workload σ] → σ → Prop
  | none (w : NoArrivals) : Within limit w
  | scripted (w : ScriptedWorkload)
    (small : ∀ outlines ∈ w.batches, ∀ o ∈ outlines, o.maxPc ≤ limit) : Within limit w
  | random (c : Config) (valid : c.defect? = .none) (small : RandomWorkload.lastMaxPc ≤ limit) :
    Within limit (RandomWorkload.ofConfig c)

theorem Workload.Within.supplies {σ : Type} [Workload σ] {w : σ} (h : Workload.Within limit w) :
    Workload.Supplies limit w := by
  cases h with
  | none =>
    refine ⟨fun _ => True, trivial, fun w _ pids census => ⟨_, rfl, fun a ha => ?_, trivial⟩⟩
    cases ha
  | scripted w small => exact ScriptedWorkload.supplies small
  | random c valid small =>
    have positive : 0 < (RandomWorkload.ofConfig c).maxBatch :=
      Nat.lt_of_lt_of_le (by decide) (Config.two_le_maxBatch valid)
    exact RandomWorkload.supplies positive small

end Mlfq
