import Mlfq.Proofs.Scene.Identity
import Mlfq.Proofs.Story.Cycle

/-! # Who is on the roll

Everybody on the roll has arrived, and nobody is on it twice. What is to hold at every moment of a
run is shown act by act, for stories in which all processes have different numbers. -/

namespace Mlfq

open Queue (cores)

namespace Story

variable {s s' : Story}

/-- The numbers of all who have arrived are different. -/
def Distinct (s : Story) : Prop := (s.arrived.map (·.pid)).Nodup

/-- Everybody on the roll has arrived, and is there once. -/
def Proper (s : Story) : Prop :=
  s.roll.map (·.2.outline) ≤ (s.arrived.map Proc.outline : Multiset Proc)

/-- A record keeps its outline wherever it goes. -/
theorem Passes.outline_eq {due due' : Option Pid} {x x' : Station × Proc} {e : Event}
    (h : Passes due x e x' due') : x'.2.outline = x.2.outline := by
  cases h <;> rfl

theorem Passes.pid_eq {due due' : Option Pid} {x x' : Station × Proc} {e : Event}
    (h : Passes due x e x' due') : x'.2.pid = x.2.pid := by
  cases h <;> rfl

theorem Act.arrived_prefix (h : Act s s') : s.arrived <+: s'.arrived := by
  cases h with
  | arrive => exact List.prefix_append ..
  | _ => exact List.prefix_rfl

theorem Begin.arrived_eq (h : Begin s s') : s'.arrived = s.arrived := by
  cases h <;> simp

theorem Steps.arrived_prefix (steps : Steps s s') : s.arrived <+: s'.arrived :=
  steps.keep (I := fun s' => s.arrived <+: s'.arrived) List.prefix_rfl
    (fun act h => h.trans act.arrived_prefix) (fun _ h => h)
    fun begins h => begins.arrived_eq ▸ h

namespace Proper

/-- A record that goes elsewhere is still the only one of its process. -/
theorem move (h : s.Proper) {x y : Station × Proc} {rest : Multiset (Station × Proc)}
    (here : s.roll = x ::ₘ rest) (outline : y.2.outline = x.2.outline)
    (there : s'.roll = y ::ₘ rest) (arrived : s'.arrived = s.arrived) : s'.Proper := by
  rw [Proper, here, Multiset.map_cons] at h
  rw [Proper, there, Multiset.map_cons, outline, arrived]
  exact h

theorem act (h : s.Proper) (act : Act s s') : s'.Proper := by
  cases act with
  | note => exact h
  | @arrive p q outline pc wraps =>
    show (Multiset.map _ ((Station.line, q.core) ::ₘ s.roll)) ≤
      ((s.arrived ++ [p]).map Proc.outline : Multiset Proc)
    rw [Multiset.map_cons, List.map_append, ← Multiset.coe_add, add_comm]
    have one : q.core.outline = p.outline := outline
    rw [one]
    exact Multiset.cons_le_cons _ h
  | pass here passes => exact h.move here passes.outline_eq rfl rfl
  | @dispatch p rest priority here => exact h.move (y := (.cpu, p)) here rfl rfl rfl
  | @wake p rest here => exact h.move (y := (.line, p)) here rfl rfl rfl
  | lose here parked =>
    rw [Proper, here, Multiset.map_cons] at h
    exact (Multiset.le_cons_self _ _).trans h

theorem settle (h : s.Proper) (settle : Settle s s') : s'.Proper := by
  obtain ⟨due, rfl⟩ := settle.exists_due
  exact h

theorem begins (h : s.Proper) (begins : Begin s s') : s'.Proper := by
  cases begins with
  | idle =>
    rw [Proper, roll_scanIfDue, arrived_scanIfDue]
    exact h
  | @tick p p' rest pairs locks here advances due =>
    have outline : p'.outline = p.outline := by
      rw [← p'.outline_profile, advances.profile_eq, p.outline_profile]
    exact h.move (y := (.cpu, p')) here outline (roll_scanIfDue ..) (arrived_scanIfDue ..)

theorem steps (h : s.Proper) (steps : Steps s s') : s'.Proper := by
  induction steps with
  | refl => exact h
  | tail _ step ih =>
    rcases step with act | settle | begins
    · exact ih.act act
    · exact ih.settle settle
    · exact ih.begins begins

/-- Everybody on the roll has arrived. -/
theorem exists_arrived (h : s.Proper) {x : Station × Proc} (hx : x ∈ s.roll) :
    ∃ q ∈ s.arrived, q.outline = x.2.outline := by
  have mem := Multiset.mem_of_le h (Multiset.mem_map_of_mem _ hx)
  rw [Multiset.mem_coe] at mem
  exact List.mem_map.1 mem

theorem pid_mem (h : s.Proper) {x : Station × Proc} (hx : x ∈ s.roll) :
    x.2.pid ∈ s.arrived.map (·.pid) := by
  obtain ⟨q, hq, outline⟩ := h.exists_arrived hx
  have pid : q.pid = x.2.pid := congrArg (·.pid) outline
  exact List.mem_map.2 ⟨q, hq, pid⟩

/-- A record on the roll is that of the process that has arrived under its number. -/
theorem outline_eq (h : s.Proper) (distinct : s.Distinct) {x : Station × Proc} (hx : x ∈ s.roll)
    {q : Proc} (hq : q ∈ s.arrived) (pid : x.2.pid = q.pid) : x.2.outline = q.outline := by
  obtain ⟨q', hq', outline⟩ := h.exists_arrived hx
  have same : q'.pid = x.2.pid := congrArg (·.pid) outline
  rw [← outline, List.inj_on_of_nodup_map distinct hq' hq (same.trans pid)]

theorem nodup (h : s.Proper) (distinct : s.Distinct) : (s.roll.map (·.2.pid)).Nodup := by
  have le := Multiset.map_le_map (f := Proc.pid) h
  rw [Multiset.map_map, Multiset.map_coe, List.map_map] at le
  exact Multiset.nodup_of_le le (Multiset.coe_nodup.2 distinct)

theorem eq_of_pid_eq (h : s.Proper) (distinct : s.Distinct) {x y : Station × Proc}
    (hx : x ∈ s.roll) (hy : y ∈ s.roll) (same : x.2.pid = y.2.pid) : x = y :=
  Multiset.inj_on_of_nodup_map (h.nodup distinct) x hx y hy same

/-- A process is on the roll once. -/
theorem pid_ne (h : s.Proper) (distinct : s.Distinct) {x y : Station × Proc}
    {rest : Multiset (Station × Proc)} (here : s.roll = x ::ₘ rest) (hy : y ∈ rest) :
    y.2.pid ≠ x.2.pid := by
  have nodup := h.nodup distinct
  rw [here, Multiset.map_cons, Multiset.nodup_cons] at nodup
  exact fun same => nodup.1 (Multiset.mem_map.2 ⟨y, hy, same⟩)

end Proper

theorem Distinct.of_act (distinct : s'.Distinct) (act : Act s s') : s.Distinct := by
  obtain ⟨rest, h⟩ := act.arrived_prefix
  rw [Distinct, ← h, List.map_append] at distinct
  exact distinct.of_append_left

/-- Who arrives has a number that nobody has yet. -/
theorem Distinct.notMem {as : List Proc} {p : Proc}
    (distinct : ((as ++ [p]).map (·.pid)).Nodup) : p.pid ∉ as.map (·.pid) := by
  rw [List.map_append, List.nodup_append] at distinct
  intro mem
  exact distinct.2.2 _ mem _ List.mem_cons_self rfl

/-- What holds at first and is kept by all that can happen holds at every moment. -/
theorem Steps.invariant {I : Story → Prop} (steps : Steps s s') (proper : s.Proper) (start : I s)
    (act : ∀ {s s'}, s.Proper → s'.Distinct → Act s s' → I s → I s')
    (settle : ∀ {s s'}, s.Proper → Settle s s' → I s → I s')
    (begins : ∀ {s s'}, s.Proper → s.Distinct → Begin s s' → I s → I s')
    (distinct : s'.Distinct) : I s' := by
  induction steps with
  | refl => exact start
  | tail path step ih =>
    have proper₁ := proper.steps path
    rcases step with step | step | step
    · exact act proper₁ distinct step (ih (distinct.of_act step))
    · obtain ⟨due, rfl⟩ := step.exists_due
      exact settle proper₁ step (ih distinct)
    · have distinct₁ := distinct
      rw [Distinct, step.arrived_eq] at distinct₁
      exact begins proper₁ distinct₁ step (ih distinct₁)

/-! ## Runs -/

section Runs

variable {σ : Type} [Workload σ] {config : Config} {workload : σ} {logLevel : Option Level}
  {c c' : Chronicle σ}

omit [Workload σ] in
theorem roll_start (config : Config) (workload : σ) (logLevel : Option Level) :
    (Machine.start config workload logLevel).roll [] = 0 := by
  have devices : (List.replicate config.ioDevices ({} : Device)).map (·.queue) =
      List.replicate config.ioDevices [] := List.map_replicate ..
  simp [Machine.roll, Machine.start, Machine.queued, Machine.onCpu, onDevices, onLocks,
    onConditions, Station.roll, Station.all, devices, LockTable.toList, Registry.values]

theorem tidy_of_reachable (reachable : Chronicle.Reachable (.start config workload logLevel) c) :
    c.moment.ledger.scene.Tidy :=
  Scene.tidy_of_steps (Scene.fresh_start config workload logLevel)
    (Scene.steps_of_reachable reachable.moment)

/-- A run goes on as its story does. -/
theorem steps_of_later (reachable : Chronicle.Reachable (.start config workload logLevel) c)
    (later : Chronicle.Later c c') : Steps c.story c'.story := by
  induction later with
  | refl => exact .refl
  | tail path next ih =>
    exact ih.trans (next_of_next (tidy_of_reachable (reachable.trans path)) next).steps

/-- The story before anything has happened. -/
def opening (config : Config) : Story where
  roll := 0
  arrived := []
  tracing := config.recordTrace
  events := []
  monitor := {}
  scanInterval := config.scanInterval
  sinceScan := 0
  dispatches := 0
  iteration := 0
  cycles := []
  due := none

theorem proper_opening (config : Config) : (opening config).Proper := Multiset.zero_le _

theorem steps_of_reachable (reachable : Chronicle.Reachable (.start config workload logLevel) c) :
    Steps (opening config) c.story := by
  have steps := steps_of_later .refl reachable
  have start : Chronicle.story ⟨⟨{ machine := .start config workload logLevel }, []⟩, []⟩ =
      opening config := by
    rw [Chronicle.story, Machine.story, Chronicle.machine, roll_start]
    rfl
  rwa [start] at steps

omit [Workload σ] in
theorem distinct_story (distinct : Arrival.Distinct c.moment.ledger.arrived) : c.story.Distinct :=
  distinct

end Runs
end Story
end Mlfq
