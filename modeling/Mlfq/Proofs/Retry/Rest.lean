import Mlfq.Proofs.Course.Run

/-! # Between two cycles of a process

A process makes steps in cycles of its own only, and when a request of it is finished. So a process
that makes no requests stays as it is from one cycle of its own to the next, wherever it goes
meanwhile. That nobody else arrives under its number is all that is asked of the others. -/

namespace Mlfq

/-- At most one process has arrived under the number `pid`. -/
def Arrival.Lone (arrived : List Arrival) (pid : Pid) : Prop :=
  ((arrived.flatMap Arrival.procs).map (·.pid)).count pid ≤ 1

theorem Arrival.Lone.of_prefix {as bs : List Arrival} {pid : Pid} (h : Lone bs pid)
    (first : as <+: bs) : Lone as pid :=
  (((first.sublist.flatMap Arrival.procs).map (·.pid)).count_le pid).trans h

/-- Where all numbers are different each is that of one process. -/
theorem Arrival.Distinct.lone {arrived : List Arrival} (h : Distinct arrived) (pid : Pid) :
    Lone arrived pid :=
  List.nodup_iff_count_le_one.1 h pid

namespace Story

variable {s s' : Story} {pid : Pid} {P : Proc → Prop}

/-- At most one process has arrived under the number `pid`. -/
def Lone (s : Story) (pid : Pid) : Prop := (s.arrived.map (·.pid)).count pid ≤ 1

theorem Lone.of_prefix (h : s'.Lone pid) (first : s.arrived <+: s'.arrived) : s.Lone pid :=
  ((first.sublist.map (·.pid)).count_le pid).trans h

/-- A process without namesakes is on the roll once. -/
theorem Proper.pid_ne_of_lone (h : s.Proper) (lone : s.Lone pid) {x y : Station × Proc}
    {rest : Multiset (Station × Proc)} (here : s.roll = x ::ₘ rest) (own : x.2.pid = pid)
    (hy : y ∈ rest) : y.2.pid ≠ pid := by
  intro own'
  have le := Multiset.count_le_of_le pid (Multiset.map_le_map (f := Proc.pid) h)
  rw [Multiset.map_map, Multiset.map_coe, List.map_map, here, Multiset.map_cons,
    Multiset.coe_count] at le
  have first : pid = (Proc.pid ∘ fun x : Station × Proc => x.2.outline) x := own.symm
  have second : pid ∈ rest.map (Proc.pid ∘ fun x => x.2.outline) :=
    Multiset.mem_map.2 ⟨y, hy, own'⟩
  rw [← first, Multiset.count_cons_self] at le
  exact absurd (le.trans lone) (by have := Multiset.count_pos.2 second; omega)

theorem Proper.eq_of_lone (h : s.Proper) (lone : s.Lone pid) {x y : Station × Proc}
    (hx : x ∈ s.roll) (hy : y ∈ s.roll) (own : x.2.pid = pid) (own' : y.2.pid = pid) : y = x := by
  obtain ⟨rest, here⟩ := Multiset.exists_cons_of_mem hx
  rw [here, Multiset.mem_cons] at hy
  exact hy.resolve_right fun elsewhere => h.pid_ne_of_lone lone here own elsewhere own'

/-- Process `pid` is known, its records have property `P`, and it is on no device. -/
structure Rests (s : Story) (pid : Pid) (P : Proc → Prop) : Prop where
  known : pid ∈ s.arrived.map (·.pid)
  records : ∀ x ∈ s.roll, x.2.pid = pid → x.1 ≠ .device ∧ P x.2

namespace Rests

/-- What happens to a process that makes no requests while its cycle is not to be closed. -/
theorem act (h : s.Rests pid P) (idle : ∀ p, P p → ∀ sets, p.plan ≠ .io sets)
    (lone : s'.Lone pid) (apart : s.due ≠ some pid) (act : Act s s') : s'.Rests pid P := by
  refine ⟨(act.arrived_prefix.map (·.pid)).subset h.known, ?_⟩
  have records := h.records
  cases act with
  | note => exact records
  | @arrive p q outline =>
    intro x hx own
    rcases Multiset.mem_cons.1 hx with rfl | old
    · -- Nobody else arrives under this number.
      have twice : ((s.arrived ++ [p]).map (·.pid)).count pid ≤ 1 := lone
      have same : p.pid = pid := (congrArg Proc.pid outline).symm.trans own
      have once := List.count_pos_iff.2 h.known
      rw [List.map_append, List.count_append, List.map_singleton, same,
        List.count_singleton_self] at twice
      omega
    · exact records x old own
  | @pass x x' e due rest here passes =>
    intro y hy own
    rcases Multiset.mem_cons.1 hy with rfl | old
    · obtain ⟨off, has⟩ :=
        records x (here ▸ Multiset.mem_cons_self x rest) (passes.pid_eq.symm.trans own)
      generalize s.due = before at passes apart
      cases passes with
      | expire | signal => exact ⟨nofun, has⟩
      | request _ trap =>
        obtain ⟨sets, plan⟩ := Proc.plan_of_trapAt_io trap
        exact absurd plan (idle _ has sets)
      | complete => exact absurd rfl off
      | block | wait | terminate => exact absurd (congrArg some own) apart
    · exact records y (here ▸ Multiset.mem_cons_of_mem old) own
  | @dispatch p rest priority here =>
    intro y hy own
    rcases Multiset.mem_cons.1 hy with rfl | old
    · exact ⟨nofun, (records (.line, p) (here ▸ Multiset.mem_cons_self _ rest) own).2⟩
    · exact records y (here ▸ Multiset.mem_cons_of_mem old) own
  | @wake p rest here =>
    intro y hy own
    rcases Multiset.mem_cons.1 hy with rfl | old
    · exact ⟨nofun, (records (.lock, p) (here ▸ Multiset.mem_cons_self _ rest) own).2⟩
    · exact records y (here ▸ Multiset.mem_cons_of_mem old) own
  | lose here => exact fun y hy => records y (here ▸ Multiset.mem_cons_of_mem hy)

theorem acts (h : s.Rests pid P) (idle : ∀ p, P p → ∀ sets, p.plan ≠ .io sets)
    (lone : s'.Lone pid) (apart : s.due ≠ some pid) (acts : Acts s s') : s'.Rests pid P := by
  suffices s'.Rests pid P ∧ s'.due ≠ some pid from this.1
  induction acts with
  | refl => exact ⟨h, apart⟩
  | tail path act ih =>
    obtain ⟨rests, apart₁⟩ := ih (lone.of_prefix act.arrived_prefix)
    exact ⟨rests.act idle lone apart₁ act, act.apart apart₁⟩

/-- A cycle of nobody or of somebody else begins. -/
theorem begins (h : s.Rests pid P) (begins : Begin s s')
    (others : s'.cycles.count (some pid) = s.cycles.count (some pid)) :
    s'.Rests pid P ∧ s'.due ≠ some pid := by
  have known : pid ∈ s'.arrived.map (·.pid) := begins.arrived_eq ▸ h.known
  cases begins with
  | idle pairs locks idle due =>
    rw [due_scanIfDue]
    refine ⟨⟨known, fun x hx own => ?_⟩, by rw [due]; exact nofun⟩
    rw [roll_scanIfDue] at hx
    exact h.records x hx own
  | @tick p p' rest pairs locks here advances due =>
    rw [cycles_scanIfDue, List.count_append, List.count_singleton] at others
    have other : p.pid ≠ pid := by
      rintro rfl
      simp at others
    rw [due_scanIfDue]
    refine ⟨⟨known, fun x hx own => ?_⟩, by simpa using other⟩
    rw [roll_scanIfDue] at hx
    rcases Multiset.mem_cons.1 hx with rfl | old
    · exact absurd (advances.pid_eq.symm.trans own) other
    · exact h.records x (here ▸ Multiset.mem_cons_of_mem old) own

/-- A process that ends does so as it is. -/
theorem ended (h : s.Rests pid P) {p : Proc} {rest : Multiset (Station × Proc)}
    (here : s.roll = (.cpu, p) ::ₘ rest) :
    Rests ({ s with roll := (.ended, p) ::ₘ rest, due := none }.tell
      (.terminated p.pid p.kind)) pid P := by
  refine ⟨h.known, fun x hx own => ?_⟩
  rcases Multiset.mem_cons.1 hx with rfl | old
  · exact ⟨nofun, (h.records (.cpu, p) (here ▸ Multiset.mem_cons_self _ rest) own).2⟩
  · exact h.records x (here ▸ Multiset.mem_cons_of_mem old) own

/-- Whatever happens but a cycle of its own leaves a process that makes no requests as it is. -/
theorem next (h : s.Rests pid P) (idle : ∀ p, P p → ∀ sets, p.plan ≠ .io sets)
    (lone : s'.Lone pid) (next : Next s s')
    (others : s'.cycles.count (some pid) = s.cycles.count (some pid)) : s'.Rests pid P := by
  cases next with
  | between due acts => exact h.acts idle lone (by rw [due]; exact nofun) acts
  | settled settles =>
    clear lone others
    induction settles with
    | refl => exact h
    | tail _ settle ih =>
      obtain ⟨due, rfl⟩ := settle.exists_due
      exact ⟨ih.known, ih.records⟩
  | ended here => exact h.ended here
  | cycle begins acts =>
    rw [acts.frame.cycles] at others
    obtain ⟨rests, apart⟩ := h.begins begins others
    exact rests.acts idle lone apart acts

end Rests
end Story
end Mlfq
