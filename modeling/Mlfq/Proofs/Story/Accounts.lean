import Mlfq.Proofs.Conservation
import Mlfq.Proofs.Deadlock.Program
import Mlfq.Proofs.Story.Fate

/-! # Where the cycles of a process go

Each cycle of a process is a step of its program counter. The end of an I/O request is a step too,
and a process that is parked on a lock or a condition is set back. So the counters of a process and
the trace account for every cycle, wherever its record has been. -/

namespace Mlfq

open Queue (cores)

/-! ## Plans -/

/-- The number of steps by which a process is set back that is parked by this trap. -/
def Trap.setback : Trap → Nat
  | .lock _ | .rendezvousAcquire _ => 1
  | .rendezvousBody _ => 2
  | _ => 0

namespace TrapPlan

/-- Whether every I/O request is made before the largest program counter. -/
def asksInTime (maxPc : Nat) : TrapPlan → Bool
  | .io devices => devices.all fun set => set.points.all (· < maxPc)
  | _ => true

/-- A process is never set back past 0, and makes no request at its largest program counter or past
it. -/
def Steady (maxPc : Nat) : TrapPlan → Prop
  | .none => True
  | .io devices => ∀ set ∈ devices, ∀ point ∈ set.points, point < maxPc
  | .mutex program => ∀ pc first second t, program.trapAt pc first second = some t → t.setback ≤ pc
  | .rendezvous triggers _ => ∀ point ∈ triggers.points, 2 ≤ point

theorem asksInTime_unbound (maxPc : Nat) (plan : TrapPlan) :
    plan.unbound.asksInTime maxPc = plan.asksInTime maxPc := by
  cases plan <;> rfl

theorem steady_unbound {maxPc : Nat} {plan : TrapPlan} :
    plan.unbound.Steady maxPc ↔ plan.Steady maxPc := by
  cases plan <;> exact .rfl

end TrapPlan

namespace Proc

/-- A trap of a process with a steady plan does not set it back too far. -/
theorem setback_le_of_trapAt {p : Proc} {pc : Nat} {pairs : MutexPairs} {t : Trap}
    (steady : p.plan.Steady p.maxPc) (h : p.trapAt pc pairs = .ok (some t)) : t.setback ≤ pc := by
  unfold trapAt at h
  cases plan : p.plan with
  | none =>
    rw [plan] at h
    cases h
  | io devices =>
    simp only [plan, Except.ok.injEq, Option.map_eq_some_iff] at h
    obtain ⟨d, -, rfl⟩ := h
    exact Nat.zero_le _
  | mutex program =>
    simp only [plan, Except.ok.injEq, Option.bind_eq_some_iff] at h
    obtain ⟨m, -, h⟩ := h
    rw [plan] at steady
    exact steady pc m.first m.second t h
  | rendezvous triggers channel =>
    rw [plan] at h steady
    obtain ⟨next, succ, h⟩ := exists_of_bind_eq_ok h
    obtain ⟨-, rfl⟩ := Word.succ_eq_ok_iff.1 succ
    have two : ∀ {n}, triggers.contains n = true → 2 ≤ n :=
      fun mem => steady _ (List.contains_iff_mem.1 mem)
    split at h
    case isTrue mem =>
      cases h
      exact Nat.le_of_succ_le_succ (two mem)
    split at h
    case isTrue mem =>
      cases h
      exact two mem
    split at h <;> cases h
    exact Nat.zero_le _

theorem lt_maxPc_of_trapAt_io {p : Proc} {pc : Nat} {pairs : MutexPairs} {d : DeviceId}
    (steady : p.plan.Steady p.maxPc) (h : p.trapAt pc pairs = .ok (some (.io d))) :
    pc < p.maxPc := by
  obtain ⟨devices, plan⟩ := plan_of_trapAt_io h
  rw [trapAt, plan] at h
  simp only [Except.ok.injEq, Option.map_eq_some_iff] at h
  obtain ⟨i, found, -⟩ := h
  obtain ⟨inRange, here, -⟩ := List.findIdx?_eq_some_iff_getElem.1 found
  rw [plan] at steady
  exact steady _ (List.getElem_mem inRange) pc (List.contains_iff_mem.1 here)

theorem steady_of_outline_eq {p q : Proc} (h : p.outline = q.outline)
    (steady : p.plan.Steady p.maxPc) : q.plan.Steady q.maxPc := by
  have plan : p.plan.unbound = q.plan.unbound := congrArg Proc.plan h
  have maxPc : p.maxPc = q.maxPc := by rw [← p.maxPc_outline, h, q.maxPc_outline]
  rw [← TrapPlan.steady_unbound] at steady ⊢
  rwa [← plan, ← maxPc]

/-- The steps that a process has taken by its counters. -/
def progress (p : Proc) : Nat := p.wraps * (p.maxPc + 1) + p.pc

/-- A process that has not wrapped so often has not taken so many steps. -/
theorem progress_lt {p : Proc} {n : Nat} (wraps : p.wraps < n) (le : p.pc ≤ p.maxPc) :
    p.progress < n * (p.maxPc + 1) :=
  calc p.progress < p.wraps * (p.maxPc + 1) + (p.maxPc + 1) :=
        Nat.add_lt_add_left (Nat.lt_succ_of_le le) _
    _ = (p.wraps + 1) * (p.maxPc + 1) := (Nat.succ_mul ..).symm
    _ ≤ n * (p.maxPc + 1) := Nat.mul_le_mul_right _ wraps

theorem Advances.progress_eq {p p' : Proc} (h : p.Advances p') (le : p.pc ≤ p.maxPc) :
    p'.progress = p.progress + 1 := by
  cases h with
  | step => rfl
  | wrap past =>
    have last : p.pc = p.maxPc := Nat.le_antisymm le (Nat.le_of_lt_succ past)
    simp only [progress, last, Nat.succ_mul]
    omega

end Proc

/-- The processes of the library are new, and their plans are steady if they ask in time. -/
theorem Arrival.Library.new_of_mem {a : Arrival} (h : a.Library) {p : Proc} (hp : p ∈ a.procs) :
    p.pc = 0 ∧ p.wraps = 0 ∧ (p.plan.asksInTime p.maxPc = true → p.plan.Steady p.maxPc) := by
  have mutex : (TrapPlan.mutex .standard).Steady p.maxPc := by
    intro pc first second t trap
    have cases := MutexProgram.standard_trapAt_cases trap
    simp only [List.mem_cons, List.not_mem_nil, or_false] at cases
    rcases cases with ⟨here, rfl⟩ | ⟨here, rfl⟩ | ⟨-, rfl⟩ | ⟨-, rfl⟩ | ⟨-, rfl⟩ | ⟨-, rfl⟩ |
      ⟨-, rfl⟩ | ⟨-, rfl⟩ <;> simp only [Trap.setback] <;> omega
  have rendezvous : (TrapPlan.rendezvous .rendezvous ⟨0⟩).Steady p.maxPc := by
    show ∀ point ∈ TriggerSet.rendezvous.points, 2 ≤ point
    decide
  cases h with
  | compute =>
    obtain rfl := List.mem_singleton.1 hp
    exact ⟨rfl, rfl, fun _ => trivial⟩
  | io pid maxPc terminateAfter devices =>
    obtain rfl := List.mem_singleton.1 hp
    refine ⟨rfl, rfl, fun inTime => ?_⟩
    have all : ∀ set ∈ devices, set.points.all (· < maxPc) = true := List.all_eq_true.1 inTime
    exact fun set hset point hpoint =>
      of_decide_eq_true (List.all_eq_true.1 (all set hset) point hpoint)
  | mutexPair =>
    rcases List.mem_pair.1 hp with rfl | rfl <;> exact ⟨rfl, rfl, fun _ => mutex⟩
  | rendezvousPair =>
    rcases List.mem_pair.1 hp with rfl | rfl <;> exact ⟨rfl, rfl, fun _ => rendezvous⟩

namespace Story

variable {s s' : Story}

/-! ## The books of one process -/

/-- The steps of process `pid`: its cycles and the ends of its requests. -/
def stepped (s : Story) (pid : Pid) : Nat :=
  s.cycles.count (some pid) + (marks pid s.events).count .completed

/-- The number of steps by which process `pid` was set back. -/
def setBack (s : Story) (pid : Pid) : Nat :=
  (marks pid s.events).count .blocked + 2 * (marks pid s.events).count .waited

theorem Gains.stepped_eq {pid : Pid} {told : List Mark} {ticks : Nat}
    (h : Gains s s' pid told ticks) (tracing : s.tracing = true) :
    s'.stepped pid = s.stepped pid + ticks + told.count .completed := by
  rw [stepped, stepped, h.marks tracing, h.ticks, List.count_append]
  omega

theorem Gains.setBack_eq {pid : Pid} {told : List Mark} {ticks : Nat}
    (h : Gains s s' pid told ticks) (tracing : s.tracing = true) :
    s'.setBack pid = s.setBack pid + (told.count .blocked + 2 * told.count .waited) := by
  rw [setBack, setBack, h.marks tracing, List.count_append, List.count_append]
  omega

/-- The counters of a process account for its steps. -/
structure Booked (s : Story) (x : Station × Proc) : Prop where
  pc_le : x.2.pc ≤ x.2.maxPc
  /-- A step is kept for the end of the request. -/
  pc_lt : x.1 = .device → x.2.pc < x.2.maxPc
  balance : s.stepped x.2.pid = x.2.progress + s.setBack x.2.pid

/-- Everybody who has arrived was new. -/
def AllNew (s : Story) : Prop := ∀ p ∈ s.arrived, p.pc = 0 ∧ p.wraps = 0

theorem AllNew.of_prefix (h : s'.AllNew) (arrived : s.arrived <+: s'.arrived) : s.AllNew :=
  fun p hp => h p (arrived.subset hp)

/-- The record that is put on the roll for a new process has taken no step. -/
theorem AllNew.start (h : s.AllNew) {p q : Proc} (mem : p ∈ s.arrived) (pc : q.pc = p.pc)
    (wraps : q.wraps = p.wraps) : q.core.pc = 0 ∧ q.core.wraps = 0 ∧ q.core.progress = 0 := by
  obtain ⟨pc₀, wraps₀⟩ := h p mem
  have start : q.core.pc = 0 := pc.trans pc₀
  have unwrapped : q.core.wraps = 0 := wraps.trans wraps₀
  exact ⟨start, unwrapped, by rw [Proc.progress, start, unwrapped, Nat.zero_mul]⟩

namespace Booked

/-- A process goes elsewhere as it is, or stays, and nothing is told of it that counts. -/
theorem keep {x x' : Station × Proc} (h : s.Booked x) (same : x'.2 = x.2)
    (lt : x'.1 = .device → x'.2.pc < x'.2.maxPc) {told : List Mark}
    (gains : Gains s s' x.2.pid told 0) (tracing : s.tracing = true)
    (quiet : told.count .completed = 0 ∧ told.count .blocked = 0 ∧ told.count .waited = 0) :
    s'.Booked x' := by
  have stepped := gains.stepped_eq tracing
  have setBack := gains.setBack_eq tracing
  have balance := h.balance
  refine ⟨same ▸ h.pc_le, lt, ?_⟩
  rw [same]
  omega

/-- What happens to a process is booked. -/
theorem of_passes {due due' : Option Pid} {x x' : Station × Proc} {e : Event} {mark : Mark}
    (h : s.Booked x) (passes : Passes due x e x' due') (tells : e.mark? = some (x.2.pid, mark))
    (steady : x'.2.plan.Steady x'.2.maxPc) (gains : Gains s s' x.2.pid [mark] 0)
    (tracing : s.tracing = true) : s'.Booked x' := by
  have stepped := gains.stepped_eq tracing
  have setBack := gains.setBack_eq tracing
  have balance := h.balance
  have le := h.pc_le
  cases passes <;> cases tells
  case expire | signal | terminate => exact h.keep rfl nofun gains tracing (by decide)
  case request trap =>
    exact h.keep rfl (fun _ => Proc.lt_maxPc_of_trapAt_io steady trap) gains tracing (by decide)
  case complete p d =>
    have lt : p.pc < p.maxPc := h.pc_lt rfl
    refine ⟨lt, nofun, ?_⟩
    simp only [Proc.progress, List.count_singleton_self, List.count_singleton, beq_iff_eq,
      reduceCtorEq, if_false] at stepped setBack balance ⊢
    omega
  case block p pairs t lock holder trap asks =>
    have one : t.setback = 1 := by cases t <;> first | rfl | cases asks
    have back := Proc.setback_le_of_trapAt (p := p) steady trap
    refine ⟨(Nat.sub_le ..).trans le, nofun, ?_⟩
    simp only [Proc.progress, List.count_singleton_self, List.count_singleton, beq_iff_eq,
      reduceCtorEq, if_false] at stepped setBack balance ⊢
    omega
  case wait p pairs id trap =>
    have back : 2 ≤ p.pc := Proc.setback_le_of_trapAt (p := p) steady trap
    refine ⟨(Nat.sub_le ..).trans le, nofun, ?_⟩
    simp only [Proc.progress, List.count_singleton_self, List.count_singleton, beq_iff_eq,
      reduceCtorEq, if_false] at stepped setBack balance ⊢
    omega

end Booked

/-- All processes with steady plans are booked. -/
structure Balanced (s : Story) : Prop where
  booked : ∀ x ∈ s.roll, x.2.plan.Steady x.2.maxPc → s.Booked x
  others : ∀ pid ∉ s.arrived.map (·.pid), s.stepped pid = 0 ∧ s.setBack pid = 0

namespace Balanced

theorem booked_of_fate (h : s.Balanced) (tracing : s.tracing = true) (new : s'.AllNew)
    {x : Station × Proc} (fate : Fate s s' x) (steady : x.2.plan.Steady x.2.maxPc) :
    s'.Booked x := by
  cases fate with
  | stay mem gains =>
    have before := h.booked x mem steady
    exact before.keep rfl before.pc_lt gains tracing (by decide)
  | @arrive p q mem outline pc wraps unknown gains =>
    obtain ⟨start, -, progress⟩ := new.start mem pc wraps
    obtain ⟨stepped₀, setBack₀⟩ := h.others q.pid unknown
    have stepped : s'.stepped q.pid = _ := gains.stepped_eq tracing
    have setBack : s'.setBack q.pid = _ := gains.setBack_eq tracing
    rw [stepped₀] at stepped
    rw [setBack₀] at setBack
    refine ⟨start.trans_le (Nat.zero_le _), nofun, ?_⟩
    rw [progress, Proc.pid_core, stepped, setBack]
    rfl
  | pass mem passes tells gains =>
    exact (h.booked _ mem (Proc.steady_of_outline_eq passes.outline_eq steady)).of_passes passes
      tells steady gains tracing
  | dispatch mem gains => exact (h.booked _ mem steady).keep rfl nofun gains tracing (by decide)
  | wake mem gains => exact (h.booked _ mem steady).keep rfl nofun gains tracing (by decide)
  | @tick p p' mem advances idle due gains =>
    have plan : p'.plan = p.plan := advances.plan_eq
    have maxPc : p'.maxPc = p.maxPc := advances.maxPc_eq
    have before := h.booked (.cpu, p) mem (by rwa [← plan, ← maxPc])
    have stepped : s'.stepped p.pid = s.stepped p.pid + 1 := gains.stepped_eq tracing
    have setBack : s'.setBack p.pid = s.setBack p.pid := gains.setBack_eq tracing
    have progress : p'.progress = p.progress + 1 := advances.progress_eq before.pc_le
    have balance : s.stepped p.pid = p.progress + s.setBack p.pid := before.balance
    refine ⟨advances.pc_le, nofun, ?_⟩
    simp only [advances.pid_eq]
    omega

theorem change (h : s.Balanced) (tracing : s.tracing = true) (proper : s'.Proper)
    (new : s'.AllNew) (change : Change s s') : s'.Balanced := by
  refine ⟨fun x hx => h.booked_of_fate tracing new (change.fate x hx), fun pid unknown => ?_⟩
  rcases change.others pid with gains | ⟨x, hx, rfl⟩
  · obtain ⟨stepped₀, setBack₀⟩ :=
      h.others pid fun known => unknown ((change.arrived.map _).subset known)
    rw [gains.stepped_eq tracing, gains.setBack_eq tracing, stepped₀, setBack₀]
    exact ⟨rfl, rfl⟩
  · exact absurd (proper.pid_mem hx) unknown

end Balanced

theorem balanced_opening (config : Config) : (opening config).Balanced :=
  ⟨fun _ hx => absurd hx (Multiset.notMem_zero _), fun _ _ => ⟨rfl, rfl⟩⟩

/-- All processes are booked at every moment of a story that is traced. -/
theorem Steps.balanced {config : Config} (steps : Steps (opening config) s)
    (traced : config.recordTrace = true) (distinct : s.Distinct) (new : s.AllNew) : s.Balanced := by
  refine (steps.invariant_of_change (I := fun s => s.tracing = true ∧ (s.AllNew → s.Balanced))
    (proper_opening config) ⟨traced, fun _ => balanced_opening config⟩ ?_ distinct).2 new
  intro s s' _ proper change ⟨tracing, h⟩
  exact ⟨change.tracing.trans tracing, fun new =>
    (h (new.of_prefix change.arrived)).change tracing proper new change⟩

/-! ## Ends -/

/-- The cycles of a process without traps. Its last one is closed as soon as it has wrapped often
enough. -/
structure Timed (s : Story) (x : Station × Proc) : Prop where
  station : x.1 = .line ∨ x.1 = .cpu ∨ x.1 = .ended
  pc_le : x.2.pc ≤ x.2.maxPc
  ticks : s.cycles.count (some x.2.pid) = x.2.progress
  ended : x.1 = .ended → x.2.wraps = x.2.terminateAfter ∧ x.2.pc = 0
  alive : x.1 ≠ .ended → x.2.wraps < x.2.terminateAfter ∨
    (x.1 = .cpu ∧ s.due = some x.2.pid) ∧ x.2.wraps = x.2.terminateAfter ∧ x.2.pc = 0

/-- All processes without traps that are to end are timed. -/
structure Timely (s : Story) : Prop where
  timed : ∀ x ∈ s.roll, x.2.plan = .none → 0 < x.2.terminateAfter → s.Timed x
  others : ∀ pid ∉ s.arrived.map (·.pid), s.cycles.count (some pid) = 0

namespace Timed

/-- While no cycle is to be closed, a process that has not ended has not wrapped often enough. -/
theorem wraps_lt {x : Station × Proc} (h : s.Timed x) (alive : x.1 ≠ .ended)
    (idle : s.due = none ∨ x.1 ≠ .cpu) : x.2.wraps < x.2.terminateAfter := by
  rcases h.alive alive with lt | ⟨⟨cpu, due⟩, -⟩
  · exact lt
  · rcases idle with none | off
    · rw [none] at due
      cases due
    · exact absurd cpu off

/-- An ended process has had as many cycles as its wraps take, and nobody has had more. -/
theorem ticks_le {x : Station × Proc} (h : s.Timed x) :
    s.cycles.count (some x.2.pid) ≤ x.2.terminateAfter * (x.2.maxPc + 1) ∧
      (x.1 = .ended →
        s.cycles.count (some x.2.pid) = x.2.terminateAfter * (x.2.maxPc + 1)) := by
  have whole : x.2.wraps = x.2.terminateAfter ∧ x.2.pc = 0 →
      s.cycles.count (some x.2.pid) = x.2.terminateAfter * (x.2.maxPc + 1) := by
    rintro ⟨wraps, pc⟩
    rw [h.ticks, Proc.progress, wraps, pc, Nat.add_zero]
  refine ⟨?_, fun ended => whole (h.ended ended)⟩
  by_cases ended : x.1 = .ended
  · exact (whole (h.ended ended)).le
  · rcases h.alive ended with lt | ⟨-, last⟩
    · rw [h.ticks]
      exact (Proc.progress_lt lt h.pc_le).le
    · exact (whole last).le

/-- While no cycle is to be closed, the ended processes are those that have had their cycles. -/
theorem ended_iff {x : Station × Proc} (h : s.Timed x) (idle : s.due = none) :
    x.1 = .ended ↔ s.cycles.count (some x.2.pid) = x.2.terminateAfter * (x.2.maxPc + 1) := by
  refine ⟨h.ticks_le.2, fun all => ?_⟩
  by_contra alive
  have early := Proc.progress_lt (h.wraps_lt alive (.inl idle)) h.pc_le
  rw [← h.ticks] at early
  exact early.ne all

theorem of_passes {x x' : Station × Proc} {e : Event} {due' : Option Pid} {mark : Mark}
    (h : s.Timed x) (passes : Passes s.due x e x' due') (planless : x.2.plan = .none)
    (gains : Gains s s' x.2.pid [mark] 0) : s'.Timed x' := by
  have untrapped : ∀ {p : Proc} {pairs t}, p.plan = .none →
      p.trapAt p.pc pairs ≠ .ok (some t) := by
    intro p pairs t plan trap
    rw [Proc.trapAt, plan] at trap
    cases trap
  have station := h.station
  generalize before : s.due = due at passes
  cases passes with
  | expire p priority =>
    have lt := h.wraps_lt nofun (.inl before)
    exact ⟨.inl rfl, h.pc_le, gains.ticks.trans h.ticks, nofun, fun _ => .inl lt⟩
  | request countdown trap => exact absurd trap (untrapped planless)
  | complete => simp at station
  | block lock holder trap => exact absurd trap (untrapped planless)
  | wait trap => exact absurd trap (untrapped planless)
  | signal => simp at station
  | terminate done =>
    have enough := (Proc.shouldTerminate_iff _).1 done
    refine ⟨.inr (.inr rfl), h.pc_le, gains.ticks.trans h.ticks, fun _ => ?_, nofun⟩
    rcases h.alive nofun with lt | ⟨-, last⟩
    · exact absurd enough.2 (Nat.not_le_of_lt lt)
    · exact last

end Timed

namespace Timely

theorem timed_of_fate (h : s.Timely) (new : s'.AllNew) {x : Station × Proc} (fate : Fate s s' x)
    (planless : x.2.plan = .none) (ends : 0 < x.2.terminateAfter) : s'.Timed x := by
  cases fate with
  | stay mem gains unclosed =>
    have before := h.timed x mem planless ends
    refine ⟨before.station, before.pc_le, gains.ticks.trans before.ticks, before.ended,
      fun alive => ?_⟩
    rcases before.alive alive with lt | ⟨⟨cpu, due⟩, last⟩
    · exact .inl lt
    · rcases unclosed cpu due with still | goesOn
      · exact .inr ⟨⟨cpu, still⟩, last⟩
      · have enough := (Proc.shouldTerminate_iff x.2).2 ⟨ends, last.1.ge⟩
        rw [goesOn] at enough
        cases enough
  | @arrive p q mem outline pc wraps unknown gains =>
    obtain ⟨start, unwrapped, progress⟩ := new.start mem pc wraps
    refine ⟨.inl rfl, start.trans_le (Nat.zero_le _), ?_, nofun,
      fun _ => .inl (unwrapped.trans_lt ends)⟩
    rw [progress, Proc.pid_core, gains.ticks, h.others q.pid unknown]
  | @pass y _ e mark mem passes tells gains =>
    have outline := passes.outline_eq
    have plan : y.2.plan = x.2.plan :=
      Proc.plan_eq_of_outline_eq outline.symm fun _ _ bound => by simp [planless] at bound
    have same : x.2.terminateAfter = y.2.terminateAfter := by
      rw [← x.2.terminateAfter_outline, outline, y.2.terminateAfter_outline]
    exact (h.timed y mem (plan.trans planless) (same ▸ ends)).of_passes passes
      (plan.trans planless) gains
  | @dispatch p mem gains =>
    have before := h.timed (.line, p) mem planless ends
    have lt := before.wraps_lt nofun (.inr nofun)
    exact ⟨.inr (.inl rfl), before.pc_le, gains.ticks.trans before.ticks, nofun, fun _ => .inl lt⟩
  | @wake p mem gains =>
    have station := (h.timed (.lock, p) mem planless ends).station
    simp at station
  | @tick p p' mem advances idle due gains =>
    have plan : p'.plan = p.plan := advances.plan_eq
    have same : p'.terminateAfter = p.terminateAfter := advances.terminateAfter_eq
    have before := h.timed (.cpu, p) mem (plan ▸ planless) (same ▸ ends)
    have lt : p.wraps < p.terminateAfter := before.wraps_lt nofun (.inl idle)
    have ticks : s.cycles.count (some p.pid) = p.progress := before.ticks
    refine ⟨.inr (.inl rfl), advances.pc_le, ?_, nofun, fun _ => ?_⟩
    · simp only [advances.pid_eq]
      rw [gains.ticks, ticks]
      exact (advances.progress_eq before.pc_le).symm
    · cases advances with
      | step => exact .inl lt
      | wrap => exact (Nat.lt_or_eq_of_le lt).imp id fun last => ⟨⟨rfl, due⟩, last, rfl⟩

theorem change (h : s.Timely) (proper : s'.Proper) (new : s'.AllNew) (change : Change s s') :
    s'.Timely := by
  refine ⟨fun x hx => h.timed_of_fate new (change.fate x hx), fun pid unknown => ?_⟩
  rcases change.others pid with gains | ⟨x, hx, rfl⟩
  · rw [gains.ticks]
    exact h.others pid fun known => unknown ((change.arrived.map _).subset known)
  · exact absurd (proper.pid_mem hx) unknown

end Timely

theorem timely_opening (config : Config) : (opening config).Timely :=
  ⟨fun _ hx => absurd hx (Multiset.notMem_zero _), fun _ _ => rfl⟩

/-- All processes that are to end are timed at every moment of a story. -/
theorem Steps.timely {config : Config} (steps : Steps (opening config) s)
    (distinct : s.Distinct) (new : s.AllNew) : s.Timely := by
  refine steps.invariant_of_change (I := fun s => s.AllNew → s.Timely) (proper_opening config)
    (fun _ => timely_opening config) ?_ distinct new
  intro s s' _ proper change h new
  exact (h (new.of_prefix change.arrived)).change proper new change

end Story
end Mlfq
