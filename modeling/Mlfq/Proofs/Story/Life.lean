import Mathlib.Computability.RegularExpressions
import Mlfq.Proofs.Run.Command
import Mlfq.Proofs.Story.Fate
import Mlfq.Proofs.Workload.Library

/-! # The trace is a schedule

The CPU is given to one process at a time: in the trace every dispatch is followed by the departure
of the same process before the next. What happens to one process follows a regular expression. -/

namespace Mlfq

open Queue (cores)

/-! ## Turns -/

/-- What happens to the CPU. -/
inductive Turn where
  | enters (pid : Pid)
  | leaves (pid : Pid)
  deriving DecidableEq

/-- A process enters the CPU with its dispatch, and leaves it in five ways. -/
def Mark.turn? : Mark → Option (Pid → Turn)
  | .dispatched => some .enters
  | .expired | .requested | .blocked | .waited | .terminated => some .leaves
  | .admitted | .completed | .woken => none

namespace Event

/-- The change of the running process that an event tells. -/
def turn? (e : Event) : Option Turn := e.mark?.bind fun (pid, mark) => mark.turn?.map (· pid)

end Event

/-- The changes of the running process, oldest first. -/
def turns (events : List Event) : List Turn := events.filterMap Event.turn?

@[simp] theorem turns_append (as bs : List Event) : turns (as ++ bs) = turns as ++ turns bs :=
  List.filterMap_append ..

theorem turns_one {e : Event} {t : Turn} (h : e.turn? = some t) : turns [e] = [t] := by
  simp [turns, h]

theorem turns_silent {es : List Event} (h : ∀ e ∈ es, e.turn? = none) : turns es = [] :=
  List.filterMap_eq_nil_iff.2 h

theorem Event.turn?_of_mark? {e : Event} (h : e.mark? = none) : e.turn? = none := by
  rw [turn?, h, Option.bind_none]

/-- A process enters the CPU and leaves it. -/
def Turn.visit (pid : Pid) : List Turn := [.enters pid, .leaves pid]

/-! ## Lives -/

open RegularExpression (char star)

/-- The visits to the CPU after which a process becomes ready again. -/
def Mark.round : RegularExpression Mark :=
  char Mark.dispatched * (char Mark.expired + char Mark.requested * char Mark.completed +
    char Mark.blocked + char Mark.waited * char Mark.woken)

/-- The life of a process from its admission to its end. -/
def Mark.lifecycle : RegularExpression Mark :=
  char Mark.admitted * star Mark.round * char Mark.dispatched * char Mark.terminated

/-- The trace of a schedule in which `running` has the CPU. -/
structure WellFormed (events : List Event) (running : Option Pid) : Prop where
  /-- One process after the other enters the CPU and leaves it. The last may still be there. -/
  turns : ∃ visits : List Pid,
    turns events = visits.flatMap Turn.visit ++ running.toList.map .enters
  /-- What has happened to a process is the beginning of a life. -/
  life : ∀ pid, ∃ w ∈ Mark.lifecycle.matches', marks pid events <+: w

/-- What has happened to a process at a station since it was ready. -/
def Station.recent : Station → List Mark
  | .line | .lock => []
  | .cpu => [.dispatched]
  | .device => [.dispatched, .requested]
  | .condition => [.dispatched, .waited]
  | .ended => [.dispatched, .terminated]

/-- What has happened to a process while it was not at a station on its way. -/
def Mark.rounds : RegularExpression Mark := char Mark.admitted * star Mark.round

/-- A process to which `w` has happened can be at station `st`. -/
def Station.Lived (st : Station) (w : List Mark) : Prop :=
  ∃ v ∈ Mark.rounds.matches', w = v ++ st.recent

namespace Station.Lived

open RegularExpression

theorem admitted : Lived .line [.admitted] := by
  refine ⟨[.admitted], ?_, (List.append_nil _).symm⟩
  rw [Mark.rounds, matches'_mul, matches'_star]
  exact Language.mem_mul.2 ⟨[.admitted], rfl, [], Language.nil_mem_kstar _, rfl⟩

/-- After a round comes the next. -/
theorem mem_rounds {v r : List Mark} (hv : v ∈ Mark.rounds.matches')
    (hr : r ∈ Mark.round.matches') : v ++ r ∈ Mark.rounds.matches' := by
  rw [Mark.rounds, matches'_mul, matches'_star] at hv ⊢
  obtain ⟨a, ha, b, hb, rfl⟩ := Language.mem_mul.1 hv
  obtain ⟨rounds, rfl, each⟩ := Language.mem_kstar.1 hb
  have more : rounds.flatten ++ r ∈ KStar.kstar Mark.round.matches' := by
    refine Language.mem_kstar.2 ⟨rounds ++ [r], by simp, fun y hy => ?_⟩
    rcases List.mem_append.1 hy with old | new
    · exact each y old
    · rwa [List.mem_singleton.1 new]
  rw [List.append_assoc]
  exact Language.mem_mul.2 ⟨a, ha, _, more, rfl⟩

/-- After the last round comes the end. -/
theorem mem_lifecycle {v : List Mark} (hv : v ∈ Mark.rounds.matches') :
    v ++ [.dispatched, .terminated] ∈ Mark.lifecycle.matches' := by
  rw [Mark.lifecycle, matches'_mul, matches'_mul]
  refine Language.mem_mul.2 ⟨v ++ [.dispatched], ?_, [.terminated], rfl, List.append_assoc ..⟩
  exact Language.mem_mul.2 ⟨v, hv, [.dispatched], rfl, rfl⟩

variable {st st' : Station} {w : List Mark}

/-- A round ends at a station where the process waits for the CPU or for a lock. -/
theorem round (h : st.Lived w) {mark : Mark} (whole : st.recent ++ [mark] ∈ Mark.round.matches')
    (complete : st'.recent = []) : st'.Lived (w ++ [mark]) := by
  obtain ⟨v, hv, rfl⟩ := h
  refine ⟨v ++ (st.recent ++ [mark]), mem_rounds hv whole, ?_⟩
  rw [complete, List.append_nil, List.append_assoc]

/-- A round goes on at the next station. -/
theorem go (h : st.Lived w) {mark : Mark} (recent : st'.recent = st.recent ++ [mark]) :
    st'.Lived (w ++ [mark]) := by
  obtain ⟨v, hv, rfl⟩ := h
  exact ⟨v, hv, by rw [recent, List.append_assoc]⟩

/-- Who is woken on a lock has done nothing since it was parked. -/
theorem wake (h : Lived .lock w) : Lived .line w := h

/-- From every station a process can come to its end. -/
theorem exists_lifecycle (h : st.Lived w) : ∃ w' ∈ Mark.lifecycle.matches', w <+: w' := by
  obtain ⟨v, hv, rfl⟩ := h
  have end_of_round : ∀ mark, st.recent ++ [mark] ∈ Mark.round.matches' →
      ∃ w' ∈ Mark.lifecycle.matches', v ++ st.recent <+: w' := by
    intro mark whole
    refine ⟨_, mem_lifecycle (mem_rounds hv whole), ?_⟩
    exact ⟨[mark] ++ [.dispatched, .terminated], by simp only [List.append_assoc]⟩
  cases st with
  | line | lock => exact ⟨_, mem_lifecycle hv, [.dispatched, .terminated], by simp [recent]⟩
  | cpu => exact ⟨_, mem_lifecycle hv, [.terminated], by simp [recent]⟩
  | ended => exact ⟨_, mem_lifecycle hv, List.prefix_rfl⟩
  | device => exact end_of_round .completed (by decide)
  | condition => exact end_of_round .woken (by decide)

end Station.Lived

namespace Story

variable {s s' : Story}

/-- What is written down fits where everybody is. -/
structure Told (s : Story) : Prop where
  stations : ∀ x ∈ s.roll, x.1.Lived (marks x.2.pid s.events)
  /-- Nothing has happened to those who have not arrived. -/
  others : ∀ pid ∉ s.arrived.map (·.pid), marks pid s.events = []
  life : ∀ pid, ∃ w ∈ Mark.lifecycle.matches', marks pid s.events <+: w

namespace Told

/-- What a process does next fits what it has done. -/
theorem lived_of_passes {due due' : Option Pid} {x x' : Station × Proc} {e : Event} {mark : Mark}
    (h : Passes due x e x' due') (tells : e.mark? = some (x.2.pid, mark)) {w : List Mark}
    (lived : x.1.Lived w) : x'.1.Lived (w ++ [mark]) := by
  cases h <;> cases tells <;> dsimp only at lived ⊢
  case expire | complete | block | signal => exact lived.round (by decide) rfl
  case request | wait | terminate => exact lived.go rfl

theorem lived_of_fate (h : s.Told) (tracing : s.tracing = true) {x : Station × Proc}
    (fate : Fate s s' x) :
    x.1.Lived (marks x.2.pid s'.events) := by
  cases fate with
  | stay mem gains =>
    rw [gains.marks tracing, List.append_nil]
    exact h.stations _ mem
  | @arrive p q mem outline pc wraps new gains =>
    have own : marks q.pid s'.events = [.admitted] := by
      rw [gains.marks tracing, h.others q.pid new]
      rfl
    rw [Proc.pid_core, own]
    exact Station.Lived.admitted
  | pass mem passes tells gains =>
    rw [passes.pid_eq, gains.marks tracing]
    exact lived_of_passes passes tells (h.stations _ mem)
  | dispatch mem gains =>
    rw [gains.marks tracing]
    exact (h.stations _ mem).go rfl
  | wake mem gains =>
    rw [gains.marks tracing, List.append_nil]
    exact Station.Lived.wake (h.stations _ mem)
  | tick mem advances idle due gains =>
    rw [advances.pid_eq, gains.marks tracing, List.append_nil]
    exact h.stations _ mem

theorem change (h : s.Told) (tracing : s.tracing = true) (proper : s'.Proper)
    (change : Change s s') : s'.Told := by
  have lived : ∀ x ∈ s'.roll, x.1.Lived (marks x.2.pid s'.events) :=
    fun x hx => h.lived_of_fate tracing (change.fate x hx)
  refine ⟨lived, fun pid unknown => ?_, fun pid => ?_⟩
  · rcases change.others pid with gains | ⟨x, hx, rfl⟩
    · rw [gains.marks tracing, List.append_nil]
      exact h.others pid fun known => unknown ((change.arrived.map _).subset known)
    · exact absurd (proper.pid_mem hx) unknown
  · rcases change.others pid with gains | ⟨x, hx, rfl⟩
    · rw [gains.marks tracing, List.append_nil]
      exact h.life pid
    · exact (lived x hx).exists_lifecycle

end Told

theorem told_opening (config : Config) : (opening config).Told := by
  refine ⟨fun x hx => absurd hx (Multiset.notMem_zero x), fun _ _ => rfl, fun pid => ?_⟩
  exact ⟨_, Station.Lived.mem_lifecycle (v := [.admitted]) (by decide), List.nil_prefix⟩

/-! ## The CPU -/

/-- Who has the CPU. -/
def onCpu (s : Story) : Multiset Pid := (s.roll.filter (·.1 = .cpu)).map (·.2.pid)

theorem onCpu_cons {x : Station × Proc} {rest : Multiset (Station × Proc)}
    (h : s.roll = x ::ₘ rest) :
    s.onCpu = (if x.1 = .cpu then {x.2.pid} else 0) +
      (rest.filter (·.1 = .cpu)).map (·.2.pid) := by
  by_cases cpu : x.1 = .cpu
  · simp [onCpu, h, cpu]
  · simp [onCpu, h, cpu]

theorem filter_eq_zero {ps : Multiset (Station × Proc)} (idle : ∀ q, (.cpu, q) ∉ ps) :
    ps.filter (·.1 = .cpu) = 0 := by
  rw [Multiset.filter_eq_nil]
  rintro ⟨st, q⟩ hq rfl
  exact idle q hq

theorem onCpu_story {σ : Type} (m : Machine σ) (arrived : List Proc) (dropped : Queue)
    (cycles : List (Option Pid)) (due : Option Pid) :
    (m.story arrived dropped cycles due).onCpu = (m.runningPid?.toList : Multiset Pid) := by
  cases running : m.running with
  | none =>
    have idle := filter_eq_zero (notMem_roll_of_idle dropped running)
    rw [onCpu, Machine.story, idle, Machine.runningPid?, running]
    rfl
  | some p =>
    have idle : ∀ q, (.cpu, q) ∉ Station.roll m.queued 0 (onDevices m.devices)
        (onLocks m.locks m.channels) (onConditions m.channels)
        (cores m.zombies + cores dropped) := by
      intro q
      rw [Station.mem_roll]
      exact Multiset.notMem_zero q
    rw [onCpu_cons (s := m.story arrived dropped cycles due) (roll_of_running dropped running),
      if_pos rfl, filter_eq_zero idle, Multiset.map_zero, add_zero, Machine.runningPid?, running]
    rfl

/-- The processes that have left the CPU and the one that may be on it come one after the other. -/
def Visited (s : Story) : Prop :=
  ∃ (visits : List Pid) (current : Option Pid), s.onCpu = (current.toList : Multiset Pid) ∧
    turns s.events = visits.flatMap Turn.visit ++ current.toList.map .enters

namespace Visited

theorem keep (h : s.Visited) (cpu : s'.onCpu = s.onCpu) (same : turns s'.events = turns s.events) :
    s'.Visited := by
  rw [Visited, cpu, same]
  exact h

theorem silent (h : s.Visited) {e : Event} (cpu : s'.onCpu = s.onCpu)
    (events : s'.events = s.events ++ [e]) (turn : e.turn? = none) : s'.Visited := by
  have none : turns [e] = [] := turns_silent (by simpa using turn)
  refine h.keep cpu ?_
  rw [events, turns_append, none, List.append_nil]

/-- A process that goes past the CPU does not change who has it. -/
theorem onCpu_pass {x y : Station × Proc} {rest : Multiset (Station × Proc)}
    (here : s.roll = x ::ₘ rest) (there : s'.roll = y ::ₘ rest) (off : x.1 ≠ .cpu)
    (gone : y.1 ≠ .cpu) : s'.onCpu = s.onCpu := by
  rw [onCpu_cons here, onCpu_cons there, if_neg off, if_neg gone]

/-- The running process leaves the CPU. -/
theorem leave (h : s.Visited) {x x' : Station × Proc} {rest : Multiset (Station × Proc)}
    {e : Event} (here : s.roll = x ::ₘ rest) (there : s'.roll = x' ::ₘ rest)
    (events : s'.events = s.events ++ [e]) (on : x.1 = .cpu) (off : x'.1 ≠ .cpu)
    (turn : e.turn? = some (.leaves x.2.pid)) : s'.Visited := by
  obtain ⟨visits, current, own, visited⟩ := h
  rw [onCpu_cons here, if_pos on, Multiset.singleton_add] at own
  have nobody := onCpu_cons there
  rw [if_neg off, zero_add] at nobody
  cases current with
  | none => exact absurd own Multiset.cons_ne_zero
  | some pid =>
    obtain ⟨rfl, alone⟩ := (Multiset.singleton_eq_cons_iff _).1 own.symm
    refine ⟨visits ++ [x.2.pid], none, nobody.trans alone, ?_⟩
    rw [events, turns_append, visited, turns_one turn]
    simp [Turn.visit]

/-- A process enters the CPU while nobody has it. -/
theorem enter (h : s.Visited) {x y : Station × Proc} {rest : Multiset (Station × Proc)}
    {e : Event} (here : s.roll = x ::ₘ rest) (there : s'.roll = y ::ₘ rest)
    (events : s'.events = s.events ++ [e]) (off : x.1 ≠ .cpu) (on : y.1 = .cpu)
    (idle : ∀ q, (.cpu, q) ∉ rest) (turn : e.turn? = some (.enters y.2.pid)) : s'.Visited := by
  obtain ⟨visits, current, own, visited⟩ := h
  have alone := filter_eq_zero idle
  rw [onCpu_cons here, if_neg off, alone, zero_add, Multiset.map_zero] at own
  cases current with
  | some pid => exact absurd own.symm (Multiset.singleton_ne_zero pid)
  | none =>
    refine ⟨visits, some y.2.pid, ?_, ?_⟩
    · rw [onCpu_cons there, if_pos on, alone, Multiset.map_zero, add_zero]
      rfl
    · rw [events, turns_append, visited, turns_one turn]
      simp

/-- Every way from the CPU is a departure, and nothing else is. -/
theorem turn_cases {due due' : Option Pid} {x x' : Station × Proc} {e : Event}
    (h : Passes due x e x' due') :
    x.1 = .cpu ∧ e.turn? = some (.leaves x.2.pid) ∨ x.1 ≠ .cpu ∧ e.turn? = none := by
  cases h with
  | complete | signal => exact .inr ⟨by simp, rfl⟩
  | expire | request | block | wait | terminate => exact .inl ⟨rfl, rfl⟩

theorem act (h : s.Visited) (tracing : s.tracing = true) (act : Act s s') : s'.Visited := by
  cases act with
  | note mark pair => exact h.silent rfl (events_tell tracing _) (Event.turn?_of_mark? mark)
  | @arrive p q outline pc wraps =>
    exact h.silent ((onCpu_cons rfl).trans (zero_add _)) (events_tell tracing _) rfl
  | @pass x x' e due rest here passes =>
    have gone := passes.station_ne_cpu
    rcases turn_cases passes with ⟨on, turn⟩ | ⟨off, turn⟩
    · exact h.leave here rfl (events_tell tracing e) on gone turn
    · exact h.silent (onCpu_pass here rfl off gone) (events_tell tracing e) turn
  | @dispatch p rest priority here idle due =>
    exact h.enter (y := (.cpu, p)) here rfl (events_tell tracing _) (by simp) rfl idle rfl
  | @wake p rest here =>
    exact h.keep (onCpu_pass (y := (.line, p)) here rfl (by simp) (by simp)) rfl
  | @lose x rest here parked =>
    have off : x.1 ≠ .cpu := by
      rcases parked with lock | condition
      · simp [lock]
      · simp [condition]
    refine h.keep ?_ rfl
    rw [onCpu_cons here, if_neg off, zero_add]
    rfl

theorem settle (h : s.Visited) (settle : Settle s s') : s'.Visited := by
  obtain ⟨due, rfl⟩ := settle.exists_due
  exact h.keep rfl rfl

theorem begins (h : s.Visited) (begins : Begin s s') : s'.Visited := by
  have scanned : ∀ (s : Story) pairs locks,
      turns (s.scanIfDue pairs locks).events = turns s.events := by
    intro s pairs locks
    obtain ⟨es, silent, events⟩ := exists_events_scanIfDue s pairs locks
    rw [events, turns_append, turns_silent fun e he => Event.turn?_of_mark? (silent e he),
      List.append_nil]
  cases begins with
  | idle => exact h.keep (by rw [onCpu, onCpu, roll_scanIfDue]) (scanned ..)
  | @tick p p' rest pairs locks here advances due =>
    refine h.keep ?_ (scanned ..)
    rw [onCpu_cons here, onCpu_cons (x := (.cpu, p')) (roll_scanIfDue ..)]
    simp only [advances.pid_eq]

end Visited

theorem visited_opening (config : Config) : (opening config).Visited := ⟨[], none, rfl, rfl⟩

end Story

/-- The trace of every run is a schedule, provided that all processes have different numbers. -/
theorem wellFormed_of_reachable {σ : Type} [Workload σ] {config : Config} {workload : σ}
    {logLevel : Option Level} {mo : Moment σ}
    (reachable : Moment.Reachable (.start config workload logLevel) mo)
    (traced : config.recordTrace = true) (distinct : Arrival.Distinct mo.ledger.arrived) :
    WellFormed mo.ledger.machine.journal.trace.events mo.ledger.machine.runningPid? := by
  obtain ⟨cycles, chronicle⟩ := Chronicle.exists_reachable reachable
  have steps := Story.steps_of_reachable chronicle
  have different := Story.distinct_story (c := ⟨mo, cycles⟩) distinct
  obtain ⟨-, told⟩ := steps.invariant_of_change (I := fun s => s.tracing = true ∧ s.Told)
    (Story.proper_opening config) ⟨traced, Story.told_opening config⟩
    (fun _ proper change h => ⟨change.tracing.trans h.1, h.2.change h.1 proper change⟩) different
  obtain ⟨-, visits, current, cpu, turns⟩ := steps.invariant
    (I := fun s => s.tracing = true ∧ s.Visited) (Story.proper_opening config)
    ⟨traced, Story.visited_opening config⟩
    (fun _ _ act h => ⟨act.frame.tracing.trans h.1, h.2.act h.1 act⟩)
    (fun _ settle h => ⟨(Story.Settle.frame (.single settle)).tracing.trans h.1, h.2.settle settle⟩)
    (fun _ _ begins h => ⟨begins.tracing.trans h.1, h.2.begins begins⟩) different
  have own : (current.toList : Multiset Pid) = mo.ledger.machine.runningPid?.toList :=
    cpu.symm.trans (Story.onCpu_story ..)
  have same : current.toList = mo.ledger.machine.runningPid?.toList := by
    cases current with
    | none => exact (List.nil_perm.1 (Multiset.coe_eq_coe.1 own)).symm
    | some pid => exact List.singleton_perm.1 (Multiset.coe_eq_coe.1 own)
  rw [same] at turns
  exact ⟨⟨visits, turns⟩, told.life⟩

/-- A run in which one process has waited for a device and another has ended. The timer fires at a
checkpoint on the way. -/
theorem wellFormed_of_reachable_ended : ∃ mo : Moment ScriptedWorkload,
    Moment.Reachable (.start {} ⟨[[.io 9 2 [[3]], .compute 1 1]]⟩ none) mo ∧
    WellFormed mo.ledger.machine.journal.trace.events mo.ledger.machine.runningPid? ∧
    marks ⟨0⟩ mo.ledger.machine.journal.trace.events =
      [.admitted, .dispatched, .requested, .completed, .dispatched] ∧
    marks ⟨1⟩ mo.ledger.machine.journal.trace.events = [.admitted, .dispatched, .terminated] := by
  have run : ((Machine.start {}
      (⟨[[.io 9 2 [[3]], .compute 1 1]]⟩ : ScriptedWorkload) none).performAll
        [.boot, .tick [], .tick [], .tick [], .tick [[.timer]], .tick [], .ioInterrupt ⟨0⟩ [],
          .tick []]).toOption.any
      (fun m => marks ⟨0⟩ m.journal.trace.events =
          [.admitted, .dispatched, .requested, .completed, .dispatched] &&
        marks ⟨1⟩ m.journal.trace.events = [.admitted, .dispatched, .terminated]) = true := by
    decide +kernel
  obtain ⟨mo, reachable, -, lives⟩ := Moment.exists_reachable_of_performAll run
  obtain ⟨-, distinct⟩ := Moment.distinct_of_library reachable
  rw [Bool.and_eq_true, decide_eq_true_eq, decide_eq_true_eq] at lives
  exact ⟨mo, reachable, wellFormed_of_reachable reachable rfl distinct, lives⟩

end Mlfq
