import Mlfq.Proofs.Run.Chronicle
import Mlfq.Proofs.Scene.Core

/-! # The story of a run

A scene shows where processes can be found, but not whether a free process runs, and not what is
written down about it. The story of a run keeps both: a roll of all records, each with the station
it is at, and the events in the trace. `Story.Act` and `Story.Begin` say once what can happen. -/

namespace Mlfq

/-! ## What an event tells -/

/-- What happens to one process. -/
inductive Mark where
  | admitted
  | dispatched
  /-- The quantum of the process has ended. -/
  | expired
  /-- The process was parked on a device. -/
  | requested
  | completed
  /-- The process was parked on a lock. -/
  | blocked
  /-- The process was parked on a condition. -/
  | waited
  /-- The process was woken by a signal. -/
  | woken
  | terminated
  deriving DecidableEq

namespace Event

/-- The process whose life an event is part of, and what happens to it. A signal is part of the life
of the process that it wakes. -/
def mark? : Event → Option (Pid × Mark)
  | .admitted pid _ => some (pid, .admitted)
  | .dispatched pid _ _ => some (pid, .dispatched)
  | .quantumExpired pid _ => some (pid, .expired)
  | .ioTrap pid _ _ => some (pid, .requested)
  | .ioCompleted pid _ => some (pid, .completed)
  | .lockBlocked pid _ _ => some (pid, .blocked)
  | .condWait pid _ => some (pid, .waited)
  | .condSignal _ _ woken => woken.map fun pid => (pid, .woken)
  | .terminated pid _ => some (pid, .terminated)
  | _ => none

/-- The mutex pair that an event reports, by its left and its right member. -/
def pair? : Event → Option (Pid × Pid)
  | .deadlockDetected p1 p2 _ _ => some (p1, p2)
  | _ => none

end Event

/-- The event that reports a deadlock, which it does when it is first seen. -/
def Deadlock.news? (d : Deadlock) : Option Event :=
  if d.firstSeen then some (.deadlockDetected d.p1 d.p2 d.heldByP1 d.heldByP2) else none

/-- What has happened to process `pid`, oldest first. -/
def marks (pid : Pid) (events : List Event) : List Mark :=
  events.filterMap fun e => (e.mark?.filter fun x => x.1 = pid).map (·.2)

@[simp] theorem marks_append (pid : Pid) (as bs : List Event) :
    marks pid (as ++ bs) = marks pid as ++ marks pid bs := List.filterMap_append ..

theorem marks_self {pid : Pid} {mark : Mark} {e : Event} (h : e.mark? = some (pid, mark)) :
    marks pid [e] = [mark] := by
  simp [marks, h]

theorem marks_other {pid other : Pid} {mark : Mark} {e : Event} (h : e.mark? = some (other, mark))
    (ne : other ≠ pid) : marks pid [e] = [] := by
  simp [marks, h, ne]

theorem marks_silent (pid : Pid) {e : Event} (h : e.mark? = none) : marks pid [e] = [] := by
  simp [marks, h]

/-- Whether a trap asks for a lock, on which the process may be parked. -/
def Trap.asksLock : Trap → Bool
  | .lock _ | .rendezvousAcquire _ => true
  | _ => false

/-! ## Stations -/

/-- Where a process stands in its life. -/
inductive Station where
  /-- New or ready. -/
  | line
  | cpu
  | device
  /-- Parked on a lock. -/
  | lock
  /-- Parked on a condition. -/
  | condition
  /-- Ended, whether it was dropped or not. -/
  | ended
  deriving DecidableEq

/-- Records that are all at one station. -/
def Station.all (st : Station) (ps : Multiset Proc) : Multiset (Station × Proc) := ps.map (st, ·)

/-- The roll of all records, station by station. -/
def Station.roll (line cpu device lock condition ended : Multiset Proc) :
    Multiset (Station × Proc) :=
  Station.line.all line + Station.cpu.all cpu + Station.device.all device +
    Station.lock.all lock + Station.condition.all condition + Station.ended.all ended

namespace Station

variable (p : Proc) (line cpu device lock condition ended : Multiset Proc)

theorem cons_line : roll (p ::ₘ line) cpu device lock condition ended =
    (.line, p) ::ₘ roll line cpu device lock condition ended := by
  simp [roll, all]

theorem cons_cpu : roll line (p ::ₘ cpu) device lock condition ended =
    (.cpu, p) ::ₘ roll line cpu device lock condition ended := by
  simp [roll, all]

theorem cons_device : roll line cpu (p ::ₘ device) lock condition ended =
    (.device, p) ::ₘ roll line cpu device lock condition ended := by
  simp [roll, all]

theorem cons_lock : roll line cpu device (p ::ₘ lock) condition ended =
    (.lock, p) ::ₘ roll line cpu device lock condition ended := by
  simp [roll, all]

theorem cons_condition : roll line cpu device lock (p ::ₘ condition) ended =
    (.condition, p) ::ₘ roll line cpu device lock condition ended := by
  simp [roll, all]

theorem cons_ended : roll line cpu device lock condition (p ::ₘ ended) =
    (.ended, p) ::ₘ roll line cpu device lock condition ended := by
  simp [roll, all]

variable {p line cpu device lock condition ended}

/-- Who is at a station is among its records. -/
theorem mem_roll {st : Station} : (st, p) ∈ roll line cpu device lock condition ended ↔
    p ∈ match st with
      | .line => line
      | .cpu => cpu
      | .device => device
      | .lock => lock
      | .condition => condition
      | .ended => ended := by
  cases st <;> simp [roll, all]

end Station

/-! ## Stories -/

/-- What a run has been so far. -/
structure Story where
  roll : Multiset (Station × Proc)
  /-- Everybody who has arrived. -/
  arrived : List Proc
  /-- Whether events are written down. -/
  tracing : Bool
  events : List Event
  monitor : DeadlockMonitor
  scanInterval : Nat
  sinceScan : Nat
  dispatches : Nat
  /-- The number of cycles begun. -/
  iteration : Nat
  /-- Who was running at the beginning of each cycle. -/
  cycles : List (Option Pid)
  /-- The process whose cycle is to be closed now, if one is. -/
  due : Option Pid

namespace Story

/-- Writes events down. -/
def tellAll (s : Story) (es : List Event) : Story :=
  { s with events := if s.tracing then s.events ++ es else s.events }

/-- Writes an event down. -/
def tell (s : Story) (e : Event) : Story := s.tellAll [e]

theorem tellAll_nil (s : Story) : s.tellAll [] = s := by
  rw [tellAll, List.append_nil, ite_self]

theorem tellAll_append (s : Story) (as bs : List Event) :
    (s.tellAll as).tellAll bs = s.tellAll (as ++ bs) := by
  unfold tellAll
  by_cases tracing : s.tracing = true
  · simp only [if_pos tracing, List.append_assoc]
  · simp only [if_neg tracing]

/-- Scans if enough has happened since the last scan, and writes down what is found for the first
time. -/
def scanIfDue (s : Story) (pairs : MutexPairs) (locks : LockTable) : Story :=
  if s.scanInterval ≤ s.sinceScan then
    { s with sinceScan := 0, monitor := (s.monitor.scan pairs locks).2 }.tellAll
      ((s.monitor.scan pairs locks).1.filterMap Deadlock.news?)
  else s

section ScanIfDue

variable (s : Story) (pairs : MutexPairs) (locks : LockTable)

@[simp] theorem roll_scanIfDue : (s.scanIfDue pairs locks).roll = s.roll := by
  unfold scanIfDue; split <;> rfl
@[simp] theorem arrived_scanIfDue : (s.scanIfDue pairs locks).arrived = s.arrived := by
  unfold scanIfDue; split <;> rfl
@[simp] theorem tracing_scanIfDue : (s.scanIfDue pairs locks).tracing = s.tracing := by
  unfold scanIfDue; split <;> rfl
@[simp] theorem scanInterval_scanIfDue :
    (s.scanIfDue pairs locks).scanInterval = s.scanInterval := by
  unfold scanIfDue; split <;> rfl
@[simp] theorem dispatches_scanIfDue : (s.scanIfDue pairs locks).dispatches = s.dispatches := by
  unfold scanIfDue; split <;> rfl
@[simp] theorem iteration_scanIfDue : (s.scanIfDue pairs locks).iteration = s.iteration := by
  unfold scanIfDue; split <;> rfl
@[simp] theorem cycles_scanIfDue : (s.scanIfDue pairs locks).cycles = s.cycles := by
  unfold scanIfDue; split <;> rfl
@[simp] theorem due_scanIfDue : (s.scanIfDue pairs locks).due = s.due := by
  unfold scanIfDue; split <;> rfl

/-- A report is no part of the life of a process. -/
theorem exists_events_scanIfDue : ∃ es, (∀ e ∈ es, e.mark? = none) ∧
    (s.scanIfDue pairs locks).events = s.events ++ es := by
  unfold scanIfDue
  split
  · by_cases tracing : s.tracing = true
    · refine ⟨(s.monitor.scan pairs locks).1.filterMap Deadlock.news?, ?_, if_pos tracing⟩
      intro e he
      obtain ⟨d, -, news⟩ := List.mem_filterMap.1 he
      unfold Deadlock.news? at news
      split at news <;> cases news
      rfl
    · exact ⟨[], by simp, (if_neg tracing).trans (List.append_nil _).symm⟩
  · exact ⟨[], by simp, (List.append_nil _).symm⟩

@[simp] theorem marks_scanIfDue (pid : Pid) :
    marks pid (s.scanIfDue pairs locks).events = marks pid s.events := by
  obtain ⟨es, silent, events⟩ := exists_events_scanIfDue s pairs locks
  have none : marks pid es = [] := by
    rw [marks, List.filterMap_eq_nil_iff]
    intro e he
    rw [silent e he]
    rfl
  rw [events, marks_append, none, List.append_nil]

end ScanIfDue

/-- How a process goes from one station to another with an event that tells it. Before and after
stands the process whose cycle is to be closed. -/
inductive Passes : Option Pid → Station × Proc → Event → Station × Proc → Option Pid → Prop
  | expire (p : Proc) (priority : Priority) :
    Passes none (.cpu, p) (.quantumExpired p.pid priority) (.line, p) none
  | request {p : Proc} {pairs : MutexPairs} {d : DeviceId} (countdown : Nat)
    (trap : p.trapAt p.pc pairs = .ok (some (.io d))) :
    Passes (some p.pid) (.cpu, p) (.ioTrap p.pid d countdown) (.device, p) none
  | complete (p : Proc) (d : DeviceId) :
    Passes none (.device, p) (.ioCompleted p.pid d) (.line, { p with pc := p.pc + 1 }) none
  | block {p : Proc} {pairs : MutexPairs} {t : Trap} (lock : LockId) (holder : Option Pid)
    (trap : p.trapAt p.pc pairs = .ok (some t)) (asks : t.asksLock = true) :
    Passes (some p.pid) (.cpu, p) (.lockBlocked p.pid lock holder)
      (.lock, { p with pc := p.pc - 1 }) none
  | wait {p : Proc} {pairs : MutexPairs} {id : ChannelId}
    (trap : p.trapAt p.pc pairs = .ok (some (.rendezvousBody id))) :
    Passes (some p.pid) (.cpu, p) (.condWait p.pid id) (.condition, { p with pc := p.pc - 2 }) none
  | signal (p : Proc) (signaler : Pid) (id : ChannelId) (due : Option Pid) :
    Passes due (.condition, p) (.condSignal signaler id (some p.pid)) (.line, p) due
  | terminate {p : Proc} (done : p.shouldTerminate = true) :
    Passes (some p.pid) (.cpu, p) (.terminated p.pid p.kind) (.ended, p) none

/-- No event puts a process on the CPU but its dispatch. -/
theorem Passes.station_ne_cpu {due due' : Option Pid} {x x' : Station × Proc} {e : Event}
    (h : Passes due x e x' due') : x'.1 ≠ .cpu := by
  cases h <;> exact nofun

/-- What can happen within a cycle or between two. -/
inductive Act : Story → Story → Prop
  | note {s : Story} {e : Event} (mark : e.mark? = none) (pair : e.pair? = none) : Act s (s.tell e)
  | arrive {s : Story} {p q : Proc} (outline : q.outline = p.outline) (pc : q.pc = p.pc)
    (wraps : q.wraps = p.wraps) :
    Act s ({ s with roll := (.line, q.core) ::ₘ s.roll, arrived := s.arrived ++ [p] }.tell
      (.admitted q.pid q.kind))
  | pass {s : Story} {x x' : Station × Proc} {e : Event} {due : Option Pid}
    {rest : Multiset (Station × Proc)} (here : s.roll = x ::ₘ rest)
    (passes : Passes s.due x e x' due) :
    Act s ({ s with roll := x' ::ₘ rest, due }.tell e)
  | dispatch {s : Story} {p : Proc} {rest : Multiset (Station × Proc)} (priority : Priority)
    (here : s.roll = (.line, p) ::ₘ rest) (idle : ∀ q, (.cpu, q) ∉ rest) (due : s.due = none) :
    Act s ({ s with
      roll := (.cpu, p) ::ₘ rest
      sinceScan := s.sinceScan + 1
      dispatches := s.dispatches + 1 }.tell (.dispatched p.pid priority p.pc))
  /-- A lock is released on which the process is parked. -/
  | wake {s : Story} {p : Proc} {rest : Multiset (Station × Proc)}
    (here : s.roll = (.lock, p) ::ₘ rest) : Act s { s with roll := (.line, p) ::ₘ rest }
  /-- A channel goes on which the process is parked. -/
  | lose {s : Story} {x : Station × Proc} {rest : Multiset (Station × Proc)}
    (here : s.roll = x ::ₘ rest) (parked : x.1 = .lock ∨ x.1 = .condition) :
    Act s { s with roll := rest }

/-- How it is settled whose cycle is to be closed now. -/
inductive Settle : Story → Story → Prop
  /-- The dispatcher runs of a cycle are over. -/
  | resume {s : Story} (pid : Pid) (due : s.due = none) : Settle s { s with due := some pid }
  /-- A cycle is closed, and its process goes on. -/
  | goOn {s : Story}
    (unfinished : ∀ p, (.cpu, p) ∈ s.roll → s.due = some p.pid → p.shouldTerminate = false) :
    Settle s { s with due := none }

/-- Nothing else changes. -/
theorem Settle.exists_due {s s' : Story} (h : Settle s s') : ∃ due, s' = { s with due } := by
  cases h <;> exact ⟨_, rfl⟩

/-- How a cycle can begin. -/
inductive Begin : Story → Story → Prop
  | idle {s : Story} (pairs : MutexPairs) (locks : LockTable) (idle : ∀ q, (.cpu, q) ∉ s.roll)
    (due : s.due = none) :
    Begin s ({ s with
      sinceScan := s.sinceScan + 1
      iteration := s.iteration + 1
      cycles := s.cycles ++ [none] }.scanIfDue pairs locks)
  | tick {s : Story} {p p' : Proc} {rest : Multiset (Station × Proc)} (pairs : MutexPairs)
    (locks : LockTable) (here : s.roll = (.cpu, p) ::ₘ rest) (advances : p.Advances p')
    (due : s.due = none) :
    Begin s ({ s with
      roll := (.cpu, p') ::ₘ rest
      iteration := s.iteration + 1
      cycles := s.cycles ++ [some p.pid]
      due := some p.pid }.scanIfDue pairs locks)

theorem Begin.tracing {s s' : Story} (h : Begin s s') : s'.tracing = s.tracing := by
  cases h <;> simp

theorem Begin.iteration {s s' : Story} (h : Begin s s') : s'.iteration = s.iteration + 1 := by
  cases h <;> simp

/-- So many acts, one after the other. -/
abbrev Acts : Story → Story → Prop := Relation.ReflTransGen Act

/-- A cycle begins, and something happens after that; or something happens while no cycle is to be
closed; or a cycle is closed, with which its process may end. Nobody is dispatched at once when a
cycle begins. -/
inductive Next : Story → Story → Prop
  | between {s s' : Story} (due : s.due = none) (acts : Acts s s') : Next s s'
  | settled {s s' : Story} (settles : Relation.ReflTransGen Settle s s') : Next s s'
  | ended {s : Story} {p : Proc} {rest : Multiset (Station × Proc)}
    (here : s.roll = (.cpu, p) ::ₘ rest) (due : s.due = some p.pid)
    (done : p.shouldTerminate = true) :
    Next s ({ s with roll := (.ended, p) ::ₘ rest, due := none }.tell (.terminated p.pid p.kind))
  | cycle {s s₁ s' : Story} (begins : Begin s s₁) (acts : Acts s₁ s')
    (dispatches : s'.dispatches = s.dispatches) : Next s s'

theorem events_tell {s : Story} (tracing : s.tracing = true) (e : Event) :
    (s.tell e).events = s.events ++ [e] := if_pos tracing

theorem Act.congr {s s' s'' : Story} (h : Act s s') (e : s' = s'') : Act s s'' := e ▸ h

/-- What every act leaves alone. -/
structure Frame (s s' : Story) : Prop where
  tracing : s'.tracing = s.tracing
  monitor : s'.monitor = s.monitor
  scanInterval : s'.scanInterval = s.scanInterval
  iteration : s'.iteration = s.iteration
  cycles : s'.cycles = s.cycles

theorem Act.frame {s s' : Story} (h : Act s s') : Frame s s' := by
  cases h <;> exact ⟨rfl, rfl, rfl, rfl, rfl⟩

theorem Acts.frame {s s' : Story} (h : Acts s s') : Frame s s' := by
  induction h with
  | refl => exact ⟨rfl, rfl, rfl, rfl, rfl⟩
  | tail _ act ih =>
    have next := act.frame
    exact ⟨next.tracing.trans ih.tracing, next.monitor.trans ih.monitor,
      next.scanInterval.trans ih.scanInterval, next.iteration.trans ih.iteration,
      next.cycles.trans ih.cycles⟩

theorem Settle.frame {s s' : Story} (h : Relation.ReflTransGen Settle s s') : Frame s s' := by
  induction h with
  | refl => exact ⟨rfl, rfl, rfl, rfl, rfl⟩
  | tail _ settle ih =>
    obtain ⟨due, rfl⟩ := settle.exists_due
    exact ⟨ih.tracing, ih.monitor, ih.scanInterval, ih.iteration, ih.cycles⟩

/-- One thing after the other. -/
abbrev Steps : Story → Story → Prop :=
  Relation.ReflTransGen fun s s' => Act s s' ∨ Settle s s' ∨ Begin s s'

theorem Acts.steps {s s' : Story} (h : Acts s s') : Steps s s' :=
  Relation.ReflTransGen.mono (fun _ _ => .inl) _ _ h

/-- The end of a process is an act. -/
theorem Act.ended {s : Story} {p : Proc} {rest : Multiset (Station × Proc)}
    (here : s.roll = (.cpu, p) ::ₘ rest) (due : s.due = some p.pid)
    (done : p.shouldTerminate = true) :
    Act s ({ s with roll := (.ended, p) ::ₘ rest, due := none }.tell (.terminated p.pid p.kind)) :=
  .pass here (due ▸ .terminate done)

theorem Next.steps {s s' : Story} (h : Next s s') : Steps s s' := by
  cases h with
  | between due acts => exact acts.steps
  | ended here due done => exact .single (.inl (.ended here due done))
  | settled settles => exact Relation.ReflTransGen.mono (fun _ _ h => .inr (.inl h)) _ _ settles
  | cycle begins acts dispatches => exact .head (.inr (.inr begins)) acts.steps

/-- What every act and every beginning of a cycle keeps stays true. -/
theorem Steps.keep {I : Story → Prop} {s s' : Story} (steps : Steps s s') (h : I s)
    (act : ∀ {s s'}, Act s s' → I s → I s') (settle : ∀ {s} due, I s → I { s with due })
    (begins : ∀ {s s'}, Begin s s' → I s → I s') : I s' := by
  induction steps with
  | refl => exact h
  | tail _ step ih =>
    rcases step with step | step | step
    · exact act step ih
    · obtain ⟨due, rfl⟩ := step.exists_due
      exact settle due ih
    · exact begins step ih

end Story
end Mlfq
