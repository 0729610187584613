import Mathlib.Data.List.DropRight
import Mlfq.Proofs.Run.Extent
import Mlfq.Proofs.Run.Source

/-! # Calendars

A calendar is a moment of a run together with what has passed so far: the cycles, the priority
resets, and the batches for which the workload was asked. -/

namespace Mlfq

/-- What is entered in a calendar. -/
inductive Entry where
  /-- A cycle begins. -/
  | cycle
  /-- The workload is asked for a batch from outside, at boot or later. -/
  | request (batch : List Arrival)
  /-- The priorities are reset, and the workload is asked for a batch. -/
  | reset (batch : List Arrival)

namespace Entry

def isCycle : Entry → Bool
  | .cycle => true
  | _ => false

def isRequest : Entry → Bool
  | .request _ => true
  | _ => false

def isReset : Entry → Bool
  | .reset _ => true
  | _ => false

/-- The batch that comes. -/
def batch? : Entry → Option (List Arrival)
  | .cycle => none
  | .request batch | .reset batch => some batch

/-- The number of cycles. -/
def cycles (entries : List Entry) : Nat := entries.countP isCycle

/-- The number of cycles after the last reset, or of all if there is none. -/
def sinceReset (entries : List Entry) : Nat := cycles (entries.rtakeWhile (!·.isReset))

@[simp] theorem cycles_append (as bs : List Entry) : cycles (as ++ bs) = cycles as + cycles bs :=
  List.countP_append

@[simp] theorem sinceReset_concat (entries : List Entry) (entry : Entry) :
    sinceReset (entries ++ [entry]) =
      if entry.isReset then 0 else sinceReset entries + cycles [entry] := by
  rw [sinceReset, List.rtakeWhile_concat]
  cases entry.isReset with
  | true => rfl
  | false => exact cycles_append _ _

/-- The cycles since a reset are at least those since the last one. -/
theorem sinceReset_append_le (before : List Entry) (batch : List Arrival) (after : List Entry) :
    sinceReset (before ++ .reset batch :: after) ≤ cycles after := by
  induction after using List.reverseRecOn with
  | nil => exact (sinceReset_concat before (.reset batch)).le
  | append_singleton after entry ih =>
    rw [← List.cons_append, ← List.append_assoc, sinceReset_concat, cycles_append]
    split <;> omega

/-- At most all cycles have passed since the last reset. -/
theorem sinceReset_le (entries : List Entry) : sinceReset entries ≤ cycles entries :=
  (List.rtakeWhile_suffix _ entries).sublist.countP_le

end Entry

/-! ## Batches -/

/-- The record without the channel that it is given on admission. -/
def Proc.unbound (p : Proc) : Proc := { p with plan := p.plan.unbound }

/-- The record of a process that has just been admitted, without its channel. -/
def Proc.admitted (p : Proc) : Proc := { p.unbound with state := .new }

theorem Proc.unbound_bindChannel (p : Proc) (channel : ChannelId) :
    (p.bindChannel channel).unbound = p.unbound := by
  unfold bindChannel
  split
  case h_1 plan => simp only [unbound, plan, TrapPlan.unbound]
  case h_2 => rfl

variable {σ : Type}

namespace Machine

variable {m m' : Machine σ}

/-- The processes of these arrivals become the last newcomers, in this order. -/
def Queues (m : Machine σ) (as : List Arrival) (m' : Machine σ) : Prop :=
  ∃ queued, m'.newcomers = m.newcomers ++ queued ∧
    queued.map Proc.unbound = (as.flatMap Arrival.procs).map Proc.admitted

theorem queues_receive (m : Machine σ) (a : Arrival) : m.Queues [a] (m.receive a) := by
  cases a with
  | single p => exact ⟨[{ p with state := .new }], rfl, rfl⟩
  | mutexPair first second reversed =>
    refine ⟨[{ first with state := .new }, { second with state := .new }], ?_, rfl⟩
    exact List.append_assoc m.newcomers [_] [_]
  | rendezvousPair producer consumer =>
    refine ⟨[{ producer.bindChannel ⟨m.nextChannel⟩ with state := .new },
      { consumer.bindChannel ⟨m.nextChannel⟩ with state := .new }], ?_, ?_⟩
    · exact List.append_assoc m.newcomers [_] [_]
    · have bound : ∀ p : Proc,
          Proc.unbound { p.bindChannel ⟨m.nextChannel⟩ with state := .new } = p.admitted :=
        fun p => congrArg (fun q : Proc => { q with state := .new }) (p.unbound_bindChannel _)
      rw [List.map_cons, List.map_singleton, bound, bound]
      rfl

theorem queues_foldl_receive (as : List Arrival) (m : Machine σ) :
    m.Queues as (as.foldl receive m) := by
  induction as generalizing m with
  | nil => exact ⟨[], (List.append_nil _).symm, rfl⟩
  | cons a as ih =>
    obtain ⟨first, newcomers, enlisted⟩ := m.queues_receive a
    obtain ⟨others, newcomers', enlisted'⟩ := ih (m.receive a)
    refine ⟨first ++ others, ?_, ?_⟩
    · rw [List.foldl_cons, newcomers', newcomers, List.append_assoc]
    · rw [List.map_append, enlisted, enlisted', ← List.map_append, ← List.flatMap_append]
      rfl

variable [Workload σ]

/-- The workload is asked for a batch, and answers with these arrivals. -/
structure Asks (m : Machine σ) (as : List Arrival) (m' : Machine σ) : Prop where
  answer : ∃ batch, Workload.batch m.workload m.pids m.census = .ok batch ∧
    batch.arrivals = as ∧ m'.source = (batch.rest, batch.pids)
  newcomers : m.Queues as m'

theorem asks_requestBatch {n : Nat} (h : m.requestBatch = .ok (n, m')) :
    m.Asks m.nextArrivals m' := by
  obtain ⟨batch, answer, backdrop, next⟩ := exists_batch_of_requestBatch h
  refine ⟨⟨batch, answer, next.symm, congrArg Prod.fst backdrop⟩, ?_⟩
  obtain ⟨batch', answer', h⟩ := exists_of_bind_eq_ok h
  cases answer.symm.trans (eq_of_attempt answer')
  cases h
  rw [next]
  exact queues_foldl_receive batch.arrivals { m with workload := batch.rest, pids := batch.pids }

theorem asks_resetPriorities (h : m.resetPriorities = .ok m') : m.Asks m.nextArrivals m' := by
  obtain ⟨⟨n, m₁⟩, request, h⟩ := exists_of_bind_eq_ok h
  obtain ⟨answer, newcomers⟩ := asks_requestBatch request
  cases h
  exact ⟨answer, newcomers⟩

/-- The other phases leave the workload alone and what counts cycles and resets. -/
theorem still_phase {cause : Cause} {phase : Phase} (other : phase ≠ .priorityReset)
    (h : m.phase cause phase = .ok m') : m'.clock = m.clock ∧ m'.source = m.source := by
  cases phase <;> simp only [Machine.phase, Except.ok.injEq] at h
  case priorityReset => exact absurd rfl other
  case admission =>
    subst h
    exact ⟨rfl, rfl⟩
  all_goals
    subst h
    split
  · obtain ⟨running, ready, quantumExpiries, journal, preempt⟩ := m.exists_of_preempt
    rw [preempt]
    exact ⟨rfl, rfl⟩
  · exact ⟨rfl, rfl⟩
  · obtain ⟨running, cpuPc, ready, sinceScan, dispatches, journal, dispatch⟩ :=
      m.exists_of_dispatch
    rw [dispatch]
    exact ⟨rfl, rfl⟩
  · exact ⟨rfl, rfl⟩
  · obtain ⟨ready, locks, pairs, channels, journal, reap⟩ := m.exists_of_reap
    rw [reap]
    exact ⟨rfl, rfl⟩
  · exact ⟨rfl, rfl⟩

end Machine

/-! ## What passes between a moment and the next -/

/-- A dispatcher run has its first phase behind it. -/
def Duty.Past (pending : List Duty) : Prop :=
  ∃ cause left, .phases cause left ∈ pending ∧ .priorityReset ∉ left

namespace Duty.Past

variable {pending : List Duty} {cause : Cause}

theorem mono {pending' : List Duty} (h : Past pending) (sub : pending ⊆ pending') :
    Past pending' := by
  obtain ⟨cause, left, mem, passed⟩ := h
  exact ⟨cause, left, sub mem, passed⟩

/-- A dispatcher run that begins has all its phases before it. -/
theorem of_begun (h : Past (.phases cause Phase.all :: pending)) : Past pending := by
  obtain ⟨cause', left, mem, passed⟩ := h
  rcases List.mem_cons.1 mem with same | mem
  · cases same
    exact absurd (List.mem_cons_self ..) passed
  · exact ⟨cause', left, mem, passed⟩

/-- After another phase than the first the first was behind the run already. -/
theorem of_phase {phase : Phase} {rest : List Phase} (other : phase ≠ .priorityReset)
    (h : Past (.phases cause rest :: pending)) :
    Past (.phases cause (phase :: rest) :: pending) := by
  obtain ⟨cause', left, mem, passed⟩ := h
  rcases List.mem_cons.1 mem with same | mem
  · cases same
    refine ⟨cause, phase :: rest, List.mem_cons_self, ?_⟩
    rw [List.mem_cons]
    rintro (first | mem)
    · exact other first.symm
    · exact passed mem
  · exact ⟨cause', left, List.mem_cons_of_mem _ mem, passed⟩

theorem not_nil : ¬Past [] := by
  rintro ⟨cause, left, mem, -⟩
  cases mem

end Duty.Past

namespace Moment

variable [Workload σ]

/-- What is entered for the beginning of a cycle, for a batch from outside and for a reset. -/
inductive Records : Moment σ → Moment σ → Entry → Prop
  | boot {l : Ledger σ} {m : Machine σ} (h : l.machine.boot = .ok m) :
    Records ⟨l, []⟩
      ⟨{ l with machine := m, arrived := l.arrived ++ l.machine.nextArrivals }, []⟩
      (.request l.machine.nextArrivals)
  | request {l : Ledger σ} {n : Nat} {m : Machine σ} (h : l.machine.requestBatch = .ok (n, m)) :
    Records ⟨l, []⟩
      ⟨{ l with machine := m, arrived := l.arrived ++ l.machine.nextArrivals }, []⟩
      (.request l.machine.nextArrivals)
  | idleCycle {l : Ledger σ} (h : l.machine.running = none) :
    Records ⟨l, []⟩ ⟨{ l with machine := l.machine.beginCycle.countIdle.scanIfDue },
      [.phases .idle Phase.all]⟩ .cycle
  | busyCycle {l : Ledger σ} {p : Proc} {cause : Option Cause} {m : Machine σ}
    (running : l.machine.running = some p) (h : l.machine.stepRunning = .ok (cause, m)) :
    Records ⟨l, []⟩ ⟨{ l with machine := m },
      (cause.map fun cause => .phases cause Phase.all).toList ++ [.closeCycle p.pid]⟩ .cycle
  | reset {l : Ledger σ} {cause : Cause} {rest : List Phase} {m : Machine σ} {pending : List Duty}
    (due : l.machine.config.resetInterval ≤ l.machine.sinceReset)
    (h : l.machine.phase cause .priorityReset = .ok m) :
    Records ⟨l, .phases cause (.priorityReset :: rest) :: pending⟩
      ⟨{ machine := m, arrived := l.arrived ++ l.machine.arrivalsOf .priorityReset,
         dropped := l.dropped ++ l.machine.droppedBy .priorityReset },
        .phases cause rest :: pending⟩ (.reset l.machine.nextArrivals)

/-- What each entry stands for. -/
inductive Entered (mo mo' : Moment σ) : List Entry → Prop
  /-- Nothing passes, and a run has its first phase behind it only if another had or no reset is
  due. -/
  | quiet (clock : mo'.ledger.machine.clock = mo.ledger.machine.clock)
    (source : mo'.ledger.machine.source = mo.ledger.machine.source)
    (arrived : mo'.ledger.arrived = mo.ledger.arrived)
    (past : Duty.Past mo'.pending → Duty.Past mo.pending ∨
      mo.ledger.machine.sinceReset < mo.ledger.machine.config.resetInterval) : Entered mo mo' []
  | cycle (clock : mo'.ledger.machine.clock = (mo.ledger.machine.config,
      mo.ledger.machine.sinceReset + 1, mo.ledger.machine.iteration + 1,
      mo.ledger.machine.priorityResets))
    (source : mo'.ledger.machine.source = mo.ledger.machine.source)
    (arrived : mo'.ledger.arrived = mo.ledger.arrived) (first : ¬Duty.Past mo'.pending) :
    Entered mo mo' [.cycle]
  | request {batch : List Arrival} (clock : mo'.ledger.machine.clock = mo.ledger.machine.clock)
    (asks : mo.ledger.machine.Asks batch mo'.ledger.machine)
    (arrived : mo'.ledger.arrived = mo.ledger.arrived ++ batch) (rest : mo'.pending = []) :
    Entered mo mo' [.request batch]
  | reset {batch : List Arrival}
    (due : mo.ledger.machine.config.resetInterval ≤ mo.ledger.machine.sinceReset)
    (clock : mo'.ledger.machine.clock = (mo.ledger.machine.config, 0,
      mo.ledger.machine.iteration, mo.ledger.machine.priorityResets + 1))
    (asks : mo.ledger.machine.Asks batch mo'.ledger.machine)
    (arrived : mo'.ledger.arrived = mo.ledger.arrived ++ batch) : Entered mo mo' [.reset batch]

variable {mo mo' : Moment σ}

theorem entered_request {m₁ m' : Machine σ} {l : Ledger σ} {n : Nat}
    (request : l.machine.requestBatch = .ok (n, m₁)) (clock : m'.clock = m₁.clock)
    (asks : l.machine.Asks l.machine.nextArrivals m') :
    Entered ⟨l, []⟩ ⟨{ l with machine := m', arrived := l.arrived ++ l.machine.nextArrivals }, []⟩
      [.request l.machine.nextArrivals] :=
  .request (clock.trans (Machine.clock_requestBatch request)) asks rfl rfl

/-- A cycle begins with its first dispatcher run before it, if there is one. -/
theorem not_past_closeCycle (pid : Pid) (cause : Option Cause) :
    ¬Duty.Past ((cause.map fun cause => .phases cause Phase.all).toList ++ [.closeCycle pid]) := by
  have closing : ¬Duty.Past [.closeCycle pid] := by
    rintro ⟨cause, left, mem, -⟩
    cases List.mem_singleton.1 mem
  intro past
  cases cause with
  | none => exact closing past
  | some cause => exact closing past.of_begun

namespace Records

variable {entry : Entry}

theorem next (h : mo.Records mo' entry) : Next mo mo' := by
  cases h with
  | boot h => exact .boot h
  | request h => exact .request h
  | idleCycle h => exact .idleCycle h
  | busyCycle running h => exact .busyCycle running h
  | reset due h => exact .phase h

theorem entered (h : mo.Records mo' entry) : mo.Entered mo' [entry] := by
  cases h with
  | boot h =>
    obtain ⟨⟨n, m₁⟩, request, h⟩ := exists_of_bind_eq_ok h
    obtain ⟨answer, newcomers⟩ := Machine.asks_requestBatch request
    cases h
    exact entered_request request rfl ⟨answer, newcomers⟩
  | request request => exact entered_request request rfl (Machine.asks_requestBatch request)
  | @idleCycle l idle =>
    obtain ⟨sinceScan, monitor, journal, scan⟩ := Scene.scanIfDue_eq l.machine.beginCycle.countIdle
    refine .cycle ?_ ?_ rfl fun past => Duty.Past.not_nil past.of_begun
    · rw [scan]
      rfl
    · rw [scan]
      rfl
  | @busyCycle l p cause m running h =>
    refine .cycle ?_ ?_ rfl (not_past_closeCycle p.pid cause)
    · exact Machine.clock_stepRunning running h
    · exact congrArg Prod.fst (Machine.backdrop_stepRunning h)
  | @reset l cause rest m pending due h =>
    rw [Machine.phase, if_pos due] at h
    refine .reset due (Machine.clock_resetPriorities h) (Machine.asks_resetPriorities h) ?_
    rw [Machine.arrivalsOf, if_pos due]

end Records

/-- A phase that does not reset the priorities. -/
theorem entered_phase {l l' : Ledger σ} {cause : Cause} {phase : Phase} {left : List Phase}
    {pending : List Duty} (h : l.machine.phase cause phase = .ok l'.machine)
    (arrived : l'.arrived = l.arrived ++ l.machine.arrivalsOf phase)
    (early : phase = .priorityReset →
      l.machine.sinceReset < l.machine.config.resetInterval) :
    Entered ⟨l, .phases cause (phase :: left) :: pending⟩
      ⟨l', .phases cause left :: pending⟩ [] := by
  by_cases first : phase = .priorityReset
  · subst first
    have few := not_le.2 (early rfl)
    rw [Machine.phase, if_neg few] at h
    rw [Machine.arrivalsOf, if_neg few, List.append_nil] at arrived
    have same := Except.ok.inj h
    exact .quiet (by rw [same]) (by rw [same]) arrived fun _ => .inr (early rfl)
  · obtain ⟨clock, source⟩ := Machine.still_phase first h
    have nobody : l.machine.arrivalsOf phase = [] := by
      cases phase <;> first | rfl | exact absurd rfl first
    rw [nobody, List.append_nil] at arrived
    exact .quiet clock source arrived fun past => .inl (past.of_phase first)

/-- Whatever is not entered leaves alone what is. -/
theorem Next.entered (h : Next mo mo') (nothing : ∀ entry, ¬mo.Records mo' entry) :
    mo.Entered mo' [] := by
  cases h with
  | boot h => exact absurd (.boot h) (nothing _)
  | request h => exact absurd (.request h) (nothing _)
  | idleCycle h => exact absurd (.idleCycle h) (nothing _)
  | busyCycle running h => exact absurd (.busyCycle running h) (nothing _)
  | schedule | timer => exact .quiet rfl rfl rfl fun past => .inl past.of_begun
  | completion _ done =>
    obtain ⟨dev, p, q, countdown, gen, -, -, rfl⟩ := Machine.exists_of_completeIo done
    exact .quiet rfl rfl rfl fun past => .inl past.of_begun
  | phase h =>
    refine entered_phase h rfl ?_
    rintro rfl
    exact not_le.1 fun due => nothing _ (.reset due h)
  | done | goOn =>
    exact .quiet rfl rfl rfl fun past => .inl (past.mono (List.subset_cons_self ..))
  | terminate h =>
    obtain ⟨p, -, -, -, rfl⟩ := Machine.exists_of_terminateIfDone h
    exact .quiet rfl rfl rfl fun past => .inl (past.of_begun.mono (List.subset_cons_self ..))

/-- Something is entered, or nothing. -/
theorem Next.exists_entered (h : Next mo mo') : ∃ added, mo.Entered mo' added := by
  by_cases something : ∃ entry, mo.Records mo' entry
  · obtain ⟨entry, records⟩ := something
    exact ⟨[entry], records.entered⟩
  · exact ⟨[], h.entered (not_exists.1 something)⟩

/-- The configuration of a machine never changes. -/
theorem Next.config_eq (h : Next mo mo') :
    mo'.ledger.machine.config = mo.ledger.machine.config := by
  obtain ⟨added, entered⟩ := h.exists_entered
  cases entered with
  | quiet clock | cycle clock | request clock => exact (Machine.of_clock clock).1
  | reset due clock => exact (Machine.of_clock clock).1

end Moment

/-! ## Calendars -/

/-- A moment of a run, and what has passed so far, oldest first. -/
structure Calendar (σ : Type) where
  moment : Moment σ
  entries : List Entry := []

namespace Calendar

section

variable (c : Calendar σ)

/-- The machine at this moment. -/
def machine : Machine σ := c.moment.ledger.machine

/-- The number of cycles. -/
def cycles : Nat := Entry.cycles c.entries

/-- The number of cycles since the last priority reset, or since the start. -/
def sinceReset : Nat := Entry.sinceReset c.entries

/-- The number of priority resets. -/
def resets : Nat := c.entries.countP Entry.isReset

/-- How often the workload was asked from outside. -/
def requests : Nat := c.entries.countP Entry.isRequest

/-- The batches for which the workload was asked. -/
def batches : List (List Arrival) := c.entries.filterMap Entry.batch?

/-- The workload is asked from outside and at every reset. -/
theorem length_batches : c.batches.length = c.requests + c.resets := by
  rw [batches, requests, resets]
  induction c.entries with
  | nil => rfl
  | cons entry entries ih =>
    cases entry <;>
      simp only [List.filterMap_cons, List.countP_cons, List.length_cons, Entry.batch?,
        Entry.isRequest, Entry.isReset, Bool.false_eq_true, if_true, if_false, ih] <;> omega

end

variable [Workload σ]

/-- The run goes on, and what happens is entered if there is an entry for it. -/
inductive Next : Calendar σ → Calendar σ → Prop
  | enter {mo mo' : Moment σ} {entries : List Entry} {entry : Entry}
    (h : mo.Records mo' entry) : Next ⟨mo, entries⟩ ⟨mo', entries ++ [entry]⟩
  | pass {mo mo' : Moment σ} {entries : List Entry} (next : Moment.Next mo mo')
    (nothing : ∀ entry, ¬mo.Records mo' entry) : Next ⟨mo, entries⟩ ⟨mo', entries⟩

/-- The calendars of the runs of a machine. -/
def Reachable (m : Machine σ) : Calendar σ → Prop :=
  Relation.ReflTransGen Next ⟨⟨{ machine := m }, []⟩, []⟩

variable {m : Machine σ} {c c' : Calendar σ} {mo mo' : Moment σ}

theorem Next.moment (h : Next c c') : Moment.Next c.moment c'.moment := by
  cases h with
  | enter h => exact h.next
  | pass next => exact next

theorem Next.exists_entered (h : Next c c') :
    ∃ added, c'.entries = c.entries ++ added ∧ c.moment.Entered c'.moment added := by
  cases h with
  | @enter mo mo' entries entry h => exact ⟨[entry], rfl, h.entered⟩
  | @pass mo mo' entries next nothing =>
    exact ⟨[], (List.append_nil entries).symm, next.entered nothing⟩

theorem exists_next (h : Moment.Next mo mo') (entries : List Entry) :
    ∃ entries', Next ⟨mo, entries⟩ ⟨mo', entries'⟩ := by
  by_cases something : ∃ entry, mo.Records mo' entry
  · obtain ⟨entry, records⟩ := something
    exact ⟨_, .enter records⟩
  · exact ⟨entries, .pass h (not_exists.1 something)⟩

theorem Reachable.moment (reachable : Reachable m c) : Moment.Reachable m c.moment := by
  induction reachable with
  | refl => exact .refl
  | tail _ next ih => exact ih.tail next.moment

/-- Every run has a calendar. -/
theorem exists_reachable (reachable : Moment.Reachable m mo) :
    ∃ entries, Reachable m ⟨mo, entries⟩ := by
  induction reachable with
  | refl => exact ⟨[], .refl⟩
  | tail _ next ih =>
    obtain ⟨entries, reachable⟩ := ih
    obtain ⟨entries', next⟩ := exists_next next entries
    exact ⟨entries', reachable.tail next⟩

end Calendar
end Mlfq
