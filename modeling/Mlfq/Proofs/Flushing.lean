import Mlfq.Proofs.Headcount
import Mlfq.Proofs.Run.Calendar
import Mlfq.Proofs.Story.Topics
import Mlfq.Proofs.WorkConservation

/-! # Ended processes are flushed together

A process ends at the end of a busy cycle, when nothing else is pending, and a dispatcher run comes
next. Whatever interrupts that run, when there are as many ended processes as the threshold asks for
some run that has begun has its last phase still before it. -/

namespace Mlfq

/-! ## What is told of ended processes -/

/-- The process whose end is told. -/
def Event.ended? : Event → Option Pid
  | .terminated pid _ => some pid
  | _ => none

/-- The number of ended processes that are dropped. -/
def Event.flushed? : Event → Option Nat
  | .zombiesFlushed n => some n
  | _ => none

/-- The processes that have ended, oldest first. -/
def endings (es : List Event) : List Pid := es.filterMap Event.ended?

/-- How many ended processes were dropped each time. -/
def flushes (es : List Event) : List Nat := es.filterMap Event.flushed?

/-- The processes that have ended since some were dropped last, or since the start. -/
def unflushed (es : List Event) : List Pid := endings (es.rtakeWhile (·.flushed?.isNone))

theorem unflushed_concat (es : List Event) (e : Event) :
    unflushed (es ++ [e]) = if e.flushed?.isNone then unflushed es ++ endings [e] else [] := by
  rw [unflushed, List.rtakeWhile_concat]
  split
  · exact List.filterMap_append
  · rfl

/-- The events are about other things. -/
theorem told_of_others {es : List Event} (others : ∀ e ∈ es, e.topic ≠ .ending)
    (before : List Event) :
    endings (before ++ es) = endings before ∧ flushes (before ++ es) = flushes before ∧
      unflushed (before ++ es) = unflushed before := by
  induction es using List.reverseRecOn with
  | nil => rw [List.append_nil]; exact ⟨rfl, rfl, rfl⟩
  | append_singleton es e ih =>
    have other := others e (by simp)
    obtain ⟨endings', flushes', unflushed'⟩ := ih fun e he => others e (by simp [he])
    have silent : endings [e] = [] ∧ flushes [e] = [] ∧ e.flushed?.isNone := by
      cases e <;> first | exact ⟨rfl, rfl, rfl⟩ | exact absurd rfl other
    obtain ⟨noEnding, noFlush, none⟩ := silent
    rw [← List.append_assoc, unflushed_concat, if_pos none, noEnding, unflushed', List.append_nil]
    refine ⟨?_, ?_, rfl⟩
    · rw [endings, List.filterMap_append, ← endings, ← endings, endings', noEnding, List.append_nil]
    · rw [flushes, List.filterMap_append, ← flushes, ← flushes, flushes', noFlush, List.append_nil]

/-! ## Dispatcher runs that have not reaped yet -/

/-- A dispatcher run that has begun has its last phase before it, and no cycle is to be closed. -/
structure Duty.Reaping (pending : List Duty) : Prop where
  reaps : ∃ cause left, .phases cause left ∈ pending ∧ .reaping ∈ left
  closed : ∀ pid, .closeCycle pid ∉ pending

namespace Duty.Reaping

variable {pending : List Duty} {cause : Cause} {left : List Phase}

theorem not_nil : ¬Reaping [] := by
  rintro ⟨⟨cause, left, mem, -⟩, -⟩
  cases mem

/-- Another run begins. -/
theorem push (h : Reaping pending) (cause : Cause) (left : List Phase) :
    Reaping (.phases cause left :: pending) := by
  obtain ⟨⟨cause', left', mem, last⟩, closed⟩ := h
  refine ⟨⟨cause', left', List.mem_cons_of_mem _ mem, last⟩, fun pid closing => ?_⟩
  rcases List.mem_cons.1 closing with same | closing
  · cases same
  · exact closed pid closing

/-- A run that is over has no phase left. -/
theorem pop (h : Reaping (.phases cause [] :: pending)) : Reaping pending := by
  obtain ⟨⟨cause', left, mem, last⟩, closed⟩ := h
  refine ⟨?_, fun pid closing => closed pid (List.mem_cons_of_mem _ closing)⟩
  rcases List.mem_cons.1 mem with same | mem
  · cases same
    cases last
  · exact ⟨cause', left, mem, last⟩

/-- Another phase than the last is over. -/
theorem of_phase {phase : Phase} (other : phase ≠ .reaping)
    (h : Reaping (.phases cause (phase :: left) :: pending)) :
    Reaping (.phases cause left :: pending) := by
  obtain ⟨⟨cause', left', mem, last⟩, closed⟩ := h
  constructor
  · rcases List.mem_cons.1 mem with same | mem
    · cases same
      rcases List.mem_cons.1 last with same | last
      · exact absurd same.symm other
      · exact ⟨cause, left, List.mem_cons_self, last⟩
    · exact ⟨cause', left', List.mem_cons_of_mem _ mem, last⟩
  · intro pid closing
    rcases List.mem_cons.1 closing with same | closing
    · cases same
    · exact closed pid (List.mem_cons_of_mem _ closing)

/-- At the end of a cycle a dispatcher run begins. -/
theorem termination : Reaping [.phases .termination Phase.all] := by
  refine ⟨⟨.termination, Phase.all, List.mem_cons_self, by decide⟩, fun pid closing => ?_⟩
  cases List.mem_singleton.1 closing

end Duty.Reaping

/-! ## What a step does with ended processes -/

namespace Census

theorem totalTerminated_noteAll (c : Census) (ps : Queue) :
    (c.noteAll ps).totalTerminated = c.totalTerminated := by
  simp only [totalTerminated, terminated_noteAll]

theorem totalTerminated_noteTerminated (c : Census) (kind : Proc.Kind) :
    (c.noteTerminated kind).totalTerminated = c.totalTerminated + 1 := by
  cases kind <;>
    simp only [totalTerminated, Proc.Kind.all, terminated_noteTerminated, List.foldl_cons,
      List.foldl_nil] <;> simp <;> omega

end Census

variable {σ : Type}

namespace Machine

variable {m m' : Machine σ}

theorem events_terminate (tracing : m.journal.tracing = true) (p : Proc) :
    (m.terminate p).events = m.events ++ [.terminated p.pid p.kind] := by
  let counted := { m with running := none, census := m.census.noteTerminated p.kind }.measure
    fun c => { c with terminations := c.terminations + 1 }
  have told : (counted.emit (.terminated p.pid p.kind)).events =
      counted.events ++ [.terminated p.pid p.kind] := events_emit (m := counted) tracing _
  exact told

theorem events_reap (tracing : m.journal.tracing = true) :
    m.reap.events = m.events ++ [.zombiesFlushed m.zombies.length] := by
  obtain ⟨ready, locks, pairs, channels, reaped⟩ :=
    retires_foldl_reapOne m.zombies { m with zombies := [] }
  let dropped := { m with zombies := [], ready, locks, pairs, channels }.measure
    fun c => { c with zombieLength := 0 }
  have told : (dropped.emit (.zombiesFlushed m.zombies.length)).events =
      dropped.events ++ [.zombiesFlushed m.zombies.length] := events_emit (m := dropped) tracing _
  simp only [reap, reaped]
  exact told

/-- No process ends, and no ended one is dropped. -/
structure Rests (m m' : Machine σ) : Prop where
  zombies : m'.zombies = m.zombies
  total : m'.census.totalTerminated = m.census.totalTerminated
  told : ∃ es, m'.events = m.events ++ es ∧ ∀ e ∈ es, e.topic ≠ .ending

theorem Rests.refl (m : Machine σ) : m.Rests m := ⟨rfl, rfl, [], (List.append_nil _).symm, nofun⟩

/-- Other things are told, and the machine keeps its backdrop. -/
theorem Tells.rests {topics : List Event.Topic} (h : Tells topics m m') (other : .ending ∉ topics)
    (zombies : m'.zombies = m.zombies)
    (total : m'.census.totalTerminated = m.census.totalTerminated) : m.Rests m' := by
  obtain ⟨-, es, all, told⟩ := h.journal
  refine ⟨zombies, total, es, told, fun e he ending => ?_⟩
  exact other (ending ▸ all e he)

theorem Tells.rests_of_backdrop {topics : List Event.Topic} (h : Tells topics m m')
    (other : .ending ∉ topics) (backdrop : m'.backdrop = m.backdrop) : m.Rests m' := by
  obtain ⟨-, -, census, zombies⟩ := of_backdrop backdrop
  exact h.rests other zombies (congrArg Census.totalTerminated census)

variable [Workload σ]

theorem rests_requestBatch {n : Nat} (h : m.requestBatch = .ok (n, m')) : m.Rests m' := by
  obtain ⟨batch, -, backdrop, -⟩ := exists_batch_of_requestBatch h
  obtain ⟨-, -, census, zombies⟩ := of_backdrop backdrop
  refine (tells_requestBatch h).rests (by decide) zombies ?_
  rw [census, Census.totalTerminated_noteAll]

theorem rests_boot (h : m.boot = .ok m') : m.Rests m' := by
  have tells := tells_boot h
  obtain ⟨⟨n, m₁⟩, request, h⟩ := exists_of_bind_eq_ok h
  obtain ⟨zombies, total, -⟩ := rests_requestBatch request
  cases h
  exact tells.rests (by decide) zombies total

/-- Only the last phase drops ended processes. -/
theorem rests_phase {cause : Cause} {phase : Phase} (other : phase ≠ .reaping)
    (h : m.phase cause phase = .ok m') : m.Rests m' := by
  have tells := tells_phase h
  cases phase <;> simp only [Machine.phase, Except.ok.injEq] at h
  case priorityReset =>
    split at h
    · obtain ⟨⟨n, m₁⟩, request, h⟩ := exists_of_bind_eq_ok h
      obtain ⟨zombies, total, -⟩ := rests_requestBatch request
      cases h
      exact tells.rests (by decide) zombies total
    · cases h
      exact .refl m
  case admission =>
    subst h
    exact tells.rests (by decide) rfl rfl
  case preemption =>
    refine tells.rests_of_backdrop (by decide) ?_
    subst h
    split
    · exact backdrop_preempt m
    · rfl
  case dispatching =>
    refine tells.rests_of_backdrop (by decide) ?_
    subst h
    split
    · exact backdrop_dispatch m
    · rfl
  case reaping => exact absurd rfl other

end Machine

/-! ## Runs -/

/-- What happens to ended processes between a moment and the next. -/
inductive Moment.Loses (mo mo' : Moment σ) : Prop
  /-- Nothing, and a dispatcher run with its last phase before it goes on unless the phase finds
  too few ended processes. -/
  | none (rests : mo.ledger.machine.Rests mo'.ledger.machine)
    (dropped : mo'.ledger.dropped = mo.ledger.dropped)
    (reaping : Duty.Reaping mo.pending → Duty.Reaping mo'.pending ∨
      mo.ledger.machine.zombies.length < mo.ledger.machine.config.zombieThreshold)
  /-- A cycle is closed, and its process ends. -/
  | ending (p : Proc) (closing : ∃ pid, .closeCycle pid ∈ mo.pending)
    (reaping : Duty.Reaping mo'.pending)
    (zombies : (mo'.ledger.machine.zombies).map (·.pid) =
      mo.ledger.machine.zombies.map (·.pid) ++ [p.pid])
    (total : mo'.ledger.machine.census.totalTerminated =
      mo.ledger.machine.census.totalTerminated + 1)
    (told : mo'.ledger.machine.events = mo.ledger.machine.events ++ [.terminated p.pid p.kind])
    (dropped : mo'.ledger.dropped = mo.ledger.dropped)
  | flush
    (enough : mo.ledger.machine.config.zombieThreshold ≤ mo.ledger.machine.zombies.length)
    (zombies : mo'.ledger.machine.zombies = [])
    (total : mo'.ledger.machine.census.totalTerminated =
      mo.ledger.machine.census.totalTerminated)
    (told : mo'.ledger.machine.events =
      mo.ledger.machine.events ++ [.zombiesFlushed mo.ledger.machine.zombies.length])
    (dropped : mo'.ledger.dropped = mo.ledger.dropped ++ mo.ledger.machine.zombies)

namespace Moment

variable {mo mo' : Moment σ}

/-- The ended processes of a run are dropped so many at a time. -/
structure FlushesBy (mo : Moment σ) (threshold : Nat) : Prop where
  atMost : mo.ledger.machine.zombies.length ≤ threshold
  /-- Those that were not dropped yet have ended since the last drop, in this order. -/
  waiting : mo.ledger.machine.zombies.map (·.pid) = unflushed mo.ledger.machine.events
  /-- Those that were dropped had ended before. -/
  ended : endings mo.ledger.machine.events =
    (mo.ledger.dropped ++ mo.ledger.machine.zombies).map (·.pid)
  whole : ∀ n ∈ flushes mo.ledger.machine.events, n = threshold
  counted : threshold * (flushes mo.ledger.machine.events).length +
    mo.ledger.machine.zombies.length = mo.ledger.machine.census.totalTerminated
  total : mo.ledger.machine.census.totalTerminated = (endings mo.ledger.machine.events).length

theorem flushesBy_start (config : Config) (workload : σ) (logLevel : Option Level)
    (threshold : Nat) :
    FlushesBy ⟨{ machine := .start config workload logLevel }, []⟩ threshold where
  atMost := Nat.zero_le _
  waiting := rfl
  ended := rfl
  whole := nofun
  counted := rfl
  total := rfl

namespace FlushesBy

variable {threshold : Nat}

theorem of_rests (h : mo.FlushesBy threshold) (rests : mo.ledger.machine.Rests mo'.ledger.machine)
    (dropped : mo'.ledger.dropped = mo.ledger.dropped) : mo'.FlushesBy threshold := by
  obtain ⟨zombies, total, es, told, others⟩ := rests
  obtain ⟨endings', flushes', unflushed'⟩ := told_of_others others mo.ledger.machine.events
  constructor
  · rw [zombies]; exact h.atMost
  · rw [zombies, told, unflushed', h.waiting]
  · rw [zombies, dropped, told, endings', h.ended]
  · rw [told, flushes']; exact h.whole
  · rw [told, flushes', zombies, total, h.counted]
  · rw [total, told, endings', h.total]

/-- A process that ends waits with the others. -/
theorem of_ending (h : mo.FlushesBy threshold) {p : Proc}
    (few : mo.ledger.machine.zombies.length < threshold)
    (zombies : (mo'.ledger.machine.zombies).map (·.pid) =
      mo.ledger.machine.zombies.map (·.pid) ++ [p.pid])
    (total : mo'.ledger.machine.census.totalTerminated =
      mo.ledger.machine.census.totalTerminated + 1)
    (told : mo'.ledger.machine.events = mo.ledger.machine.events ++ [.terminated p.pid p.kind])
    (dropped : mo'.ledger.dropped = mo.ledger.dropped) : mo'.FlushesBy threshold := by
  have longer : mo'.ledger.machine.zombies.length = mo.ledger.machine.zombies.length + 1 := by
    simpa using congrArg List.length zombies
  have more : endings mo'.ledger.machine.events = endings mo.ledger.machine.events ++ [p.pid] := by
    rw [told]; exact List.filterMap_append
  have same : flushes mo'.ledger.machine.events = flushes mo.ledger.machine.events := by
    rw [told]; exact List.filterMap_append.trans (List.append_nil _)
  constructor
  · rw [longer]; exact few
  · rw [zombies, told, unflushed_concat, h.waiting]
    rfl
  · rw [more, dropped, h.ended, List.map_append, List.map_append, zombies, List.append_assoc]
  · rw [same]; exact h.whole
  · rw [same, longer, total, ← h.counted, Nat.add_assoc]
  · rw [total, more, h.total, List.length_append]
    rfl

/-- All that wait are dropped when they are as many as the threshold. -/
theorem of_flush (h : mo.FlushesBy threshold)
    (enough : threshold ≤ mo.ledger.machine.zombies.length)
    (zombies : mo'.ledger.machine.zombies = [])
    (total : mo'.ledger.machine.census.totalTerminated =
      mo.ledger.machine.census.totalTerminated)
    (told : mo'.ledger.machine.events =
      mo.ledger.machine.events ++ [.zombiesFlushed mo.ledger.machine.zombies.length])
    (dropped : mo'.ledger.dropped = mo.ledger.dropped ++ mo.ledger.machine.zombies) :
    mo'.FlushesBy threshold := by
  have full := Nat.le_antisymm h.atMost enough
  have same : endings mo'.ledger.machine.events = endings mo.ledger.machine.events := by
    rw [told]; exact List.filterMap_append.trans (List.append_nil _)
  have more : flushes mo'.ledger.machine.events =
      flushes mo.ledger.machine.events ++ [mo.ledger.machine.zombies.length] := by
    rw [told]; exact List.filterMap_append
  constructor
  · rw [zombies]
    exact Nat.zero_le _
  · rw [zombies, told, unflushed_concat]
    rfl
  · rw [same, h.ended, zombies, dropped, List.append_nil]
  · intro n hn
    rw [more] at hn
    rcases List.mem_append.1 hn with before | now
    · exact h.whole n before
    · exact (List.mem_singleton.1 now).trans full
  · rw [zombies, more, total, ← h.counted, List.length_append, Nat.mul_add, List.length_singleton,
      Nat.mul_one, List.length_nil, Nat.add_zero, full]
  · rw [total, same, h.total]

end FlushesBy

/-- If the threshold is met, a dispatcher run is about to see to it. -/
theorem Loses.flushesBy (h : mo.Loses mo')
    (reaping : mo.ledger.machine.zombies.length = mo.ledger.machine.config.zombieThreshold →
      Duty.Reaping mo.pending)
    (positive : 0 < mo.ledger.machine.config.zombieThreshold)
    (flushes : mo.FlushesBy mo.ledger.machine.config.zombieThreshold) :
    (mo'.ledger.machine.zombies.length = mo.ledger.machine.config.zombieThreshold →
      Duty.Reaping mo'.pending) ∧ mo'.FlushesBy mo.ledger.machine.config.zombieThreshold := by
  cases h with
  | none rests dropped later =>
    refine ⟨fun full => ?_, flushes.of_rests rests dropped⟩
    rw [rests.zombies] at full
    rcases later (reaping full) with later | few
    · exact later
    · exact absurd full few.ne
  | ending p closing later zombies total told dropped =>
    -- were there no room, a run would be under way, and no cycle would be closed in its course
    have few : mo.ledger.machine.zombies.length < mo.ledger.machine.config.zombieThreshold := by
      refine lt_of_le_of_ne flushes.atMost fun full => ?_
      obtain ⟨pid, closing⟩ := closing
      exact (reaping full).closed pid closing
    exact ⟨fun _ => later, flushes.of_ending few zombies total told dropped⟩
  | flush enough zombies total told dropped =>
    refine ⟨fun empty => ?_, flushes.of_flush enough zombies total told dropped⟩
    rw [zombies, List.length_nil] at empty
    exact absurd empty positive.ne

variable [Workload σ]

theorem loses_of_phase {l l' : Ledger σ} {cause : Cause} {phase : Phase} {left : List Phase}
    {pending : List Duty} (tracing : l.machine.journal.tracing = true)
    (h : l.machine.phase cause phase = .ok l'.machine)
    (dropped : l'.dropped = l.dropped ++ l.machine.droppedBy phase) :
    Loses ⟨l, .phases cause (phase :: left) :: pending⟩ ⟨l', .phases cause left :: pending⟩ := by
  by_cases last : phase = .reaping
  · subst last
    simp only [Machine.phase] at h
    rw [Machine.droppedBy] at dropped
    split at h
    case isTrue enough =>
      rw [if_pos enough] at dropped
      have reaped := Except.ok.inj h
      obtain ⟨-, -, census, zombies⟩ := Machine.of_backdrop l.machine.backdrop_reap
      rw [reaped] at census zombies
      refine .flush enough zombies (congrArg Census.totalTerminated census) ?_ dropped
      rw [← reaped]
      exact Machine.events_reap tracing
    case isFalse few =>
      have same := Except.ok.inj h
      rw [if_neg few, List.append_nil] at dropped
      exact .none (same ▸ .refl _) dropped fun _ => .inr (not_le.1 few)
  · have none : l.machine.droppedBy phase = [] := by
      cases phase <;> first | rfl | exact absurd rfl last
    rw [none, List.append_nil] at dropped
    exact .none (Machine.rests_phase last h) dropped fun reaping => .inl (reaping.of_phase last)

theorem Next.loses (h : Next mo mo') (stacked : Duty.Stacked mo.pending)
    (tracing : mo.ledger.machine.journal.tracing = true) : mo.Loses mo' := by
  cases h with
  | boot h => exact .none (Machine.rests_boot h) rfl .inl
  | request h => exact .none (Machine.rests_requestBatch h) rfl .inl
  | schedule => exact .none (.refl _) rfl fun reaping => absurd reaping Duty.Reaping.not_nil
  | @idleCycle l idle =>
    refine .none ?_ rfl fun reaping => absurd reaping Duty.Reaping.not_nil
    obtain ⟨zombies, total, told⟩ :=
      (Machine.tells_scanIfDue l.machine.beginCycle.countIdle).rests_of_backdrop (by decide)
        (Machine.backdrop_scanIfDue _)
    exact ⟨zombies, total, told⟩
  | busyCycle running h =>
    refine .none ?_ rfl fun reaping => absurd reaping Duty.Reaping.not_nil
    exact (Machine.tells_stepRunning running h).rests_of_backdrop (by decide)
      (Machine.backdrop_stepRunning h)
  | @timer l =>
    refine .none ?_ rfl fun reaping => .inl (reaping.push _ _)
    exact (Machine.tells_raiseTimer l.machine).rests (by decide) rfl rfl
  | completion _ done =>
    refine .none ?_ rfl fun reaping => .inl (reaping.push _ _)
    exact (Machine.tells_completeIo done).rests_of_backdrop (by decide)
      (Machine.backdrop_completeIo done)
  | phase h => exact loses_of_phase tracing h rfl
  | done => exact .none (.refl _) rfl fun reaping => .inl reaping.pop
  | goOn => exact .none (.refl _) rfl fun reaping => absurd List.mem_cons_self (reaping.closed _)
  | terminate h =>
    obtain ⟨p, -, -, -, rfl⟩ := Machine.exists_of_terminateIfDone h
    cases stacked
    refine .ending p ⟨_, List.mem_cons_self⟩ .termination ?_ ?_
      (Machine.events_terminate tracing p) rfl
    · exact List.map_append
    · exact Census.totalTerminated_noteTerminated _ p.kind

variable {config : Config} {workload : σ} {logLevel : Option Level}

theorem reaping_of_reachable (reachable : Reachable (.start config workload logLevel) mo)
    (tracing : config.recordTrace = true) (positive : 0 < config.zombieThreshold) :
    mo.ledger.machine.config = config ∧ mo.ledger.machine.journal.tracing = true ∧
      Duty.Stacked mo.pending ∧
      (mo.ledger.machine.zombies.length = config.zombieThreshold → Duty.Reaping mo.pending) ∧
      mo.FlushesBy config.zombieThreshold := by
  induction reachable with
  | refl =>
    refine ⟨rfl, tracing, .rest, fun full => ?_, flushesBy_start config workload logLevel _⟩
    exact absurd (full.symm.trans List.length_nil) positive.ne'
  | tail _ next ih =>
    obtain ⟨rfl, traced, stacked, reaping, flushes⟩ := ih
    have loses := next.loses stacked traced
    exact ⟨next.config_eq, next.tracing_eq.trans traced, stacked_of_next stacked next,
      loses.flushesBy reaping positive flushes⟩

end Moment

/-- At every moment of every run the processes that have ended and were not dropped yet are at most
as many as the threshold, and at rest they are fewer. They are those that have ended since the last
drop, in the order in which they did. Every drop is of exactly as many as the threshold, and with
those that wait the drops make up all processes that have ended. -/
theorem flushesBy_of_reachable [Workload σ] {config : Config} {workload : σ}
    {logLevel : Option Level} {mo : Moment σ}
    (reachable : Moment.Reachable (.start config workload logLevel) mo)
    (tracing : config.recordTrace = true) (positive : 0 < config.zombieThreshold) :
    (mo.pending = [] → mo.ledger.machine.zombies.length < config.zombieThreshold) ∧
      mo.FlushesBy config.zombieThreshold := by
  obtain ⟨-, -, -, reaping, flushes⟩ := Moment.reaping_of_reachable reachable tracing positive
  refine ⟨fun rest => lt_of_le_of_ne flushes.atMost fun full => ?_, flushes⟩
  have due := reaping full
  rw [rest] at due
  exact Duty.Reaping.not_nil due

/-- Three processes that end after two cycles. -/
def ScriptedWorkload.brief : ScriptedWorkload := ⟨[List.replicate 3 (.compute 1 1)]⟩

/-- A run in which three processes end and two are dropped together. When the second ends, the timer
interrupts the dispatcher run at its first checkpoint, and it is the inner run that drops them. -/
theorem flushesBy_of_reachable_brief : ∃ mo : Moment ScriptedWorkload,
    Moment.Reachable (.start { zombieThreshold := 2 } .brief none) mo ∧
    mo.ledger.machine.zombies.length < 2 ∧ mo.FlushesBy 2 ∧
    flushes mo.ledger.machine.events = [2] ∧
    endings mo.ledger.machine.events = [⟨0⟩, ⟨1⟩, ⟨2⟩] ∧
    mo.ledger.machine.zombies.map (·.pid) = [⟨2⟩] := by
  have run : ((Machine.start { zombieThreshold := 2 } ScriptedWorkload.brief none).performAll
      [.boot, .schedule .idle [], .tick [], .tick [], .tick [], .tick [[.timer]], .tick [],
        .tick []]).toOption.any (fun m =>
      flushes m.events == [2] && (endings m.events == [⟨0⟩, ⟨1⟩, ⟨2⟩] &&
        m.zombies.map (·.pid) == [⟨2⟩])) = true := by decide +kernel
  obtain ⟨mo, reachable, rest, test⟩ := Moment.exists_reachable_of_performAll run
  simp only [Bool.and_eq_true, beq_iff_eq] at test
  obtain ⟨fewer, flushes⟩ := flushesBy_of_reachable reachable rfl (by decide)
  exact ⟨mo, reachable, fewer rest, flushes, test⟩

end Mlfq
