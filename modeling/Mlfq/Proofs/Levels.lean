import Mlfq.Proofs.Channel.Rendezvous
import Mlfq.Proofs.Isolation
import Mlfq.Proofs.Journey.Passage
import Mlfq.Proofs.Run.ResetLog

/-! # Priorities count the quanta that were used up

The level of a process is the number of its quanta that have ended since the last priority reset at
which it was ready or running. A process that was parked or not queued yet keeps its level through a
reset, and nothing but the end of a quantum demotes. -/

namespace Mlfq

/-- Whether an event is the end of a quantum of process `pid`. -/
def Event.isExpiryOf (pid : Pid) : Event → Bool
  | .quantumExpired expired _ => expired = pid
  | _ => false

/-- The number of quanta of process `pid` that end in these events. -/
def expiries (pid : Pid) (es : List Event) : Nat := es.countP (Event.isExpiryOf pid)

theorem expiries_eq_zero {pid : Pid} {es : List Event}
    (h : ∀ priority, .quantumExpired pid priority ∉ es) : expiries pid es = 0 := by
  refine List.countP_eq_zero.2 fun e he => ?_
  cases e with
  | quantumExpired expired priority =>
    intro own
    obtain rfl : expired = pid := of_decide_eq_true own
    exact h priority he
  | _ => exact Bool.false_ne_true

theorem Priority.clamped_val_clamped_add (n k : Nat) :
    clamped ((clamped n).val + k) = clamped (n + k) := by
  apply Fin.ext
  simp only [val_clamped]
  omega

/-- These are the numbers of the events that are priority resets, counted from 1. -/
def MarksResets (marks : List Nat) (es : List Event) : Prop :=
  ∀ i, i + 1 ∈ marks ↔ ∃ n, es[i]? = some (.prioritiesReset n)

namespace MarksResets

variable {marks : List Nat} {es es' : List Event}

theorem append (h : MarksResets marks es) (none : ∀ n, .prioritiesReset n ∉ es') :
    MarksResets marks (es ++ es') := by
  intro i
  rw [h i]
  refine exists_congr fun n => ?_
  by_cases before : i < es.length
  · rw [List.getElem?_append_left before]
  · rw [List.getElem?_append_right (Nat.not_lt.1 before),
      List.getElem?_eq_none (Nat.not_lt.1 before)]
    exact iff_of_false nofun fun here => none n (List.mem_of_getElem? here)

theorem concat (h : MarksResets marks es) (n : Nat) :
    MarksResets (marks ++ [es.length + 1]) (es ++ [.prioritiesReset n]) := by
  intro i
  rw [List.mem_append, h i, List.mem_singleton]
  rcases Nat.lt_trichotomy i es.length with before | rfl | after
  · rw [List.getElem?_append_left before]
    exact or_iff_left (by omega)
  · rw [List.getElem?_concat_length]
    exact iff_of_true (.inr rfl) ⟨n, rfl⟩
  · rw [List.getElem?_eq_none (by omega), List.getElem?_eq_none (by simp; omega)]
    refine iff_of_false ?_ (by simp)
    rintro (⟨n, here⟩ | here)
    · cases here
    · omega

/-- The trace grows up to the next priority reset. -/
theorem append_concat (h : MarksResets marks es) (none : ∀ n, .prioritiesReset n ∉ es') (n : Nat) :
    MarksResets (marks ++ [(es ++ (es' ++ [Event.prioritiesReset n])).length])
      (es ++ (es' ++ [.prioritiesReset n])) := by
  simp only [← List.append_assoc]
  rw [List.length_append, List.length_singleton]
  exact (h.append none).concat n

end MarksResets

variable {σ : Type}

theorem Machine.mem_served {m : Machine σ} {pid : Pid} : pid ∈ m.served ↔
    ∃ x, m.Holds x ∧ x.2.pid = pid ∧ x.1.isServed = true := by
  rw [Machine.served, List.map_append, List.mem_append, List.mem_map, List.mem_map]
  constructor
  · rintro (⟨p, running, own⟩ | ⟨p, ready, own⟩)
    · exact ⟨(.cpu, p), running, own, rfl⟩
    · rw [ReadyQueue.toList_eq_flatMap, List.mem_flatMap] at ready
      obtain ⟨level, -, here⟩ := ready
      exact ⟨(.ready level, p), here, own, rfl⟩
  · rintro ⟨⟨place, p⟩, here, own, served⟩
    cases place with
    | cpu => exact .inl ⟨p, here, own⟩
    | ready level =>
      refine .inr ⟨p, ?_, own⟩
      rw [ReadyQueue.toList_eq_flatMap, List.mem_flatMap]
      exact ⟨level, List.mem_finRange level, here⟩
    | _ => cases served

namespace ResetLog

/-- The level of a process that had arrived as `q`, counted from its last reset or from its
arrival. -/
def level (log : ResetLog σ) (q : Proc) : Priority :=
  match log.lastReset? q.pid with
  | none => .clamped (q.priority.val + expiries q.pid log.machine.events)
  | some r => .clamped (expiries q.pid (log.machine.events.drop r.told))

/-- Every record has the level that the trace and the resets tell, and the resets are those of the
trace. -/
structure Leveled (log : ResetLog σ) : Prop where
  level : ∀ place, ∀ p ∈ log.machine.recordsAt place,
    ∃ q ∈ log.moment.guests, q.pid = p.pid ∧ p.priority = log.level q
  resets : MarksResets (log.resets.map (·.told)) log.machine.events

variable {log log' : ResetLog σ} {q : Proc} {r : Reset} {pid : Pid}

theorem mem_of_lastReset? (h : log.lastReset? pid = some r) : r ∈ log.resets ∧ pid ∈ r.covered := by
  have mem := List.mem_filter.1 (List.mem_of_getLast? h)
  exact ⟨mem.1, of_decide_eq_true mem.2⟩

theorem lastReset?_of_covered (more : log'.resets = log.resets ++ [r]) (h : pid ∈ r.covered) :
    log'.lastReset? pid = some r := by
  rw [lastReset?, more, List.filter_append, List.filter_cons_of_pos (by simpa using h)]
  exact List.getLast?_concat

theorem lastReset?_of_not_covered (more : log'.resets = log.resets ++ [r]) (h : pid ∉ r.covered) :
    log'.lastReset? pid = log.lastReset? pid := by
  rw [lastReset?, more, List.filter_append, List.filter_cons_of_neg (by simpa using h),
    List.filter_nil, List.append_nil]
  rfl

/-- Who was in no reset and whose quantum has not ended is at the level of its arrival. -/
theorem level_of_unknown (expired : ∀ priority, .quantumExpired q.pid priority ∉ log.machine.events)
    (covered : ∀ r ∈ log.resets, q.pid ∉ r.covered) : log.level q = q.priority := by
  have none : log.lastReset? q.pid = none := by
    cases last : log.lastReset? q.pid with
    | none => rfl
    | some r =>
      obtain ⟨mem, own⟩ := mem_of_lastReset? last
      exact absurd own (covered r mem)
  rw [level, none]
  simp only [expiries_eq_zero expired, Nat.add_zero, Priority.clamped_val]

/-- The quanta that end later count on top. -/
theorem level_later {es : List Event} (same : log'.lastReset? q.pid = log.lastReset? q.pid)
    (events : log'.machine.events = log.machine.events ++ es)
    (told : ∀ r ∈ log.resets, r.told ≤ log.machine.events.length) :
    log'.level q = .clamped ((log.level q).val + expiries q.pid es) := by
  rw [level, level, same, events]
  cases last : log.lastReset? q.pid with
  | none =>
    simp only [Priority.clamped_val_clamped_add, expiries, List.countP_append, Nat.add_assoc]
  | some r =>
    have early := told r (mem_of_lastReset? last).1
    simp only [Priority.clamped_val_clamped_add, expiries, List.drop_append_of_le_length early,
      List.countP_append]

/-- Where no quantum ends, the levels stay. -/
theorem level_same {es : List Event} (same : log'.lastReset? q.pid = log.lastReset? q.pid)
    (events : log'.machine.events = log.machine.events ++ es)
    (told : ∀ r ∈ log.resets, r.told ≤ log.machine.events.length)
    (quiet : ∀ priority, .quantumExpired q.pid priority ∉ es) : log'.level q = log.level q := by
  rw [level_later same events told, expiries_eq_zero quiet, Nat.add_zero, Priority.clamped_val]

end ResetLog

/-! ## What can change a level -/

namespace Moment

variable {mo mo' : Moment σ}

/-- A record of a process whose number nobody had before. -/
def Newcomer (mo mo' : Moment σ) (x : Place × Proc) : Prop :=
  ∃ q ∈ mo'.guests, q.pid ∉ mo.guests.map (·.pid) ∧ q.pid = x.2.pid ∧ q.priority = x.2.priority

/-- What happens to the levels between a moment and the next. -/
inductive Change (mo mo' : Moment σ) : Prop
  | quiet (told : ∀ e ∈ mo.told mo', e.topic ≠ .expiry ∧ e.topic ≠ .reset)
    (holds : ∀ x, mo'.ledger.machine.Holds x → mo.Newcomer mo' x ∨ ∃ y,
      mo.ledger.machine.Holds y ∧ x.2.pid = y.2.pid ∧ x.2.priority = y.2.priority)
  | reset {es : List Event} {n : Nat} (arrivals : ∀ e ∈ es, e.topic = .arrival)
    (told : mo.told mo' = es ++ [.prioritiesReset n])
    (holds : ∀ x, mo'.ledger.machine.Holds x → mo.Newcomer mo' x ∨ ∃ y,
      mo.ledger.machine.Holds y ∧ x = Machine.afterReset y)
  | expire {p : Proc} (running : mo.ledger.machine.running = some p)
    (told : mo.told mo' = [.quantumExpired p.pid p.priority.demoted])
    (holds : ∀ x, mo'.ledger.machine.Holds x → mo.ledger.machine.Holds x ∧ x.1 ≠ .cpu ∨
      x.2.pid = p.pid ∧ x.2.priority = p.priority.demoted)
    (queued : ∃ r, mo'.ledger.machine.Holds (.ready p.priority.demoted, r) ∧ r.pid = p.pid)

/-- What the books and the trace are at the next moment. -/
structure GoesOn (mo mo' : Moment σ) : Prop where
  tracing : mo'.ledger.machine.journal.tracing = true
  events : mo'.ledger.machine.events = mo.ledger.machine.events ++ mo.told mo'
  guests : mo.guests ⊆ mo'.guests

theorem guests_of_arrived {as : List Arrival}
    (arrived : mo'.ledger.arrived = mo.ledger.arrived ++ as) :
    mo'.guests = mo.guests ++ as.flatMap Arrival.procs := by
  rw [guests, arrived, List.flatMap_append]
  rfl

/-- Who arrives has a number that nobody had before. -/
theorem newcomer_of_enters {as : List Arrival} {x : Place × Proc}
    (arrived : mo'.ledger.arrived = mo.ledger.arrived ++ as)
    (distinct : Arrival.Distinct mo'.ledger.arrived) (h : Machine.Enters as x) :
    mo.Newcomer mo' x := by
  obtain ⟨a, ha, p, hp, plan, rfl⟩ := h
  have guests := guests_of_arrived arrived
  have mem : p ∈ as.flatMap Arrival.procs := List.mem_flatMap.2 ⟨a, ha, hp⟩
  have nodup : (mo'.guests.map (·.pid)).Nodup := distinct
  rw [guests, List.map_append, List.nodup_append] at nodup
  refine ⟨p, guests ▸ List.mem_append_right _ mem, fun old => ?_, rfl, rfl⟩
  exact nodup.2.2 _ old _ (List.mem_map_of_mem mem) rfl

/-- What is told between two moments, and an event after it. -/
theorem exists_told_of_emit {topics : List Event.Topic} {m : Machine σ} {e : Event}
    (tracing : mo.ledger.machine.journal.tracing = true) (tells : mo.ledger.machine.Tells topics m)
    (journal : mo'.ledger.machine.journal = (m.emit e).journal) :
    ∃ es, (∀ e ∈ es, e.topic ∈ topics) ∧ mo.told mo' = es ++ [e] ∧
      mo'.ledger.machine.journal.tracing = true ∧
      mo'.ledger.machine.events = mo.ledger.machine.events ++ mo.told mo' := by
  obtain ⟨tracing', es, topic, events⟩ := tells.journal
  rw [tracing] at tracing'
  have more : mo'.ledger.machine.events = mo.ledger.machine.events ++ (es ++ [e]) := by
    rw [Machine.events, journal, ← List.append_assoc]
    exact (Machine.events_emit tracing' e).trans (congrArg (· ++ [e]) events)
  refine ⟨es, topic, told_eq more, ?_, by rw [told_eq more, more]⟩
  rw [journal]
  exact (Journal.tracing_event ..).trans tracing'

theorem told_of_tells {topics : List Event.Topic}
    (tells : mo.ledger.machine.Tells topics mo'.ledger.machine) :
    mo'.ledger.machine.events = mo.ledger.machine.events ++ mo.told mo' ∧
      ∀ e ∈ mo.told mo', e.topic ∈ topics := by
  obtain ⟨-, es, topic, events⟩ := tells.journal
  have told : mo.told mo' = es := told_eq events
  rw [told]
  exact ⟨events, topic⟩

theorem Passage.change (passage : Passage mo mo')
    (tracing : mo.ledger.machine.journal.tracing = true)
    (distinct : Arrival.Distinct mo'.ledger.arrived) : GoesOn mo mo' ∧ Change mo mo' := by
  have guests : mo.guests ⊆ mo'.guests := by
    obtain ⟨as, arrived⟩ := passage.arrived_prefix
    exact guests_of_arrived arrived.symm ▸ List.subset_append_left ..
  have quiet : ∀ {topics}, mo.ledger.machine.Tells topics mo'.ledger.machine →
      .expiry ∉ topics ∧ .reset ∉ topics → GoesOn mo mo' ∧
        ∀ e ∈ mo.told mo', e.topic ≠ .expiry ∧ e.topic ≠ .reset := by
    intro topics tells quiet
    obtain ⟨events, topic⟩ := told_of_tells tells
    refine ⟨⟨tells.journal.1.trans tracing, events, guests⟩, fun e he => ?_⟩
    exact ⟨fun same => quiet.1 (same ▸ topic e he), fun same => quiet.2 (same ▸ topic e he)⟩
  cases passage with
  | move conveys tells silent =>
    obtain ⟨goesOn, told⟩ := quiet tells silent
    refine ⟨goesOn, .quiet told fun x hx => .inr ?_⟩
    obtain ⟨y, hy, path⟩ := conveys x hx
    exact ⟨y, hy, Moves.eq_of_path path⟩
  | stop holds tells =>
    obtain ⟨goesOn, told⟩ := quiet tells (by decide)
    refine ⟨goesOn, .quiet told fun x hx => .inr ?_⟩
    rcases holds x hx with before | ⟨p, running, rfl⟩
    · exact ⟨x, before, rfl, rfl⟩
    · exact ⟨(.cpu, p), Machine.holds_cpu.2 running, rfl, rfl⟩
  | arrive holds tells arrived =>
    obtain ⟨goesOn, told⟩ := quiet tells (by decide)
    refine ⟨goesOn, .quiet told fun x hx => ?_⟩
    rcases holds x hx with before | enters
    · exact .inr ⟨x, before, rfl, rfl⟩
    · exact .inl (newcomer_of_enters arrived distinct enters)
  | reset holds tells after arrived =>
    obtain ⟨es, topic, told, tracing, events⟩ :=
      exists_told_of_emit tracing tells (congrArg Machine.journal after)
    refine ⟨⟨tracing, events, guests⟩, .reset (fun e he => List.mem_singleton.1 (topic e he)) told
      fun x hx => ?_⟩
    exact (holds x hx).symm.imp (newcomer_of_enters arrived distinct) (·)
  | expire running holds queued tells journal =>
    obtain ⟨es, topic, told, tracing, events⟩ := exists_told_of_emit tracing tells journal
    obtain rfl : es = [] :=
      List.eq_nil_iff_forall_not_mem.2 fun e he => List.not_mem_nil (topic e he)
    refine ⟨⟨tracing, events, guests⟩, .expire running told (fun x hx => ?_) queued⟩
    rcases holds x hx with before | rfl
    · exact .inl before
    · exact .inr ⟨rfl, rfl⟩

theorem resets_of_quiet (quiet : ∀ n, .prioritiesReset n ∉ mo.told mo') : mo.resets mo' = [] := by
  refine if_neg fun some => ?_
  obtain ⟨e, he, topic⟩ := List.any_eq_true.1 some
  cases e with
  | prioritiesReset n => exact quiet n he
  | _ => cases topic

theorem resets_of_told {n : Nat} (told : .prioritiesReset n ∈ mo.told mo') :
    mo.resets mo' = [⟨mo'.ledger.machine.events.length, mo.ledger.machine.served⟩] :=
  if_pos (List.any_eq_true.2 ⟨_, told, rfl⟩)

end Moment

/-! ## What carries the levels through a run -/

namespace ResetLog

variable {log log' : ResetLog σ}

/-- Everything that the trace and the resets tell is about somebody who has arrived. -/
structure Tracks (log : ResetLog σ) : Prop where
  tracing : log.machine.journal.tracing = true
  leveled : log.Leveled
  expired : ∀ pid priority, .quantumExpired pid priority ∈ log.machine.events →
    pid ∈ log.moment.guests.map (·.pid)
  covered : ∀ r ∈ log.resets, ∀ pid ∈ r.covered, pid ∈ log.moment.guests.map (·.pid)
  told : ∀ r ∈ log.resets, r.told ≤ log.machine.events.length

namespace Tracks

theorem start {config : Config} {workload : σ} {logLevel : Option Level}
    (tracing : config.recordTrace = true) :
    Tracks ⟨⟨{ machine := .start config workload logLevel }, []⟩, []⟩ := by
  refine ⟨tracing, ⟨fun place p hp => ?_, ?_⟩, nofun, nofun, nofun⟩
  · exact absurd hp (Machine.not_holds_start (place, p))
  · exact fun i => iff_of_false nofun fun ⟨n, told⟩ => nomatch told

/-- Whose record is somewhere has arrived. -/
theorem known (h : log.Tracks) {x : Place × Proc} (hx : log.machine.Holds x) :
    x.2.pid ∈ log.moment.guests.map (·.pid) := by
  obtain ⟨q, mem, own, -⟩ := h.leveled.level x.1 x.2 hx
  exact List.mem_map.2 ⟨q, mem, own⟩

/-- A process that has just arrived is at the level of its arrival. -/
theorem level_of_newcomer (h : log.Tracks) {x : Place × Proc}
    (new : log.moment.Newcomer log'.moment x)
    (expired : ∀ pid priority, .quantumExpired pid priority ∈ log'.machine.events →
      pid ∈ log.moment.guests.map (·.pid))
    (covered : ∀ r ∈ log'.resets, r ∈ log.resets ∨ r.covered = log.machine.served) :
    ∃ q ∈ log'.moment.guests, q.pid = x.2.pid ∧ x.2.priority = log'.level q := by
  obtain ⟨q, mem, unknown, own, priority⟩ := new
  refine ⟨q, mem, own, ?_⟩
  rw [level_of_unknown (fun priority told => unknown (expired _ _ told)) fun r hr own => unknown ?_]
  · exact priority.symm
  · rcases covered r hr with old | served
    · exact h.covered r old _ own
    · obtain ⟨y, hy, pid, -⟩ := Machine.mem_served.1 (served ▸ own)
      exact pid ▸ h.known hy

/-- Between two moments no priorities are reset. -/
theorem of_unreset (h : log.Tracks) (goesOn : log.moment.GoesOn log'.moment)
    (unreset : ∀ n, .prioritiesReset n ∉ log.moment.told log'.moment)
    (resets : log'.resets = log.resets ++ log.moment.resets log'.moment)
    (expired : ∀ pid priority, .quantumExpired pid priority ∈ log.moment.told log'.moment →
      pid ∈ log.moment.guests.map (·.pid))
    (level : log'.resets = log.resets → ∀ x, log'.machine.Holds x →
      ∃ q ∈ log'.moment.guests, q.pid = x.2.pid ∧ x.2.priority = log'.level q) : log'.Tracks := by
  have known : ∀ {pid}, pid ∈ log.moment.guests.map (·.pid) →
      pid ∈ log'.moment.guests.map (·.pid) := fun mem => List.map_subset _ goesOn.guests mem
  have events : log'.machine.events = _ := goesOn.events
  have same : log'.resets = log.resets := by
    rw [resets, Moment.resets_of_quiet unreset, List.append_nil]
  refine ⟨goesOn.tracing, ⟨fun place p hp => level same (place, p) hp, ?_⟩, ?_, ?_, ?_⟩
  · rw [same, events]
    exact h.leveled.resets.append unreset
  · intro pid priority mem
    rw [events] at mem
    exact known ((List.mem_append.1 mem).elim (h.expired pid priority) (expired pid priority))
  · rw [same]
    exact fun r hr pid mem => known (h.covered r hr pid mem)
  · rw [same, events, List.length_append]
    exact fun r hr => (h.told r hr).trans (Nat.le_add_right ..)

theorem of_quiet (h : log.Tracks) (goesOn : log.moment.GoesOn log'.moment)
    (resets : log'.resets = log.resets ++ log.moment.resets log'.moment)
    (told : ∀ e ∈ log.moment.told log'.moment, e.topic ≠ .expiry ∧ e.topic ≠ .reset)
    (holds : ∀ x, log'.machine.Holds x → log.moment.Newcomer log'.moment x ∨ ∃ y,
      log.machine.Holds y ∧ x.2.pid = y.2.pid ∧ x.2.priority = y.2.priority) : log'.Tracks := by
  have unexpired : ∀ pid priority, .quantumExpired pid priority ∉ log.moment.told log'.moment :=
    fun pid priority mem => (told _ mem).1 rfl
  refine h.of_unreset goesOn (fun n mem => (told _ mem).2 rfl) resets
    (fun pid priority mem => absurd mem (unexpired pid priority)) fun same x hx => ?_
  rcases holds x hx with new | ⟨y, hy, pid, priority⟩
  · refine h.level_of_newcomer new (fun pid priority mem => ?_) (same ▸ fun r => .inl)
    have events : log'.machine.events = _ := goesOn.events
    rw [events] at mem
    exact (List.mem_append.1 mem).elim (h.expired pid priority) (absurd · (unexpired pid priority))
  · obtain ⟨q, mem, own, level⟩ := h.leveled.level y.1 y.2 hy
    refine ⟨q, goesOn.guests mem, own.trans pid.symm, ?_⟩
    rw [priority, level]
    exact (level_same (by rw [lastReset?, same]; rfl) goesOn.events h.told fun _ =>
      unexpired _ _).symm

theorem of_expire (h : log.Tracks) (goesOn : log.moment.GoesOn log'.moment)
    (unique : ∀ {x y}, log.machine.Holds x → log.machine.Holds y → x.2.pid = y.2.pid → x = y)
    (resets : log'.resets = log.resets ++ log.moment.resets log'.moment) {p : Proc}
    (running : log.machine.running = some p)
    (told : log.moment.told log'.moment = [.quantumExpired p.pid p.priority.demoted])
    (holds : ∀ x, log'.machine.Holds x → log.machine.Holds x ∧ x.1 ≠ .cpu ∨
      x.2.pid = p.pid ∧ x.2.priority = p.priority.demoted) : log'.Tracks := by
  have here : log.machine.Holds (.cpu, p) := Machine.holds_cpu.2 running
  refine h.of_unreset goesOn (by simp [told]) resets ?_ fun same x hx => ?_
  · intro pid priority mem
    rw [told, List.mem_singleton] at mem
    obtain ⟨rfl, -⟩ := Event.quantumExpired.inj mem
    exact h.known here
  have events : log'.machine.events = log.machine.events ++
      [.quantumExpired p.pid p.priority.demoted] := told ▸ goesOn.events
  have later : ∀ q, log'.level q = .clamped ((log.level q).val +
      expiries q.pid [.quantumExpired p.pid p.priority.demoted]) :=
    fun q => level_later (by rw [lastReset?, same]; rfl) events h.told
  rcases holds x hx with ⟨before, away⟩ | ⟨pid, priority⟩
  · obtain ⟨q, mem, own, level⟩ := h.leveled.level x.1 x.2 before
    have other : q.pid ≠ p.pid := by
      intro equal
      rw [unique before here (own.symm.trans equal)] at away
      exact away rfl
    refine ⟨q, goesOn.guests mem, own, ?_⟩
    rw [later, expiries_eq_zero (by simpa using other), level, Nat.add_zero, Priority.clamped_val]
  · obtain ⟨q, mem, own, level⟩ := h.leveled.level .cpu p here
    have one : expiries q.pid [.quantumExpired p.pid p.priority.demoted] = 1 := by
      rw [own]
      simp [expiries, Event.isExpiryOf]
    refine ⟨q, goesOn.guests mem, own.trans pid.symm, ?_⟩
    rw [priority, later, one, ← level]
    rfl

/-- A priority reset lifts who is ready or running to the highest level, and counts as their last
one; all others keep their levels and their last resets. -/
theorem level_afterReset (h : log.Tracks)
    (unique : ∀ {x y}, log.machine.Holds x → log.machine.Holds y → x.2.pid = y.2.pid → x = y)
    (more : log'.resets = log.resets ++ [⟨log'.machine.events.length, log.machine.served⟩])
    {es : List Event} (events : log'.machine.events = log.machine.events ++ es)
    (unexpired : ∀ pid priority, .quantumExpired pid priority ∉ es) {y : Place × Proc}
    (hy : log.machine.Holds y) : ∃ q ∈ log.moment.guests, q.pid = (Machine.afterReset y).2.pid ∧
      (Machine.afterReset y).2.priority = log'.level q := by
  obtain ⟨q, mem, own, level⟩ := h.leveled.level y.1 y.2 hy
  refine ⟨q, mem, own.trans (Machine.pid_afterReset y).symm, ?_⟩
  cases served : y.1.isServed with
  | true =>
    have covered : q.pid ∈ log.machine.served := Machine.mem_served.2 ⟨y, hy, own.symm, served⟩
    rw [Machine.priority_afterReset served, ResetLog.level, lastReset?_of_covered more covered]
    simp only [List.drop_length]
    rfl
  | false =>
    have other : q.pid ∉ log.machine.served := by
      intro mem
      obtain ⟨z, hz, pid, served'⟩ := Machine.mem_served.1 mem
      rw [unique hz hy (pid.trans own), served] at served'
      cases served'
    rw [Machine.afterReset_eq_self served, level]
    exact (level_same (lastReset?_of_not_covered more other) events h.told (unexpired _)).symm

theorem of_reset (h : log.Tracks) (goesOn : log.moment.GoesOn log'.moment)
    (unique : ∀ {x y}, log.machine.Holds x → log.machine.Holds y → x.2.pid = y.2.pid → x = y)
    (resets : log'.resets = log.resets ++ log.moment.resets log'.moment) {es : List Event} {n : Nat}
    (arrivals : ∀ e ∈ es, e.topic = .arrival)
    (told : log.moment.told log'.moment = es ++ [.prioritiesReset n])
    (holds : ∀ x, log'.machine.Holds x → log.moment.Newcomer log'.moment x ∨ ∃ y,
      log.machine.Holds y ∧ x = Machine.afterReset y) : log'.Tracks := by
  have known : ∀ {pid}, pid ∈ log.moment.guests.map (·.pid) →
      pid ∈ log'.moment.guests.map (·.pid) := fun mem => List.map_subset _ goesOn.guests mem
  have events : log'.machine.events = log.machine.events ++ (es ++ [.prioritiesReset n]) :=
    told ▸ goesOn.events
  have unexpired : ∀ pid priority, .quantumExpired pid priority ∉ es ++ [.prioritiesReset n] := by
    intro pid priority mem
    rcases List.mem_append.1 mem with mem | mem
    · cases arrivals _ mem
    · cases List.mem_singleton.1 mem
  have expired : ∀ pid priority, .quantumExpired pid priority ∈ log'.machine.events →
      pid ∈ log.moment.guests.map (·.pid) := by
    intro pid priority mem
    rw [events] at mem
    exact (List.mem_append.1 mem).elim (h.expired pid priority) (absurd · (unexpired pid priority))
  have more : log'.resets = log.resets ++ [⟨log'.machine.events.length, log.machine.served⟩] := by
    rw [resets, Moment.resets_of_told (told ▸ List.mem_append_right _ List.mem_cons_self)]
    rfl
  have old_or_new : ∀ r ∈ log'.resets, r ∈ log.resets ∨
      r = ⟨log'.machine.events.length, log.machine.served⟩ := by
    intro r hr
    rw [more] at hr
    exact (List.mem_append.1 hr).imp (·) List.mem_singleton.1
  refine ⟨goesOn.tracing, ⟨fun place p hp => ?_, ?_⟩, fun pid priority mem =>
    known (expired pid priority mem), fun r hr pid mem => known ?_, fun r hr => ?_⟩
  · rcases holds (place, p) hp with new | ⟨y, hy, same⟩
    · exact h.level_of_newcomer new expired fun r hr =>
        (old_or_new r hr).imp (·) (congrArg Reset.covered)
    · obtain rfl : p = (Machine.afterReset y).2 := congrArg Prod.snd same
      obtain ⟨q, mem, level⟩ := h.level_afterReset unique more events unexpired hy
      exact ⟨q, goesOn.guests mem, level⟩
  · have unreset : ∀ n, .prioritiesReset n ∉ es := fun n mem => nomatch arrivals _ mem
    rw [more, List.map_append, events]
    exact h.leveled.resets.append_concat unreset n
  · rcases old_or_new r hr with old | rfl
    · exact h.covered r old pid mem
    · obtain ⟨y, hy, rfl, -⟩ := Machine.mem_served.1 mem
      exact h.known hy
  · rcases old_or_new r hr with old | rfl
    · rw [events, List.length_append]
      exact (h.told r old).trans (Nat.le_add_right ..)
    · exact Nat.le_refl _

variable [Workload σ] {config : Config} {workload : σ} {logLevel : Option Level}

theorem next (h : log.Tracks)
    (reachable : Moment.Reachable (.start config workload logLevel) log.moment)
    (next : Next log log') (distinct : Arrival.Distinct log'.moment.ledger.arrived) :
    log'.Tracks := by
  have passage := next.1.passage (Moment.tidy_of_reachable reachable).locks
  have unique := fun {x y} => Moment.record_unique reachable
    (Scene.distinct_of_prefix passage.arrived_prefix distinct) (x := x) (y := y)
  obtain ⟨goesOn, change⟩ := passage.change h.tracing distinct
  cases change with
  | quiet told holds => exact h.of_quiet goesOn next.2 told holds
  | reset arrivals told holds => exact h.of_reset goesOn unique next.2 arrivals told holds
  | expire running told holds => exact h.of_expire goesOn unique next.2 running told holds

theorem of_reachable (reachable : Reachable (.start config workload logLevel) log)
    (tracing : config.recordTrace = true)
    (distinct : Arrival.Distinct log.moment.ledger.arrived) : log.Tracks := by
  induction reachable with
  | refl => exact .start tracing
  | tail path next ih =>
    have tidy := (Moment.tidy_of_reachable (Reachable.moment path)).locks
    have earlier := Moment.Passage.arrived_prefix (next.1.passage tidy)
    exact (ih (Scene.distinct_of_prefix earlier distinct)).next (Reachable.moment path) next
      distinct

end Tracks
end ResetLog

/-- What a moment of a run and the next have to do with the levels. A quantum that ends between the
two is told with the level that its process has afterwards, and a level changes only at the end of a
quantum or, for a process that is ready or running, at a priority reset. -/
structure Moment.Relevels (mo mo' : Moment σ) : Prop where
  expired : ∀ pid priority, .quantumExpired pid priority ∈ mo.told mo' →
    (∃ p ∈ mo'.ledger.machine.recordsAt (.ready priority), p.pid = pid) ∧
    ∀ place, ∀ p ∈ mo'.ledger.machine.recordsAt place, p.pid = pid → p.priority = priority
  changed : ∀ place, ∀ p ∈ mo.ledger.machine.recordsAt place,
    ∀ place', ∀ p' ∈ mo'.ledger.machine.recordsAt place', p'.pid = p.pid →
    p'.priority ≠ p.priority → .quantumExpired p.pid p'.priority ∈ mo.told mo' ∨
      (∃ n, .prioritiesReset n ∈ mo.told mo') ∧ place.isServed = true

/-- Who is there before a moment is no newcomer. -/
theorem Moment.Newcomer.pid_ne {mo mo' : Moment σ} {x : Place × Proc} (h : mo.Newcomer mo' x)
    {pid : Pid} (known : pid ∈ mo.guests.map (·.pid)) : x.2.pid ≠ pid := by
  obtain ⟨q, -, unknown, own, -⟩ := h
  rintro rfl
  exact unknown (own ▸ known)

theorem ResetLog.Tracks.relevels {log : ResetLog σ} {mo' : Moment σ} (h : log.Tracks)
    (unique : ∀ {x y}, log.machine.Holds x → log.machine.Holds y → x.2.pid = y.2.pid → x = y)
    (change : log.moment.Change mo') : log.moment.Relevels mo' := by
  cases change with
  | quiet told holds =>
    refine ⟨fun pid priority mem => absurd rfl (told _ mem).1,
      fun place p hp place' p' hp' own ne => ?_⟩
    have hx : log.machine.Holds (place, p) := hp
    rcases holds (place', p') hp' with new | ⟨y, hy, pid, priority⟩
    · exact absurd own (new.pid_ne (h.known hx))
    · rw [unique hy hx (pid.symm.trans own)] at priority
      exact absurd priority ne
  | @reset es n arrivals told holds =>
    refine ⟨fun pid priority mem => ?_, fun place p hp place' p' hp' own ne => .inr ⟨⟨n, ?_⟩, ?_⟩⟩
    · rw [told] at mem
      rcases List.mem_append.1 mem with mem | mem
      · cases arrivals _ mem
      · cases List.mem_singleton.1 mem
    · rw [told]
      exact List.mem_append_right _ List.mem_cons_self
    · have hx : log.machine.Holds (place, p) := hp
      rcases holds (place', p') hp' with new | ⟨y, hy, same⟩
      · exact absurd own (new.pid_ne (h.known hx))
      · obtain rfl : p' = (Machine.afterReset y).2 := congrArg Prod.snd same
        obtain rfl := unique hy hx ((Machine.pid_afterReset y).symm.trans own)
        by_contra away
        rw [Machine.afterReset_eq_self (Bool.eq_false_iff.2 away)] at ne
        exact ne rfl
  | @expire p running told holds queued =>
    have here : log.machine.Holds (.cpu, p) := Machine.holds_cpu.2 running
    refine ⟨fun pid priority mem => ?_, fun place r hr place' r' hr' own ne => .inl ?_⟩
    · rw [told, List.mem_singleton] at mem
      obtain ⟨rfl, rfl⟩ := Event.quantumExpired.inj mem
      refine ⟨queued, fun place r hr own => ?_⟩
      rcases holds (place, r) hr with ⟨before, away⟩ | ⟨-, priority⟩
      · rw [unique before here own] at away
        exact absurd rfl away
      · exact priority
    · have hx : log.machine.Holds (place, r) := hr
      rcases holds (place', r') hr' with ⟨before, -⟩ | ⟨pid, priority⟩
      · rw [(Prod.mk.inj (unique before hx own)).2] at ne
        exact absurd rfl ne
      · rw [told, List.mem_singleton, ← own]
        exact congrArg₂ _ pid priority

/-- At every moment of every run each process is at the level that its quanta since the last
priority reset make it, if the reset found it ready or running; and from this moment to the next a
level changes only with a quantum or a reset of that sort. -/
theorem leveled_of_reachable [Workload σ] {config : Config} {workload : σ}
    {logLevel : Option Level} {log : ResetLog σ}
    (reachable : ResetLog.Reachable (.start config workload logLevel) log)
    (tracing : config.recordTrace = true)
    (distinct : Arrival.Distinct log.moment.ledger.arrived) :
    log.Leveled ∧ ∀ mo', Moment.Next log.moment mo' → Arrival.Distinct mo'.ledger.arrived →
      log.moment.Relevels mo' := by
  have tracks := ResetLog.Tracks.of_reachable reachable tracing distinct
  have unique := fun {x y} => Moment.record_unique reachable.moment distinct (x := x) (y := y)
  refine ⟨tracks.leveled, fun mo' next later => tracks.relevels unique ?_⟩
  exact ((next.passage (Moment.tidy_of_reachable reachable.moment).locks).change tracks.tracing
    later).2

/-- A process that makes a request in its first step, and one that makes none. -/
def Arrival.asker : List Arrival :=
  [.single (.ioBound ⟨0⟩ 9 0 [.ofList [1]]), .single (.computeBound ⟨1⟩ 9 0)]

/-- A run in which the priorities are reset while one process is parked, which stays at level 1, and
the other one runs, whose second quantum ends in the same dispatcher run: it is at level 1 too. -/
theorem leveled_of_reachable_asker : ∃ log : ResetLog GivenArrivals,
    ResetLog.Reachable (.start { baseQuantum := 3, quantumStep := 0, resetMultiple := 1 }
      ⟨Arrival.asker⟩ none) log ∧ log.Leveled ∧
    log.machine.priorityResets = 1 ∧
    (∃ p ∈ log.machine.recordsAt (.ready (.clamped 1)), p.pid = ⟨0⟩) ∧
    expiries ⟨0⟩ log.machine.events = 1 ∧
    (∃ p ∈ log.machine.recordsAt .cpu, p.pid = ⟨1⟩ ∧ p.priority = .clamped 1) ∧
    expiries ⟨1⟩ log.machine.events = 2 := by
  have run : ((Machine.start { baseQuantum := 3, quantumStep := 0, resetMultiple := 1 }
      (⟨Arrival.asker⟩ : GivenArrivals) none).performAll
        [.boot, .tick [], .timerInterrupt [], .timerInterrupt [], .tick [], .tick [],
          .timerInterrupt [], .ioInterrupt ⟨0⟩ []]).toOption.any (fun m =>
      m.priorityResets == 1 &&
        ((m.recordsAt (.ready (.clamped 1))).any (·.pid = ⟨0⟩) && (expiries ⟨0⟩ m.events == 1 &&
          ((m.recordsAt .cpu).any (fun p => p.pid = ⟨1⟩ ∧ p.priority = .clamped 1) &&
            expiries ⟨1⟩ m.events == 2)))) = true := by decide +kernel
  obtain ⟨mo, reachable, -, test⟩ := Moment.exists_reachable_of_performAll run
  have distinct : Arrival.Distinct mo.ledger.arrived := by
    rcases Moment.arrived_of_given reachable with nobody | everybody
    · exact nobody ▸ List.nodup_nil
    · rw [everybody, Arrival.Distinct]
      decide
  simp only [Bool.and_eq_true, List.any_eq_true, beq_iff_eq, decide_eq_true_eq] at test
  obtain ⟨resets, logged⟩ := ResetLog.exists_reachable reachable
  exact ⟨_, logged, (leveled_of_reachable logged rfl distinct).1, test⟩

end Mlfq
