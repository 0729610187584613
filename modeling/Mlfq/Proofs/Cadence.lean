import Mlfq.Proofs.Run.Calendar
import Mlfq.Proofs.Run.Command
import Mlfq.Workload.Scripted

/-! # The cadence of the priority resets

A dispatcher run resets the priorities in its first phase if enough cycles have passed since the
last reset. Cycles pass outside dispatcher runs only. So of all the runs that are one inside the
other when a reset is due only one makes it, and a run that is past its first phase finds that no
reset is due. -/

namespace Mlfq

/-! ## Entries -/

namespace Entry

variable {interval : Nat} {entries : List Entry}

/-- Every reset has so many cycles between itself and the one before, or the start. -/
def Spaced (interval : Nat) (entries : List Entry) : Prop :=
  ∀ before batch after, entries = before ++ .reset batch :: after → interval ≤ sinceReset before

theorem spaced_nil (interval : Nat) : Spaced interval [] := by
  intro before batch after split
  cases (List.append_eq_nil_iff.1 split.symm).2

theorem spaced_concat_iff {entry : Entry} : Spaced interval (entries ++ [entry]) ↔
    Spaced interval entries ∧ (entry.isReset = true → interval ≤ sinceReset entries) := by
  constructor
  · intro spaced
    refine ⟨fun before batch after split => ?_, fun last => ?_⟩
    · apply spaced before batch (after ++ [entry])
      rw [split, List.append_assoc, List.cons_append]
    · cases entry with
      | cycle | request => cases last
      | reset batch => exact spaced entries batch [] rfl
  · rintro ⟨spaced, last⟩ before batch after split
    induction after using List.reverseRecOn with
    | nil =>
      obtain ⟨rfl, same⟩ := List.append_inj' split rfl
      cases same
      exact last rfl
    | append_singleton after entry' =>
      rw [← List.cons_append, ← List.append_assoc] at split
      exact spaced before batch after (List.append_inj' split rfl).1

/-- Any two resets have so many cycles between them. -/
theorem Spaced.le_cycles (h : Spaced interval entries) {before between after : List Entry}
    {batch batch' : List Arrival}
    (split : entries = before ++ .reset batch :: (between ++ .reset batch' :: after)) :
    interval ≤ cycles between := by
  have spaced := h (before ++ .reset batch :: between) batch' after (by simp [split])
  exact spaced.trans (sinceReset_append_le before batch between)

/-- No more resets fit into the cycles. -/
theorem Spaced.resets_mul_le (h : Spaced interval entries) :
    entries.countP isReset * interval + sinceReset entries ≤ cycles entries := by
  induction entries using List.reverseRecOn with
  | nil => simp [sinceReset, cycles]
  | append_singleton entries entry ih =>
    obtain ⟨earlier, last⟩ := spaced_concat_iff.1 h
    have before := ih earlier
    rw [List.countP_append, sinceReset_concat, cycles_append]
    by_cases reset : entry.isReset = true
    · have due := last reset
      simp only [List.countP_singleton, reset, if_true, Nat.succ_mul]
      omega
    · simp only [List.countP_singleton, reset, Bool.false_eq_true, if_false, Nat.add_zero]
      omega

end Entry

/-! ## Runs -/

variable {σ : Type} {config : Config} {mo mo' : Moment σ} {entries : List Entry}

/-- The machine counts what is entered. -/
structure Entry.Kept (mo : Moment σ) (entries : List Entry) (config : Config) : Prop where
  configured : mo.ledger.machine.config = config
  sinceReset : mo.ledger.machine.sinceReset = Entry.sinceReset entries
  iteration : mo.ledger.machine.iteration = Entry.cycles entries
  priorityResets : mo.ledger.machine.priorityResets = entries.countP Entry.isReset
  arrived : mo.ledger.arrived = (entries.filterMap Entry.batch?).flatten
  spaced : Entry.Spaced config.resetInterval entries
  past : Duty.Past mo.pending → mo.ledger.machine.sinceReset < config.resetInterval

namespace Entry.Kept

theorem start (config : Config) (workload : σ) (logLevel : Option Level) :
    Kept ⟨{ machine := .start config workload logLevel }, []⟩ [] config where
  configured := rfl
  sinceReset := rfl
  iteration := rfl
  priorityResets := rfl
  arrived := rfl
  spaced := Entry.spaced_nil _
  past passed := absurd passed Duty.Past.not_nil

/-- One more entry, for what the machine counts from a moment to the next. -/
theorem concat {entry : Entry} (h : Kept mo entries config)
    (clock : mo'.ledger.machine.clock = (mo.ledger.machine.config,
      if entry.isReset then 0 else mo.ledger.machine.sinceReset + cycles [entry],
      mo.ledger.machine.iteration + cycles [entry],
      mo.ledger.machine.priorityResets + [entry].countP isReset))
    (arrived : mo'.ledger.arrived = mo.ledger.arrived ++ entry.batch?.getD [])
    (due : entry.isReset = true → config.resetInterval ≤ mo.ledger.machine.sinceReset)
    (past : Duty.Past mo'.pending → mo'.ledger.machine.sinceReset < config.resetInterval) :
    Kept mo' (entries ++ [entry]) config := by
  obtain ⟨configured, sinceReset, iteration, priorityResets⟩ := Machine.of_clock clock
  refine ⟨configured.trans h.configured, ?_, ?_, ?_, ?_, ?_, past⟩
  · rw [sinceReset, sinceReset_concat, h.sinceReset]
  · rw [iteration, cycles_append, h.iteration]
  · rw [priorityResets, List.countP_append, h.priorityResets]
  · rw [arrived, h.arrived, List.filterMap_append, List.flatten_append]
    cases entry <;> simp [batch?]
  · exact spaced_concat_iff.2 ⟨h.spaced, fun reset => h.sinceReset ▸ due reset⟩

theorem append [Workload σ] {added : List Entry} (h : Kept mo entries config)
    (positive : 0 < config.resetInterval) (entered : mo.Entered mo' added) :
    Kept mo' (entries ++ added) config := by
  cases entered with
  | quiet clock source arrived past =>
    obtain ⟨configured, sinceReset, iteration, priorityResets⟩ := Machine.of_clock clock
    rw [List.append_nil]
    refine ⟨configured.trans h.configured, sinceReset.trans h.sinceReset,
      iteration.trans h.iteration, priorityResets.trans h.priorityResets,
      arrived.trans h.arrived, h.spaced, fun later => ?_⟩
    rw [sinceReset]
    rcases past later with earlier | early
    · exact h.past earlier
    · exact h.configured ▸ early
  | cycle clock source arrived first =>
    refine h.concat clock ?_ nofun fun later => absurd later first
    exact arrived.trans (List.append_nil _).symm
  | request clock asks arrived rest =>
    refine h.concat clock arrived nofun fun later => ?_
    rw [rest] at later
    exact absurd later Duty.Past.not_nil
  | reset due clock asks arrived =>
    refine h.concat clock arrived (fun _ => h.configured ▸ due) fun _ => ?_
    rw [(Machine.of_clock clock).2.1]
    exact positive

end Entry.Kept

/-- The resets of a run and the batches for which they ask, when a reset is due every so many
cycles. -/
structure Calendar.Cadenced (c : Calendar σ) (interval : Nat) : Prop where
  sinceReset : c.machine.sinceReset = c.sinceReset
  iteration : c.machine.iteration = c.cycles
  priorityResets : c.machine.priorityResets = c.resets
  /-- The first reset is so many cycles after the start. -/
  first : ∀ between batch after, c.entries = between ++ .reset batch :: after →
    interval ≤ Entry.cycles between
  /-- Any two resets are so many cycles apart. -/
  apart : ∀ before batch between batch' after,
    c.entries = before ++ .reset batch :: (between ++ .reset batch' :: after) →
    interval ≤ Entry.cycles between
  bounded : c.machine.priorityResets * interval ≤ c.machine.iteration
  /-- No reset is due when a dispatcher run has its first phase behind it, nor when it is over. -/
  within : ∀ cause left, .phases cause left ∈ c.moment.pending → .priorityReset ∉ left →
    c.machine.sinceReset < interval
  batches : c.batches.length = c.requests + c.machine.priorityResets
  arrived : c.moment.ledger.arrived = c.batches.flatten

/-- The batches for which the workload is asked between a moment and the next. -/
inductive Moment.Asked [Workload σ] (mo mo' : Moment σ) : List (List Arrival) → Prop
  | never (source : mo'.ledger.machine.source = mo.ledger.machine.source)
    (arrived : mo'.ledger.arrived = mo.ledger.arrived) : Asked mo mo' []
  | once {batch : List Arrival} (asks : mo.ledger.machine.Asks batch mo'.ledger.machine)
    (arrived : mo'.ledger.arrived = mo.ledger.arrived ++ batch) : Asked mo mo' [batch]

variable [Workload σ] {workload : σ} {logLevel : Option Level} {c : Calendar σ}

theorem Moment.Entered.asked {added : List Entry} (entered : mo.Entered mo' added) :
    mo.Asked mo' (added.filterMap Entry.batch?) := by
  cases entered with
  | quiet clock source arrived | cycle clock source arrived => exact .never source arrived
  | request clock asks arrived | reset due clock asks arrived => exact .once asks arrived

/-- The batches that are entered are those for which the workload is asked. -/
theorem Calendar.Next.exists_asked {c' : Calendar σ} (next : Calendar.Next c c') :
    ∃ asked, c'.batches = c.batches ++ asked ∧ c.moment.Asked c'.moment asked := by
  obtain ⟨added, more, entered⟩ := next.exists_entered
  refine ⟨added.filterMap Entry.batch?, ?_, entered.asked⟩
  rw [Calendar.batches, more, List.filterMap_append, ← Calendar.batches]

theorem Calendar.kept_of_reachable
    (reachable : Calendar.Reachable (.start config workload logLevel) c)
    (positive : 0 < config.resetInterval) : Entry.Kept c.moment c.entries config := by
  induction reachable with
  | refl => exact .start config workload logLevel
  | tail _ next ih =>
    obtain ⟨added, more, entered⟩ := next.exists_entered
    rw [more]
    exact ih.append positive entered

/-- At every moment of every run the machine knows how many cycles have passed since the last
priority reset, at the end of a dispatcher run these are fewer than the interval, and any two resets
are at least the interval apart. The workload is asked for a batch from outside and once for every
reset, and at no other time. From this moment to the next it is asked once if at all, and the
processes of the whole batch become the last newcomers in their order. -/
theorem cadenced_of_reachable
    (reachable : Calendar.Reachable (.start config workload logLevel) c)
    (positive : 0 < config.resetInterval) :
    c.Cadenced config.resetInterval ∧ ∀ c', Calendar.Next c c' →
      ∃ asked, c'.batches = c.batches ++ asked ∧ c.moment.Asked c'.moment asked := by
  have kept := Calendar.kept_of_reachable reachable positive
  refine ⟨?_, fun c' next => next.exists_asked⟩
  have fit := kept.spaced.resets_mul_le
  constructor
  case sinceReset => exact kept.sinceReset
  case iteration => exact kept.iteration
  case priorityResets => exact kept.priorityResets
  case first =>
    intro between batch after split
    exact (kept.spaced between batch after split).trans (Entry.sinceReset_le between)
  case apart =>
    intro before batch between batch' after split
    exact kept.spaced.le_cycles split
  case bounded =>
    rw [← kept.priorityResets, ← kept.iteration] at fit
    exact (Nat.le_add_right ..).trans fit
  case within =>
    intro cause left pending passed
    exact kept.past ⟨cause, left, pending, passed⟩
  case batches => rw [c.length_batches]; exact congrArg (c.requests + ·) kept.priorityResets.symm
  case arrived => exact kept.arrived

/-- Three batches, the first with two processes that share locks. -/
def ScriptedWorkload.waves : ScriptedWorkload where
  batches := [[.compute 9 0, .mutexPair 50 true], [.rendezvousPair 50], [.compute 9 0]]

/-- A run in which a reset is due every two cycles. A timer interrupt at the first checkpoint of a
dispatcher run makes the first reset, which the run itself then need not make; the second one is a
cycle late, as no dispatcher run was needed before. -/
theorem cadenced_of_reachable_waves : ∃ c : Calendar ScriptedWorkload,
    Calendar.Reachable (.start { baseQuantum := 1, quantumStep := 0, resetMultiple := 2 } .waves
      none) c ∧ c.Cadenced 2 ∧ c.machine.priorityResets = 2 ∧ c.machine.iteration = 6 ∧
    c.machine.sinceReset = 1 ∧ c.machine.census.totalCreated = 6 := by
  have run : ((Machine.start { baseQuantum := 1, quantumStep := 0, resetMultiple := 2 }
      ScriptedWorkload.waves none).performAll
        [.boot, .schedule .idle [], .tick [], .tick [], .schedule .idle [[.timer]], .tick [],
          .tick [], .tick [], .timerInterrupt [], .tick []]).toOption.any (fun m =>
      m.priorityResets == 2 && (m.iteration == 6 && (m.sinceReset == 1 &&
        m.census.totalCreated == 6))) = true := by
    decide +kernel
  obtain ⟨mo, reachable, -, test⟩ := Moment.exists_reachable_of_performAll run
  simp only [Bool.and_eq_true, beq_iff_eq] at test
  obtain ⟨entries, logged⟩ := Calendar.exists_reachable reachable
  exact ⟨_, logged, (cadenced_of_reachable logged (by decide)).1, test⟩

end Mlfq
