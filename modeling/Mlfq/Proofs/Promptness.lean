import Mlfq.Proofs.Course.Run
import Mlfq.Proofs.Run.Command

/-! # When processes end

A process that is to end does so at the end of the cycle in which it has wrapped often enough,
unless it is parked in that cycle: then it goes on, and the same holds of its next cycle. -/

namespace Mlfq

variable {σ : Type}

/-- No process of a random workload asks for a device when it wraps. -/
theorem RandomWorkload.asks_zero {config : Config} {workload : RandomWorkload}
    {logLevel : Option Level} {mo : Moment RandomWorkload}
    (reachable : Moment.Reachable (.start config workload logLevel) mo) {q : Proc}
    (arrived : q ∈ mo.ledger.arrived.flatMap Arrival.procs) (devices : Nat) :
    q.asks devices 0 = none := by
  obtain ⟨a, ha, hq⟩ := List.mem_flatMap.1 arrived
  obtain ⟨w, -, drawn⟩ := Moment.drawn_of_reachable reachable a ha
  cases drawn with
  | compute =>
    rw [List.mem_singleton.1 hq]
    rfl
  | io pid maxPc terminateAfter positive =>
    rw [List.mem_singleton.1 hq]
    have nowhere := List.findIdx?_eq_none_iff.2 positive
    simp only [Proc.asks, Proc.ioBound, nowhere, Option.bind_none]
  | mutexPair | rendezvousPair => rcases List.mem_pair.1 hq with rfl | rfl <;> rfl

namespace Stands

variable {devices : Nat} {bs : List Beat} {due : Option Pid} {x : Station × Proc}

/-- A process that asks for nothing at 0 makes no request when it wraps. -/
theorem request_eq_none (h : Stands devices bs due x) (free : x.2.asks devices 0 = none) :
    ∀ b ∈ bs, b.pc = 0 → b.request = none :=
  fun b hb zero => (h.walks.requests b hb).trans (zero ▸ free)

/-- A process that asks for nothing at 0 ends with its last wrap. -/
theorem ends_at_wrap (h : Stands devices bs due x) (free : x.2.asks devices 0 = none)
    (ended : x.1 = .ended) : x.2.wraps = x.2.terminateAfter ∧ x.2.pc = 0 := by
  obtain ⟨ends, late⟩ := (Proc.shouldTerminate_iff x.2).1 (h.ended ended)
  have walks := h.walks
  rw [if_neg (by rw [ended]; exact nofun)] at walks
  have wraps := h.wraps
  have before := h.before
  have quiet := h.request_eq_none free
  rcases List.eq_nil_or_concat bs with rfl | ⟨as, b, rfl⟩
  · exact absurd (ends.trans_le late) (by rw [wraps]; exact Nat.lt_irrefl 0)
  · rw [List.concat_eq_append, List.dropLast_concat] at before
    rw [List.concat_eq_append] at walks wraps quiet
    have early := before.wraps_lt ends fun x hx => quiet x (List.mem_append_left _ hx)
    rw [Beat.wraps_append, Beat.wraps_singleton] at wraps
    have zero : b.pc = 0 := by
      by_contra inside
      rw [if_neg inside] at wraps
      omega
    rw [if_pos zero] at wraps
    refine ⟨by omega, ?_⟩
    rw [← walks.stands, List.getLast?_concat, Option.map_some, Option.getD_some, zero]
    exact Proc.leavesFrom_none (by rw [free]; rfl)

end Stands

/-- Process `q` with the record `r` ends as soon as it has wrapped often enough and is not
parked. -/
structure Diary.EndsPromptly (d : Diary σ) (devices : Nat) (q r : Proc) : Prop where
  /-- It has ended with the first of its late cycles in which it was not parked, if not before. -/
  ended : d.moment.ledger.Ended r → q.terminateAfter ≤ r.wraps ∧
    Beat.HeldUp q.terminateAfter (d.history q.pid).dropLast
  /-- It was parked in all of its late cycles. -/
  alive : ¬ d.moment.ledger.Ended r → Beat.HeldUp q.terminateAfter (d.history q.pid)
  /-- If it asks for nothing when it wraps, it ends with its last wrap. -/
  prompt : q.asks devices 0 = none →
    (d.moment.ledger.Ended r → r.wraps = q.terminateAfter ∧ r.pc = 0) ∧
      (¬ d.moment.ledger.Ended r → r.wraps < q.terminateAfter)

/-- At every moment of a run of a library workload at which an interrupt can arrive, a process that
is to end has ended, or it was parked in each of its cycles from its last wrap on. -/
theorem endsPromptly_of_reachable [Workload σ] [Workload.Library σ] {config : Config}
    {workload : σ} {logLevel : Option Level} {d : Diary σ}
    (reachable : Diary.Reachable (.start config workload logLevel) d)
    (boundary : Duty.Interruptible d.moment.pending) {q r : Proc}
    (arrived : q ∈ d.moment.ledger.arrived.flatMap Arrival.procs) (ends : 0 < q.terminateAfter)
    (kept : d.moment.ledger.Keeps r) (own : r.pid = q.pid) :
    d.EndsPromptly config.ioDevices q r := by
  have solitary := reachable.solitary arrived (.inr ends)
  obtain ⟨st, ended, stands, plan, -, limit⟩ :=
    reachable.exists_stands arrived solitary kept own
  have idle : Duty.due d.moment.pending ≠ some r.core.pid := by
    rw [Story.due_of_interruptible boundary]
    exact nofun
  have limit' : r.core.terminateAfter = q.terminateAfter := limit
  have heldUp : ¬ d.moment.ledger.Ended r →
      Beat.HeldUp q.terminateAfter (d.history q.pid) := by
    intro alive
    rw [← limit']
    exact stands.heldUp (fun past => alive (ended.1 past)) idle
  refine ⟨fun past => ⟨?_, ?_⟩, heldUp, fun free => ⟨fun past => ?_, fun alive => ?_⟩⟩
  · rw [← limit']
    exact ((Proc.shouldTerminate_iff _).1 (stands.ended (ended.2 past))).2
  · rw [← limit']
    exact stands.before
  all_goals
    have free' : r.core.asks config.ioDevices 0 = none := by
      rwa [Proc.asks, Proc.plan_core, plan]
  · have last := stands.ends_at_wrap free' (ended.2 past)
    rwa [limit'] at last
  · have wraps : r.wraps = Beat.wraps (d.history q.pid) := stands.wraps
    rw [wraps]
    exact (heldUp alive).wraps_lt ends (stands.request_eq_none free')

/-- A run in which a process ends with its only wrap after it has been parked once on the way. -/
theorem endsPromptly_of_reachable_once : ∃ (d : Diary ScriptedWorkload) (q r : Proc),
    Diary.Reachable (.start {} ⟨[[.io 3 1 [[2]]]]⟩ none) d ∧
    q ∈ d.moment.ledger.arrived.flatMap Arrival.procs ∧
    r ∈ d.moment.ledger.machine.zombies ∧ r.pid = q.pid ∧
    d.EndsPromptly ({} : Config).ioDevices q r ∧ r.wraps = q.terminateAfter ∧ r.pc = 0 := by
  have run : ((Machine.start {} (⟨[[.io 3 1 [[2]]]]⟩ : ScriptedWorkload) none).performAll
      [.boot, .tick [], .tick [], .tick [], .ioInterrupt ⟨0⟩ [], .tick [], .tick []]).toOption.any
      (fun m => m.zombies.any fun z => 0 < z.terminateAfter &&
        (z.asks ({} : Config).ioDevices 0).isNone) = true := by
    decide +kernel
  obtain ⟨mo, moments, rest, test⟩ := Moment.exists_reachable_of_performAll run
  obtain ⟨beats, reachable⟩ := Diary.exists_reachable moments
  obtain ⟨r, ended, test⟩ := List.any_eq_true.1 test
  rw [Bool.and_eq_true, decide_eq_true_eq, Option.isNone_iff_eq_none] at test
  have kept : mo.ledger.Keeps r := .inl ⟨.zombies, ended⟩
  obtain ⟨cycles, chronicle⟩ := Chronicle.exists_reachable moments
  obtain ⟨q, arrived, outline⟩ := chronicle.exists_arrived_of_keeps kept
  have pid : r.pid = q.pid := congrArg (·.pid) outline.symm
  have limit : q.terminateAfter = r.terminateAfter := congrArg (·.terminateAfter) outline
  have ends :=
    endsPromptly_of_reachable reachable (rest ▸ trivial) arrived (limit ▸ test.1) kept pid
  have free : q.asks ({} : Config).ioDevices 0 = none :=
    (Proc.asks_eq_of_outline_eq outline _ 0).trans test.2
  exact ⟨⟨mo, beats⟩, q, r, reachable, arrived, ended, pid, ends, (ends.prompt free).1 (.inl ended)⟩

/-- A process that asks for a device when it wraps is parked there, and has not ended when the
machine is at rest. -/
theorem endsPromptly_parked : ∃ mo : Moment ScriptedWorkload,
    Moment.Reachable (.start {} ⟨[[.io 3 1 [[0]]]]⟩ none) mo ∧ mo.pending = [] ∧
    ∃ d ∈ mo.ledger.machine.devices, ∃ p ∈ d.queue,
      0 < p.terminateAfter ∧ p.terminateAfter ≤ p.wraps := by
  have run : ((Machine.start {} (⟨[[.io 3 1 [[0]]]]⟩ : ScriptedWorkload) none).performAll
      [.boot, .tick [], .tick [], .tick [], .tick [], .tick []]).toOption.any
      (fun m => m.devices.any fun d => d.queue.any fun p =>
        0 < p.terminateAfter && p.terminateAfter ≤ p.wraps) = true := by
    decide +kernel
  obtain ⟨mo, reachable, rest, test⟩ := Moment.exists_reachable_of_performAll run
  simp only [List.any_eq_true, Bool.and_eq_true, decide_eq_true_eq] at test
  exact ⟨mo, reachable, rest, test⟩

end Mlfq
