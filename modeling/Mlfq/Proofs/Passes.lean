import Mlfq.Proofs.Course.Run
import Mlfq.Proofs.Run.Command

/-! # Requests between two wraps

From one wrap of an I/O-bound process to the next it makes one request at each of its points, but
for a point that directly follows one at which it has made one: the end of that request has taken it
there. -/

namespace Mlfq

variable {σ : Type}

/-- Of the cycles `bs` of a process, `pass` are those between two wraps that follow one another. -/
def Beat.IsPass (bs pass : List Beat) : Prop :=
  ∃ pre b b' post, bs = pre ++ b :: (pass ++ b' :: post) ∧ b.pc = 0 ∧ b'.pc = 0 ∧
    ∀ x ∈ pass, x.pc ≠ 0

/-- After two wraps there is a pass. -/
theorem Beat.exists_isPass {bs : List Beat} (twice : 2 ≤ wraps bs) : ∃ pass, IsPass bs pass := by
  have first : ∀ {bs : List Beat} {n}, n < wraps bs → ∃ before b after, bs = before ++ b :: after ∧
      b.pc = 0 ∧ (∀ x ∈ before, x.pc ≠ 0) ∧ n ≤ wraps after := by
    intro bs n more
    obtain ⟨x, hx, zero⟩ := List.countP_pos_iff.1 (Nat.zero_lt_of_lt more)
    obtain ⟨b, before, after, none, zero, whole, -⟩ :=
      List.exists_of_eraseP (p := fun b : Beat => b.pc = 0) hx zero
    have inside : wraps before = 0 := List.countP_eq_zero.2 none
    rw [decide_eq_true_eq] at zero
    refine ⟨before, b, after, whole, zero, fun y hy => by simpa using none y hy, ?_⟩
    rw [whole, wraps_append, inside, ← List.singleton_append, wraps_append, wraps_singleton,
      if_pos zero] at more
    omega
  obtain ⟨pre, b, rest, rfl, zero, -, once⟩ := first (n := 1) twice
  obtain ⟨pass, b', post, rfl, zero', inside, -⟩ := first (n := 0) once
  exact ⟨pass, pre, b, b', post, rfl, zero, zero', inside⟩

/-- The requests that process `p` makes between two wraps. -/
def Proc.passRequests (p : Proc) (devices : Nat) : List (Nat × DeviceId) :=
  (List.range' 1 p.maxPc).filterMap (p.fired? devices)

theorem Proc.passRequests_eq_of_outline_eq {p q : Proc} (h : p.outline = q.outline)
    (devices : Nat) : p.passRequests devices = q.passRequests devices := by
  have maxPc : p.maxPc = q.maxPc := congrArg (·.maxPc) h
  rw [passRequests, passRequests, maxPc]
  exact List.filterMap_congr fun pc _ => fired?_eq_of_outline_eq h pc

namespace Diary.Reachable

variable [Workload σ] [Workload.Library σ] {config : Config} {workload : σ}
  {logLevel : Option Level} {d : Diary σ} {q : Proc}

/-- An I/O-bound process has wrapped as often as its diary says. -/
theorem wraps_eq (reachable : Diary.Reachable (.start config workload logLevel) d)
    (arrived : q ∈ d.moment.ledger.arrived.flatMap Arrival.procs) (io : q.kind = .ioBound)
    {r : Proc} (kept : d.moment.ledger.Keeps r) (own : r.pid = q.pid) :
    r.wraps = Beat.wraps (d.history q.pid) := by
  have solitary := reachable.solitary arrived (.inl io)
  obtain ⟨st, -, stands, -⟩ := reachable.exists_stands arrived solitary kept own
  exact stands.wraps

theorem asked_of_isPass (reachable : Diary.Reachable (.start config workload logLevel) d)
    (arrived : q ∈ d.moment.ledger.arrived.flatMap Arrival.procs) (io : q.kind = .ioBound)
    {pass : List Beat} (h : Beat.IsPass (d.history q.pid) pass) :
    pass.filterMap Beat.asked? = q.passRequests config.ioDevices := by
  obtain ⟨pre, b, b', post, whole, zero, zero', inside⟩ := h
  have solitary := reachable.solitary arrived (.inl io)
  obtain ⟨r, kept, own⟩ := Moment.exists_keeps_of_library reachable.moment arrived
  obtain ⟨st, -, stands, plan, maxPc, -⟩ := reachable.exists_stands arrived solitary kept own
  have walks := stands.walks.congr (q := q) plan.symm maxPc.symm
  rw [whole] at walks
  exact walks.asked_of_pass zero zero' inside

/-- In a run that leads an I/O-bound process past two wraps there is a pass. -/
theorem exists_isPass_of_performAll {cs : List Command} {test : Proc → Bool}
    (run : ((Machine.start config workload logLevel).performAll cs).toOption.any
      (fun m => m.running.any fun p => p.kind = .ioBound && 2 ≤ p.wraps && test p) = true) :
    ∃ (d : Diary σ) (p q : Proc) (pass : List Beat),
      Diary.Reachable (.start config workload logLevel) d ∧
      q ∈ d.moment.ledger.arrived.flatMap Arrival.procs ∧ q.kind = .ioBound ∧
      Beat.IsPass (d.history q.pid) pass ∧ q.outline = p.outline ∧ test p = true := by
  obtain ⟨mo, moments, -, passes⟩ := Moment.exists_reachable_of_performAll run
  simp only [Option.any_eq_true, Bool.and_eq_true, decide_eq_true_eq] at passes
  obtain ⟨p, running, ⟨io, twice⟩, test⟩ := passes
  obtain ⟨beats, reachable⟩ := Diary.exists_reachable moments
  obtain ⟨cycles, chronicle⟩ := Chronicle.exists_reachable moments
  have kept : mo.ledger.Keeps { p with pc := mo.ledger.machine.cpuPc } := by
    refine .inl ⟨.cpu, ?_⟩
    rw [Machine.resumingAt, Machine.onCpu, running]
    exact List.mem_singleton_self _
  obtain ⟨q, arrived, outline⟩ := chronicle.exists_arrived_of_keeps kept
  have outline : q.outline = p.outline := outline
  have kind : q.kind = .ioBound := (congrArg (·.kind) outline).trans io
  have pid : p.pid = q.pid := congrArg (·.pid) outline.symm
  have wraps := reachable.wraps_eq (q := q) arrived kind kept pid
  obtain ⟨pass, isPass⟩ := Beat.exists_isPass (wraps ▸ twice)
  exact ⟨⟨mo, beats⟩, p, q, pass, reachable, arrived, kind, isPass, outline, test⟩

end Diary.Reachable

/-- In every run of a library workload, an I/O-bound process has wrapped as often as its diary says,
and between two wraps it makes one request at each of its points that does not directly follow one
at which it has made one, with the first of the devices that have that point. -/
theorem asksOnce_of_reachable [Workload σ] [Workload.Library σ] {config : Config} {workload : σ}
    {logLevel : Option Level} {d : Diary σ}
    (reachable : Diary.Reachable (.start config workload logLevel) d) {q : Proc}
    (arrived : q ∈ d.moment.ledger.arrived.flatMap Arrival.procs) (io : q.kind = .ioBound) :
    (∀ r, d.moment.ledger.Keeps r → r.pid = q.pid → r.wraps = Beat.wraps (d.history q.pid)) ∧
    ∀ pass, Beat.IsPass (d.history q.pid) pass →
      pass.filterMap Beat.asked? = q.passRequests config.ioDevices :=
  ⟨fun _ kept own => reachable.wraps_eq arrived io kept own,
    fun _ isPass => reachable.asked_of_isPass arrived io isPass⟩

/-- A run in which a process wraps twice, with timer interrupts and another process on the way. Both
devices have point 3, and point 4 comes right after it. -/
theorem asksOnce_of_reachable_twice : ∃ (d : Diary ScriptedWorkload) (q : Proc) (pass : List Beat),
    Diary.Reachable (.start {} ⟨[[.io 7 0 [[3, 4], [3, 6]], .compute 2 0]]⟩ none) d ∧
    q ∈ d.moment.ledger.arrived.flatMap Arrival.procs ∧ q.kind = .ioBound ∧
    Beat.IsPass (d.history q.pid) pass ∧
    pass.filterMap Beat.asked? = [(3, ⟨0⟩), (6, ⟨1⟩)] := by
  have run : ((Machine.start {}
      (⟨[[.io 7 0 [[3, 4], [3, 6]], .compute 2 0]]⟩ : ScriptedWorkload) none).performAll
        [.boot, .tick [], .tick [], .timerInterrupt [], .tick [], .timerInterrupt [], .tick [],
          .tick [], .ioInterrupt ⟨0⟩ [], .timerInterrupt [], .tick [], .tick [],
          .ioInterrupt ⟨1⟩ [], .timerInterrupt [], .tick [], .tick [], .timerInterrupt [],
          .tick [], .tick [], .ioInterrupt ⟨0⟩ [], .timerInterrupt [], .tick [], .tick [],
          .ioInterrupt ⟨1⟩ [], .timerInterrupt [], .tick []]).toOption.any
      (fun m => m.running.any fun p => p.kind = .ioBound && 2 ≤ p.wraps &&
        p.passRequests ({} : Config).ioDevices = [(3, ⟨0⟩), (6, ⟨1⟩)]) = true := by
    decide +kernel
  obtain ⟨d, p, q, pass, reachable, arrived, io, isPass, outline, test⟩ :=
    Diary.Reachable.exists_isPass_of_performAll run
  have requests := (asksOnce_of_reachable reachable arrived io).2 pass isPass
  rw [Proc.passRequests_eq_of_outline_eq outline, of_decide_eq_true test] at requests
  exact ⟨d, q, pass, reachable, arrived, io, isPass, requests⟩

/-- Point 3 of a process that has point 2 too is passed over. -/
theorem asksOnce_skips_next : ∃ (d : Diary ScriptedWorkload) (q : Proc) (pass : List Beat),
    Diary.Reachable (.start {} ⟨[[.io 5 0 [[2, 3]]]]⟩ none) d ∧
    q ∈ d.moment.ledger.arrived.flatMap Arrival.procs ∧ q.kind = .ioBound ∧ 3 ≤ q.maxPc ∧
    q.asks ({} : Config).ioDevices 3 = some ⟨0⟩ ∧ Beat.IsPass (d.history q.pid) pass ∧
    ∀ d, (3, d) ∉ pass.filterMap Beat.asked? := by
  have run : ((Machine.start {} (⟨[[.io 5 0 [[2, 3]]]]⟩ : ScriptedWorkload) none).performAll
      [.boot, .tick [], .tick [], .tick [], .ioInterrupt ⟨0⟩ [], .tick [], .tick [], .tick [],
        .tick [], .tick [], .ioInterrupt ⟨0⟩ [], .tick [], .tick [], .tick [],
        .tick []]).toOption.any
      (fun m => m.running.any fun p => p.kind = .ioBound && 2 ≤ p.wraps &&
        (3 ≤ p.maxPc && p.asks ({} : Config).ioDevices 3 = some ⟨0⟩ &&
          p.passRequests ({} : Config).ioDevices = [(2, ⟨0⟩)])) = true := by
    decide +kernel
  obtain ⟨d, p, q, pass, reachable, arrived, io, isPass, outline, test⟩ :=
    Diary.Reachable.exists_isPass_of_performAll run
  simp only [Bool.and_eq_true, decide_eq_true_eq] at test
  obtain ⟨⟨le, asks⟩, only⟩ := test
  have maxPc : q.maxPc = p.maxPc := congrArg (·.maxPc) outline
  have requests := reachable.asked_of_isPass arrived io isPass
  rw [Proc.passRequests_eq_of_outline_eq outline, only] at requests
  refine ⟨d, q, pass, reachable, arrived, io, maxPc ▸ le, ?_, isPass, fun device mem => ?_⟩
  · rw [Proc.asks_eq_of_outline_eq outline, asks]
  · rw [requests] at mem
    simp at mem

end Mlfq
