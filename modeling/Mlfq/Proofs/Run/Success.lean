import Mlfq.Proofs.Run.Command

/-! # Calls that succeed

A computation succeeds with a result of some sort. If what is done between two checkpoints succeeds
on machines of some sort, and leaves machines of that sort behind, then so do all calls, whatever
interrupts arrive at the checkpoints. -/

namespace Mlfq

/-- The computation ends without a fault, and its result is good. -/
def Succeeds {ε α : Type} (good : α → Prop) (x : Except ε α) : Prop := ∃ a, x = .ok a ∧ good a

namespace Succeeds

variable {ε α β : Type} {good : α → Prop} {fine : β → Prop} {x : Except ε α}

theorem pure {a : α} (h : good a) : Succeeds good (.ok a : Except ε α) := ⟨a, rfl, h⟩

/-- What is done with a good result succeeds too. -/
theorem bind (h : Succeeds good x) {f : α → Except ε β} (next : ∀ a, good a → Succeeds fine (f a)) :
    Succeeds fine (x >>= f) := by
  obtain ⟨a, rfl, ha⟩ := h
  exact next a ha

/-- What is done again and again succeeds if it does so once. -/
theorem foldlM (good : α → Prop) {f : α → β → Except ε α} {bs : List β} {a : α} (start : good a)
    (each : ∀ a b, good a → Succeeds good (f a b)) : Succeeds good (bs.foldlM f a) := by
  induction bs generalizing a with
  | nil => exact .pure start
  | cons b bs ih => exact (each a b start).bind fun a' ha => ih ha

end Succeeds

variable {σ : Type} [Workload σ]

/-! ## Dispatcher runs -/

/-- Machines of this sort get through interrupts and the phases of dispatcher runs. -/
structure Machine.Carries (P : Machine σ → Prop) : Prop where
  timer : ∀ {m}, P m → P m.raiseTimer
  completion : ∀ {m} device, P m → Succeeds (∀ m' ∈ ·, P m') (m.completeIo device)
  phase : ∀ {m} cause phase, P m → Succeeds P (m.phase cause phase)

namespace Machine.Carries

variable {P : Machine σ → Prop} {m : Machine σ}

theorem timerInterrupt (h : Carries P) (good : P m) : Succeeds P m.timerInterrupt :=
  .foldlM P (h.timer good) fun _ phase good => h.phase .timer phase good

theorem timerInterrupts (h : Carries P) (n : Nat) (good : P m) :
    Succeeds P (Machine.timerInterrupts n m) := by
  induction n generalizing m with
  | zero => exact .pure good
  | succ n ih => exact (h.timerInterrupt good).bind fun m' good => ih good

theorem completionPhases (h : Carries P) (rest : List Phase) (timers : List Nat) (good : P m) :
    Succeeds P (Machine.completionPhases rest timers m) := by
  induction rest generalizing m timers with
  | nil => exact .pure good
  | cons phase rest ih =>
    refine (h.timerInterrupts _ good).bind fun m₁ good => ?_
    exact (h.phase .ioCompletion phase good).bind fun m₂ good => ih timers.tail good

theorem ioInterrupt (h : Carries P) (device : DeviceId) (timers : List Nat) (good : P m) :
    Succeeds P (m.ioInterrupt device timers) := by
  refine (h.completion device good).bind fun done goods => ?_
  cases done with
  | none => exact .pure good
  | some m' => exact h.completionPhases Phase.all timers (goods m' rfl)

variable {e : Episode σ}

theorem deliver (h : Carries P) (cause : Cause) (i : Interrupt) (good : P e.machine) :
    Succeeds (P ·.machine) (e.deliver cause i) := by
  cases i with
  | timer =>
    simp only [Episode.deliver]
    split
    · exact (h.timerInterrupt good).bind fun m good => .pure good
    · exact .pure good
  | io device timers =>
    simp only [Episode.deliver]
    split
    · exact (h.ioInterrupt device timers good).bind fun m good => .pure good
    · exact .pure good

/-- A dispatcher run of an episode, with what arrives at its checkpoints. -/
theorem schedule (h : Carries P) (cause : Cause) (good : P e.machine) :
    Succeeds (P ·.machine) (e.schedule cause) := by
  refine .foldlM (fun e : Episode σ => P e.machine) good fun e phase good => ?_
  have delivered : Succeeds (P ·.machine) (e.checkpoint cause) :=
    .foldlM (fun e : Episode σ => P e.machine) good fun e i good => h.deliver cause i good
  refine delivered.bind fun e good => ?_
  exact (h.phase cause phase good).bind fun m good => .pure good

/-- The dispatcher run after a trap, if there is one. -/
theorem handleTrap (h : Carries P) (trap : Trap) (good : P (e.machine.handleTrap trap).2) :
    Succeeds (P ·.machine) (e.handleTrap trap) := by
  simp only [Episode.handleTrap]
  rcases handled : e.machine.handleTrap trap with ⟨cause, m⟩
  rw [handled] at good
  cases cause with
  | none => exact .pure good
  | some cause =>
    cases trap with
    | io device =>
      exact h.schedule (e := ({ e with machine := m } : Episode σ).note (.deviceNotified device))
        cause good
    | _ => exact h.schedule (e := { e with machine := m }) cause good

end Machine.Carries

/-! ## Calls -/

/-- Whether a call is a cycle. -/
def Command.isTick : Command → Bool
  | .tick _ => true
  | _ => false

/-- Whether a call is a timer interrupt or an I/O interrupt. -/
def Command.isInterrupt : Command → Bool
  | .timerInterrupt _ | .ioInterrupt .. => true
  | _ => false

namespace Machine.Carries

variable {P : Machine σ → Prop} {m : Machine σ}

/-- An interrupt at rest gets through. -/
theorem perform (h : Carries P) {c : Command} (interrupt : c.isInterrupt = true) (good : P m) :
    Succeeds P (m.perform c) := by
  cases c with
  | timerInterrupt upcoming =>
    have done := h.schedule (e := ⟨m.raiseTimer, upcoming, []⟩) .timer (h.timer good)
    exact done.bind fun e good => .pure good
  | ioInterrupt device upcoming =>
    have done : Succeeds (P ·.machine) (Episode.ioInterrupt ⟨m, upcoming, []⟩ device) := by
      refine (h.completion device good).bind fun done goods => ?_
      cases done with
      | none => exact .pure good
      | some m' => exact h.schedule (e := ⟨m', upcoming, []⟩) .ioCompletion (goods m' rfl)
    exact done.bind fun e good => .pure good
  | boot | request | tick | schedule => cases interrupt

/-- So do all interrupts. -/
theorem performAll (h : Carries P) {cs : List Command}
    (interrupts : ∀ c ∈ cs, c.isInterrupt = true) (good : P m) : Succeeds P (m.performAll cs) := by
  induction cs generalizing m with
  | nil => exact .pure good
  | cons c cs ih =>
    obtain ⟨interrupt, interrupts⟩ := List.forall_mem_cons.1 interrupts
    exact (h.perform interrupt good).bind fun m' good => ih interrupts good

end Machine.Carries

/-- Machines that have gone through `n` cycles get through all calls, if there are at most `limit`
cycles. -/
structure Machine.Endures (limit : Nat) (P : Nat → Machine σ → Prop) : Prop where
  carries : ∀ n, Carries (P n)
  boot : ∀ {n m}, P n m → Succeeds (P n) m.boot
  request : ∀ {n m}, P n m → Succeeds (P n ·.2) m.requestBatch
  idle : ∀ {n m}, P n m → m.running = none → P (n + 1) m.beginCycle.countIdle.scanIfDue
  busy : ∀ {n m p}, P n m → n < limit → m.running = some p → Succeeds (P (n + 1) ·.2) m.stepRunning
  ending : ∀ {n m pid m'}, P n m → m.terminateIfDone pid = some m' → P n m'

namespace Machine.Endures

variable {limit n : Nat} {P : Nat → Machine σ → Prop} {m : Machine σ} {e : Episode σ}

/-- The end of a busy cycle. -/
theorem closeCycle (h : Endures limit P) (pid : Pid) (good : P n e.machine) :
    Succeeds (P n ·.machine) (match e.machine.terminateIfDone pid with
      | none => (return e : Except Crash (Episode σ))
      | some machine => Episode.schedule { e with machine } .termination) := by
  cases ended : e.machine.terminateIfDone pid with
  | none => exact .pure good
  | some m =>
    exact (h.carries n).schedule (e := { e with machine := m }) .termination (h.ending good ended)

theorem tick (h : Endures limit P) (few : n < limit) (good : P n e.machine) :
    Succeeds (P (n + 1) ·.machine) e.tick := by
  cases running : e.machine.running with
  | none =>
    have begun : e.machine.beginCycle.running = none := running
    simp only [Episode.tick, begun]
    exact (h.carries (n + 1)).schedule .idle (h.idle good running)
  | some p =>
    have begun : e.machine.beginCycle.running = some p := running
    obtain ⟨⟨cause, m'⟩, step, good⟩ := h.busy good few running
    obtain ⟨m₁, advance, step⟩ := exists_of_bind_eq_ok step
    obtain ⟨trap, pending, step⟩ := exists_of_bind_eq_ok step
    let e₁ : Episode σ := { e with machine := m₁.scanIfDue }
    cases trap with
    | none =>
      cases step
      have closed := h.closeCycle (e := e₁) p.pid good
      simp only [Episode.tick, begun, advance, pending, bind, Except.bind, pure, Except.pure]
      exact closed
    | some trap =>
      have handled : m₁.scanIfDue.handleTrap trap = (cause, m') := Except.ok.inj step
      have after := (h.carries (n + 1)).handleTrap (e := e₁) trap (handled ▸ good)
      have closed := after.bind fun e₂ good => h.closeCycle (e := e₂) p.pid good
      simp only [Episode.tick, begun, advance, pending, bind, Except.bind] at closed ⊢
      exact closed

/-- A call gets through, and counts if it is a cycle. -/
theorem perform (h : Endures limit P) (c : Command) (few : n + [c].countP (·.isTick) ≤ limit)
    (good : P n m) : Succeeds (P (n + [c].countP (·.isTick))) (m.perform c) := by
  cases c with
  | boot => exact h.boot good
  | request => exact (h.request good).bind fun r good => .pure good
  | tick upcoming =>
    have done := h.tick (e := ⟨m, upcoming, []⟩) few good
    exact done.bind fun e good => .pure good
  | timerInterrupt | ioInterrupt => exact (h.carries n).perform rfl good
  | schedule cause upcoming =>
    have done := (h.carries n).schedule (e := ⟨m, upcoming, []⟩) cause good
    exact done.bind fun e good => .pure good

/-- So do all calls. -/
theorem performAll (h : Endures limit P) (cs : List Command)
    (few : n + cs.countP (·.isTick) ≤ limit) (good : P n m) :
    Succeeds (P (n + cs.countP (·.isTick))) (m.performAll cs) := by
  induction cs generalizing n m with
  | nil => exact .pure good
  | cons c cs ih =>
    have count : (c :: cs).countP (·.isTick) = [c].countP (·.isTick) + cs.countP (·.isTick) := by
      rw [← List.countP_append]
      rfl
    rw [count, ← Nat.add_assoc] at few ⊢
    exact (h.perform c (by omega) good).bind fun m' good => ih few good

end Machine.Endures
end Mlfq
