import Mlfq.Proofs.Twin.Run

/-! # The same calls in two runs

Whatever interrupts arrive at the checkpoints, a call leads twins to twins. Both runs have the same
checkpoints, since these lie before the phases and the phases are the same. -/

namespace Mlfq

variable {σ : Type} [Workload σ] {k : Comparison σ}

namespace Comparison.Twins

variable {pending : List Duty} {m m' : Machine σ}

/-! ## What nothing interrupts but the timer -/

section

variable (orderly : k.Orderly)

include orderly

theorem timerInterrupt (h : k.Twins pending m m') (hi : Duty.Interruptible pending) :
    Outcomes (k.Twins pending) m.timerInterrupt m'.timerInterrupt := by
  have run : Outcomes (k.Twins (.phases .timer [] :: pending)) m.timerInterrupt
      m'.timerInterrupt :=
    .foldlM (Q := fun rest => k.Twins (.phases .timer rest :: pending))
      (fun _ _ _ _ h => h.phase orderly) (h.timer hi)
  exact run.mono fun _ _ _ _ h => h.done

theorem timerInterrupts (n : Nat) (h : k.Twins pending m m') (hi : Duty.Interruptible pending) :
    Outcomes (k.Twins pending) (Machine.timerInterrupts n m) (Machine.timerInterrupts n m') := by
  induction n generalizing m m' with
  | zero => exact .ok h
  | succ n ih => exact (h.timerInterrupt orderly hi).bind fun _ _ => ih

theorem completionPhases (rest : List Phase) (timers : List Nat)
    (h : k.Twins (.phases .ioCompletion rest :: pending) m m') :
    Outcomes (k.Twins pending) (Machine.completionPhases rest timers m)
      (Machine.completionPhases rest timers m') := by
  induction rest generalizing m m' timers with
  | nil => exact .ok h.done
  | cons phase rest ih =>
    have hi : Duty.Interruptible (.phases .ioCompletion (phase :: rest) :: pending) :=
      List.cons_ne_nil phase rest
    refine (h.timerInterrupts orderly _ hi).bind fun m₁ m₁' h₁ => ?_
    exact (h₁.phase orderly).bind fun m₂ m₂' h₂ => ih timers.tail h₂

theorem ioInterrupt (h : k.Twins pending m m') (hi : Duty.Interruptible pending)
    (device : DeviceId) (timers : List Nat) :
    Outcomes (k.Twins pending) (m.ioInterrupt device timers) (m'.ioInterrupt device timers) := by
  refine (h.completion hi device).bind fun a b same => ?_
  cases same with
  | none => exact .ok h
  | some h₁ => exact h₁.completionPhases orderly Phase.all timers

end

end Comparison.Twins

/-! ## Episodes -/

namespace Comparison

/-- Two episodes go on side by side: their machines are twins, and the same interrupts are in
flight. -/
def Abreast (k : Comparison σ) (pending : List Duty) (e e' : Episode σ) : Prop :=
  k.Twins pending e.machine e'.machine ∧ e'.upcoming = e.upcoming

namespace Abreast

variable {pending : List Duty} {e e' : Episode σ} (orderly : k.Orderly)

include orderly

theorem deliver (h : k.Abreast pending e e') (hi : Duty.Interruptible pending) (cause : Cause)
    (i : Interrupt) : Outcomes (k.Abreast pending) (e.deliver cause i) (e'.deliver cause i) := by
  obtain ⟨twins, upcoming⟩ := h
  cases i with
  | timer =>
    simp only [Episode.deliver]
    split
    · exact (twins.timerInterrupt orderly hi).bind fun _ _ h => .ok ⟨h, upcoming⟩
    · exact .ok ⟨twins, upcoming⟩
  | io device timers =>
    simp only [Episode.deliver]
    split
    · exact (twins.ioInterrupt orderly hi device timers).bind fun _ _ h => .ok ⟨h, upcoming⟩
    · exact .ok ⟨twins, upcoming⟩

theorem checkpoint (h : k.Abreast pending e e') (hi : Duty.Interruptible pending)
    (cause : Cause) : Outcomes (k.Abreast pending) (e.checkpoint cause) (e'.checkpoint cause) := by
  obtain ⟨twins, upcoming⟩ := h
  unfold Episode.checkpoint
  dsimp only [Episode.note]
  rw [upcoming]
  exact .foldlM (Q := fun _ => k.Abreast pending) (fun i _ _ _ h => deliver orderly h hi cause i)
    ⟨twins, rfl⟩

theorem phase {cause : Cause} {phase : Phase} {rest : List Phase}
    (h : k.Abreast (.phases cause (phase :: rest) :: pending) e e') :
    Outcomes (k.Abreast (.phases cause rest :: pending)) (e.phase cause phase)
      (e'.phase cause phase) := by
  have hi : Duty.Interruptible (.phases cause (phase :: rest) :: pending) :=
    List.cons_ne_nil phase rest
  refine (checkpoint orderly h hi cause).bind fun e₁ e₁' h₁ => ?_
  exact (h₁.1.phase orderly).bind fun _ _ h₂ => .ok ⟨h₂, h₁.2⟩

/-- A dispatcher run. -/
theorem schedule {cause : Cause} (h : k.Abreast (.phases cause Phase.all :: pending) e e') :
    Outcomes (k.Abreast pending) (e.schedule cause) (e'.schedule cause) := by
  have run : Outcomes (k.Abreast (.phases cause [] :: pending)) (e.schedule cause)
      (e'.schedule cause) := by
    refine .foldlM (Q := fun rest => k.Abreast (.phases cause rest :: pending))
      (fun _ _ _ _ h => ?_) h
    exact phase orderly h
  exact run.mono fun _ _ _ _ h => ⟨h.1.done, h.2⟩

theorem ioInterrupt (h : k.Abreast [] e e') (device : DeviceId) :
    Outcomes (k.Abreast []) (e.ioInterrupt device) (e'.ioInterrupt device) := by
  have rest : Duty.Interruptible [] := trivial
  refine (h.1.completion rest device).bind fun a b same => ?_
  cases same with
  | none => exact .ok h
  | some h₁ => exact schedule orderly ⟨h₁, h.2⟩

/-- A trap that was handled alike is followed by the same dispatcher run, or by none. -/
theorem handleTrap {t : Trap} (upcoming : e'.upcoming = e.upcoming)
    (answer : (e'.machine.handleTrap t).1 = (e.machine.handleTrap t).1)
    (h : k.Twins (((e.machine.handleTrap t).1.map fun cause => .phases cause Phase.all).toList ++
      pending) (e.machine.handleTrap t).2 (e'.machine.handleTrap t).2) :
    Outcomes (k.Abreast pending) (e.handleTrap t) (e'.handleTrap t) := by
  unfold Episode.handleTrap
  generalize e.machine.handleTrap t = r at answer h ⊢
  generalize e'.machine.handleTrap t = r' at answer h ⊢
  obtain ⟨cause, m⟩ := r
  obtain ⟨cause', m'⟩ := r'
  obtain rfl : cause' = cause := answer
  cases cause' with
  | none => exact .ok ⟨h, upcoming⟩
  | some cause => cases t <;> exact schedule orderly ⟨h, upcoming⟩

/-- The end of a cycle. -/
theorem closeCycle {pid : Pid} (h : k.Abreast [.closeCycle pid] e e') :
    Outcomes (k.Abreast [])
      (match e.machine.terminateIfDone pid with
      | none => return e
      | some machine => Episode.schedule { e with machine } .termination)
      (match e'.machine.terminateIfDone pid with
      | none => return e'
      | some machine => Episode.schedule { e' with machine } .termination) := by
  obtain ⟨twins, upcoming⟩ := h
  rcases twins.closeCycle with ⟨goesOn, goesOn', rest⟩ | ⟨m₁, m₁', ends, ends', h₁⟩
  · rw [goesOn, goesOn']
    exact .ok ⟨rest, upcoming⟩
  · rw [ends, ends']
    exact schedule orderly ⟨h₁, upcoming⟩

theorem tick (h : k.Abreast [] e e') : Outcomes (k.Abreast []) e.tick e'.tick := by
  obtain ⟨twins, upcoming⟩ := h
  have running' : e'.machine.beginCycle.running = e.machine.beginCycle.running := twins.running
  unfold Episode.tick
  dsimp only
  rw [running']
  cases running : e.machine.beginCycle.running with
  | none => exact schedule orderly ⟨twins.idleCycle running, upcoming⟩
  | some p =>
    refine (outcomes_advance twins.surface).bind fun m₁ m₁' advanced => ?_
    have raises : Outcomes (fun t t' => t' = t ∧ m₁.scanIfDue.pendingTrap = .ok t ∧
        m₁'.scanIfDue.pendingTrap = .ok t') m₁.scanIfDue.pendingTrap m₁'.scanIfDue.pendingTrap :=
      (twins.pendingTrap orderly running advanced).mono fun _ _ raised raised' same =>
        ⟨same, raised, raised'⟩
    refine raises.bind fun t t' trap => ?_
    obtain ⟨rfl, raised, raised'⟩ := trap
    cases t' with
    | none => exact closeCycle orderly ⟨twins.noTrap running advanced raised raised', upcoming⟩
    | some t =>
      obtain ⟨answer, handled⟩ := twins.trap orderly running advanced raised raised'
      have both : Outcomes (k.Abreast [.closeCycle p.pid])
          (Episode.handleTrap { e with machine := m₁.scanIfDue } t)
          (Episode.handleTrap { e' with machine := m₁'.scanIfDue } t) :=
        handleTrap orderly upcoming answer handled
      exact both.bind fun _ _ h => closeCycle orderly h

end Abreast

/-! ## Sequences of calls -/

section

variable {m m' : Machine σ} (orderly : k.Orderly)

include orderly

theorem Twins.perform (h : k.Twins [] m m') (c : Command) :
    Outcomes (k.Twins []) (m.perform c) (m'.perform c) := by
  have episode : ∀ {pending : List Duty} {m₁ m₁' : Machine σ} (upcoming : List (List Interrupt)),
      k.Twins pending m₁ m₁' → k.Abreast pending ⟨m₁, upcoming, []⟩ ⟨m₁', upcoming, []⟩ :=
    fun _ h => ⟨h, rfl⟩
  cases c with
  | boot => exact h.boot orderly
  | request => exact (h.request orderly).bind fun _ _ h => .ok h
  | tick upcoming => exact (Abreast.tick orderly (episode upcoming h)).bind fun _ _ h => .ok h.1
  | timerInterrupt upcoming =>
    have rest : Duty.Interruptible [] := trivial
    exact (Abreast.schedule orderly (episode upcoming (h.timer rest))).bind fun _ _ h => .ok h.1
  | ioInterrupt device upcoming =>
    exact (Abreast.ioInterrupt orderly (episode upcoming h) device).bind fun _ _ h => .ok h.1
  | schedule cause upcoming =>
    exact (Abreast.schedule orderly (episode upcoming (h.schedule cause))).bind fun _ _ h => .ok h.1

theorem Twins.performAll (cs : List Command) (h : k.Twins [] m m') :
    Outcomes (k.Twins []) (m.performAll cs) (m'.performAll cs) := by
  induction cs generalizing m m' with
  | nil => exact .ok h
  | cons c cs ih => exact (h.perform orderly c).bind fun _ _ => ih

end

end Comparison
end Mlfq
