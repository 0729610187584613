import Mlfq.Proofs.Run.Basic

/-! # Calls

Every sequence of calls that the machine completes is a run, whatever interrupts arrive at the
checkpoints. -/

namespace Mlfq

/-- A call from outside, with the interrupts at the checkpoints of its own dispatcher runs. -/
inductive Command where
  | boot
  | request
  | tick (upcoming : List (List Interrupt))
  | timerInterrupt (upcoming : List (List Interrupt))
  | ioInterrupt (device : DeviceId) (upcoming : List (List Interrupt))
  | schedule (cause : Cause) (upcoming : List (List Interrupt))

variable {σ : Type} [Workload σ]

namespace Machine

/-- The machine after a call. -/
def perform (m : Machine σ) : Command → Except Crash (Machine σ)
  | .boot => m.boot
  | .request => do return (← m.requestBatch).2
  | .tick upcoming => do return (← { machine := m, upcoming : Episode σ }.tick).machine
  | .timerInterrupt upcoming => do
    return (← { machine := m, upcoming : Episode σ }.timerInterrupt).machine
  | .ioInterrupt device upcoming => do
    return (← { machine := m, upcoming : Episode σ }.ioInterrupt device).machine
  | .schedule cause upcoming => do
    return (← { machine := m, upcoming : Episode σ }.schedule cause).machine

/-- The machine after a sequence of calls. -/
def performAll : List Command → Machine σ → Except Crash (Machine σ)
  | [], m => .ok m
  | c :: rest, m => do performAll rest (← m.perform c)

end Machine

namespace Moment

/-- From machine `m` with one list of duties a run can come to machine `m'` with another. -/
def Leads (m : Machine σ) (pending : List Duty) (m' : Machine σ) (pending' : List Duty) : Prop :=
  ∀ arrived dropped, ∃ arrived' dropped',
    Relation.ReflTransGen Next ⟨⟨m, arrived, dropped⟩, pending⟩ ⟨⟨m', arrived', dropped'⟩, pending'⟩

theorem Leads.refl (m : Machine σ) (pending : List Duty) : Leads m pending m pending :=
  fun arrived dropped => ⟨arrived, dropped, .refl⟩

theorem Leads.trans {m₁ m₂ m₃ : Machine σ} {d₁ d₂ d₃ : List Duty} (h : Leads m₁ d₁ m₂ d₂)
    (h' : Leads m₂ d₂ m₃ d₃) : Leads m₁ d₁ m₃ d₃ := by
  intro arrived dropped
  obtain ⟨arrived₂, dropped₂, path⟩ := h arrived dropped
  obtain ⟨arrived₃, dropped₃, path'⟩ := h' arrived₂ dropped₂
  exact ⟨arrived₃, dropped₃, path.trans path'⟩

theorem leads_phase {m m' : Machine σ} {cause : Cause} {phase : Phase} {rest : List Phase}
    {pending : List Duty} (h : m.phase cause phase = .ok m') :
    Leads m (.phases cause (phase :: rest) :: pending) m' (.phases cause rest :: pending) := by
  intro arrived dropped
  exact ⟨_, _, .single (.phase h)⟩

theorem leads_done (m : Machine σ) (cause : Cause) (pending : List Duty) :
    Leads m (.phases cause [] :: pending) m pending :=
  fun arrived dropped => ⟨arrived, dropped, .single .done⟩

/-- The phases of a dispatcher run that nothing interrupts. -/
theorem leads_phases {cause : Cause} {pending : List Duty} {rest : List Phase}
    {m m' : Machine σ} (h : rest.foldlM (fun m => m.phase cause) m = .ok m') :
    Leads m (.phases cause rest :: pending) m' (.phases cause [] :: pending) := by
  induction rest generalizing m with
  | nil =>
    cases h
    exact .refl _ _
  | cons phase rest ih =>
    obtain ⟨m₁, h₁, h⟩ := exists_of_bind_eq_ok h
    exact (leads_phase h₁).trans (ih h)

/-- A dispatcher run that nothing interrupts. -/
theorem leads_of_phases {cause : Cause} {pending : List Duty} {rest : List Phase}
    {m m' : Machine σ} (h : rest.foldlM (fun m => m.phase cause) m = .ok m') :
    Leads m (.phases cause rest :: pending) m' pending :=
  (leads_phases h).trans (leads_done m' cause pending)

theorem leads_timerInterrupt {m m' : Machine σ} {pending : List Duty}
    (hi : Duty.Interruptible pending) (h : m.timerInterrupt = .ok m') :
    Leads m pending m' pending := by
  have raised : Leads m pending m.raiseTimer (.phases .timer Phase.all :: pending) := by
    intro arrived dropped
    exact ⟨_, _, .single (.timer hi)⟩
  exact raised.trans (leads_of_phases h)

theorem leads_timerInterrupts {n : Nat} {m m' : Machine σ} {pending : List Duty}
    (hi : Duty.Interruptible pending) (h : Machine.timerInterrupts n m = .ok m') :
    Leads m pending m' pending := by
  induction n generalizing m with
  | zero =>
    cases h
    exact .refl _ _
  | succ n ih =>
    obtain ⟨m₁, h₁, h⟩ := exists_of_bind_eq_ok h
    exact (leads_timerInterrupt hi h₁).trans (ih h)

theorem leads_completionPhases {rest : List Phase} {timers : List Nat} {m m' : Machine σ}
    {pending : List Duty} (h : Machine.completionPhases rest timers m = .ok m') :
    Leads m (.phases .ioCompletion rest :: pending) m' pending := by
  induction rest generalizing m timers with
  | nil =>
    cases h
    exact leads_done _ .ioCompletion pending
  | cons phase rest ih =>
    obtain ⟨m₁, h₁, h⟩ := exists_of_bind_eq_ok h
    obtain ⟨m₂, h₂, h⟩ := exists_of_bind_eq_ok h
    have hi : Duty.Interruptible (.phases .ioCompletion (phase :: rest) :: pending) :=
      List.cons_ne_nil phase rest
    exact (leads_timerInterrupts hi h₁).trans ((leads_phase h₂).trans (ih h))

theorem leads_completion {m m' : Machine σ} {device : DeviceId} {pending : List Duty}
    (hi : Duty.Interruptible pending) (h : m.completeIo device = .ok (some m')) :
    Leads m pending m' (.phases .ioCompletion Phase.all :: pending) := by
  intro arrived dropped
  exact ⟨_, _, .single (.completion hi h)⟩

theorem leads_ioInterrupt {m m' : Machine σ} {device : DeviceId} {timers : List Nat}
    {pending : List Duty} (hi : Duty.Interruptible pending)
    (h : m.ioInterrupt device timers = .ok m') : Leads m pending m' pending := by
  obtain ⟨done, hdone, h⟩ := exists_of_bind_eq_ok h
  cases done with
  | none =>
    cases h
    exact .refl _ _
  | some m₁ => exact (leads_completion hi hdone).trans (leads_completionPhases h)

theorem leads_deliver {cause : Cause} {e e' : Episode σ} {i : Interrupt} {pending : List Duty}
    (hi : Duty.Interruptible pending) (h : e.deliver cause i = .ok e') :
    Leads e.machine pending e'.machine pending := by
  cases i with
  | timer =>
    simp only [Episode.deliver] at h
    split at h
    · obtain ⟨m, hm, h⟩ := exists_of_bind_eq_ok h
      cases h
      exact leads_timerInterrupt hi hm
    · cases h
      exact .refl _ _
  | io device timers =>
    simp only [Episode.deliver] at h
    split at h
    · obtain ⟨m, hm, h⟩ := exists_of_bind_eq_ok h
      cases h
      exact leads_ioInterrupt hi hm
    · cases h
      exact .refl _ _

theorem leads_deliveries {cause : Cause} {is : List Interrupt} {e e' : Episode σ}
    {pending : List Duty} (hi : Duty.Interruptible pending)
    (h : is.foldlM (Episode.deliver cause) e = .ok e') :
    Leads e.machine pending e'.machine pending := by
  induction is generalizing e with
  | nil =>
    cases h
    exact .refl _ _
  | cons i is ih =>
    obtain ⟨e₁, h₁, h⟩ := exists_of_bind_eq_ok h
    exact (leads_deliver hi h₁).trans (ih h)

/-- A dispatcher run of an episode. -/
theorem leads_episodePhases {cause : Cause} {rest : List Phase} {e e' : Episode σ}
    {pending : List Duty} (h : rest.foldlM (fun e => e.phase cause) e = .ok e') :
    Leads e.machine (.phases cause rest :: pending) e'.machine pending := by
  induction rest generalizing e with
  | nil =>
    cases h
    exact leads_done _ cause pending
  | cons phase rest ih =>
    obtain ⟨e₁, h₁, h⟩ := exists_of_bind_eq_ok h
    obtain ⟨e₂, h₂, h₁⟩ := exists_of_bind_eq_ok h₁
    obtain ⟨m, hm, h₁⟩ := exists_of_bind_eq_ok h₁
    cases h₁
    have hi : Duty.Interruptible (.phases cause (phase :: rest) :: pending) :=
      List.cons_ne_nil phase rest
    exact (leads_deliveries hi h₂).trans ((leads_phase hm).trans (ih h))

theorem leads_closeCycle {e e' : Episode σ} {pid : Pid}
    (h : (match e.machine.terminateIfDone pid with
      | none => (return e : Except Crash (Episode σ))
      | some machine => Episode.schedule { e with machine } .termination) = .ok e') :
    Leads e.machine [.closeCycle pid] e'.machine [] := by
  cases hend : e.machine.terminateIfDone pid with
  | none =>
    rw [hend] at h
    cases h
    intro arrived dropped
    exact ⟨_, _, .single (.goOn hend)⟩
  | some m =>
    rw [hend] at h
    have ended : Leads e.machine [.closeCycle pid] m [.phases .termination Phase.all] := by
      intro arrived dropped
      exact ⟨_, _, .single (.terminate hend)⟩
    exact ended.trans (leads_episodePhases (e := { e with machine := m }) h)

theorem leads_handleTrap {e e' : Episode σ} {trap : Trap} {pending : List Duty}
    (h : e.handleTrap trap = .ok e') :
    Leads (e.machine.handleTrap trap).2
      (((e.machine.handleTrap trap).1.map fun cause => .phases cause Phase.all).toList ++ pending)
      e'.machine pending := by
  simp only [Episode.handleTrap] at h
  rcases hm : e.machine.handleTrap trap with ⟨cause, m⟩
  simp only [hm] at h ⊢
  cases cause with
  | none =>
    cases h
    exact .refl _ _
  | some cause =>
    cases trap with
    | io device =>
      -- The request is noted in between, which is no part of the machine.
      exact leads_episodePhases (e := ({ e with machine := m } : Episode σ).note
        (.deviceNotified device)) h
    | _ => exact leads_episodePhases (e := { e with machine := m }) h

/-- What is left of a cycle after the step of its process. -/
theorem leads_of_stepRunning {e e' : Episode σ} {p : Proc} (running : e.machine.running = some p)
    (h : e.tick = .ok e') : ∃ cause m, e.machine.stepRunning = .ok (cause, m) ∧
      Leads m ((cause.map fun cause => .phases cause Phase.all).toList ++ [.closeCycle p.pid])
        e'.machine [] := by
  have running' : e.machine.beginCycle.running = some p := running
  simp only [Episode.tick, running'] at h
  obtain ⟨m₁, h₁, h⟩ := exists_of_bind_eq_ok h
  obtain ⟨trap, htrap, h⟩ := exists_of_bind_eq_ok h
  cases trap with
  | none =>
    have step : e.machine.stepRunning = .ok (none, m₁.scanIfDue) := by
      simp only [Machine.stepRunning, h₁, htrap, bind, Except.bind, pure, Except.pure]
    exact ⟨_, _, step, leads_closeCycle (e := { e with machine := m₁.scanIfDue }) h⟩
  | some trap =>
    obtain ⟨e₂, h₂, h⟩ := exists_of_bind_eq_ok h
    have step : e.machine.stepRunning = .ok (m₁.scanIfDue.handleTrap trap) := by
      simp only [Machine.stepRunning, h₁, htrap, bind, Except.bind, pure, Except.pure]
    exact ⟨_, _, step, (leads_handleTrap h₂).trans (leads_closeCycle h)⟩

theorem leads_tick {e e' : Episode σ} (h : e.tick = .ok e') : Leads e.machine [] e'.machine [] := by
  cases running : e.machine.running with
  | none =>
    have running' : e.machine.beginCycle.running = none := running
    simp only [Episode.tick, running'] at h
    have idle : Leads e.machine [] e.machine.beginCycle.countIdle.scanIfDue
        [.phases .idle Phase.all] := by
      intro arrived dropped
      exact ⟨_, _, .single (.idleCycle running)⟩
    exact idle.trans (leads_episodePhases h)
  | some p =>
    obtain ⟨cause, m, step, rest⟩ := leads_of_stepRunning running h
    have busy : Leads e.machine [] m
        ((cause.map fun cause => .phases cause Phase.all).toList ++ [.closeCycle p.pid]) := by
      intro arrived dropped
      exact ⟨arrived, dropped, .single (.busyCycle running step)⟩
    exact busy.trans rest

/-- A call leads from rest to rest. -/
theorem leads_perform {c : Command} {m m' : Machine σ} (h : m.perform c = .ok m') :
    Leads m [] m' [] := by
  cases c with
  | boot =>
    intro arrived dropped
    exact ⟨_, _, .single (.boot h)⟩
  | request =>
    obtain ⟨⟨n, m₁⟩, h₁, h⟩ := exists_of_bind_eq_ok h
    cases h
    intro arrived dropped
    exact ⟨_, _, .single (.request h₁)⟩
  | tick upcoming =>
    obtain ⟨e, he, h⟩ := exists_of_bind_eq_ok h
    cases h
    exact leads_tick he
  | timerInterrupt upcoming =>
    obtain ⟨e, he, h⟩ := exists_of_bind_eq_ok h
    cases h
    have raised : Leads m [] m.raiseTimer [.phases .timer Phase.all] := by
      intro arrived dropped
      exact ⟨_, _, .single (.timer trivial)⟩
    exact raised.trans (leads_episodePhases he)
  | ioInterrupt device upcoming =>
    obtain ⟨e, he, h⟩ := exists_of_bind_eq_ok h
    cases h
    obtain ⟨done, hdone, he⟩ := exists_of_bind_eq_ok he
    cases done with
    | none =>
      cases he
      exact .refl _ _
    | some m₁ =>
      have rest : Duty.Interruptible [] := trivial
      exact (leads_completion rest hdone).trans (leads_episodePhases (e := ⟨m₁, upcoming, []⟩) he)
  | schedule cause upcoming =>
    obtain ⟨e, he, h⟩ := exists_of_bind_eq_ok h
    cases h
    have begun : Leads m [] m [.phases cause Phase.all] :=
      fun arrived dropped => ⟨arrived, dropped, .single (.schedule cause)⟩
    exact begun.trans (leads_episodePhases he)

/-- A sequence of calls leads from rest to rest. -/
theorem leads_performAll {cs : List Command} {m m' : Machine σ} (h : m.performAll cs = .ok m') :
    Leads m [] m' [] := by
  induction cs generalizing m with
  | nil =>
    cases h
    exact .refl _ _
  | cons c cs ih =>
    obtain ⟨m₁, h₁, h⟩ := exists_of_bind_eq_ok h
    exact (leads_perform h₁).trans (ih h)

/-- A run that goes on with calls to a machine at rest that passes a test. -/
theorem exists_path_of_performAll {cs : List Command} {mo : Moment σ} {test : Machine σ → Bool}
    (rest : mo.pending = []) (h : (mo.ledger.machine.performAll cs).toOption.any test = true) :
    ∃ mo', Relation.ReflTransGen Next mo mo' ∧ mo'.pending = [] ∧
      test mo'.ledger.machine = true := by
  obtain ⟨⟨m, arrived, dropped⟩, pending⟩ := mo
  obtain rfl : pending = [] := rest
  obtain ⟨m', run, passes⟩ := exists_of_any_toOption h
  obtain ⟨arrived', dropped', path⟩ := leads_performAll run arrived dropped
  exact ⟨_, path, rfl, passes⟩

/-- A run in which calls lead to a machine at rest that passes a test. -/
theorem exists_reachable_of_performAll {cs : List Command} {m : Machine σ}
    {test : Machine σ → Bool} (h : (m.performAll cs).toOption.any test = true) :
    ∃ mo, Reachable m mo ∧ mo.pending = [] ∧ test mo.ledger.machine = true :=
  exists_path_of_performAll rfl h

end Moment
end Mlfq
