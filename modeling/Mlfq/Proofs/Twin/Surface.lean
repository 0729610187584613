import Mlfq.Proofs.Scene.Simulation

/-! # The surface of a machine

The trace, the watch for deadlocks and the dropping of ended processes have states of their own, and
so have locks, channels and mutex pairs. All other parts of a machine are its surface. Except where
a trap asks for a lock or a channel, machines with one surface do the same, and keep one surface. -/

namespace Mlfq

/-- A configuration without the settings that tell what is recorded, when deadlocks are looked for,
and when ended processes are dropped. -/
def Config.unobserved (c : Config) : Config :=
  { c with recordTrace := false, scanInterval := 0, zombieThreshold := 0 }

/-- What lies under the surface of a machine. -/
structure Depths where
  recordTrace : Bool := false
  scanInterval : Nat := 0
  zombieThreshold : Nat := 0
  sinceScan : Nat := 0
  zombies : Queue := []
  locks : Registry LockId Lock := {}
  channels : Registry ChannelId Channel := {}
  pairs : MutexPairs := {}
  monitor : DeadlockMonitor := {}
  journal : Journal := {}

/-! ## Outcomes -/

/-- Two computations have outcomes that are related, or the same fault. -/
inductive Outcomes {α β : Type} (R : α → β → Prop) : Except Crash α → Except Crash β → Prop
  | ok {a : α} {b : β} (h : R a b) : Outcomes R (.ok a) (.ok b)
  | error (fault : Fault) (journal journal' : Journal) :
    Outcomes R (.error ⟨fault, journal⟩) (.error ⟨fault, journal'⟩)

namespace Outcomes

variable {α β γ δ : Type} {R S : α → β → Prop} {T : γ → δ → Prop} {x : Except Crash α}
  {y : Except Crash β}

theorem mono (h : Outcomes R x y) (imp : ∀ a b, x = .ok a → y = .ok b → R a b → S a b) :
    Outcomes S x y := by
  cases h with
  | ok h => exact .ok (imp _ _ rfl rfl h)
  | error fault journal journal' => exact .error fault journal journal'

theorem bind {f : α → Except Crash γ} {g : β → Except Crash δ} (h : Outcomes R x y)
    (next : ∀ a b, R a b → Outcomes T (f a) (g b)) : Outcomes T (x >>= f) (y >>= g) := by
  cases h with
  | ok h => exact next _ _ h
  | error fault journal journal' => exact .error fault journal journal'

/-- The results of two computations that pass a test each. -/
theorem exists_of_any (h : Outcomes R x y) {test : α → Bool} {test' : β → Bool}
    (passes : x.toOption.any test = true) (passes' : y.toOption.any test' = true) :
    ∃ a b, R a b ∧ test a = true ∧ test' b = true := by
  cases h with
  | ok h => exact ⟨_, _, h, passes, passes'⟩
  | error => cases passes

/-- What holds of two lists of things still to do holds of the rest after the first of them was
done. -/
theorem foldlM {β γ : Type} {Q : List α → β → γ → Prop} {f : β → α → Except Crash β}
    {g : γ → α → Except Crash γ}
    (step : ∀ a as b c, Q (a :: as) b c → Outcomes (Q as) (f b a) (g c a))
    {as : List α} {b : β} {c : γ} (h : Q as b c) :
    Outcomes (Q []) (as.foldlM f b) (as.foldlM g c) := by
  induction as generalizing b c with
  | nil => exact .ok h
  | cons a as ih =>
    rw [List.foldlM_cons, List.foldlM_cons]
    exact (step a as b c h).bind fun _ _ => ih

end Outcomes

variable {σ : Type}

namespace Machine

/-- The machine of this surface over other depths. -/
def atop (m : Machine σ) (d : Depths) : Machine σ :=
  { m with
    config := { m.config with
      recordTrace := d.recordTrace
      scanInterval := d.scanInterval
      zombieThreshold := d.zombieThreshold }
    sinceScan := d.sinceScan
    zombies := d.zombies
    locks := { m.locks with locks := d.locks }
    channels := d.channels
    pairs := d.pairs
    monitor := d.monitor
    journal := d.journal }

/-- What lies under the surface. -/
def depths (m : Machine σ) : Depths where
  recordTrace := m.config.recordTrace
  scanInterval := m.config.scanInterval
  zombieThreshold := m.config.zombieThreshold
  sinceScan := m.sinceScan
  zombies := m.zombies
  locks := m.locks.locks
  channels := m.channels
  pairs := m.pairs
  monitor := m.monitor
  journal := m.journal

/-- The surface of a machine, over empty depths. -/
def surface (m : Machine σ) : Machine σ := m.atop {}

variable {m m' m₁ m₁' m₂ m₂' : Machine σ}

theorem exists_atop_of_surface_eq (h : m'.surface = m.surface) : ∃ d, m' = m.atop d :=
  ⟨m'.depths, congrArg (·.atop m'.depths) h⟩

@[simp] theorem surface_atop (m : Machine σ) (d : Depths) : (m.atop d).surface = m.surface := rfl
@[simp] theorem running_atop (m : Machine σ) (d : Depths) : (m.atop d).running = m.running := rfl
@[simp] theorem cpuPc_atop (m : Machine σ) (d : Depths) : (m.atop d).cpuPc = m.cpuPc := rfl
@[simp] theorem ready_atop (m : Machine σ) (d : Depths) : (m.atop d).ready = m.ready := rfl
@[simp] theorem devices_atop (m : Machine σ) (d : Depths) : (m.atop d).devices = m.devices := rfl
@[simp] theorem gen_atop (m : Machine σ) (d : Depths) : (m.atop d).gen = m.gen := rfl
@[simp] theorem strictUnlock_atop (m : Machine σ) (d : Depths) :
    (m.atop d).config.strictUnlock = m.config.strictUnlock := rfl

/-- What the machine has of ended processes, mutex pairs, locks and channels. -/
def tables (m : Machine σ) :
    Queue × MutexPairs × Registry LockId Lock × Registry ChannelId Channel :=
  (m.zombies, m.pairs, m.locks.locks, m.channels)

/-- Two machines go on to others with one surface and leave alone what lies under it but for their
records of what was observed. -/
structure Parallel (m m' m₁ m₁' : Machine σ) : Prop where
  surface : m₁'.surface = m₁.surface
  left : m₁.tables = m.tables
  right : m₁'.tables = m'.tables

theorem Parallel.trans (h : Parallel m m' m₁ m₁') (h' : Parallel m₁ m₁' m₂ m₂') :
    Parallel m m' m₂ m₂' :=
  ⟨h'.surface, h'.left.trans h.left, h'.right.trans h.right⟩

/-! ## Parts of a dispatcher run -/

section

variable (same : m'.surface = m.surface)

include same

theorem parallel_refl : Parallel m m' m m' := ⟨same, rfl, rfl⟩

theorem parallel_admitNewcomers : Parallel m m' m.admitNewcomers m'.admitNewcomers := by
  obtain ⟨d, rfl⟩ := exists_atop_of_surface_eq same
  exact ⟨rfl, rfl, rfl⟩

theorem parallel_preempt : Parallel m m' m.preempt m'.preempt := by
  obtain ⟨d, rfl⟩ := exists_atop_of_surface_eq same
  simp only [preempt, running_atop]
  cases m.running <;> exact ⟨rfl, rfl, rfl⟩

theorem parallel_dispatch : Parallel m m' m.dispatch m'.dispatch := by
  obtain ⟨d, rfl⟩ := exists_atop_of_surface_eq same
  simp only [dispatch, ready_atop]
  cases m.ready.dequeue <;> exact ⟨rfl, rfl, rfl⟩

theorem parallel_raiseTimer : Parallel m m' m.raiseTimer m'.raiseTimer := by
  obtain ⟨d, rfl⟩ := exists_atop_of_surface_eq same
  exact ⟨rfl, rfl, rfl⟩

/-! ## Parts of a cycle -/

theorem parallel_beginCycle : Parallel m m' m.beginCycle m'.beginCycle := by
  obtain ⟨d, rfl⟩ := exists_atop_of_surface_eq same
  exact ⟨rfl, rfl, rfl⟩

theorem parallel_countIdle : Parallel m m' m.countIdle m'.countIdle := by
  obtain ⟨d, rfl⟩ := exists_atop_of_surface_eq same
  exact ⟨rfl, rfl, rfl⟩

omit same in
theorem surface_scanIfDue (m : Machine σ) : m.scanIfDue.surface = m.surface := by
  obtain ⟨sinceScan, monitor, journal, scan⟩ := Scene.scanIfDue_eq m
  rw [scan]
  rfl

omit same in
theorem tables_scanIfDue (m : Machine σ) : m.scanIfDue.tables = m.tables := by
  obtain ⟨sinceScan, monitor, journal, scan⟩ := Scene.scanIfDue_eq m
  rw [scan]
  rfl

theorem parallel_scanIfDue : Parallel m m' m.scanIfDue m'.scanIfDue :=
  ⟨by rw [surface_scanIfDue, surface_scanIfDue, same], tables_scanIfDue m, tables_scanIfDue m'⟩

omit same in
/-- A fault does not depend on the machine. -/
theorem outcomes_attempt {α : Type} (m m' : Machine σ) (r : Except Fault α) :
    Outcomes (fun a b => b = a) (m.attempt r) (m'.attempt r) := by
  cases r with
  | ok a => exact .ok rfl
  | error fault => exact .error fault _ _

theorem parallel_advance : Outcomes (Parallel m m') m.advance m'.advance := by
  obtain ⟨d, rfl⟩ := exists_atop_of_surface_eq same
  simp only [advance, running_atop, cpuPc_atop]
  cases m.running with
  | none => exact .ok ⟨rfl, rfl, rfl⟩
  | some p =>
    refine .bind (outcomes_attempt ..) fun pc pc' here => ?_
    obtain rfl := here
    split
    · exact .ok ⟨rfl, rfl, rfl⟩
    · refine .bind (outcomes_attempt ..) fun wraps wraps' here => ?_
      obtain rfl := here
      exact .ok ⟨rfl, rfl, rfl⟩

/-! ## Devices -/

omit same in
/-- A draw changes the generator only. -/
theorem drawCountdown_eq (m : Machine σ) (priority : Priority) : m.drawCountdown priority =
    (Word.satAdd (m.config.quantum priority.val) (10 + (m.gen.below 100).1),
      { m with gen := (m.gen.below 100).2 }) := by
  unfold drawCountdown
  generalize m.gen.below 100 = drawn
  rfl

theorem parallel_startIo (device : DeviceId) :
    (m'.startIo device).1 = (m.startIo device).1 ∧
      Parallel m m' (m.startIo device).2 (m'.startIo device).2 := by
  obtain ⟨d, rfl⟩ := exists_atop_of_surface_eq same
  simp only [startIo, running_atop, devices_atop, drawCountdown_eq, gen_atop]
  cases m.devices[device.num]? with
  | none => exact ⟨rfl, rfl, rfl, rfl⟩
  | some b =>
    generalize m.gen.below 100 = drawn
    cases m.running <;> exact ⟨rfl, rfl, rfl, rfl⟩

theorem parallel_completeIo (device : DeviceId) :
    Outcomes (Option.Rel (Parallel m m')) (m.completeIo device) (m'.completeIo device) := by
  obtain ⟨d, rfl⟩ := exists_atop_of_surface_eq same
  simp only [completeIo, devices_atop, drawCountdown_eq, gen_atop]
  generalize m.gen.below 100 = drawn
  cases m.devices[device.num]? with
  | none => exact .ok .none
  | some b =>
    dsimp only
    cases b.queue.dequeue with
    | none => exact .ok .none
    | some first =>
      obtain ⟨p, rest⟩ := first
      refine .bind (outcomes_attempt ..) fun pc pc' here => ?_
      obtain rfl := here
      cases rest.head? <;> exact .ok (.some ⟨rfl, rfl, rfl⟩)

end

end Machine
end Mlfq
