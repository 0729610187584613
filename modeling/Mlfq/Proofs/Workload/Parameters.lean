import Mlfq.Proofs.Workload.Caps

/-! # What random processes are like

Whatever numbers are drawn, a random process has a largest program counter from the range of the
draws, ends after few wraps or never, and starts at its first point. The trap points of a process
that makes requests are dealt to the devices in turn, so that each gets a fair share and no two
share a point; the members of pairs hold no lock where they wrap. -/

namespace Mlfq

/-! ## Processes -/

open RandomWorkload

/-- The counter is in none of the intervals in which the standard program may hold a lock, and not
next to a standard rendezvous point. -/
structure OutsideWindows (pc : Nat) : Prop where
  mutex : ∃ windows, MutexProgram.standard.holdWindows = .ok windows ∧ windows.length = 8 ∧
    ∀ window ∈ windows, ¬(window.1 ≤ pc ∧ pc < window.2)
  rendezvous : ∀ t ∈ TriggerSet.rendezvous.points, ¬(t - 1 ≤ pc ∧ pc < t + 1)

/-- A safe counter is outside all intervals. -/
theorem outsideWindows_of_isSafe {pc : Nat} (safe : isSafe pc = true) : OutsideWindows pc := by
  have outside : ∀ window ∈ holdWindows, ¬(window.1 ≤ pc ∧ pc < window.2) := by
    simpa [isSafe] using safe
  obtain ⟨windows, found, count⟩ : ∃ windows, MutexProgram.standard.holdWindows = .ok windows ∧
      windows.length = 8 := by
    have test : MutexProgram.standard.holdWindows.toOption.any (·.length == 8) = true := by
      decide +kernel
    obtain ⟨windows, found, count⟩ := exists_of_any_toOption test
    exact ⟨windows, found, beq_iff_eq.1 count⟩
  have all : holdWindows = windows ++ TriggerSet.rendezvous.points.map fun t => (t - 1, t + 1) := by
    rw [holdWindows, found]
    rfl
  rw [all] at outside
  refine ⟨⟨windows, found, count, fun window h => ?_⟩, fun t ht => ?_⟩
  · exact outside window (List.mem_append_left _ h)
  · exact outside (t - 1, t + 1) (List.mem_append_right _ (List.mem_map_of_mem ht))

/-- What a random process is like when it arrives, with so many devices. -/
structure Proc.WithinDraws (devices : Nat) (p : Proc) : Prop where
  maxPc : 20 ≤ p.maxPc ∧ p.maxPc ≤ 419
  pc : p.pc = 0
  priority : p.priority = .highest
  ioBound : p.kind = .ioBound →
    p.terminateAfter ≤ 30 ∧ ∃ sets, p.plan = .io sets ∧ Dealt devices p.maxPc sets
  computeBound : p.kind = .computeBound → p.terminateAfter ≤ 30
  member : p.kind ∈ [.mutexUser, .producer, .consumer] →
    p.terminateAfter = 0 ∧ OutsideWindows p.maxPc

namespace RandomWorkload

variable {maxPc : Nat}

theorem withinDraws_ioBound {devices terminateAfter : Nat} {sets : List TriggerSet} (pid : Pid)
    (range : 20 ≤ maxPc ∧ maxPc ≤ 419) (few : terminateAfter ≤ 30)
    (dealt : Dealt devices maxPc sets) :
    (Proc.ioBound pid maxPc terminateAfter sets).WithinDraws devices :=
  ⟨range, rfl, rfl, fun _ => ⟨few, sets, rfl, dealt⟩, nofun, by simp [Proc.ioBound]⟩

theorem withinDraws_computeBound (devices : Nat) {terminateAfter : Nat} (pid : Pid)
    (range : 20 ≤ maxPc ∧ maxPc ≤ 419) (few : terminateAfter ≤ 30) :
    (Proc.computeBound pid maxPc terminateAfter).WithinDraws devices :=
  ⟨range, rfl, rfl, nofun, fun _ => few, by simp [Proc.computeBound]⟩

theorem withinDraws_mutexUser (devices : Nat) (pid : Pid) (suits : Suits maxPc) :
    (Proc.mutexUser pid maxPc).WithinDraws devices :=
  ⟨suits.range, rfl, rfl, nofun, nofun, fun _ => ⟨rfl, outsideWindows_of_isSafe suits.safe⟩⟩

theorem withinDraws_partner (devices : Nat) (pid : Pid) (suits : Suits maxPc) {kind : Proc.Kind}
    (side : kind = .producer ∨ kind = .consumer) :
    (Proc.partner kind pid maxPc).WithinDraws devices := by
  have member : (Proc.partner kind pid maxPc).kind ∈ [.mutexUser, .producer, .consumer] →
      (Proc.partner kind pid maxPc).terminateAfter = 0 ∧ OutsideWindows maxPc :=
    fun _ => ⟨rfl, outsideWindows_of_isSafe suits.safe⟩
  rcases side with rfl | rfl <;> exact ⟨suits.range, rfl, rfl, nofun, nofun, member⟩

theorem Candidate.withinDraws {w : RandomWorkload} {d : Draft} {c : Option Arrival × Draft}
    (h : Candidate w d c) : ∀ a ∈ c.1, ∀ p ∈ a.procs, p.WithinDraws w.ioDevices := by
  intro a ha p hp
  cases h with
  | dropped gen => cases ha
  | ioBound gen room range few dealt =>
    cases ha
    rw [List.mem_singleton.1 hp]
    exact withinDraws_ioBound _ range few dealt
  | computeBound gen room range few =>
    cases ha
    rw [List.mem_singleton.1 hp]
    exact withinDraws_computeBound _ _ range few
  | mutexPair gen room suits₁ suits₂ =>
    cases ha
    rcases List.mem_pair.1 hp with rfl | rfl
    · exact withinDraws_mutexUser _ _ suits₁
    · exact withinDraws_mutexUser _ _ suits₂
  | rendezvousPair gen room suits₁ suits₂ =>
    cases ha
    rcases List.mem_pair.1 hp with rfl | rfl
    · exact withinDraws_partner _ _ suits₁ (.inl rfl)
    · exact withinDraws_partner _ _ suits₂ (.inr rfl)

theorem withinDraws_candidates (w : RandomWorkload) (n : Nat) (d : Draft) :
    ∀ a ∈ (w.candidates n d).1, ∀ p ∈ a.procs, p.WithinDraws w.ioDevices := by
  refine candidates_induction (w := w) (R := fun _ as _ =>
    ∀ a ∈ as, ∀ p ∈ a.procs, p.WithinDraws w.ioDevices) 
    (fun _ a ha => absurd ha List.not_mem_nil) ?_ n d
  intro d c as d' spec rest a ha
  rcases List.mem_append.1 ha with here | later
  · exact spec.withinDraws a (Option.mem_toList.1 here)
  · exact rest a later

end RandomWorkload

/-- The processes of a random batch are drawn from their ranges, whatever the state of the generator
and the census are, and they get the next numbers in order. -/
theorem RandomWorkload.withinDraws_of_batch {w : RandomWorkload} {pids : PidAllocator}
    {census : Census} {batch : Batch RandomWorkload}
    (answer : Workload.batch w pids census = .ok batch) :
    (∀ a ∈ batch.arrivals, ∀ p ∈ a.procs, p.WithinDraws w.ioDevices) ∧
      pids.HandsOut (batch.arrivals.flatMap Arrival.procs) batch.pids := by
  refine ⟨?_, (drawn_of_batch answer).2.1⟩
  obtain rfl := eq_of_batch answer
  exact w.withinDraws_candidates _ _

/-- A batch with processes of all kinds. -/
theorem RandomWorkload.withinDraws_of_batch_crowded : ∃ batch,
    Workload.batch (ofConfig .crowded) ⟨7⟩ {} = .ok batch ∧
    (∀ a ∈ batch.arrivals, ∀ p ∈ a.procs, p.WithinDraws 2) ∧
    (batch.arrivals.flatMap Arrival.procs).map (fun p => (p.pid.num, p.kind)) =
      [(7, .ioBound), (8, .mutexUser), (9, .mutexUser), (10, .producer), (11, .consumer),
        (12, .computeBound), (13, .computeBound)] := by
  have test : (Workload.batch (ofConfig .crowded) ⟨7⟩ {}).toOption.any (fun batch =>
      (batch.arrivals.flatMap Arrival.procs).map (fun p => (p.pid.num, p.kind)) =
        [(7, .ioBound), (8, .mutexUser), (9, .mutexUser), (10, .producer), (11, .consumer),
          (12, .computeBound), (13, .computeBound)]) = true := by
    decide +kernel
  obtain ⟨batch, answer, members⟩ := exists_of_any_toOption test
  exact ⟨batch, answer, (withinDraws_of_batch answer).1, of_decide_eq_true members⟩

end Mlfq
