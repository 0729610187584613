import Mlfq.Proofs.Story.Roll

/-! # The fate of one process

What one step of a story means for a single process: how it has got to its station, what was told
about it, and whether a cycle of it has begun. -/

namespace Mlfq.Story

variable {s s' : Story} {pid : Pid}

/-- What a step adds to the history of process `pid`: what is told about it, if events are written
down, and how many cycles of it begin. -/
structure Gains (s s' : Story) (pid : Pid) (told : List Mark) (ticks : Nat) : Prop where
  marks : s.tracing = true → marks pid s'.events = marks pid s.events ++ told
  ticks : s'.cycles.count (some pid) = s.cycles.count (some pid) + ticks

namespace Gains

theorem of_eq (events : s'.events = s.events) (cycles : s'.cycles = s.cycles) (pid : Pid) :
    Gains s s' pid [] 0 :=
  ⟨fun _ => by rw [events, List.append_nil], by rw [cycles, Nat.add_zero]⟩

variable {e : Event} {mark : Mark}

theorem silent (events : s.tracing = true → s'.events = s.events ++ [e])
    (cycles : s'.cycles = s.cycles) (tells : e.mark? = none) (pid : Pid) : Gains s s' pid [] 0 :=
  ⟨fun on => by rw [events on, marks_append, marks_silent pid tells],
    by rw [cycles, Nat.add_zero]⟩

theorem self (events : s.tracing = true → s'.events = s.events ++ [e])
    (cycles : s'.cycles = s.cycles) (tells : e.mark? = some (pid, mark)) :
    Gains s s' pid [mark] 0 :=
  ⟨fun on => by rw [events on, marks_append, marks_self tells], by rw [cycles, Nat.add_zero]⟩

theorem other (events : s.tracing = true → s'.events = s.events ++ [e])
    (cycles : s'.cycles = s.cycles) {who : Pid} (tells : e.mark? = some (who, mark))
    (ne : who ≠ pid) : Gains s s' pid [] 0 :=
  ⟨fun on => by rw [events on, marks_append, marks_other tells ne],
    by rw [cycles, Nat.add_zero]⟩

end Gains

/-- How a process with its station and record `x'` has come there in one step. -/
inductive Fate (s s' : Story) : Station × Proc → Prop
  /-- Nothing has happened to it. If its cycle was to be closed it still is, or it goes on. -/
  | stay {x : Station × Proc} (mem : x ∈ s.roll) (gains : Gains s s' x.2.pid [] 0)
    (unclosed : x.1 = .cpu → s.due = some x.2.pid →
      s'.due = some x.2.pid ∨ x.2.shouldTerminate = false) : Fate s s' x
  | arrive {p q : Proc} (mem : p ∈ s'.arrived) (outline : q.outline = p.outline)
    (pc : q.pc = p.pc) (wraps : q.wraps = p.wraps) (new : q.pid ∉ s.arrived.map (·.pid))
    (gains : Gains s s' q.pid [.admitted] 0) : Fate s s' (.line, q.core)
  | pass {x x' : Station × Proc} {e : Event} {mark : Mark} (mem : x ∈ s.roll)
    (passes : Passes s.due x e x' s'.due) (tells : e.mark? = some (x.2.pid, mark))
    (gains : Gains s s' x.2.pid [mark] 0) : Fate s s' x'
  | dispatch {p : Proc} (mem : (.line, p) ∈ s.roll) (gains : Gains s s' p.pid [.dispatched] 0) :
    Fate s s' (.cpu, p)
  | wake {p : Proc} (mem : (.lock, p) ∈ s.roll) (gains : Gains s s' p.pid [] 0) :
    Fate s s' (.line, p)
  /-- A cycle of it has begun. -/
  | tick {p p' : Proc} (mem : (.cpu, p) ∈ s.roll) (advances : p.Advances p')
    (idle : s.due = none) (due : s'.due = some p.pid) (gains : Gains s s' p.pid [] 1) :
    Fate s s' (.cpu, p')

/-- What a step leaves of the processes: everybody on the roll has a fate, and the history of nobody
else goes on. -/
structure Change (s s' : Story) : Prop where
  tracing : s'.tracing = s.tracing
  arrived : s.arrived <+: s'.arrived
  fate : ∀ x ∈ s'.roll, Fate s s' x
  others : ∀ pid, Gains s s' pid [] 0 ∨ ∃ x ∈ s'.roll, x.2.pid = pid

/-- What an event is about is told by it. -/
theorem Passes.exists_mark {due due' : Option Pid} {x x' : Station × Proc} {e : Event}
    (h : Passes due x e x' due') : ∃ mark, e.mark? = some (x.2.pid, mark) := by
  cases h <;> exact ⟨_, rfl⟩

/-- An event closes the cycle of nobody but its process. -/
theorem Passes.due_eq {due due' : Option Pid} {x x' : Station × Proc} {e : Event}
    (h : Passes due x e x' due') : due' = due ∨ due = some x.2.pid := by
  cases h with
  | expire | complete | signal => exact .inl rfl
  | request | block | wait | terminate => exact .inr rfl

/-- A step that leaves all records where they are. -/
theorem Change.of_gains (tracing : s'.tracing = s.tracing) (roll : s'.roll = s.roll)
    (arrived : s'.arrived = s.arrived)
    (gains : ∀ pid, Gains s s' pid [] 0)
    (unclosed : ∀ x ∈ s.roll, x.1 = .cpu → s.due = some x.2.pid →
      s'.due = some x.2.pid ∨ x.2.shouldTerminate = false) : Change s s' where
  tracing
  arrived := arrived ▸ List.prefix_rfl
  fate x hx := by
    rw [roll] at hx
    exact .stay hx (gains _) (unclosed x hx)
  others pid := .inl (gains pid)

/-- A step in which one process goes elsewhere. -/
theorem Change.of_move (proper : s.Proper) (distinct : s.Distinct) {x y : Station × Proc}
    {rest : Multiset (Station × Proc)} (here : s.roll = x ::ₘ rest)
    (there : s'.roll = y ::ₘ rest) (pid : y.2.pid = x.2.pid) (tracing : s'.tracing = s.tracing)
    (arrived : s'.arrived = s.arrived) (own : Fate s s' y)
    (gains : ∀ pid, x.2.pid ≠ pid → Gains s s' pid [] 0)
    (unclosed : ∀ w ∈ rest, s.due = some w.2.pid → s'.due = some w.2.pid) : Change s s' where
  tracing
  arrived := arrived ▸ List.prefix_rfl
  fate w hw := by
    rw [there] at hw
    rcases Multiset.mem_cons.1 hw with rfl | hw
    · exact own
    · exact .stay (here ▸ Multiset.mem_cons_of_mem hw)
        (gains _ (proper.pid_ne distinct here hw).symm) fun _ due => .inl (unclosed w hw due)
  others pid' := by
    by_cases same : x.2.pid = pid'
    · exact .inr ⟨y, there ▸ Multiset.mem_cons_self y rest, pid.trans same⟩
    · exact .inl (gains pid' same)

theorem Act.change (act : Act s s') (proper : s.Proper) (distinct : s'.Distinct) :
    Change s s' := by
  have distinct₁ := distinct.of_act act
  cases act with
  | @note e mark pair =>
    exact .of_gains rfl rfl rfl (Gains.silent (fun on => events_tell on e) rfl mark)
      fun _ _ _ due => .inl due
  | @arrive p q outline pc wraps =>
    have pid : q.pid = p.pid := congrArg (·.pid) outline
    have new : q.pid ∉ s.arrived.map (·.pid) := pid ▸ Distinct.notMem distinct
    have mem : p ∈ s.arrived ++ [p] := List.mem_append_right _ List.mem_cons_self
    have events := events_tell (s := { s with
      roll := (.line, q.core) ::ₘ s.roll, arrived := s.arrived ++ [p] })
      (e := .admitted q.pid q.kind)
    refine ⟨rfl, List.prefix_append .., fun x hx => ?_, fun pid' => ?_⟩
    · rcases Multiset.mem_cons.1 hx with rfl | hx
      · exact .arrive mem outline pc wraps new (.self events rfl rfl)
      · have ne : q.pid ≠ x.2.pid := fun same => new (same ▸ proper.pid_mem hx)
        exact .stay hx (.other events rfl rfl ne) fun _ due => .inl due
    · by_cases same : q.pid = pid'
      · exact .inr ⟨(.line, q.core), Multiset.mem_cons_self .., same⟩
      · exact .inl (.other events rfl rfl same)
  | @pass x x' e due rest here passes =>
    obtain ⟨mark, tells⟩ := passes.exists_mark
    have events := events_tell (s := { s with roll := x' ::ₘ rest, due }) (e := e)
    have mem : x ∈ s.roll := here ▸ Multiset.mem_cons_self x rest
    refine .of_move proper distinct₁ here rfl passes.pid_eq rfl rfl
      (.pass mem passes tells (.self events rfl tells))
      (fun pid ne => .other events rfl tells ne) fun y hy own => ?_
    rcases passes.due_eq with kept | closed
    · exact kept.trans own
    · rw [closed, Option.some.injEq] at own
      exact absurd own.symm (proper.pid_ne distinct₁ here hy)
  | @dispatch p rest priority here idle due =>
    have mem : (.line, p) ∈ s.roll := here ▸ Multiset.mem_cons_self ..
    have events := events_tell (s := { s with
      roll := (.cpu, p) ::ₘ rest
      sinceScan := s.sinceScan + 1
      dispatches := s.dispatches + 1 }) (e := .dispatched p.pid priority p.pc)
    exact .of_move (y := (.cpu, p)) proper distinct₁ here rfl rfl rfl rfl
      (.dispatch mem (.self events rfl rfl)) (fun pid ne => .other events rfl rfl ne)
      fun _ _ own => own
  | @wake p rest here =>
    have mem : (.lock, p) ∈ s.roll := here ▸ Multiset.mem_cons_self ..
    have gains : ∀ pid, Gains s { s with roll := (.line, p) ::ₘ rest } pid [] 0 := .of_eq rfl rfl
    exact .of_move (y := (.line, p)) proper distinct₁ here rfl rfl rfl rfl
      (.wake mem (gains _)) (fun pid _ => gains pid) fun _ _ own => own
  | @lose x rest here parked =>
    have gains : ∀ pid, Gains s { s with roll := rest } pid [] 0 := .of_eq rfl rfl
    refine ⟨rfl, List.prefix_rfl, fun y hy => ?_, fun pid => .inl (gains pid)⟩
    exact .stay (here ▸ Multiset.mem_cons_of_mem hy) (gains _) fun _ own => .inl own

theorem Settle.change (settle : Settle s s') : Change s s' := by
  cases settle with
  | resume pid due =>
    refine .of_gains rfl rfl rfl (Gains.of_eq rfl rfl) fun x _ _ own => ?_
    rw [due] at own
    cases own
  | goOn unfinished =>
    refine .of_gains rfl rfl rfl (Gains.of_eq rfl rfl) fun x hx cpu own => .inr ?_
    obtain ⟨st, p⟩ := x
    obtain rfl : st = .cpu := cpu
    exact unfinished p hx own

theorem Begin.change (begins : Begin s s') (proper : s.Proper) (distinct : s.Distinct) :
    Change s s' := by
  have gains : ∀ (s₁ : Story) pairs locks (n : Nat) (pid : Pid), s₁.events = s.events →
      s₁.cycles.count (some pid) = s.cycles.count (some pid) + n →
      Gains s (s₁.scanIfDue pairs locks) pid [] n := by
    intro s₁ pairs locks n pid events count
    refine ⟨fun _ => ?_, ?_⟩
    · rw [marks_scanIfDue, events, List.append_nil]
    · rw [cycles_scanIfDue, count]
  cases begins with
  | idle pairs locks idle due =>
    refine .of_gains (tracing_scanIfDue ..) (roll_scanIfDue ..) (arrived_scanIfDue ..)
      (fun pid => ?_) fun x _ _ own => ?_
    · refine gains _ pairs locks 0 pid rfl ?_
      rw [List.count_append]
      rfl
    · rw [due] at own
      cases own
  | @tick p p' rest pairs locks here advances due =>
    have mem : (.cpu, p) ∈ s.roll := here ▸ Multiset.mem_cons_self ..
    refine .of_move (y := (.cpu, p')) proper distinct here (roll_scanIfDue ..) advances.pid_eq
      (tracing_scanIfDue ..) (arrived_scanIfDue ..)
      (.tick mem advances due (due_scanIfDue ..) ?_) (fun pid ne => ?_) fun y _ own => ?_
    · refine gains _ pairs locks 1 p.pid rfl ?_
      rw [List.count_append, List.count_singleton_self]
    · refine gains _ pairs locks 0 pid rfl ?_
      have other : List.count (some pid) [some p.pid] = 0 :=
        List.count_singleton.trans (if_neg (by simpa using ne))
      rw [List.count_append, other]
    · rw [due] at own
      cases own

/-- What holds at first and is kept by every change of the processes holds at every moment. -/
theorem Steps.invariant_of_change {I : Story → Prop} (steps : Steps s s') (proper : s.Proper)
    (start : I s) (change : ∀ {s s'}, s.Proper → s'.Proper → Change s s' → I s → I s')
    (distinct : s'.Distinct) : I s' := by
  refine steps.invariant proper start ?_ ?_ ?_ distinct
  · intro s s' proper distinct act h
    exact change proper (proper.act act) (act.change proper distinct) h
  · intro s s' proper settle h
    exact change proper (proper.settle settle) settle.change h
  · intro s s' proper distinct begins h
    exact change proper (proper.begins begins) (begins.change proper distinct) h

end Mlfq.Story
