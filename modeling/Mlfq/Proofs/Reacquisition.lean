import Mlfq.Proofs.Channel.Rendezvous
import Mlfq.Proofs.Retry.Refusal

/-! # A refused lock is asked for again

After a mutex user was parked on a lock, its next cycle takes it back to the point at which it asked
for the lock, and it asks again. So it never gets past the point before it has got the lock. There
is one way out: a process that asks for a lock at the counter 0 has no step before it to go back to,
and it goes on from 0 to 1, unless 0 is its only counter. -/

namespace Mlfq

variable {σ : Type}

namespace Chronicle

variable [Workload σ]

/-- In the cycle that begins between two moments process `p` comes to the point `pc`, asks there for
lock `id` and is parked on it. For a mutex user this is where the trace tells that it was parked. -/
structure Blocks (c c' : Chronicle σ) (p : Proc) (id : LockId) (pc : Nat) : Prop where
  next : Next c c'
  parks : ∃ m, c.machine.Raises p (.lock id) m ∧ m.cpuPc = pc ∧
    m.handleTrap (.lock id) = (some .lockTrap, c'.machine)

/-- Until the cycle that has just begun is over, process `pid` is parked on lock `id`; or it holds
the lock, unless it has ended with the cycle and was dropped. -/
inductive Answers (c : Chronicle σ) (pid : Pid) (id : LockId) : Prop
  | parks (stays : ∀ c', Later c c' → c'.machine.iteration = c.machine.iteration →
    Arrival.Lone c'.moment.ledger.arrived pid → c'.machine.locks.Parks id pid)
  | grants (stays : ∀ c', Later c c' → c'.machine.iteration = c.machine.iteration →
    pid ∉ c'.moment.ledger.goneIds → c'.machine.locks.HeldBy id pid)

/-- Process `pid` is on its way back to the point `pc`, to ask there for lock `id`. -/
structure Returns (c : Chronicle σ) (pid : Pid) (id : LockId) (pc : Nat) : Prop where
  /-- Wherever it is, it stands one step before the point. -/
  stands : ∀ place, ∀ r ∈ c.machine.resumingAt place, r.pid = pid → r.pc = pc - 1
  /-- If its cycle is next, it comes to the point and asks for the lock. Only the count of its wraps
  can be at its end, if it wraps on the way. -/
  asks : c.moment.pending = [] → ∀ q, c.machine.running = some q → q.pid = pid →
    0 < pc ∨ q.wraps < Word.max → ∃ m, c.machine.Raises q (.lock id) m ∧ m.cpuPc = pc
  /-- In its next cycle it asks for the lock at the point, and is answered. -/
  answered : ∀ c', Next c c' → c'.ticks pid ≠ c.ticks pid →
    (∃ q m, c.machine.Raises q (.lock id) m ∧ q.pid = pid ∧ m.cpuPc = pc ∧
      c'.machine = (m.handleTrap (.lock id)).2) ∧ c'.Answers pid id

/-- Process `pid`, which was parked on lock `id` at one moment, has not got past the point `pc` up
to another without the lock. -/
structure Retries (c c' : Chronicle σ) (pid : Pid) (id : LockId) (pc : Nat) : Prop where
  /-- Until its next cycle it is on its way back. -/
  first : c'.ticks pid = c.ticks pid → c'.Returns pid id pc
  /-- So it is after any number of cycles, unless it has held the lock meanwhile. -/
  always : (∃ c₁, Later c c₁ ∧ Later c₁ c' ∧ c₁.machine.locks.HeldBy id pid) ∨
    c'.Returns pid id pc

/-- What becomes of the locks that are refused between a moment and the next. -/
structure Refuses (c c₁ : Chronicle σ) : Prop where
  /-- When a mutex user runs, the trace tells that a process was parked on a lock if and only if it
  is this one and it is parked. -/
  told : c.machine.journal.tracing = true → ∀ p program, c.machine.running = some p →
    p.plan = .mutex program → ∀ pid id,
      (∃ holder, .lockBlocked pid id holder ∈ c.moment.told c₁.moment) ↔
        pid = p.pid ∧ ∃ pc, Blocks c c₁ p id pc
  /-- Who is parked goes back to the point at which it has asked, and asks again. -/
  retried : ∀ p id pc, Blocks c c₁ p id pc → 0 < pc ∨ p.maxPc = 0 → ∀ c₂, Later c₁ c₂ →
    Arrival.Lone c₂.moment.ledger.arrived p.pid → Retries c₁ c₂ p.pid id pc

end Chronicle

/-! ## Reachable moments -/

namespace Chronicle

variable [Workload σ] {config : Config} {workload : σ} {logLevel : Option Level}
  {c c' : Chronicle σ} {pid : Pid}

theorem Reachable.paired (reachable : Reachable (.start config workload logLevel) c) :
    c.moment.ledger.scene.Paired :=
  Scene.paired_of_steps (Scene.fresh_start ..) (Scene.steps_of_reachable reachable.moment)

theorem Reachable.proper (reachable : Reachable (.start config workload logLevel) c) :
    c.story.Proper :=
  (Story.proper_opening config).steps (Story.steps_of_reachable reachable)

/-- A process that is somewhere on the roll has not ended, unless it is on the roll as such. -/
theorem Reachable.not_ended (reachable : Reachable (.start config workload logLevel) c)
    (lone : Arrival.Lone c.moment.ledger.arrived pid) {st : Station} {p : Proc}
    (here : (st, p) ∈ c.story.roll) (own : p.pid = pid) (alive : st ≠ .ended) {z : Proc}
    (ended : c.moment.ledger.Ended z) : z.pid ≠ pid := by
  intro same
  have twin := reachable.proper.eq_of_lone lone here (Ledger.mem_roll_of_ended ended) own same
  exact alive (congrArg Prod.fst twin).symm

/-- Who is parked on a lock of the table is on the roll as such. -/
theorem Reachable.mem_roll_of_parked (reachable : Reachable (.start config workload logLevel) c)
    {id : LockId} {l : Lock} (found : c.machine.locks.get? id = some l) {w : Proc}
    (parked : w ∈ l.waiters) : (Station.lock, w.core) ∈ c.story.roll := by
  have here : w ∈ c.machine.resumingAt (.tableLock id) := by
    show w ∈ c.machine.recordsAt (.tableLock id)
    rw [Machine.recordsAt, found]
    exact parked
  exact Ledger.mem_roll_of_mem_resumingAt (Story.tidy_of_reachable reachable) here

theorem Later.arrived_prefix (later : Later c c') :
    c.moment.ledger.arrived <+: c'.moment.ledger.arrived :=
  Scene.arrived_prefix_of_steps (Scene.steps_of_path later.moments)

/-- A cycle of a process begins only when it runs. -/
theorem Next.running_of_ticks_ne (next : Next c c') (own : c'.ticks pid ≠ c.ticks pid) :
    c'.moment.ledger.machine.iteration ≠ c.moment.ledger.machine.iteration ∧
      c.machine.runningPid? = some pid := by
  rw [ticks, ticks, next.2, List.count_append, Moment.begun] at own
  split at own
  · exact absurd rfl own
  · rename_i begun
    refine ⟨begun, ?_⟩
    by_contra other
    have other : c.moment.ledger.machine.runningPid? ≠ some pid := other
    rw [List.count_singleton, if_neg (mt eq_of_beq other)] at own
    exact own rfl

/-- A process that is dropped up to the next moment is no longer on the roll but as one that has
ended. -/
theorem Reachable.notMem_goneIds (reachable : Reachable (.start config workload logLevel) c)
    (lone : Arrival.Lone c.moment.ledger.arrived pid) {st : Station} {p : Proc}
    (here : (st, p) ∈ c.story.roll) (own : p.pid = pid) (alive : st ≠ .ended)
    (next : Next c c') : pid ∉ c'.moment.ledger.goneIds := by
  intro gone
  obtain ⟨z, ended, same⟩ := next.1.ended_of_mem_goneIds gone
  exact reachable.not_ended lone here own alive ended same

theorem iteration_le_of_later (reachable : Reachable (.start config workload logLevel) c)
    (later : Later c c') : c.machine.iteration ≤ c'.machine.iteration := by
  induction later with
  | refl => exact Nat.le_refl _
  | tail path next ih =>
    exact ih.trans (next.1.iteration_le (Story.tidy_of_reachable (reachable.trans path)).locks)

theorem ticks_le_of_next (next : Next c c') : c.ticks pid ≤ c'.ticks pid := by
  rw [ticks, ticks, next.2, List.count_append]
  exact Nat.le_add_right _ _

theorem ticks_le_of_later (later : Later c c') : c.ticks pid ≤ c'.ticks pid := by
  induction later with
  | refl => exact Nat.le_refl _
  | tail _ next ih => exact ih.trans (ticks_le_of_next next)

/-- What holds at a moment and is kept as long as no cycle begins. -/
theorem keep_within (reachable : Reachable (.start config workload logLevel) c)
    {I : Chronicle σ → Prop} (start : I c)
    (step : ∀ {c₁ c₂}, Reachable (.start config workload logLevel) c₁ → Next c₁ c₂ →
      c₂.machine.iteration = c₁.machine.iteration → I c₁ → I c₂) (later : Later c c')
    (within : c'.machine.iteration = c.machine.iteration) : I c' := by
  induction later with
  | refl => exact start
  | @tail c₁ c₂ path next ih =>
    have before := iteration_le_of_later reachable path
    have after := iteration_le_of_later (reachable.trans path) (.single next)
    exact step (reachable.trans path) next (by omega) (ih (by omega))

end Chronicle

/-- A process that asks for a lock of the table runs a two-lock program and is listed. -/
theorem Proc.exists_find?_of_trapAt {p : Proc} {pc : Nat} {pairs : MutexPairs} {id : LockId}
    (h : p.trapAt pc pairs = .ok (some (.lock id))) : ∃ program mem, p.plan = .mutex program ∧
      pairs.find? p.pid = some mem ∧
      program.trapAt pc mem.first mem.second = some (.lock id) := by
  rcases trapAt_cases h with ⟨program, -, -, plan, -⟩ | ⟨_, _, -, trap⟩ | ⟨_, _, -, trap⟩
  · simp only [trapAt, plan, Except.ok.injEq, Option.bind_eq_some_iff] at h
    obtain ⟨mem, found, trap⟩ := h
    exact ⟨program, mem, plan, found, trap⟩
  · cases trap
  · cases trap

/-! ## What the trace tells -/

namespace Chronicle

variable {c c' : Chronicle σ} {p : Proc} {id : LockId}

/-- Before the trap of a cycle only deadlocks are told. -/
theorem told_eq_of_raises {t : Trap} {m : Machine σ} (raises : c.machine.Raises p t m) {e : Event}
    (events : c'.machine.events = m.events ++ [e]) :
    ∃ es, (∀ e ∈ es, e.topic = .deadlock) ∧ c.moment.told c'.moment = es ++ [e] := by
  obtain ⟨-, es, topic, before⟩ := raises.tells.journal
  have before : m.events = c.machine.events ++ es := before
  rw [before, List.append_assoc] at events
  exact ⟨es, fun e he => List.mem_singleton.1 (topic e he), Moment.told_eq events⟩

variable [Workload σ]

/-- Who is parked runs a program with two locks. -/
theorem Blocks.exists_program {pc : Nat} (blocks : Blocks c c' p id pc) :
    c.machine.running = some p ∧ ∃ program, p.plan = .mutex program := by
  obtain ⟨-, m, raises, -, -⟩ := blocks
  obtain ⟨q, -, advances, trap⟩ := raises.exists_current
  obtain ⟨program, -, plan, -⟩ := Proc.exists_find?_of_trapAt trap
  exact ⟨raises.1, program, advances.plan_eq.symm.trans plan⟩

/-- The trace tells of a process that is parked. -/
theorem Blocks.told {pc : Nat} (blocks : Blocks c c' p id pc)
    (tracing : c.machine.journal.tracing = true) :
    ∃ holder, .lockBlocked p.pid id holder ∈ c.moment.told c'.moment := by
  obtain ⟨-, m, raises, -, handled⟩ := blocks
  obtain ⟨q, running, advances, -⟩ := raises.exists_current
  have pid : q.pid = p.pid := advances.pid_eq
  rcases Machine.handleTrap_refuses_or_grows running .lock id with ⟨-, -, refusal⟩ | ⟨goesOn, -⟩
  · rw [handled] at refusal
    obtain ⟨holder, events⟩ := refusal (raises.tells.journal.1.trans tracing)
    obtain ⟨es, -, told⟩ := told_eq_of_raises raises events
    rw [told, ← pid]
    exact ⟨holder, List.mem_append_right _ (.head _)⟩
  · have goesOn : (m.handleTrap (.lock id)).1 = none := goesOn
    rw [handled] at goesOn
    cases goesOn

/-- Where a mutex user runs, the trace tells of a process that is parked on a lock only when it is
this one and it is parked. -/
theorem exists_blocks_of_told (next : Next c c') (tracing : c.machine.journal.tracing = true)
    (running : c.machine.running = some p) {program : MutexProgram}
    (plan : p.plan = .mutex program) {pid : Pid} {holder : Option Pid}
    (told : .lockBlocked pid id holder ∈ c.moment.told c'.moment) :
    pid = p.pid ∧ ∃ pc, Blocks c c' p id pc := by
  obtain ⟨p', t, m, raises, after⟩ := next.1.raises_of_refusal told rfl
  have after : c'.machine = (m.handleTrap t).2 := after
  obtain rfl : p' = p := Option.some.inj (raises.1.symm.trans running)
  obtain ⟨action, id', rfl⟩ := raises.exists_action plan
  obtain ⟨q, running', advances, -⟩ := raises.exists_current
  rcases Machine.handleTrap_refuses_or_grows running' action id' with
    ⟨rfl, parked, refusal⟩ | ⟨-, grows⟩
  · have after : c'.machine = (m.handleTrap (.lock id')).2 := after
    rw [← after] at refusal
    obtain ⟨holder', events⟩ := refusal (raises.tells.journal.1.trans tracing)
    obtain ⟨es, topic, told'⟩ := told_eq_of_raises raises events
    rw [told', List.mem_append, List.mem_singleton] at told
    rcases told with early | same
    · cases topic _ early
    · cases same
      exact ⟨advances.pid_eq, m.cpuPc, next, m, raises, rfl, Prod.ext parked after.symm⟩
  · rw [← after] at grows
    have quiet := (raises.tells.grows_of_no_lock (by decide)).trans grows
    cases Moment.of_mem_told quiet told

end Chronicle

/-! ## From one attempt to the next -/

namespace Attempt

open Chronicle (Next Later Reachable Blocks)

/-- The process of the attempt, if it was not dropped, is listed and stands before the point. -/
structure Waits (a : Attempt) (c : Chronicle σ) : Prop where
  rests : c.story.Rests a.pid a.Fits
  listed : a.pid ∉ c.moment.ledger.goneIds → c.machine.Enlists a.pid a.mem

variable [Workload σ] {config : Config} {workload : σ} {logLevel : Option Level}
  {c c' : Chronicle σ} {p : Proc} {m : Machine σ} {a : Attempt}

/-- A process without a namesake that asks for a lock makes an attempt. -/
theorem exists_of_raises (reachable : Reachable (.start config workload logLevel) c)
    (lone : Arrival.Lone c.moment.ledger.arrived p.pid) {id : LockId}
    (raises : c.machine.Raises p (.lock id) m) (back : 0 < m.cpuPc ∨ p.maxPc = 0) :
    ∃ a : Attempt, a.id = id ∧ a.pc = m.cpuPc ∧ a.Describes p ∧
      c.machine.Enlists a.pid a.mem := by
  obtain ⟨q, running', advances, trap⟩ := raises.exists_current
  have pid : q.pid = p.pid := advances.pid_eq
  have plan : q.plan = p.plan := advances.plan_eq
  have maxPc : q.maxPc = p.maxPc := advances.maxPc_eq
  obtain ⟨program, mem, runs, found, asks⟩ := Proc.exists_find?_of_trapAt trap
  rw [pid] at found
  have le : m.cpuPc ≤ p.maxPc := maxPc ▸ advances.pc_le
  have word : m.cpuPc ≤ Word.max := by
    obtain ⟨running, m₁, advance, -⟩ := raises
    have lt : c.machine.cpuPc < Word.max :=
      Machine.lt_max_of_advance (m := c.machine.beginCycle) running advance
    have pc : m.cpuPc = Proc.stepFrom _ c.machine.cpuPc := advances.pc_eq
    rw [pc, Proc.stepFrom]
    split
    · exact lt
    · exact Nat.zero_le _
  have unmarked : mem.retired = false := by
    refine Bool.eq_false_iff.2 fun marked => ?_
    obtain ⟨pair, hpair, member⟩ := List.exists_of_findSome?_eq_some found
    obtain ⟨z, ended, same⟩ := Scene.marked_of_steps (Scene.fresh_start config workload logLevel)
      (Scene.steps_of_reachable reachable.moment) pair hpair p.pid
      (MutexPair.marks_of_member? member marked)
    exact reachable.not_ended lone (Story.mem_roll_of_running _ raises.1) rfl (by decide) ended same
  exact ⟨⟨p.pid, id, m.cpuPc, p.maxPc, program, mem, asks, word, le, back⟩, rfl, rfl,
    ⟨rfl, plan.symm.trans runs, rfl⟩, found, unmarked⟩

/-- The locks of a member are in the table when it asks for one. -/
theorem exists_found (a : Attempt) (reachable : Reachable (.start config workload logLevel) c)
    (listed : c.machine.Enlists a.pid a.mem) {t : Trap} (raises : c.machine.Raises p t m) :
    m.locks.Tidy ∧ ∃ l, m.locks.get? a.id = some l := by
  have locks : m.locks = c.machine.locks := congrArg (·.2.1) raises.shared_eq
  obtain ⟨which, own⟩ := a.exists_lock
  rw [locks, own]
  exact ⟨(Story.tidy_of_reachable reachable).locks, reachable.paired.exists_lock listed.found which⟩

/-- A process that is parked waits for its next cycle. -/
theorem waits_of_blocks (reachable : Reachable (.start config workload logLevel) c)
    (lone : Arrival.Lone c'.moment.ledger.arrived a.pid) (describes : a.Describes p)
    (listed : c.machine.Enlists a.pid a.mem) (blocks : Blocks c c' p a.id a.pc) :
    a.Waits c' ∧ c'.machine.locks.Parks a.id a.pid := by
  obtain ⟨next, m, raises, pc, handled⟩ := blocks
  have reachable' : Reachable (.start config workload logLevel) c' := reachable.tail next
  obtain ⟨q, running, advances, -⟩ := raises.exists_current
  obtain ⟨tidy, l, found⟩ := a.exists_found reachable listed raises
  have after : c'.machine = (m.handleTrap (.lock a.id)).2 := (congrArg Prod.snd handled).symm
  have cause : (m.handleTrap (.lock a.id)).1 = some .lockTrap := congrArg Prod.fst handled
  obtain ⟨goesOn, -⟩ | ⟨-, l', found', parked⟩ := Machine.handleTrap_lock_cases tidy running found
  · rw [cause] at goesOn
    cases goesOn
  rw [← after] at found'
  let w : Proc := { q with pc := m.cpuPc - 1, state := .blocked }
  have profile : w.core.profile = p.profile := advances.profile_eq
  have fits : a.Fits w.core := ⟨describes.of_profile_eq profile, by rw [← pc]; rfl⟩
  have here : (Station.lock, w.core) ∈ c'.story.roll := reachable'.mem_roll_of_parked found' parked
  refine ⟨⟨⟨fits.pid ▸ reachable'.proper.pid_mem here, fun x hx own => ?_⟩, fun _ => ?_⟩,
    l', found', List.mem_map.2 ⟨w, parked, fits.pid⟩⟩
  · obtain rfl := reachable'.proper.eq_of_lone lone here hx fits.pid own
    have apart : Station.lock ≠ .device := by decide
    exact ⟨apart, fits⟩
  · exact listed.congr (after ▸ (raises.confines (Story.tidy_of_reachable reachable).locks).pairs)

namespace Waits

variable (waits : a.Waits c) (reachable : Reachable (.start config workload logLevel) c)
  (lone : Arrival.Lone c.moment.ledger.arrived a.pid)

include waits reachable lone in
/-- A process that runs was not dropped. -/
theorem enlists_of_running {q : Proc} (running : c.machine.running = some q)
    (own : q.pid = a.pid) : c.machine.Enlists a.pid a.mem := by
  refine waits.listed fun gone => ?_
  obtain ⟨z, dropped, same⟩ := List.mem_map.1 gone
  have here := Story.mem_roll_of_running c.moment.ledger.dropped running
  exact reachable.not_ended lone here own (by decide) (.inr dropped) same

include waits reachable lone in
/-- The step of the process takes it to the point, where it asks for the lock. -/
theorem raises_of_advance {q : Proc} (running : c.machine.running = some q) (own : q.pid = a.pid)
    {m₁ : Machine σ} (advance : c.machine.beginCycle.advance = .ok m₁) :
    a.Describes q ∧ c.machine.Raises q (.lock a.id) m₁.scanIfDue ∧
      m₁.scanIfDue.cpuPc = a.pc := by
  have listed := waits.enlists_of_running reachable lone running own
  have here := Story.mem_roll_of_running c.moment.ledger.dropped running
  have fits : a.Fits (c.machine.current q) := (waits.rests.records _ here own).2
  have describes : a.Describes q := fits.toDescribes.of_profile_eq rfl
  obtain ⟨r, pc, same, advances⟩ :=
    Scene.exists_of_advance (m := c.machine.beginCycle) running advance
  obtain ⟨sinceScan, monitor, journal, scan⟩ := Scene.scanIfDue_eq m₁
  have there : m₁.scanIfDue.cpuPc = a.pc := by
    rw [scan]
    exact fits.pc_eq_of_advances advances
  have running' : m₁.scanIfDue.running = some r := by rw [scan, same]
  have pairs : m₁.scanIfDue.pairs = c.machine.pairs := by
    rw [scan, same]
    rfl
  have pid : r.pid = a.pid := advances.pid_eq.trans own
  have plan : r.plan = .mutex a.program := advances.plan_eq.trans describes.plan
  have trap : r.trapAt a.pc c.machine.pairs = .ok (some (.lock a.id)) := by
    simp only [Proc.trapAt, plan, pid, listed.found, Option.bind_some, a.asks]
  refine ⟨describes, ⟨running, m₁, advance, rfl, ?_⟩, there⟩
  rw [Machine.pendingTrap, running', there, pairs]
  simp only [trap]
  rfl

include waits reachable lone in
/-- In its next cycle the process asks for the lock, and gets it or is parked as before. -/
theorem own (next : Next c c') (own : c'.ticks a.pid ≠ c.ticks a.pid) :
    ∃ q m, a.Describes q ∧ c.machine.Raises q (.lock a.id) m ∧ m.cpuPc = a.pc ∧
      c.machine.Enlists a.pid a.mem ∧ c'.machine = (m.handleTrap (.lock a.id)).2 ∧
      (c'.machine.locks.HeldBy a.id a.pid ∨ Blocks c c' q a.id a.pc) := by
  have keyed := Story.keyed_of_tidy (Story.tidy_of_reachable reachable)
  obtain ⟨begun, runs⟩ := next.running_of_ticks_ne own
  obtain ⟨-, idle | ⟨q, cause, running, done, -⟩⟩ := next.1.cases_of_begun keyed begun
  · have idle : c.machine.running = none := idle
    rw [Machine.runningPid?, idle] at runs
    cases runs
  have running : c.machine.running = some q := running
  rw [Machine.runningPid?, running] at runs
  have pid : q.pid = a.pid := Option.some.inj runs
  obtain ⟨m₁, advance, -⟩ := exists_of_bind_eq_ok done
  obtain ⟨describes, raises, there⟩ :=
    waits.raises_of_advance reachable lone running pid advance
  have listed := waits.enlists_of_running reachable lone running pid
  have handled : m₁.scanIfDue.handleTrap (.lock a.id) = (cause, c'.machine) :=
    Except.ok.inj (raises.stepRunning_eq.symm.trans done)
  have after : c'.machine = (m₁.scanIfDue.handleTrap (.lock a.id)).2 :=
    (congrArg Prod.snd handled).symm
  refine ⟨q, m₁.scanIfDue, describes, raises, there, listed, after, ?_⟩
  obtain ⟨r, running', advances, -⟩ := raises.exists_current
  obtain ⟨tidy, l, found⟩ := a.exists_found reachable listed raises
  rcases Machine.handleTrap_lock_cases tidy running' found with ⟨-, held⟩ | ⟨parked, -⟩
  · have own' : r.pid = a.pid := advances.pid_eq.trans pid
    rw [← after, own'] at held
    exact .inl held
  · rw [handled] at parked
    exact .inr ⟨next, m₁.scanIfDue, raises, there, parked ▸ handled⟩

include waits reachable in
/-- Whatever happens but a cycle of its own leaves the process waiting. -/
theorem others (next : Next c c') (lone : Arrival.Lone c'.moment.ledger.arrived a.pid)
    (others : c'.ticks a.pid = c.ticks a.pid) : a.Waits c' := by
  have tidy := Story.tidy_of_reachable reachable
  refine ⟨waits.rests.next (fun p fits sets plan => ?_) lone (Story.next_of_next tidy next) others,
    fun stays => ?_⟩
  · rw [fits.plan] at plan
    cases plan
  · exact next.1.enlists tidy.locks (waits.listed fun gone => stays (next.1.goneIds_subset gone))
      stays

end Waits

/-! ## Until the cycle is over -/

/-- As long as no cycle begins, a process that stays listed finds its lock as it was. -/
theorem get?_eq_within (reachable : Reachable (.start config workload logLevel) c)
    (next : Next c c') (within : c'.machine.iteration = c.machine.iteration)
    (listed : c.machine.Enlists a.pid a.mem) (stays : a.pid ∉ c'.moment.ledger.goneIds) :
    c'.machine.Enlists a.pid a.mem ∧
      c'.machine.locks.get? a.id = c.machine.locks.get? a.id := by
  have tidy := (Story.tidy_of_reachable reachable).locks
  have listed' := next.1.enlists tidy listed stays
  obtain ⟨which, own⟩ := a.exists_lock
  rw [own]
  exact ⟨listed', next.1.get?_lock_eq tidy reachable.paired
    (Reachable.paired (reachable.tail next)) within listed listed' which⟩

/-- A process that is parked stays so until the next cycle begins. -/
theorem answers_of_parks (reachable : Reachable (.start config workload logLevel) c)
    (start : Arrival.Lone c.moment.ledger.arrived a.pid →
      c.machine.Enlists a.pid a.mem ∧ c.machine.locks.Parks a.id a.pid) :
    c.Answers a.pid a.id := by
  let I (c : Chronicle σ) : Prop := Arrival.Lone c.moment.ledger.arrived a.pid →
    c.machine.Enlists a.pid a.mem ∧ c.machine.locks.Parks a.id a.pid
  suffices step : ∀ {c₁ c₂}, Reachable (.start config workload logLevel) c₁ → Next c₁ c₂ →
      c₂.machine.iteration = c₁.machine.iteration → I c₁ → I c₂ from
    .parks fun _ later within lone =>
      (Chronicle.keep_within (I := I) reachable start step later within lone).2
  intro c₁ c₂ reachable₁ next within₁ before lone
  have lone₁ := lone.of_prefix (Chronicle.Later.arrived_prefix (.single next))
  obtain ⟨listed, parks⟩ := before lone₁
  -- Who is parked has not ended, and so is not dropped.
  have stays : a.pid ∉ c₂.moment.ledger.goneIds := by
    obtain ⟨l, found, mem⟩ := parks
    obtain ⟨w, hw, own⟩ := List.mem_map.1 mem
    have here := reachable₁.mem_roll_of_parked found hw
    exact reachable₁.notMem_goneIds lone₁ here own (by decide) next
  obtain ⟨listed', same⟩ := a.get?_eq_within reachable₁ next within₁ listed stays
  exact ⟨listed', (LockTable.parks_congr same a.pid).2 parks⟩

/-- A process that holds a lock does so until the next cycle begins, unless it is dropped. -/
theorem answers_of_holds (reachable : Reachable (.start config workload logLevel) c)
    (listed : c.machine.Enlists a.pid a.mem) (held : c.machine.locks.HeldBy a.id a.pid) :
    c.Answers a.pid a.id := by
  let I (c : Chronicle σ) : Prop := a.pid ∉ c.moment.ledger.goneIds →
    c.machine.Enlists a.pid a.mem ∧ c.machine.locks.HeldBy a.id a.pid
  suffices step : ∀ {c₁ c₂}, Reachable (.start config workload logLevel) c₁ → Next c₁ c₂ →
      c₂.machine.iteration = c₁.machine.iteration → I c₁ → I c₂ from
    .grants fun _ later within stays =>
      (Chronicle.keep_within (I := I) reachable (fun _ => ⟨listed, held⟩) step later within stays).2
  intro c₁ c₂ reachable₁ next within₁ before stays
  obtain ⟨listed, held⟩ := before fun gone => stays (next.1.goneIds_subset gone)
  obtain ⟨listed', same⟩ := a.get?_eq_within reachable₁ next within₁ listed stays
  exact ⟨listed', (LockTable.heldBy_congr same).2 held⟩

namespace Waits

/-- A process that waits is on its way back. -/
theorem returns (waits : a.Waits c) (reachable : Reachable (.start config workload logLevel) c)
    (lone : Arrival.Lone c.moment.ledger.arrived a.pid) : c.Returns a.pid a.id a.pc := by
  have tidy := Story.tidy_of_reachable reachable
  refine ⟨fun place r hr own => ?_, fun rest q running own room => ?_, fun c' next own => ?_⟩
  · have here := Ledger.mem_roll_of_mem_resumingAt tidy hr
    exact (waits.rests.records _ here own).2.pc
  · have here := Story.mem_roll_of_running c.moment.ledger.dropped running
    have fits : a.Fits (c.machine.current q) := (waits.rests.records _ here own).2
    have pc : c.machine.cpuPc = a.pc - 1 := fits.pc
    have maxPc : q.maxPc = a.maxPc := fits.maxPc
    have le := a.le
    obtain ⟨_, _, -, advance⟩ := Machine.exists_advance (m := c.machine.beginCycle) running
      fits.lt_max (room.imp_left fun pos => show c.machine.cpuPc < q.maxPc by omega)
    obtain ⟨-, raises, there⟩ := waits.raises_of_advance reachable lone running own advance
    exact ⟨_, raises, there⟩
  · obtain ⟨q, m, describes, raises, there, listed, after, outcome⟩ :=
      waits.own reachable lone next own
    refine ⟨⟨q, m, raises, describes.pid, there, after⟩, ?_⟩
    have reachable' : Reachable (.start config workload logLevel) c' := reachable.tail next
    rcases outcome with held | blocks
    · have listed' := listed.congr (after ▸ (raises.confines tidy.locks).pairs)
      exact a.answers_of_holds reachable' listed' held
    · refine a.answers_of_parks reachable' fun lone' => ?_
      have waits' := waits_of_blocks reachable lone' describes listed blocks
      exact ⟨listed.congr (after ▸ (raises.confines tidy.locks).pairs), waits'.2⟩

/-- A process that waits does so until its next cycle. -/
theorem until_next (waits : a.Waits c)
    (reachable : Reachable (.start config workload logLevel) c) (later : Later c c')
    (lone : Arrival.Lone c'.moment.ledger.arrived a.pid)
    (quiet : c'.ticks a.pid = c.ticks a.pid) : a.Waits c' := by
  induction later with
  | refl => exact waits
  | @tail c₁ c₂ path next ih =>
    have before : c.ticks a.pid ≤ c₁.ticks a.pid := Chronicle.ticks_le_of_later path
    have after : c₁.ticks a.pid ≤ c₂.ticks a.pid := Chronicle.ticks_le_of_next next
    have lone₁ := lone.of_prefix (Chronicle.Later.arrived_prefix (.single next))
    exact (ih lone₁ (by omega)).others (reachable.trans path) next lone (by omega)

/-- A process that waits does so until it has got the lock. -/
theorem until_held (waits : a.Waits c)
    (reachable : Reachable (.start config workload logLevel) c) (later : Later c c')
    (lone : Arrival.Lone c'.moment.ledger.arrived a.pid) :
    (∃ c₁, Later c c₁ ∧ Later c₁ c' ∧ c₁.machine.locks.HeldBy a.id a.pid) ∨ a.Waits c' := by
  induction later with
  | refl => exact .inr waits
  | @tail c₁ c₂ path next ih =>
    have reachable₁ := reachable.trans path
    have lone₁ := lone.of_prefix (Chronicle.Later.arrived_prefix (.single next))
    rcases ih lone₁ with ⟨c₀, before, after, held⟩ | waits₁
    · exact .inl ⟨c₀, before, after.tail next, held⟩
    by_cases others : c₂.ticks a.pid = c₁.ticks a.pid
    · exact .inr (waits₁.others reachable₁ next lone others)
    obtain ⟨q, m, describes, -, -, listed, -, held | blocks⟩ :=
      waits₁.own reachable₁ lone₁ next others
    · exact .inl ⟨c₂, path.tail next, .refl, held⟩
    · exact .inr (waits_of_blocks reachable₁ lone describes listed blocks).1

end Waits
end Attempt

/-! ## Runs -/

variable [Workload σ] {config : Config} {workload : σ} {logLevel : Option Level}
  {c c₁ c₂ : Chronicle σ}

/-- A process without a namesake that was parked on a lock asks for it in each of its cycles until
it gets it. -/
theorem Chronicle.Blocks.retries {p : Proc} {id : LockId} {pc : Nat} (blocks : c.Blocks c₁ p id pc)
    (reachable : Chronicle.Reachable (.start config workload logLevel) c)
    (back : 0 < pc ∨ p.maxPc = 0) (later : Chronicle.Later c₁ c₂)
    (lone : Arrival.Lone c₂.moment.ledger.arrived p.pid) : c₁.Retries c₂ p.pid id pc := by
  have reachable₁ : Chronicle.Reachable (.start config workload logLevel) c₁ :=
    reachable.tail blocks.next
  have reachable₂ := reachable₁.trans later
  have lone₁ := lone.of_prefix later.arrived_prefix
  have lone₀ := lone₁.of_prefix (Chronicle.Later.arrived_prefix (.single blocks.next))
  obtain ⟨m, raises, rfl, -⟩ := blocks.parks
  obtain ⟨a, rfl, there, describes, listed⟩ :=
    Attempt.exists_of_raises reachable lone₀ raises back
  rw [← there] at blocks ⊢
  rw [describes.pid] at lone lone₁ ⊢
  have waits := (a.waits_of_blocks reachable lone₁ describes listed blocks).1
  refine ⟨fun quiet => ?_, ?_⟩
  · exact (waits.until_next reachable₁ later lone quiet).returns reachable₂ lone
  · exact (waits.until_held reachable₁ later lone).imp_right fun still =>
      still.returns reachable₂ lone

/-- In every run the trace tells of the mutex users that are parked on a lock, and such a process,
if it has no namesake, asks for the lock in each of its cycles, at the same point, until it gets it;
if it has asked at a counter that has one before it. -/
theorem retries_of_blocks (reachable : Chronicle.Reachable (.start config workload logLevel) c)
    (next : Chronicle.Next c c₁) : c.Refuses c₁ := by
  constructor
  case told =>
    intro tracing p program running plan pid id
    constructor
    · rintro ⟨holder, told⟩
      exact Chronicle.exists_blocks_of_told next tracing running plan told
    · rintro ⟨rfl, pc, blocks⟩
      exact blocks.told tracing
  case retried => exact fun p id pc blocks back c₂ later lone =>
    blocks.retries reachable back later lone

/-- Whether in the next cycle of the machine process `pid` comes to the point `pc`, asks there for
the lock and is parked on it. -/
def Machine.isRefusing {σ : Type} (m : Machine σ) (pid : Pid) (id : LockId) (pc : Nat) : Bool :=
  m.running.any fun p => decide (p.pid = pid) && m.beginCycle.advance.toOption.any fun m₁ =>
    m₁.scanIfDue.pendingTrap.toOption.any fun t => decide (t = some (.lock id) ∧
      m₁.scanIfDue.cpuPc = pc ∧ (m₁.scanIfDue.handleTrap (.lock id)).1 = some .lockTrap)

/-- A run goes on with calls, and in the first cycle a process is parked. -/
theorem Chronicle.exists_blocks_of_isRefusing {pid : Pid} {id : LockId} {pc : Nat}
    (rest : c.moment.pending = []) (refusing : c.machine.isRefusing pid id pc = true)
    {upcoming : List (List Interrupt)} {calls : List Command} {test : Machine σ → Bool}
    (run : (c.machine.performAll (.tick upcoming :: calls)).toOption.any test = true) :
    ∃ c₁ c₂ p, p.pid = pid ∧ c.Blocks c₁ p id pc ∧ Chronicle.Later c₁ c₂ ∧
      c₂.moment.pending = [] ∧ test c₂.machine = true := by
  obtain ⟨⟨l, pending⟩, cycles⟩ := c
  obtain rfl : pending = [] := rest
  obtain ⟨p, running, refusing⟩ := (Option.any_eq_true _ _).1 refusing
  rw [Bool.and_eq_true, decide_eq_true_eq] at refusing
  obtain ⟨own, refusing⟩ := refusing
  obtain ⟨m₁, advance, refusing⟩ := exists_of_any_toOption refusing
  obtain ⟨t, trap, refusing⟩ := exists_of_any_toOption refusing
  obtain ⟨rfl, there, parked⟩ := of_decide_eq_true refusing
  have raises : l.machine.Raises p (.lock id) m₁.scanIfDue := ⟨running, m₁, advance, rfl, trap⟩
  obtain ⟨m', performed, passes⟩ := exists_of_any_toOption run
  obtain ⟨m₂, called, later⟩ := exists_of_bind_eq_ok performed
  obtain ⟨e, ticked, done⟩ := exists_of_bind_eq_ok called
  cases done
  obtain ⟨cause, m, step, leads⟩ :=
    Moment.leads_of_stepRunning (e := ⟨l.machine, upcoming, []⟩) running ticked
  have handled : (cause, m) = m₁.scanIfDue.handleTrap (.lock id) :=
    Except.ok.inj (step.symm.trans raises.stepRunning_eq)
  obtain rfl : cause = some .lockTrap := (congrArg Prod.fst handled).trans parked
  let mo₁ : Moment σ :=
    ⟨{ l with machine := m }, [.phases .lockTrap Phase.all, .closeCycle p.pid]⟩
  let c₁ : Chronicle σ := ⟨mo₁, cycles ++ Moment.begun ⟨l, []⟩ mo₁⟩
  have next : Chronicle.Next ⟨⟨l, []⟩, cycles⟩ c₁ := ⟨.busyCycle running step, rfl⟩
  obtain ⟨arrived, dropped, path⟩ :=
    (leads.trans (Moment.leads_performAll later)) l.arrived l.dropped
  obtain ⟨cycles', after⟩ := Chronicle.exists_later path c₁.cycles
  exact ⟨c₁, _, p, own, ⟨next, m₁.scanIfDue, raises, there, handled.symm⟩, after, rfl, passes⟩

/-- Two mutex users that take one lock at this point and release it at another. -/
def Arrival.rivals (lockAt unlockAt : Nat) : Arrival :=
  let none := TriggerSet.ofList []
  let program : MutexProgram :=
    ⟨.ofList [lockAt], none, .ofList [unlockAt], none, none, none, none, none⟩
  let rival (pid : Pid) : Proc :=
    { pid, kind := .mutexUser, maxPc := 3, terminateAfter := 0, plan := .mutex program }
  .mutexPair (rival ⟨0⟩) (rival ⟨1⟩) false

/-- Whoever has come of two rivals is there once. -/
theorem Moment.lone_of_rivals {config : Config} {lockAt unlockAt : Nat} {logLevel : Option Level}
    {mo : Moment GivenArrivals}
    (reachable : Reachable (.start config ⟨[.rivals lockAt unlockAt]⟩ logLevel) mo) (pid : Pid) :
    Arrival.Lone mo.ledger.arrived pid := by
  refine Arrival.Distinct.lone ?_ pid
  rcases arrived_of_given reachable with none | all
  · rw [none]
    exact List.nodup_nil
  · rw [all]
    exact (by decide : [(⟨0⟩ : Pid), ⟨1⟩].Nodup)

/-- A run in which a process is parked at counter 1, which is told, and has the lock after its next
cycle. -/
theorem retries_of_blocks_rivals : ∃ c c₁ c₂ : Chronicle GivenArrivals, ∃ p,
    Chronicle.Reachable (.start {} ⟨[.rivals 1 3]⟩ none) c ∧ Chronicle.Next c c₁ ∧
    (∃ holder, .lockBlocked p.pid ⟨0⟩ holder ∈ c.moment.told c₁.moment) ∧
    c.Blocks c₁ p ⟨0⟩ 1 ∧ Chronicle.Later c₁ c₂ ∧
    Arrival.Lone c₂.moment.ledger.arrived p.pid ∧ c₁.Retries c₂ p.pid ⟨0⟩ 1 ∧
    c₂.machine.locks.HeldBy ⟨0⟩ p.pid := by
  let calls : List Command := [.tick [], .tick [], .tick [], .timerInterrupt [], .tick []]
  have run : ((Machine.start {} (⟨[.rivals 1 3]⟩ : GivenArrivals) none).performAll
      [.boot, .tick [], .tick [], .timerInterrupt []]).toOption.any
      (fun m => (m.journal.tracing && m.isRefusing ⟨1⟩ ⟨0⟩ 1) &&
        (m.performAll calls).toOption.any fun m' =>
          (m'.locks.get? ⟨0⟩).any fun l => l.holder = some ⟨1⟩) = true := by
    decide +kernel
  obtain ⟨mo, moments, rest, test⟩ := Moment.exists_reachable_of_performAll run
  obtain ⟨refusing, run⟩ := Bool.and_eq_true_iff.1 test
  obtain ⟨tracing, refusing⟩ := Bool.and_eq_true_iff.1 refusing
  obtain ⟨cycles, reachable⟩ := Chronicle.exists_reachable moments
  obtain ⟨c₁, c₂, p, own, blocks, later, -, held⟩ :=
    Chronicle.exists_blocks_of_isRefusing (c := ⟨mo, cycles⟩) rest refusing run
  have refuses := retries_of_blocks reachable blocks.next
  obtain ⟨running, program, plan⟩ := blocks.exists_program
  have told := (refuses.told tracing p program running plan p.pid ⟨0⟩).2 ⟨rfl, 1, blocks⟩
  have reachable₂ := (reachable.tail blocks.next).trans later
  have lone := Moment.lone_of_rivals (Chronicle.Reachable.moment reachable₂) p.pid
  have retries := refuses.retried p ⟨0⟩ 1 blocks (.inl Nat.one_pos) c₂ later lone
  obtain ⟨l, found, holder⟩ := (Option.any_eq_true _ _).1 held
  refine ⟨⟨mo, cycles⟩, c₁, c₂, p, reachable, blocks.next, told, blocks, later, lone, retries, l,
    found, ?_⟩
  rw [own]
  exact of_decide_eq_true holder

/-- What is told from when the second of two rivals is parked until it runs again. -/
def Event.rivalry : List Event :=
  [.lockBlocked ⟨1⟩ ⟨0⟩ (some ⟨0⟩), .dispatched ⟨0⟩ (.clamped 2) 0, .lockReleased ⟨0⟩ ⟨0⟩ 1,
    .timerInterrupt (some ⟨0⟩), .quantumExpired ⟨0⟩ (.clamped 3), .dispatched ⟨1⟩ (.clamped 1) 0]

/-- A process that was parked at counter 0 goes on to 1 when it runs again. It has not asked for the
lock, although the lock is free. -/
theorem retries_passes_point : ∃ c : Chronicle GivenArrivals,
    Chronicle.Reachable (.start {} ⟨[.rivals 0 2]⟩ none) c ∧ c.moment.pending = [] ∧
    Event.rivalry <:+ c.events ∧
    (∃ p, c.machine.running = some p ∧ p.pid = ⟨1⟩ ∧ p.maxPc = 3) ∧ c.machine.cpuPc = 1 ∧
    ∃ l, c.machine.locks.get? ⟨0⟩ = some l ∧ l.holder = none := by
  have run : ((Machine.start {} (⟨[.rivals 0 2]⟩ : GivenArrivals) none).performAll
      ([.boot] ++ List.replicate 4 (.tick []) ++ [.timerInterrupt []] ++
        List.replicate 3 (.tick []) ++ [.timerInterrupt [], .tick [], .timerInterrupt []] ++
        List.replicate 3 (.tick []) ++ [.timerInterrupt [], .tick []])).toOption.any
      (fun m => decide (Event.rivalry <:+ m.journal.trace.events) &&
        ((m.running.any fun p => decide (p.pid = ⟨1⟩ ∧ p.maxPc = 3)) && (m.cpuPc = 1 &&
          (m.locks.get? ⟨0⟩).any fun l => l.holder = none))) = true := by
    decide +kernel
  obtain ⟨mo, moments, rest, test⟩ := Moment.exists_reachable_of_performAll run
  obtain ⟨cycles, reachable⟩ := Chronicle.exists_reachable moments
  simp only [Option.any_eq_true, Bool.and_eq_true, decide_eq_true_eq] at test
  obtain ⟨told, running, pc, free⟩ := test
  exact ⟨⟨mo, cycles⟩, reachable, rest, told, running, pc, free⟩

end Mlfq
