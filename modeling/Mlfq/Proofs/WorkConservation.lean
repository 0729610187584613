import Mlfq.Proofs.Deadlock.Dissolution
import Mlfq.Proofs.Workload.Library

/-! # The CPU is not idle while there is work

After every cycle and every dispatcher run somebody is running, or nobody is new or ready. A
dispatcher run admits the newcomers before it dispatches, and what is dropped at its end makes
nobody ready. -/

namespace Mlfq

variable {σ : Type}

namespace Machine

/-- If nobody is running, then nobody is new, and nobody is ready at any level. -/
def ConservesWork (m : Machine σ) : Prop :=
  m.running = none → m.newcomers = [] ∧ ∀ queue ∈ m.ready.levels.toList, queue = []

/-- What the phases of a dispatcher run that are over have seen to, when these are left: the
newcomers are admitted, and the CPU is not left idle while somebody is ready. -/
structure Served (m : Machine σ) (left : List Phase) : Prop where
  newcomers : .admission ∉ left → m.newcomers = []
  ready : .dispatching ∉ left → m.running = none → m.ready.toList = []

variable {m m' : Machine σ}

namespace Served

/-- At the beginning of a dispatcher run nothing is asked of the machine. -/
theorem start (m : Machine σ) : m.Served Phase.all :=
  ⟨fun h => absurd (by decide) h, fun h => absurd (by decide) h⟩

/-- A dispatcher run that is over has seen to all that another one has before its last phases. -/
theorem of_nil (h : m.Served []) (left : List Phase) : m.Served left :=
  ⟨fun _ => h.newcomers List.not_mem_nil, fun _ => h.ready List.not_mem_nil⟩

theorem conservesWork (h : m.Served []) : m.ConservesWork := by
  intro idle
  refine ⟨h.newcomers List.not_mem_nil, ?_⟩
  have empty := h.ready List.not_mem_nil idle
  rwa [ReadyQueue.toList, List.flatten_eq_nil_iff] at empty

end Served

/-! ## Ended processes -/

/-- Who is running and who is new. -/
def front (m : Machine σ) : Option Proc × Queue := (m.running, m.newcomers)

/-- Who is running, who is new and who is ready. -/
def scheduled (m : Machine σ) : (Option Proc × Queue) × ReadyQueue := (m.front, m.ready)

theorem scheduled_retireFromChannel (m : Machine σ) (p : Proc) :
    (m.retireFromChannel p).scheduled = m.scheduled := by
  unfold retireFromChannel
  cases p.channel? with
  | none => rfl
  | some id =>
    simp only
    cases m.channels.get? id with
    | none => rfl
    | some c =>
      simp only
      split <;> rfl

theorem front_reap (m : Machine σ) : m.reap.front = m.front := by
  obtain ⟨ready, locks, pairs, channels, journal, reap⟩ := m.exists_of_reap
  rw [reap]
  rfl

/-- With a lock on which nobody is parked nobody becomes ready. -/
theorem ready_dropLock {id : LockId} (h : ∀ l, m.locks.get? id = some l → l.waiters = []) :
    (m.dropLock id).ready = m.ready := by
  unfold dropLock
  cases found : m.locks.get? id with
  | none => rfl
  | some l =>
    simp only [h l found]
    rfl

end Machine

namespace Scene

variable {m : Machine σ} {arrived : List Arrival} {dropped : Queue} {s : Scene}

/-- With a mutex pair nobody becomes ready. -/
theorem ready_retireFromPair {p : Proc} {rest : Queue} (fresh : s.Fresh)
    (steps : Steps s (⟨m, arrived, dropped⟩ : Ledger σ).scene)
    (distinct : Arrival.Distinct arrived) (zombie : m.zombies = p :: rest) :
    (m.retireFromPair p.pid).ready = m.ready := by
  unfold Machine.retireFromPair
  rcases hr : MutexPairs.retire p.pid m.pairs.pairs with ⟨locks, pairs⟩
  cases locks with
  | none => rfl
  | some locks =>
    obtain ⟨a, b⟩ := locks
    have nobody : ∀ id ∈ [a, b], ∀ l, m.locks.get? id = some l → l.waiters = [] :=
      fun id hid l found => (marked_of_steps fresh steps).waiters_eq_nil
        (tidy_of_steps fresh steps) (paired_of_steps fresh steps) (fresh.lawful steps distinct)
        zombie hr hid found
    let unpaired : Machine σ := { m with pairs := ⟨pairs⟩ }
    have first : (unpaired.dropLock a).ready = m.ready :=
      Machine.ready_dropLock fun l found => nobody a (by simp) l found
    have second : ((unpaired.dropLock a).dropLock b).ready = (unpaired.dropLock a).ready := by
      refine Machine.ready_dropLock fun l found => nobody b (by simp) l ?_
      have scene := congrArg Scene.locks (scene_dropLock unpaired a arrived dropped)
      have found : (unpaired.dropLock a).locks.get? b = some l := found
      have found : ((⟨unpaired, arrived, dropped⟩ : Ledger σ).scene.dropLock a).locks.get? b =
        some l := scene ▸ found
      exact get?_of_dropLock found
    exact second.trans first

/-- With ended processes that are dropped nobody becomes ready. -/
theorem ready_foldl_reapOne (ps : Queue) (fresh : s.Fresh)
    (steps : Steps s (⟨{ m with zombies := ps }, arrived, dropped⟩ : Ledger σ).scene)
    (distinct : Arrival.Distinct arrived) :
    (ps.foldl Machine.reapOne { m with zombies := [] }).ready = m.ready := by
  induction ps generalizing m dropped with
  | nil => rfl
  | cons p ps ih =>
    have pair := ready_retireFromPair fresh steps distinct rfl
    rw [retireFromPair_setZombies] at pair
    have one : (m.reapOne p).ready = m.ready :=
      (congrArg Prod.snd (Machine.scheduled_retireFromChannel _ p)).trans pair
    rw [List.foldl_cons, reapOne_setZombies, ← one]
    exact ih (steps.trans (steps_reapOne m p ps arrived dropped))

theorem ready_reap (fresh : s.Fresh) (steps : Steps s (⟨m, arrived, dropped⟩ : Ledger σ).scene)
    (distinct : Arrival.Distinct arrived) : m.reap.ready = m.ready :=
  ready_foldl_reapOne m.zombies fresh steps distinct

end Scene

/-! ## Dispatcher runs -/

namespace Machine

variable {m m' : Machine σ}

/-- A CPU that is free after the dispatch had nobody to dispatch. -/
theorem toList_dispatch (h : m.dispatch.running = none) : m.dispatch.ready.toList = [] := by
  unfold dispatch at h ⊢
  cases taken : m.ready.dequeue with
  | none => exact (ReadyQueue.dequeue_eq_none_iff _).1 taken
  | some taken' =>
    rw [taken] at h
    cases h

theorem newcomers_preempt (m : Machine σ) : m.preempt.newcomers = m.newcomers := by
  unfold preempt
  cases m.running <;> rfl

theorem newcomers_dispatch (m : Machine σ) : m.dispatch.newcomers = m.newcomers := by
  unfold dispatch
  cases m.ready.dequeue <;> rfl

theorem Served.phase [Workload σ] {cause : Cause} {phase : Phase} {left : List Phase}
    (h : m.Served (phase :: left)) (suffix : phase :: left <:+ Phase.all)
    (reaped : m.reap.ready = m.ready) (hp : m.phase cause phase = .ok m') : m'.Served left := by
  simp only [Phase.all, List.suffix_cons_iff, List.suffix_nil, List.cons.injEq, reduceCtorEq,
    or_false] at suffix
  rcases suffix with ⟨rfl, rfl⟩ | ⟨rfl, rfl⟩ | ⟨rfl, rfl⟩ | ⟨rfl, rfl⟩ | ⟨rfl, rfl⟩
  · exact ⟨fun last => absurd (by decide) last, fun last => absurd (by decide) last⟩
  · cases hp
    exact ⟨fun _ => rfl, fun last => absurd (by decide) last⟩
  · have newcomers := h.newcomers (by decide)
    cases hp
    refine ⟨fun _ => ?_, fun last => absurd (by decide) last⟩
    split
    · rw [newcomers_preempt, newcomers]
    · exact newcomers
  · have newcomers := h.newcomers (by decide)
    cases hp
    split
    case isTrue => exact ⟨fun _ => by rw [newcomers_dispatch, newcomers], fun _ => toList_dispatch⟩
    case isFalse busy =>
      refine ⟨fun _ => newcomers, fun _ idle => ?_⟩
      rw [idle] at busy
      exact absurd rfl busy
  · cases hp
    split
    case isTrue =>
      obtain ⟨running, newcomers⟩ := Prod.mk.inj (front_reap m)
      refine ⟨fun _ => ?_, fun _ idle => ?_⟩
      · rw [newcomers, h.newcomers (by decide)]
      · rw [reaped, h.ready (by decide) (running.symm.trans idle)]
    case isFalse => exact ⟨fun _ => h.newcomers (by decide), fun _ => h.ready (by decide)⟩

/-! ## Cycles -/

theorem running_startIo {d : DeviceId} (goesOn : (m.startIo d).1 = false) :
    (m.startIo d).2.running = m.running := by
  unfold startIo at goesOn ⊢
  cases hd : m.devices[d.num]? <;> cases hp : m.running <;> simp only [hd, hp] at goesOn ⊢
  cases goesOn

theorem isSome_running_lock {id : LockId} (goesOn : (m.lock id).1 = false) :
    (m.lock id).2.running.isSome = m.running.isSome := by
  unfold lock at goesOn ⊢
  cases hp : m.running with
  | none => simp only [hp]
  | some p =>
    cases hl : m.locks.get? id with
    | none => simp only [hp, log]
    | some l =>
      simp only [hp, hl] at goesOn ⊢
      split
      case h_1 => rfl
      case h_2 parked =>
        rw [parked] at goesOn
        cases goesOn

theorem running_unlock (m : Machine σ) (id : LockId) : (m.unlock id).running = m.running := by
  unfold unlock
  cases hp : m.running <;> cases m.locks.get? id <;> simp only [hp]
  split
  · exact hp
  · split <;> rfl

theorem running_tryLock (m : Machine σ) (id : LockId) : (m.tryLock id).running = m.running := by
  unfold tryLock
  cases hp : m.running <;> cases m.locks.get? id <;> simp only [hp]
  rfl

theorem isSome_running_enterChannel {id : ChannelId} (goesOn : (m.enterChannel id).1 = false) :
    (m.enterChannel id).2.running.isSome = m.running.isSome := by
  unfold enterChannel at goesOn ⊢
  cases hp : m.running <;> cases hc : m.channels.get? id <;> simp only [hp, hc] at goesOn ⊢
  split
  case h_1 => rfl
  case h_2 parked =>
    rw [parked] at goesOn
    cases goesOn

theorem running_leaveChannel (m : Machine σ) (id : ChannelId) :
    (m.leaveChannel id).running = m.running := by
  unfold leaveChannel
  cases hp : m.running <;> cases m.channels.get? id <;> simp only [hp]
  split <;> rfl

theorem running_rendezvous {id : ChannelId} (goesOn : (m.rendezvous id).1 = false) :
    (m.rendezvous id).2.running = m.running := by
  unfold rendezvous at goesOn ⊢
  cases hp : m.running <;> cases hc : m.channels.get? id <;> simp only [hp, hc] at goesOn ⊢
  split
  case h_1 => exact hp
  case h_2 role kind =>
    simp only [kind] at goesOn ⊢
    split at goesOn
    case isTrue => cases goesOn
    case isFalse turn =>
      rw [if_neg turn]
      split <;> rfl

/-- A process that is not parked by its trap goes on running. -/
theorem isSome_running_handleTrap {t : Trap} (goesOn : (m.handleTrap t).1 = none) :
    (m.handleTrap t).2.running.isSome = m.running.isSome := by
  have unparked : ∀ {parked : Bool} {cause : Cause},
      (if parked then some cause else none) = none → parked = false := by
    intro parked cause h
    cases parked with
    | false => rfl
    | true => cases h
  cases t with
  | io d => exact congrArg Option.isSome (running_startIo (unparked goesOn))
  | lock id => exact isSome_running_lock (unparked goesOn)
  | unlock id => exact congrArg Option.isSome (running_unlock _ id)
  | tryLock id => exact congrArg Option.isSome (running_tryLock _ id)
  | tryUnlock id => exact congrArg Option.isSome (running_unlock _ id)
  | rendezvousAcquire id => exact isSome_running_enterChannel (unparked goesOn)
  | rendezvousBody id => exact congrArg Option.isSome (running_rendezvous (unparked goesOn))
  | rendezvousRelease id => exact congrArg Option.isSome (running_leaveChannel _ id)

theorem isSome_running_stepRunning {p : Proc} (running : m.running = some p)
    (h : m.stepRunning = .ok (none, m')) : m'.running.isSome := by
  obtain ⟨m₁, h₁, h⟩ := exists_of_bind_eq_ok h
  obtain ⟨t, -, h⟩ := exists_of_bind_eq_ok h
  obtain ⟨q, pc, rfl, -⟩ := Scene.exists_of_advance (m := m.beginCycle) running h₁
  let m₁ : Machine σ := { m.beginCycle with running := some q, cpuPc := pc }
  have scanned : m₁.scanIfDue.running = some q := (Scene.scanIfDue_spec m₁ q [] []).1
  cases t with
  | none =>
    cases h
    rw [scanned]
    rfl
  | some t =>
    have handled : m₁.scanIfDue.handleTrap t = (none, m') := Except.ok.inj h
    have same := isSome_running_handleTrap (congrArg Prod.fst handled)
    rw [handled, scanned] at same
    exact same

end Machine

/-! ## Calls -/

/-- Dispatcher runs are begun one inside the other, and inside a busy cycle at most. Those phases of
a run are left that come last. -/
inductive Duty.Stacked : List Duty → Prop
  | rest : Stacked []
  | cycle (pid : Pid) : Stacked [.closeCycle pid]
  | run {cause : Cause} {left : List Phase} {pending : List Duty} (suffix : left <:+ Phase.all)
    (below : Stacked pending) : Stacked (.phases cause left :: pending)

/-- What the machine has seen to, as far as the most urgent duty tells. -/
def Duty.Attended (m : Machine σ) : List Duty → Prop
  | [] => True
  | .phases _ left :: _ => m.Served left
  | .closeCycle _ :: _ => m.ConservesWork

namespace Moment

variable [Workload σ] {mo mo' : Moment σ}

theorem stacked_of_next (h : Duty.Stacked mo.pending) (next : Next mo mo') :
    Duty.Stacked mo'.pending := by
  have all : Phase.all <:+ Phase.all := List.suffix_rfl
  cases next with
  | boot | request => exact .rest
  | schedule | idleCycle => exact .run all .rest
  | @busyCycle l p cause m running h =>
    cases cause with
    | none => exact .cycle p.pid
    | some cause => exact .run all (.cycle p.pid)
  | timer | completion => exact .run all h
  | phase =>
    cases h with
    | run suffix below => exact .run ((List.suffix_cons _ _).trans suffix) below
  | done =>
    cases h with
    | run suffix below => exact below
  | goOn =>
    cases h
    exact .rest
  | terminate =>
    cases h
    exact .run all .rest

omit [Workload σ] in
/-- A dispatcher run that is over leaves the duty below it attended to. -/
theorem attended_of_served {m : Machine σ} (h : m.Served []) (pending : List Duty) :
    Duty.Attended m pending := by
  match pending with
  | [] => trivial
  | .phases _ left :: _ => exact h.of_nil left
  | .closeCycle _ :: _ => exact h.conservesWork

theorem attended_of_next (h : Duty.Attended mo.ledger.machine mo.pending)
    (stacked : Duty.Stacked mo.pending)
    (reaped : mo.ledger.machine.reap.ready = mo.ledger.machine.ready) (next : Next mo mo') :
    Duty.Attended mo'.ledger.machine mo'.pending ∧
      (mo.pending ≠ [] → mo'.pending = [] → mo'.ledger.machine.ConservesWork) := by
  cases next with
  | boot | request => exact ⟨trivial, fun pending => absurd rfl pending⟩
  | schedule | idleCycle | timer | completion | terminate => exact ⟨.start _, fun _ => nofun⟩
  | @busyCycle l p cause m running h =>
    cases cause with
    | none =>
      refine ⟨fun idle => ?_, fun _ => nofun⟩
      have some := Machine.isSome_running_stepRunning running h
      rw [idle] at some
      cases some
    | some cause => exact ⟨.start m, fun _ => nofun⟩
  | phase hp =>
    cases stacked with
    | run suffix below => exact ⟨Machine.Served.phase h suffix reaped hp, fun _ => nofun⟩
  | done => exact ⟨attended_of_served h _, fun _ _ => Machine.Served.conservesWork h⟩
  | goOn =>
    cases stacked
    exact ⟨trivial, fun _ _ => h⟩

variable {config : Config} {workload : σ} {logLevel : Option Level}

theorem attended_of_reachable (reachable : Reachable (.start config workload logLevel) mo)
    (distinct : Arrival.Distinct mo.ledger.arrived) :
    Duty.Stacked mo.pending ∧ Duty.Attended mo.ledger.machine mo.pending := by
  induction reachable with
  | refl => exact ⟨.rest, trivial⟩
  | @tail mo mo' path next ih =>
    have steps := Scene.steps_of_reachable path
    have earlier := Scene.arrived_prefix_of_steps (Scene.steps_of_next next)
    have distinct := Scene.distinct_of_prefix earlier distinct
    obtain ⟨stacked, attended⟩ := ih distinct
    have reaped := Scene.ready_reap (Scene.fresh_start config workload logLevel) steps distinct
    exact ⟨stacked_of_next stacked next, (attended_of_next attended stacked reaped next).1⟩

end Moment

/-- Whenever a cycle, a timer interrupt, the completion of a request or a dispatcher run is over and
the machine comes to rest, whatever interrupts there were at the checkpoints, nobody is left new or
ready while nobody is running. Only the first batch and a request for another come to rest without a
dispatcher run. All processes have different numbers. -/
theorem conservesWork_of_return [Workload σ] {config : Config} {workload : σ}
    {logLevel : Option Level} {mo mo' : Moment σ}
    (reachable : Moment.Reachable (.start config workload logLevel) mo)
    (next : Moment.Next mo mo') (busy : mo.pending ≠ []) (rest : mo'.pending = [])
    (distinct : Arrival.Distinct mo'.ledger.arrived) : mo'.ledger.machine.ConservesWork := by
  have earlier := Scene.arrived_prefix_of_steps (Scene.steps_of_next next)
  have distinct := Scene.distinct_of_prefix earlier distinct
  obtain ⟨stacked, attended⟩ := Moment.attended_of_reachable reachable distinct
  have reaped := Scene.ready_reap (Scene.fresh_start config workload logLevel)
    (Scene.steps_of_reachable reachable) distinct
  exact (Moment.attended_of_next attended stacked reaped next).2 busy rest

/-- A timer interrupt after which the CPU is idle, as the two processes that there are wait for each
other. -/
theorem conservesWork_of_return_crossed : ∃ mo mo' : Moment ScriptedWorkload,
    Moment.Reachable (.start {} .crossed none) mo ∧ Moment.Next mo mo' ∧ mo.pending ≠ [] ∧
    mo'.pending = [] ∧ mo'.ledger.machine.ConservesWork ∧ mo'.ledger.machine.running = none := by
  have run : ((Machine.start {} ScriptedWorkload.crossed none).performAll
      Command.crossing).toOption.any
      (fun m => m.timerInterrupt.toOption.any (·.running.isNone)) = true := by decide +kernel
  obtain ⟨⟨⟨m, arrived, dropped⟩, pending⟩, reachable, rest, test⟩ :=
    Moment.exists_reachable_of_performAll run
  cases rest
  cases interrupt : m.timerInterrupt with
  | error crash =>
    rw [interrupt] at test
    cases test
  | ok m' =>
    rw [interrupt] at test
    have phases : Moment.Leads m.raiseTimer [.phases .timer Phase.all] m' [.phases .timer []] :=
      Moment.leads_phases interrupt
    obtain ⟨arrived', dropped', path⟩ := phases arrived dropped
    have raised : Moment.Next (σ := ScriptedWorkload) ⟨⟨m, arrived, dropped⟩, []⟩
        ⟨⟨m.raiseTimer, arrived, dropped⟩, [.phases .timer Phase.all]⟩ := .timer trivial
    have reachable : Moment.Reachable (.start {} .crossed none)
        ⟨⟨m', arrived', dropped'⟩, [.phases .timer []]⟩ := (reachable.tail raised).trans path
    have last : Moment.Next (σ := ScriptedWorkload) ⟨⟨m', arrived', dropped'⟩, [.phases .timer []]⟩
        ⟨⟨m', arrived', dropped'⟩, []⟩ := .done
    have distinct := (Moment.distinct_of_library reachable).2
    refine ⟨_, _, reachable, last, nofun, rfl, ?_, Option.isNone_iff_eq_none.1 test⟩
    exact conservesWork_of_return reachable last nofun rfl distinct

end Mlfq
