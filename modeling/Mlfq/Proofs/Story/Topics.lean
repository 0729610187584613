import Mlfq.Proofs.Scene.Population
import Mlfq.Proofs.Scene.Simulation

/-! # What the trace tells of

Whatever the machine does only adds to its trace, and each of its functions tells of few topics.
The devices are left alone by whatever tells nothing of them, and the slots of the channels by
whatever tells of no turn on a channel. -/

namespace Mlfq

/-- What an event is about. -/
inductive Event.Topic where
  | arrival
  | dispatch
  | timer
  | expiry
  | device
  | lock
  | release
  | condition
  | exchange
  | ending
  | reset
  | deadlock
  deriving DecidableEq

/-- The topic of an event. -/
def Event.topic : Event → Event.Topic
  | .admitted .. => .arrival
  | .dispatched .. | .idle => .dispatch
  | .timerInterrupt .. => .timer
  | .quantumExpired .. => .expiry
  | .ioTrap .. | .ioCompleted .. => .device
  | .lockAcquired .. | .lockBlocked .. | .unlockSkipped .. | .tryLock .. => .lock
  | .lockReleased .. => .release
  | .condWait .. | .condSignal .. => .condition
  | .produced .. | .consumed .. => .exchange
  | .terminated .. | .zombiesFlushed .. => .ending
  | .prioritiesReset .. => .reset
  | .deadlockDetected .. => .deadlock

/-- The topics that a phase can tell of. -/
def Phase.topics : Phase → List Event.Topic
  | .priorityReset => [.arrival, .reset]
  | .admission => []
  | .preemption => [.expiry]
  | .dispatching => [.dispatch]
  | .reaping => [.ending]

/-- The topics that the handling of a trap can tell of. -/
def Trap.topics : Trap → List Event.Topic
  | .io _ => [.device]
  | .lock _ | .tryLock _ | .rendezvousAcquire _ => [.lock]
  | .unlock _ | .tryUnlock _ => [.lock, .release]
  | .rendezvousBody _ => [.condition, .exchange]
  | .rendezvousRelease _ => []

/-- A journal goes on to another, and the events between the two have property `P`. -/
def Journal.Grows (P : Event → Prop) (j j' : Journal) : Prop :=
  j'.tracing = j.tracing ∧ ∃ es, (∀ e ∈ es, P e) ∧ j'.trace.events = j.trace.events ++ es

namespace Journal.Grows

variable {P Q : Event → Prop} {j j' j'' : Journal}

theorem refl (j : Journal) : Grows P j j := ⟨rfl, [], nofun, (List.append_nil _).symm⟩

theorem trans (h : Grows P j j') (h' : Grows P j' j'') : Grows P j j'' := by
  obtain ⟨tracing, es, all, events⟩ := h
  obtain ⟨tracing', es', all', events'⟩ := h'
  refine ⟨tracing'.trans tracing, es ++ es', ?_, by rw [events', events, List.append_assoc]⟩
  exact fun e he => (List.mem_append.1 he).elim (all e) (all' e)

theorem mono (h : Grows P j j') (imp : ∀ e, P e → Q e) : Grows Q j j' :=
  ⟨h.1, h.2.imp fun _ es => ⟨fun e he => imp e (es.1 e he), es.2⟩⟩

theorem log (h : Grows P j j') (message : Message) : Grows P j (j'.log message) :=
  h.trans ⟨tracing_log .., [], nofun, by rw [trace_log, List.append_nil]⟩

theorem measure (h : Grows P j j') (f : Metrics → Metrics) : Grows P j (j'.measure f) := h

theorem event (h : Grows P j j') {e : Event} (has : P e) (iteration : Nat) :
    Grows P j (j'.event iteration e) := by
  refine h.trans ⟨tracing_event .., ?_⟩
  rw [events_event]
  split
  · exact ⟨[e], by simpa using has, rfl⟩
  · exact ⟨[], nofun, (List.append_nil _).symm⟩

end Journal.Grows

/-- The slot of a channel: how many values came into it, and whether the last is still there. -/
def Channel.slot (c : Channel) : Nat × Bool := (c.counter, c.full)

theorem Channel.slot_retire (c : Channel) (pid : Pid) : (c.retire pid).slot = c.slot := by
  unfold retire
  split
  · rfl
  · split <;> rfl

/-- Between two listings of the channels, with the numbers of the channels made up to then, no slot
changes: a channel has the slot that it had before, or it is new and its slot is empty. -/
structure KeepsSlots (channels : Registry ChannelId Channel) (made : Nat)
    (channels' : Registry ChannelId Channel) (made' : Nat) : Prop where
  grows : made ≤ made'
  slots : ∀ id c', channels'.get? id = some c' →
    (∃ c, channels.get? id = some c ∧ c'.slot = c.slot) ∨
      (made ≤ id.num ∧ id.num < made' ∧ c'.slot = (0, false))

namespace KeepsSlots

variable {cs cs' cs'' : Registry ChannelId Channel} {n n' n'' : Nat}

theorem refl (cs : Registry ChannelId Channel) (n : Nat) : KeepsSlots cs n cs n :=
  ⟨Nat.le_refl n, fun _ c' found => .inl ⟨c', found, rfl⟩⟩

theorem trans (h : KeepsSlots cs n cs' n') (h' : KeepsSlots cs' n' cs'' n'') :
    KeepsSlots cs n cs'' n'' := by
  refine ⟨h.grows.trans h'.grows, fun id c'' found => ?_⟩
  rcases h'.slots id c'' found with ⟨c', found', slot'⟩ | ⟨low, high, slot⟩
  · rcases h.slots id c' found' with ⟨c, found, slot⟩ | ⟨low, high, slot⟩
    · exact .inl ⟨c, found, slot'.trans slot⟩
    · exact .inr ⟨low, Nat.lt_of_lt_of_le high h'.grows, slot'.trans slot⟩
  · exact .inr ⟨Nat.le_trans h.grows low, high, slot⟩

theorem add (cs : Registry ChannelId Channel) (n : Nat) {c : Channel}
    (empty : c.slot = (0, false)) : KeepsSlots cs n (cs.add ⟨n⟩ c) (n + 1) := by
  refine ⟨Nat.le_succ n, fun id c' found => ?_⟩
  rw [Registry.get?, Registry.add, List.lookup_append, Option.or_eq_some_iff] at found
  rcases found with old | ⟨-, new⟩
  · exact .inl ⟨c', old, rfl⟩
  · rw [Registry.lookup_cons] at new
    split at new
    · obtain rfl := ‹id = ⟨n⟩›
      cases new
      exact .inr ⟨Nat.le_refl n, Nat.lt_succ_self n, empty⟩
    · cases new

theorem set {id : ChannelId} {c c' : Channel} (found : cs.get? id = some c)
    (same : c'.slot = c.slot) (n : Nat) : KeepsSlots cs n (cs.set id c') n :=
  ⟨Nat.le_refl n, fun _ _ found₁ => .inl (Registry.exists_of_set (·.slot) found same found₁)⟩

theorem setLock {id : ChannelId} {c : Channel} (found : cs.get? id = some c) (lock : Lock)
    (n : Nat) : KeepsSlots cs n (cs.set id { c with lock }) n :=
  set found (by rfl) n

theorem erase (cs : Registry ChannelId Channel) (id : ChannelId) (n : Nat) :
    KeepsSlots cs n (cs.erase id) n :=
  ⟨Nat.le_refl n, fun _ c₁ found => .inl ⟨c₁, Registry.get?_of_erase found, rfl⟩⟩

end KeepsSlots

variable {σ : Type}

/-- The events in the trace so far, oldest first. -/
def Machine.events (m : Machine σ) : List Event := m.journal.trace.events

theorem Machine.events_emit {m : Machine σ} (tracing : m.journal.tracing = true) (e : Event) :
    (m.emit e).events = m.events ++ [e] :=
  (Journal.events_event ..).trans (if_pos tracing)

/-- The events between a moment and another, oldest first. -/
def Moment.told (mo mo' : Moment σ) : List Event :=
  mo'.ledger.machine.events.drop mo.ledger.machine.events.length

theorem Moment.told_eq {mo mo' : Moment σ} {es : List Event}
    (events : mo'.ledger.machine.events = mo.ledger.machine.events ++ es) : mo.told mo' = es := by
  rw [told, events, List.drop_left]

namespace Machine

/-- The events between two machines are on these topics; the devices are the same unless it is about
them, and no slot changes unless it is about turns on channels. -/
structure Tells (topics : List Event.Topic) (m m' : Machine σ) : Prop where
  journal : m.journal.Grows (·.topic ∈ topics) m'.journal
  devices : .device ∉ topics → m'.devices = m.devices
  slots : .exchange ∉ topics →
    KeepsSlots m.channels m.nextChannel m'.channels m'.nextChannel

variable {topics topics' : List Event.Topic} {m m' m'' : Machine σ}

namespace Tells

theorem refl (topics : List Event.Topic) (m : Machine σ) : Tells topics m m :=
  ⟨.refl _, fun _ => rfl, fun _ => .refl _ _⟩

theorem trans (h : Tells topics m m') (h' : Tells topics m' m'') : Tells topics m m'' where
  journal := h.journal.trans h'.journal
  devices other := (h'.devices other).trans (h.devices other)
  slots other := (h.slots other).trans (h'.slots other)

theorem mono (h : Tells topics m m') (sub : topics ⊆ topics') : Tells topics' m m' where
  journal := h.journal.mono fun _ mem => sub mem
  devices other := h.devices fun mem => other (sub mem)
  slots other := h.slots fun mem => other (sub mem)

/-- What is not told at all is told of any topics. -/
theorem of_nil (h : Tells [] m m') : Tells topics m m' := h.mono (List.nil_subset _)

theorem foldl {α : Type} {f : Machine σ → α → Machine σ} (each : ∀ m a, Tells topics m (f m a))
    (as : List α) (m : Machine σ) : Tells topics m (as.foldl f m) := by
  induction as generalizing m with
  | nil => exact .refl topics m
  | cons a as ih => exact (each m a).trans (ih (f m a))

/-- An event is told. -/
theorem emit (h : Tells topics m m') {e : Event} (has : e.topic ∈ topics) :
    Tells topics m (m'.emit e) :=
  ⟨h.journal.event has _, h.devices, h.slots⟩

theorem log (h : Tells topics m m') (message : Message) : Tells topics m (m'.log message) :=
  ⟨h.journal.log message, h.devices, h.slots⟩

theorem measure (h : Tells topics m m') (f : Metrics → Metrics) : Tells topics m (m'.measure f) :=
  ⟨h.journal.measure f, h.devices, h.slots⟩

/-- Nothing is told, and devices and channels are the same. -/
theorem of_eq (journal : m'.journal = m.journal) (devices : m'.devices = m.devices)
    (channels : m'.channels = m.channels) (made : m'.nextChannel = m.nextChannel) :
    Tells topics m m' :=
  ⟨journal ▸ .refl _, fun _ => devices, fun _ => channels ▸ made ▸ .refl _ _⟩

end Tells

/-! ## The dispatcher -/

theorem tells_admitProc (m : Machine σ) (p : Proc) : Tells [.arrival] m (m.admitProc p) :=
  ⟨.event (.refl _) (.head _) _, fun _ => rfl, fun _ => .refl _ _⟩

theorem tells_receive (m : Machine σ) (a : Arrival) : Tells [.arrival] m (m.receive a) := by
  cases a with
  | single p => exact tells_admitProc m p
  | mutexPair first second reversed =>
    refine .trans ?_ ((tells_admitProc _ first).trans (tells_admitProc _ second))
    exact .of_eq rfl rfl rfl rfl
  | rendezvousPair producer consumer =>
    refine .trans ?_ ((tells_admitProc _ _).trans (tells_admitProc _ _))
    exact ⟨.refl _, fun _ => rfl, fun _ => .add _ _ rfl⟩

theorem tells_requestBatch [Workload σ] {n : Nat} (h : m.requestBatch = .ok (n, m')) :
    Tells [.arrival] m m' := by
  obtain ⟨batch, -, h⟩ := exists_of_bind_eq_ok h
  cases h
  refine .trans ?_ (.foldl tells_receive batch.arrivals _)
  exact .of_eq rfl rfl rfl rfl

theorem tells_boot [Workload σ] (h : m.boot = .ok m') : Tells [.arrival] m m' := by
  obtain ⟨⟨n, m₁⟩, request, h⟩ := exists_of_bind_eq_ok h
  cases h
  exact (tells_requestBatch request).log _

/-- A priority reset tells of the arrivals first and of itself at last. -/
theorem exists_of_resetPriorities [Workload σ] (h : m.resetPriorities = .ok m') :
    ∃ m₁ n, Tells [.arrival] m m₁ ∧ m' = m₁.emit (.prioritiesReset n) := by
  obtain ⟨⟨n, m₁⟩, request, h⟩ := exists_of_bind_eq_ok h
  cases h
  have arrivals : Tells [.arrival] _ m₁ := tells_requestBatch request
  refine ⟨_, n, ?_, rfl⟩
  exact ⟨.measure arrivals.journal _, arrivals.devices, arrivals.slots⟩

theorem tells_preempt (m : Machine σ) : Tells [.expiry] m m.preempt := by
  unfold preempt
  cases m.running with
  | none => exact .refl _ m
  | some p => exact ⟨.event (.measure (.refl _) _) (.head _) _, fun _ => rfl, fun _ => .refl _ _⟩

theorem tells_dispatch (m : Machine σ) : Tells [.dispatch] m m.dispatch := by
  unfold dispatch
  rcases m.ready.dequeue with - | ⟨p, ready⟩
  · exact .emit (.refl _ m) (.head _)
  · exact ⟨.log (.event (.measure (.refl _) _) (.head _) _) _, fun _ => rfl, fun _ => .refl _ _⟩

theorem tells_dropLock (m : Machine σ) (id : LockId) : Tells [] m (m.dropLock id) := by
  unfold dropLock
  cases m.locks.get? id with
  | none => exact .refl _ m
  | some l => exact .of_eq rfl rfl rfl rfl

theorem tells_retireFromPair (m : Machine σ) (pid : Pid) : Tells [] m (m.retireFromPair pid) := by
  unfold retireFromPair
  rcases MutexPairs.retire pid m.pairs.pairs with ⟨- | ⟨a, b⟩, pairs⟩
  · exact .of_eq rfl rfl rfl rfl
  · refine .trans ?_ ((tells_dropLock _ a).trans (tells_dropLock _ b))
    exact .of_eq rfl rfl rfl rfl

theorem tells_retireFromChannel (m : Machine σ) (p : Proc) :
    Tells [] m (m.retireFromChannel p) := by
  unfold retireFromChannel
  split
  · exact .refl _ m
  · split
    · exact .refl _ m
    · rename_i c found
      dsimp only
      split
      · exact ⟨.refl _, fun _ => rfl, fun _ => .erase _ _ _⟩
      · exact ⟨.refl _, fun _ => rfl, fun _ => .set found (Channel.slot_retire c p.pid) _⟩

theorem tells_reapOne (m : Machine σ) (p : Proc) : Tells [] m (m.reapOne p) :=
  (tells_retireFromPair m p.pid).trans (tells_retireFromChannel _ p)

theorem tells_reap (m : Machine σ) : Tells [.ending] m m.reap := by
  let emptied : Machine σ := { m with zombies := [] }
  have reaped : Tells [.ending] emptied (m.zombies.foldl reapOne emptied) :=
    (Tells.foldl tells_reapOne m.zombies emptied).of_nil
  exact ⟨.event (.measure reaped.journal _) (.head _) _, reaped.devices, reaped.slots⟩

theorem tells_phase [Workload σ] {cause : Cause} {phase : Phase}
    (h : m.phase cause phase = .ok m') : Tells phase.topics m m' := by
  cases phase <;> simp only [Machine.phase] at h
  case priorityReset =>
    split at h
    · obtain ⟨m₁, n, arrivals, rfl⟩ := exists_of_resetPriorities h
      exact (arrivals.mono (by decide)).emit (.tail _ (.head _))
    · cases h
      exact .refl _ m
  case admission =>
    cases h
    exact .of_eq rfl rfl rfl rfl
  all_goals
    cases h
    split
  · exact tells_preempt m
  · exact .refl _ m
  · exact tells_dispatch m
  · exact .refl _ m
  · exact tells_reap m
  · exact .refl _ m

/-! ## Cycles -/

theorem tells_raiseTimer (m : Machine σ) : Tells [.timer] m m.raiseTimer :=
  ⟨.event (.refl _) (.head _) _, fun _ => rfl, fun _ => .refl _ _⟩

theorem tells_terminateIfDone {pid : Pid} (h : m.terminateIfDone pid = some m') :
    Tells [.ending] m m' := by
  obtain ⟨p, -, -, -, rfl⟩ := exists_of_terminateIfDone h
  exact ⟨.measure (.event (.measure (.refl _) _) (.head _) _) _, fun _ => rfl, fun _ => .refl _ _⟩

theorem tells_completeIo {device : DeviceId} (h : m.completeIo device = .ok (some m')) :
    Tells [.device] m m' := by
  obtain ⟨d, p, q, countdown, gen, -, -, rfl⟩ := exists_of_completeIo h
  exact ⟨.event (.measure (.refl _) _) (.head _) _, fun other => absurd (.head _) other,
    fun _ => .refl _ _⟩

theorem tells_reportDeadlock (m : Machine σ) (d : Deadlock) :
    Tells [.deadlock] m (m.reportDeadlock d) := by
  unfold reportDeadlock
  split
  · exact .emit (.measure (.refl _ m) _) (.head _)
  · exact .log (.refl _ m) _

theorem tells_scanIfDue (m : Machine σ) : Tells [.deadlock] m m.scanIfDue := by
  unfold scanIfDue
  split
  · refine .trans ?_ (.foldl tells_reportDeadlock _ _)
    exact .of_eq rfl rfl rfl rfl
  · exact .refl _ m

/-- The step of the running process that begins a cycle. -/
theorem tells_advance (h : m.beginCycle.advance = .ok m') : Tells [] m m' := by
  cases running : m.running with
  | none =>
    simp only [advance, beginCycle, running] at h
    cases h
    exact .of_eq rfl rfl rfl rfl
  | some p =>
    obtain ⟨q, pc, rfl, -⟩ := Scene.exists_of_advance (m := m.beginCycle) running h
    exact .of_eq rfl rfl rfl rfl

theorem Raises.tells {p : Proc} {t : Trap} (h : m.Raises p t m') : Tells [.deadlock] m m' := by
  obtain ⟨-, m₁, advance, rfl, -⟩ := h
  exact (tells_advance advance).of_nil.trans (tells_scanIfDue m₁)

/-! ## Traps -/

theorem tells_startIo (m : Machine σ) (device : DeviceId) :
    Tells [.device] m (m.startIo device).2 := by
  unfold startIo
  split
  · exact ⟨.event (.refl _) (.head _) _, fun other => absurd (.head _) other, fun _ => .refl _ _⟩
  · exact .refl _ m

theorem tells_lock (m : Machine σ) (id : LockId) : Tells [.lock] m (m.lock id).2 := by
  unfold lock
  split
  · exact .refl _ m
  · split
    · exact .log (.refl _ m) _
    · split <;> exact ⟨.event (.refl _) (.head _) _, fun _ => rfl, fun _ => .refl _ _⟩

theorem tells_unlock (m : Machine σ) (id : LockId) :
    Tells [.lock, .release] m (m.unlock id) := by
  unfold unlock
  split
  · split
    · exact .emit (.refl _ m) (.head _)
    · dsimp only
      split
      · exact ⟨.event (.refl _) (.tail _ (.head _)) _, fun _ => rfl, fun _ => .refl _ _⟩
      · exact .of_eq rfl rfl rfl rfl
  · exact .refl _ m

theorem tells_tryLock (m : Machine σ) (id : LockId) : Tells [.lock] m (m.tryLock id) := by
  unfold tryLock
  split
  · exact ⟨.event (.refl _) (.head _) _, fun _ => rfl, fun _ => .refl _ _⟩
  · exact .refl _ m

theorem tells_enterChannel (m : Machine σ) (id : ChannelId) :
    Tells [.lock] m (m.enterChannel id).2 := by
  unfold enterChannel
  split
  · rename_i found
    split
    · exact ⟨.log (.refl _) _, fun _ => rfl, fun _ => .setLock found _ _⟩
    · exact ⟨.event (.refl _) (.head _) _, fun _ => rfl, fun _ => .setLock found _ _⟩
  · exact .refl _ m

theorem tells_leaveChannel (m : Machine σ) (id : ChannelId) : Tells [] m (m.leaveChannel id) := by
  unfold leaveChannel
  split
  · rename_i found
    dsimp only
    split
    · exact ⟨.log (.refl _) _, fun _ => rfl, fun _ => .setLock found _ _⟩
    · exact ⟨.refl _, fun _ => rfl, fun _ => .setLock found _ _⟩
  · exact .refl _ m

theorem tells_rendezvous (m : Machine σ) (id : ChannelId) :
    Tells [.condition, .exchange] m (m.rendezvous id).2 := by
  have turns {P : Prop} (other : .exchange ∉ [Event.Topic.condition, .exchange]) : P :=
    absurd (.tail _ (.head _)) other
  unfold rendezvous
  split
  · split
    · exact .refl _ m
    · rename_i role _
      split
      · exact ⟨.event (.refl _) (.head _) _, fun _ => rfl, turns⟩
      · cases role <;>
          exact ⟨.event (.event (.refl _) (.tail _ (.head _)) _) (.head _) _, fun _ => rfl, turns⟩
  · exact .refl _ m

theorem tells_handleTrap (m : Machine σ) (t : Trap) : Tells t.topics m (m.handleTrap t).2 := by
  let m₀ := m.measure fun c => { c with traps := c.traps.increment t.label }
  have counted : Tells t.topics m m₀ := .measure (.refl _ m) _
  simp only [handleTrap]
  cases t with
  | io device => exact counted.trans (tells_startIo m₀ device)
  | lock id => exact counted.trans (tells_lock m₀ id)
  | unlock id | tryUnlock id => exact counted.trans (tells_unlock m₀ id)
  | tryLock id => exact counted.trans (tells_tryLock m₀ id)
  | rendezvousAcquire id => exact counted.trans (tells_enterChannel m₀ id)
  | rendezvousBody id => exact counted.trans (tells_rendezvous m₀ id)
  | rendezvousRelease id => exact counted.trans (tells_leaveChannel m₀ id)

/-- What a process can tell in a cycle of its own, before the dispatcher runs. -/
theorem tells_stepRunning {p : Proc} {cause : Option Cause} (running : m.running = some p)
    (h : m.stepRunning = .ok (cause, m')) :
    Tells [.deadlock, .device, .lock, .release, .condition, .exchange] m m' := by
  rcases exists_raises_of_stepRunning running h with
    ⟨m₁, advance, rfl, -⟩ | ⟨t, m₁, raises, handled⟩
  · exact (tells_advance advance).of_nil.trans ((tells_scanIfDue m₁).mono (by decide))
  · have tells : Tells [.deadlock, .device, .lock, .release, .condition, .exchange] m₁
        (m₁.handleTrap t).2 := (tells_handleTrap m₁ t).mono (by cases t <;> simp [Trap.topics])
    rw [← congrArg Prod.snd handled] at tells
    exact (raises.tells.mono (by decide)).trans tells

end Machine

/-- What can be told where no trap is handled and no request is finished. -/
def Event.Topic.common : List Topic :=
  [.arrival, .dispatch, .timer, .expiry, .ending, .reset, .deadlock]

/-- Whatever happens in a run, only a trap or a finished request makes a story of a device, a lock
or a channel. -/
theorem Moment.Next.tells_or_serves [Workload σ] {mo mo' : Moment σ} (h : Next mo mo') :
    mo.ledger.machine.Tells Event.Topic.common mo'.ledger.machine ∨
      (∃ p t m, mo.ledger.machine.Raises p t m ∧ mo'.ledger.machine = (m.handleTrap t).2) ∨
      ∃ d, mo.ledger.machine.completeIo d = .ok (some mo'.ledger.machine) := by
  cases h with
  | boot h => exact .inl ((Machine.tells_boot h).mono (by decide))
  | request h => exact .inl ((Machine.tells_requestBatch h).mono (by decide))
  | schedule | done | goOn => exact .inl (.refl _ _)
  | idleCycle idle =>
    refine .inl (.trans ?_ ((Machine.tells_scanIfDue _).mono (by decide)))
    exact .of_eq rfl rfl rfl rfl
  | busyCycle running h =>
    rcases Machine.exists_raises_of_stepRunning running h with
      ⟨m₁, advance, rfl, -⟩ | ⟨t, m₁, raises, handled⟩
    · have scans : Machine.Tells Event.Topic.common m₁ m₁.scanIfDue :=
        (Machine.tells_scanIfDue m₁).mono (by decide)
      exact .inl ((Machine.tells_advance advance).of_nil.trans scans)
    · exact .inr (.inl ⟨_, t, m₁, raises, congrArg Prod.snd handled⟩)
  | timer => exact .inl ((Machine.tells_raiseTimer _).mono (by decide))
  | @completion _ _ device _ _ h => exact .inr (.inr ⟨device, h⟩)
  | @phase _ _ phase _ _ _ h =>
    exact .inl ((Machine.tells_phase h).mono (by cases phase <;> decide))
  | terminate h => exact .inl ((Machine.tells_terminateIfDone h).mono (by decide))

theorem Moment.Next.tracing_eq [Workload σ] {mo mo' : Moment σ} (next : Next mo mo') :
    mo'.ledger.machine.journal.tracing = mo.ledger.machine.journal.tracing := by
  rcases next.tells_or_serves with tells | ⟨p, t, m₁, raises, handled⟩ | ⟨d, done⟩
  · exact tells.journal.1
  · exact handled ▸ (Machine.tells_handleTrap m₁ t).journal.1.trans raises.tells.journal.1
  · exact (Machine.tells_completeIo done).journal.1

end Mlfq
