import Mlfq.Proofs.Scene.Population
import Mlfq.Proofs.Scene.Simulation
import Mlfq.Proofs.Story.Basic

/-! # The machine tells a story

Whatever the machine does is an act of its story, or the beginning of a cycle. What only concerns
the order of service, the log or the metrics does not show. -/

namespace Mlfq

open Queue (cores)

variable {σ : Type}

/-! ## The roll -/

/-- Everybody parked on a device. -/
def onDevices (devices : List Device) : Multiset Proc := cores (devices.map (·.queue)).flatten

/-- Everybody parked on a lock, be it of the table or of a channel. -/
def onLocks (locks : LockTable) (channels : Registry ChannelId Channel) : Multiset Proc :=
  cores (locks.toList.flatMap (·.waiters)) + cores (channels.values.flatMap (·.lock.waiters))

/-- Everybody parked on a condition. -/
def onConditions (channels : Registry ChannelId Channel) : Multiset Proc :=
  cores (channels.values.flatMap fun c => c.fill ++ c.empty)

section

variable {locks : LockTable} {channels : Registry ChannelId Channel}

theorem exists_onLocks_lock (tidy : locks.Tidy) {id : LockId} {l : Lock}
    (found : locks.get? id = some l) (channels : Registry ChannelId Channel) :
    ∃ others, onLocks locks channels = cores l.waiters + others ∧
      (∀ l', l'.id = id → onLocks (locks.set l') channels = cores l'.waiters + others) ∧
      onLocks (locks.erase id) channels = others := by
  obtain ⟨others, here, kept, gone⟩ := Registry.exists_cores_values tidy.nodup found (·.waiters)
  refine ⟨others + cores (channels.values.flatMap (·.lock.waiters)), ?_, fun l' own => ?_, ?_⟩
  · rw [onLocks, LockTable.toList, here, add_assoc]
  · rw [onLocks, LockTable.set, LockTable.toList, own, kept, add_assoc]
  · rw [onLocks, LockTable.erase, LockTable.toList, gone]

theorem exists_onLocks_channel (nodup : channels.keys.Nodup) {id : ChannelId} {c : Channel}
    (found : channels.get? id = some c) (locks : LockTable) :
    ∃ others, onLocks locks channels = cores c.lock.waiters + others ∧
      (∀ c', onLocks locks (channels.set id c') = cores c'.lock.waiters + others) ∧
      onLocks locks (channels.erase id) = others := by
  obtain ⟨others, here, kept, gone⟩ :=
    Registry.exists_cores_values nodup found (·.lock.waiters)
  refine ⟨cores (locks.toList.flatMap (·.waiters)) + others, ?_, fun c' => ?_, ?_⟩
  · rw [onLocks, here, add_left_comm]
  · rw [onLocks, kept, add_left_comm]
  · rw [onLocks, gone]

theorem exists_onConditions (nodup : channels.keys.Nodup) {id : ChannelId} {c : Channel}
    (found : channels.get? id = some c) :
    ∃ others, onConditions channels = cores (c.fill ++ c.empty) + others ∧
      (∀ c', onConditions (channels.set id c') = cores (c'.fill ++ c'.empty) + others) ∧
      onConditions (channels.erase id) = others :=
  Registry.exists_cores_values nodup found fun c => c.fill ++ c.empty

end

namespace Machine

/-- All records with their stations. The ended ones are kept when they are dropped. -/
def roll (m : Machine σ) (dropped : Queue) : Multiset (Station × Proc) :=
  Station.roll m.queued (cores m.onCpu) (onDevices m.devices) (onLocks m.locks m.channels)
    (onConditions m.channels) (cores m.zombies + cores dropped)

/-- The story so far, with what is noted beside the machine. -/
def story (m : Machine σ) (arrived : List Proc) (dropped : Queue) (cycles : List (Option Pid))
    (due : Option Pid) : Story where
  roll := m.roll dropped
  arrived
  tracing := m.journal.tracing
  events := m.journal.trace.events
  monitor := m.monitor
  scanInterval := m.config.scanInterval
  sinceScan := m.sinceScan
  dispatches := m.dispatches
  iteration := m.iteration
  cycles
  due

end Machine

/-- The process whose cycle is to be closed now. -/
def Duty.due : List Duty → Option Pid
  | .closeCycle pid :: _ => some pid
  | _ => none

/-- The story of a run. -/
def Chronicle.story (c : Chronicle σ) : Story :=
  c.machine.story (c.moment.ledger.arrived.flatMap Arrival.procs) c.moment.ledger.dropped c.cycles
    (Duty.due c.moment.pending)

namespace Story

variable {m m' : Machine σ} {arrived : List Proc} {dropped : Queue} {cycles : List (Option Pid)}
  {due : Option Pid}

theorem story_emit (m : Machine σ) (e : Event) (arrived : List Proc) (dropped : Queue)
    (cycles : List (Option Pid)) (due : Option Pid) :
    (m.emit e).story arrived dropped cycles due =
      (m.story arrived dropped cycles due).tell e := by
  simp only [Machine.story, Machine.emit, tell, tellAll, Journal.tracing_event,
    Journal.events_event]
  rfl

theorem story_log (m : Machine σ) (message : Message) (arrived : List Proc) (dropped : Queue)
    (cycles : List (Option Pid)) (due : Option Pid) :
    (m.log message).story arrived dropped cycles due = m.story arrived dropped cycles due := by
  simp only [Machine.story, Machine.log, Journal.tracing_log, Journal.trace_log]
  rfl

/-- What the log and the trace say does not show in the roll. -/
theorem story_of_roll (h : m'.roll dropped = m.roll dropped)
    (same : { m'.story arrived dropped cycles due with roll := m.roll dropped } =
      m.story arrived dropped cycles due) :
    m'.story arrived dropped cycles due = m.story arrived dropped cycles due := by
  rw [← same, ← h]
  rfl

/-- An event that is silent about processes and pairs. -/
theorem acts_emit (m : Machine σ) (e : Event) (mark : e.mark? = none) (pair : e.pair? = none)
    (arrived : List Proc) (dropped : Queue) (cycles : List (Option Pid)) (due : Option Pid) :
    Acts (m.story arrived dropped cycles due) ((m.emit e).story arrived dropped cycles due) := by
  rw [story_emit]
  exact .single (.note mark pair)

/-- A process goes from one station to another, and nothing but the event changes beside. -/
theorem act_pass {x x' : Station × Proc} {e : Event} {due' : Option Pid}
    {rest : Multiset (Station × Proc)} (passes : Passes due x e x' due')
    (before : m.roll dropped = x ::ₘ rest) (after : m'.roll dropped = x' ::ₘ rest)
    (same : m'.story arrived dropped cycles due' =
      { (m.emit e).story arrived dropped cycles due with roll := m'.roll dropped, due := due' }) :
    Act (m.story arrived dropped cycles due) (m'.story arrived dropped cycles due') := by
  rw [after, story_emit] at same
  exact (Act.pass before passes).congr same.symm

/-- Those who wait in a queue for a lock are woken. -/
theorem acts_wake (s : Story) (q : Queue) (line cpu device lock condition ended : Multiset Proc) :
    Acts { s with roll := Station.roll line cpu device (cores q + lock) condition ended }
      { s with roll := Station.roll (cores q + line) cpu device lock condition ended } := by
  induction q generalizing line with
  | nil =>
    rw [Queue.cores_nil, zero_add, zero_add]
  | cons p q ih =>
    rw [Queue.cores_cons, Multiset.cons_add, Multiset.cons_add,
      ← Multiset.add_cons p.core (cores q) line]
    have woken := Act.wake (s := { s with
      roll := Station.roll line cpu device (p.core ::ₘ (cores q + lock)) condition ended })
      (Station.cons_lock ..)
    rw [← Station.cons_line] at woken
    exact .head woken (ih (p.core ::ₘ line))

/-! ## The running process -/

theorem roll_of_running {p : Proc} (dropped : Queue) (h : m.running = some p) :
    m.roll dropped = (.cpu, m.current p) ::ₘ Station.roll m.queued 0 (onDevices m.devices)
      (onLocks m.locks m.channels) (onConditions m.channels) (cores m.zombies + cores dropped) := by
  rw [← Station.cons_cpu, Machine.roll, Machine.onCpu, h]
  rfl

theorem mem_roll_of_running {p : Proc} (dropped : Queue) (h : m.running = some p) :
    (.cpu, m.current p) ∈ m.roll dropped := by
  rw [roll_of_running dropped h]
  exact Multiset.mem_cons_self _ _

theorem roll_of_idle (dropped : Queue) (h : m.running = none) :
    m.roll dropped = Station.roll m.queued 0 (onDevices m.devices)
      (onLocks m.locks m.channels) (onConditions m.channels) (cores m.zombies + cores dropped) := by
  rw [Machine.roll, Machine.onCpu, h]
  rfl

theorem notMem_roll_of_idle (dropped : Queue) (h : m.running = none) (q : Proc) :
    (.cpu, q) ∉ m.roll dropped := by
  rw [roll_of_idle dropped h, Station.mem_roll]
  exact Multiset.notMem_zero q

/-! ## The dispatcher -/

theorem acts_preempt (m : Machine σ) (arrived : List Proc) (dropped : Queue)
    (cycles : List (Option Pid)) :
    Acts (m.story arrived dropped cycles none) (m.preempt.story arrived dropped cycles none) := by
  unfold Machine.preempt
  cases hp : m.running with
  | none => exact .refl
  | some p =>
    refine .single (act_pass (.expire (m.current p) p.priority.demoted)
      (roll_of_running dropped hp) ?_ ?_)
    · have queued : ∀ priority, cores m.newcomers +
          cores (m.ready.enqueue { p with pc := m.cpuPc, priority }).toList =
          m.current p ::ₘ m.queued := by
        intro priority
        rw [ReadyQueue.cores_toList_enqueue, Multiset.add_cons]
        rfl
      rw [roll_of_idle dropped rfl, ← Station.cons_line, ← queued p.priority.demoted]
      rfl
    · simp only [Machine.story, Machine.emit, Machine.measure, Journal.measure,
        Journal.tracing_event, Journal.events_event]
      rfl

theorem acts_dispatch (hm : m.running = none) (arrived : List Proc) (dropped : Queue)
    (cycles : List (Option Pid)) :
    Acts (m.story arrived dropped cycles none) (m.dispatch.story arrived dropped cycles none) := by
  unfold Machine.dispatch
  cases hd : m.ready.dequeue with
  | none => exact acts_emit m .idle rfl rfl arrived dropped cycles none
  | some taken =>
    obtain ⟨p, ready⟩ := taken
    have queued : m.queued = p.core ::ₘ (cores m.newcomers + cores ready.toList) := by
      rw [Machine.queued, ReadyQueue.toList_of_dequeue hd, Queue.cores_cons, Multiset.add_cons]
    have before := roll_of_idle dropped hm
    rw [queued, Station.cons_line] at before
    have idle : ∀ q, (.cpu, q) ∉ Station.roll (cores m.newcomers + cores ready.toList) 0
        (onDevices m.devices) (onLocks m.locks m.channels) (onConditions m.channels)
        (cores m.zombies + cores dropped) := by
      intro q
      rw [Station.mem_roll]
      exact Multiset.notMem_zero q
    have act := Act.dispatch (s := m.story arrived dropped cycles none) p.priority before idle rfl
    rw [← Station.cons_cpu] at act
    rw [story_log, story_emit]
    exact .single act

theorem acts_raiseTimer (m : Machine σ) (arrived : List Proc) (dropped : Queue)
    (cycles : List (Option Pid)) :
    Acts (m.story arrived dropped cycles none)
      (m.raiseTimer.story arrived dropped cycles none) := by
  let running := m.running.map fun p => { p with state := .interrupted, pc := m.cpuPc }
  have onCpu : cores { m with running }.onCpu = cores m.onCpu := by
    simp only [Machine.onCpu, running]
    cases m.running <;> rfl
  have roll : { m with running }.roll dropped = m.roll dropped := by
    rw [Machine.roll, onCpu]
    rfl
  rw [← story_of_roll roll rfl]
  exact acts_emit { m with running } (.timerInterrupt m.runningPid?) rfl rfl arrived dropped cycles
    none

theorem roll_admitNewcomers (m : Machine σ) (dropped : Queue) :
    m.admitNewcomers.roll dropped = m.roll dropped := by
  have queued : cores [] + cores (m.ready.enqueueAll m.newcomers).toList = m.queued := by
    rw [ReadyQueue.cores_toList_enqueueAll, Queue.cores_nil, zero_add, Machine.queued]
  rw [Machine.roll, Machine.roll, ← queued]
  rfl

/-! ## Arrivals -/

theorem act_admitProc (m : Machine σ) {p q : Proc} (outline : q.outline = p.outline)
    (pc : q.pc = p.pc) (wraps : q.wraps = p.wraps) (arrived : List Proc) (dropped : Queue)
    (cycles : List (Option Pid)) (due : Option Pid) :
    Act (m.story arrived dropped cycles due)
      ((m.admitProc q).story (arrived ++ [p]) dropped cycles due) := by
  have queued : cores (m.newcomers.enqueue { q with state := .new }) + cores m.ready.toList =
      q.core ::ₘ m.queued := by
    rw [Queue.cores_enqueue, Multiset.cons_add]
    rfl
  have roll : (m.admitProc q).roll dropped = (.line, q.core) ::ₘ m.roll dropped := by
    rw [Machine.roll, Machine.roll, ← Station.cons_line, ← queued]
    rfl
  apply (Act.arrive outline pc wraps).congr
  rw [Machine.story, ← roll]
  simp only [Machine.story, Machine.admitProc, Machine.emit, tell, tellAll, Journal.tracing_event,
    Journal.events_event]

theorem act_admitProc_bound (m : Machine σ) (p : Proc) (id : ChannelId) (arrived : List Proc)
    (dropped : Queue) (cycles : List (Option Pid)) (due : Option Pid) :
    Act (m.story arrived dropped cycles due)
      ((m.admitProc (p.bindChannel id)).story (arrived ++ [p]) dropped cycles due) := by
  apply act_admitProc m (p.outline_bindChannel id)
  · unfold Proc.bindChannel
    split <;> rfl
  · unfold Proc.bindChannel
    split <;> rfl

theorem acts_receive (m : Machine σ) (a : Arrival) (arrived : List Proc) (dropped : Queue)
    (cycles : List (Option Pid)) (due : Option Pid) :
    Acts (m.story arrived dropped cycles due)
      ((m.receive a).story (arrived ++ a.procs) dropped cycles due) := by
  cases a with
  | single p => exact .single (act_admitProc m rfl rfl rfl arrived dropped cycles due)
  | mutexPair first second reversed =>
    let shared : Machine σ := { m with
      locks := m.locks.create.2.create.2
      pairs := m.pairs.add (.sharing first.pid second.pid m.locks.create.1
        m.locks.create.2.create.1 reversed) }
    -- Nobody is parked on the new locks.
    have waiters : m.locks.create.2.create.2.toList.flatMap (·.waiters) =
        m.locks.toList.flatMap (·.waiters) := by
      simp [LockTable.create, LockTable.toList, Registry.add, Registry.values]
    have roll : shared.roll dropped = m.roll dropped := by
      rw [Machine.roll, Machine.roll, onLocks, onLocks, ← waiters]
      rfl
    rw [← story_of_roll roll rfl]
    have one := act_admitProc shared (p := first) rfl rfl rfl arrived dropped cycles due
    have two := act_admitProc (shared.admitProc first) (p := second) rfl rfl rfl
      (arrived ++ [first]) dropped cycles due
    rw [List.append_assoc] at two
    exact .tail (.single one) two
  | rendezvousPair producer consumer =>
    let joined : Machine σ := { m with
      locks := m.locks.reserve.2
      channels := m.channels.add ⟨m.nextChannel⟩
        (.between m.locks.reserve.1 producer.pid consumer.pid)
      nextChannel := m.nextChannel + 1 }
    have gathered : ∀ f : Channel → Queue,
        f (.between m.locks.reserve.1 producer.pid consumer.pid) = [] →
        joined.channels.values.flatMap f = m.channels.values.flatMap f := by
      intro f h
      simp [joined, Registry.add, Registry.values, h]
    have roll : joined.roll dropped = m.roll dropped := by
      rw [Machine.roll, Machine.roll, onLocks, onLocks, onConditions, onConditions,
        gathered _ rfl, gathered _ rfl]
      rfl
    rw [← story_of_roll roll rfl]
    have one := act_admitProc_bound joined producer ⟨m.nextChannel⟩ arrived dropped cycles due
    have two := act_admitProc_bound (joined.admitProc (producer.bindChannel ⟨m.nextChannel⟩))
      consumer ⟨m.nextChannel⟩ (arrived ++ [producer]) dropped cycles due
    rw [List.append_assoc] at two
    exact .tail (.single one) two

theorem acts_foldl_receive (as : List Arrival) (m : Machine σ) (arrived : List Proc)
    (dropped : Queue) (cycles : List (Option Pid)) (due : Option Pid) :
    Acts (m.story arrived dropped cycles due)
      ((as.foldl Machine.receive m).story (arrived ++ as.flatMap Arrival.procs) dropped cycles
        due) := by
  induction as generalizing m arrived with
  | nil =>
    rw [List.flatMap_nil, List.append_nil]
    exact .refl
  | cons a as ih =>
    rw [List.foldl_cons, List.flatMap_cons, ← List.append_assoc]
    exact (acts_receive m a arrived dropped cycles due).trans (ih _ _)

theorem acts_requestBatch [Workload σ] {n : Nat} (h : m.requestBatch = .ok (n, m'))
    (arrived : List Proc) (dropped : Queue) (cycles : List (Option Pid)) (due : Option Pid) :
    Acts (m.story arrived dropped cycles due)
      (m'.story (arrived ++ m.nextArrivals.flatMap Arrival.procs) dropped cycles due) := by
  obtain ⟨batch, hbatch, h⟩ := exists_of_bind_eq_ok h
  cases h
  have next : m.nextArrivals = batch.arrivals := by
    rw [Machine.nextArrivals, Machine.eq_of_attempt hbatch]
  rw [next]
  exact acts_foldl_receive _ { m with workload := batch.rest, pids := batch.pids } _ _ _ _

theorem acts_boot [Workload σ] (h : m.boot = .ok m') (arrived : List Proc) (dropped : Queue)
    (cycles : List (Option Pid)) (due : Option Pid) :
    Acts (m.story arrived dropped cycles due)
      (m'.story (arrived ++ m.nextArrivals.flatMap Arrival.procs) dropped cycles due) := by
  obtain ⟨⟨n, m₁⟩, h₁, h⟩ := exists_of_bind_eq_ok h
  cases h
  rw [story_log]
  exact acts_requestBatch h₁ arrived dropped cycles due

theorem acts_resetPriorities [Workload σ] (h : m.resetPriorities = .ok m') (arrived : List Proc)
    (dropped : Queue) (cycles : List (Option Pid)) (due : Option Pid) :
    Acts (m.story arrived dropped cycles due)
      (m'.story (arrived ++ m.nextArrivals.flatMap Arrival.procs) dropped cycles due) := by
  obtain ⟨⟨n, m₁⟩, h₁, h⟩ := exists_of_bind_eq_ok h
  cases h
  let m₀ : Machine σ := { m with
    ready := m.ready.resetPriorities
    running := m.running.map fun (p : Proc) => { p with priority := .highest }
    sinceReset := 0 }
  have ready : cores m.ready.resetPriorities.toList = cores m.ready.toList := by
    rw [ReadyQueue.toList_resetPriorities, Queue.cores_map fun p => Proc.core_priority p _]
  have onCpu : cores m₀.onCpu = cores m.onCpu := by
    simp only [Machine.onCpu, m₀]
    cases m.running <;> rfl
  have roll : m₀.roll dropped = m.roll dropped := by
    rw [Machine.roll, Machine.roll, Machine.queued, Machine.queued, ← ready, onCpu]
  have batch : Acts (m₀.story arrived dropped cycles due)
      (m₁.story (arrived ++ m.nextArrivals.flatMap Arrival.procs) dropped cycles due) :=
    acts_requestBatch h₁ arrived dropped cycles due
  rw [story_of_roll roll rfl] at batch
  let m₂ := Machine.measure { m₁ with priorityResets := m₁.priorityResets + 1 } fun c =>
    { c with priorityResets := c.priorityResets + 1 }
  exact batch.trans (acts_emit m₂ (.prioritiesReset n) rfl rfl _ dropped cycles due)

/-! ## Ended processes -/

/-- The machine keeps every lock and every channel under one key. -/
structure Keyed (m : Machine σ) : Prop where
  locks : m.locks.Tidy
  channels : m.channels.keys.Nodup

theorem keyed_of_tidy {l : Ledger σ} (tidy : l.scene.Tidy) : Keyed l.machine :=
  ⟨tidy.locks, tidy.channels⟩

theorem Keyed.dropLock (keyed : Keyed m) (id : LockId) : Keyed (m.dropLock id) := by
  unfold Machine.dropLock
  split
  · exact keyed
  · exact ⟨keyed.locks.erase id, keyed.channels⟩

theorem Keyed.retireFromPair (keyed : Keyed m) (pid : Pid) : Keyed (m.retireFromPair pid) := by
  have kept : ∀ pairs, Keyed { m with pairs } := fun pairs => ⟨keyed.locks, keyed.channels⟩
  unfold Machine.retireFromPair
  rcases MutexPairs.retire pid m.pairs.pairs with ⟨_ | ⟨a, b⟩, pairs⟩
  · exact kept ⟨pairs⟩
  · exact ((kept ⟨pairs⟩).dropLock a).dropLock b

theorem Keyed.retireFromChannel (keyed : Keyed m) (p : Proc) : Keyed (m.retireFromChannel p) := by
  unfold Machine.retireFromChannel
  split
  · exact keyed
  · split
    · exact keyed
    · simp only
      split
      · exact ⟨keyed.locks, by rw [Registry.keys_erase]; exact keyed.channels.filter _⟩
      · exact ⟨keyed.locks, by rw [Registry.keys_set]; exact keyed.channels⟩

theorem acts_dropLock (keyed : Keyed m) (id : LockId) (arrived : List Proc) (dropped : Queue)
    (cycles : List (Option Pid)) (due : Option Pid) :
    Acts (m.story arrived dropped cycles due)
      ((m.dropLock id).story arrived dropped cycles due) := by
  unfold Machine.dropLock
  cases found : m.locks.get? id with
  | none => exact .refl
  | some l =>
    obtain ⟨others, here, -, gone⟩ := exists_onLocks_lock keyed.locks found m.channels
    have acts := acts_wake (m.story arrived dropped cycles due) l.waiters m.queued
      (cores m.onCpu) (onDevices m.devices) others (onConditions m.channels)
      (cores m.zombies + cores dropped)
    rw [← here, ← m.queued_enqueueAll, ← gone] at acts
    exact acts

theorem acts_retireFromPair (keyed : Keyed m) (pid : Pid) (arrived : List Proc) (dropped : Queue)
    (cycles : List (Option Pid)) (due : Option Pid) :
    Acts (m.story arrived dropped cycles due)
      ((m.retireFromPair pid).story arrived dropped cycles due) := by
  have kept : ∀ pairs, Keyed { m with pairs } := fun pairs => ⟨keyed.locks, keyed.channels⟩
  unfold Machine.retireFromPair
  rcases MutexPairs.retire pid m.pairs.pairs with ⟨_ | ⟨a, b⟩, pairs⟩
  · exact .refl
  · have one := acts_dropLock (kept ⟨pairs⟩) a arrived dropped cycles due
    exact one.trans (acts_dropLock ((kept ⟨pairs⟩).dropLock a) b arrived dropped cycles due)

/-- Those who are parked on a channel that goes are lost. -/
theorem acts_lose (s : Story) (lost lost' line cpu device lock condition ended : Multiset Proc) :
    Acts { s with roll := Station.roll line cpu device (lost + lock) (lost' + condition) ended }
      { s with roll := Station.roll line cpu device lock condition ended } := by
  have locks : Acts
      { s with roll := Station.roll line cpu device (lost + lock) (lost' + condition) ended }
      { s with roll := Station.roll line cpu device lock (lost' + condition) ended } := by
    induction lost using Multiset.induction_on with
    | empty => rw [zero_add]
    | cons p lost ih =>
      rw [Multiset.cons_add, Station.cons_lock]
      exact .head (.lose rfl (.inl rfl)) ih
  apply locks.trans
  clear locks
  induction lost' using Multiset.induction_on with
  | empty => rw [zero_add]
  | cons p lost' ih =>
    rw [Multiset.cons_add, Station.cons_condition]
    exact .head (.lose rfl (.inr rfl)) ih

theorem acts_retireFromChannel (keyed : Keyed m) (p : Proc) (arrived : List Proc)
    (dropped : Queue) (cycles : List (Option Pid)) (due : Option Pid) :
    Acts (m.story arrived dropped cycles due)
      ((m.retireFromChannel p).story arrived dropped cycles due) := by
  unfold Machine.retireFromChannel
  cases bound : p.channel? with
  | none => exact .refl
  | some id =>
    simp only
    cases found : m.channels.get? id with
    | none => exact .refl
    | some c =>
      obtain ⟨others, here, kept, gone⟩ := exists_onLocks_channel keyed.channels found m.locks
      obtain ⟨others', here', kept', gone'⟩ := exists_onConditions keyed.channels found
      simp only
      split
      case isTrue goes =>
        have acts := acts_lose (m.story arrived dropped cycles due) (cores c.lock.waiters)
          (cores (c.fill ++ c.empty)) m.queued (cores m.onCpu) (onDevices m.devices) others others'
          (cores m.zombies + cores dropped)
        rw [← here, ← here', ← gone, ← gone'] at acts
        exact acts
      case isFalse stays =>
        have same : (c.retire p.pid).lock.waiters = c.lock.waiters ∧
            (c.retire p.pid).fill ++ (c.retire p.pid).empty = c.fill ++ c.empty := by
          unfold Channel.retire
          split
          · exact ⟨rfl, rfl⟩
          · split <;> exact ⟨rfl, rfl⟩
        have roll : Machine.roll { m with channels := m.channels.set id (c.retire p.pid) } dropped =
            m.roll dropped := by
          simp only [Machine.roll, kept, kept', same, ← here, ← here']
          rfl
        rw [story_of_roll roll rfl]

theorem acts_foldl_reapOne (ps : Queue) (keyed : Keyed m) (arrived : List Proc) (dropped : Queue)
    (cycles : List (Option Pid)) (due : Option Pid) :
    Acts (m.story arrived dropped cycles due)
      ((ps.foldl Machine.reapOne m).story arrived dropped cycles due) := by
  induction ps generalizing m with
  | nil => exact .refl
  | cons p ps ih =>
    have keyed₁ := keyed.retireFromPair p.pid
    have one := acts_retireFromPair keyed p.pid arrived dropped cycles due
    have two := acts_retireFromChannel keyed₁ p arrived dropped cycles due
    exact (one.trans two).trans (ih (keyed₁.retireFromChannel p))

theorem acts_reap (keyed : Keyed m) (arrived : List Proc) (dropped : Queue)
    (cycles : List (Option Pid)) (due : Option Pid) :
    Acts (m.story arrived dropped cycles due)
      (m.reap.story arrived (dropped ++ m.zombies) cycles due) := by
  have roll : Machine.roll { m with zombies := [] } (dropped ++ m.zombies) = m.roll dropped := by
    rw [Machine.roll, Machine.roll, Queue.cores_append, Queue.cores_nil, zero_add, add_comm]
    rfl
  have start : Machine.story { m with zombies := [] } arrived (dropped ++ m.zombies) cycles due =
      m.story arrived dropped cycles due := by
    rw [Machine.story, roll]
    rfl
  have keyed' : Keyed { m with zombies := [] } := ⟨keyed.locks, keyed.channels⟩
  have acts := acts_foldl_reapOne m.zombies keyed' arrived (dropped ++ m.zombies) cycles due
  rw [start] at acts
  let m₂ := (m.zombies.foldl Machine.reapOne { m with zombies := [] }).measure fun c =>
    { c with zombieLength := 0 }
  exact acts.trans (acts_emit m₂ (.zombiesFlushed m.zombies.length) rfl rfl arrived
    (dropped ++ m.zombies) cycles due)

/-! ## Phases -/

theorem acts_phase [Workload σ] {cause : Cause} {phase : Phase} (keyed : Keyed m)
    (h : m.phase cause phase = .ok m') (arrived : List Proc) (dropped : Queue)
    (cycles : List (Option Pid)) :
    Acts (m.story arrived dropped cycles none)
      (m'.story (arrived ++ (m.arrivalsOf phase).flatMap Arrival.procs)
        (dropped ++ m.droppedBy phase) cycles none) := by
  cases phase with
  | priorityReset =>
    simp only [Machine.phase, Machine.arrivalsOf, Machine.droppedBy, List.append_nil] at h ⊢
    split at h
    case isTrue due =>
      rw [if_pos due]
      exact acts_resetPriorities h arrived dropped cycles none
    case isFalse early =>
      cases h
      rw [if_neg early, List.flatMap_nil, List.append_nil]
  | admission =>
    cases h
    simp only [Machine.arrivalsOf, Machine.droppedBy, List.flatMap_nil, List.append_nil]
    rw [story_of_roll (roll_admitNewcomers m dropped) rfl]
  | preemption =>
    cases h
    simp only [Machine.arrivalsOf, Machine.droppedBy, List.flatMap_nil, List.append_nil]
    split
    · exact acts_preempt m arrived dropped cycles
    · exact .refl
  | dispatching =>
    cases h
    simp only [Machine.arrivalsOf, Machine.droppedBy, List.flatMap_nil, List.append_nil]
    split
    · exact acts_dispatch (Option.isNone_iff_eq_none.1 ‹_›) arrived dropped cycles
    · exact .refl
  | reaping =>
    cases h
    simp only [Machine.arrivalsOf, Machine.droppedBy, List.flatMap_nil, List.append_nil]
    split
    · exact acts_reap keyed arrived dropped cycles none
    · rw [List.append_nil]

end Story
end Mlfq
