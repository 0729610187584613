import Mlfq.Proofs.Run.Source
import Mlfq.Proofs.Scene.Books
import Mlfq.Proofs.Story.Machine

/-! # Cycles and traps in a story

A handler that parks the running process leaves its cycle to be closed after a dispatcher run; any
other handler leaves it to be closed at once. -/

namespace Mlfq

open Queue (cores)

variable {σ : Type}

namespace Story

variable {m m' : Machine σ} {p : Proc} {arrived : List Proc} {dropped : Queue}
  {cycles : List (Option Pid)} {due : Option Pid}

/-- The cycle that is to be closed now, after a handler that has parked the running process or
not. -/
def dueAfter (pid : Pid) (parked : Bool) : Option Pid := if parked then none else some pid

theorem acts_startIo {d : DeviceId} (running : m.running = some p)
    (trap : p.trapAt m.cpuPc m.pairs = .ok (some (.io d))) (arrived : List Proc) (dropped : Queue)
    (cycles : List (Option Pid)) :
    Acts (m.story arrived dropped cycles (some p.pid))
      ((m.startIo d).2.story arrived dropped cycles (dueAfter p.pid (m.startIo d).1)) := by
  unfold Machine.startIo
  rw [running]
  cases hd : m.devices[d.num]? with
  | none => exact .refl
  | some dev =>
    have found : (m.devices.map (·.queue))[d.num]? = some dev.queue := by
      rw [List.getElem?_map, hd, Option.map_some]
    obtain ⟨others, here, kept⟩ := exists_cores_flatten_set found
    have parked : ∀ countdown, onDevices (m.devices.set d.num
        { queue := dev.queue.enqueue { p with pc := m.cpuPc, state := .blocked }, countdown }) =
        m.current p ::ₘ onDevices m.devices := by
      intro countdown
      rw [onDevices, onDevices, List.map_set, kept, here, Queue.cores_enqueue, Multiset.cons_add]
      rfl
    refine .single (act_pass (.request (p := m.current p) (m.drawCountdown p.priority).1 trap)
      (roll_of_running dropped running) ?_ ?_)
    · rw [roll_of_idle dropped rfl, ← Station.cons_device, ← parked
        (if dev.queue.isEmpty then (m.drawCountdown p.priority).1 else dev.countdown)]
      rfl
    · rfl

/-! ## Locks -/

theorem acts_lock {id : LockId} (keyed : Keyed m) (running : m.running = some p)
    (trap : p.trapAt m.cpuPc m.pairs = .ok (some (.lock id))) (arrived : List Proc)
    (dropped : Queue) (cycles : List (Option Pid)) :
    Acts (m.story arrived dropped cycles (some p.pid))
      ((m.lock id).2.story arrived dropped cycles (dueAfter p.pid (m.lock id).1)) := by
  unfold Machine.lock
  rw [running]
  cases found : m.locks.get? id with
  | none =>
    simp only [story_log]
    exact .refl
  | some l =>
    obtain ⟨others, here, kept, -⟩ := exists_onLocks_lock keyed.locks found m.channels
    have own := keyed.locks.id_eq id l found
    rcases l.open_or_taken p.pid with free | ⟨x, held, other⟩
    · simp only [Lock.acquire_open (p := { p with pc := m.cpuPc - 1 }) free]
      have after := (kept { l with holder := some p.pid } own).trans here.symm
      let taken : Machine σ := { m with
        running := some { p with pc := m.cpuPc - 1 }
        locks := m.locks.set { l with holder := some p.pid } }
      have roll : taken.roll dropped = m.roll dropped := by
        rw [roll_of_running dropped running, ← after]
        exact roll_of_running (p := { p with pc := m.cpuPc - 1 }) dropped rfl
      rw [← story_of_roll roll rfl]
      exact acts_emit taken (.lockAcquired p.pid id) rfl rfl arrived dropped cycles (some p.pid)
    · simp only [Lock.acquire_taken (p := { p with pc := m.cpuPc - 1 }) held other]
      let q : Proc := { p with pc := m.cpuPc - 1, state := .blocked }
      have after := kept { l with waiters := l.waiters.enqueue q } own
      rw [Queue.cores_enqueue, Multiset.cons_add, ← here] at after
      refine .single (act_pass (.block (p := m.current p) id l.holder trap rfl)
        (roll_of_running dropped running) ?_ ?_)
      · refine Eq.trans ?_ (Station.cons_lock q.core ..)
        rw [← after]
        exact roll_of_idle dropped rfl
      · rfl

/-- Those who are woken by the release of a lock of the table are ready. -/
theorem acts_release {id : LockId} {l : Lock} (keyed : Keyed m) (running : m.running = some p)
    (found : m.locks.get? id = some l) (arrived : List Proc) (dropped : Queue)
    (cycles : List (Option Pid)) (due : Option Pid) :
    Acts (m.story arrived dropped cycles due)
      (Machine.story { m with
        running := some p
        locks := m.locks.set l.freed
        ready := m.ready.enqueueAll l.woken } arrived dropped cycles due) := by
  obtain ⟨others, here, kept, -⟩ := exists_onLocks_lock keyed.locks found m.channels
  have after := kept l.freed (l.id_freed.trans (keyed.locks.id_eq id l found))
  rw [← l.waiters_freed_append, Queue.cores_append, add_comm (cores l.freed.waiters), add_assoc,
    ← after] at here
  have acts := acts_wake (m.story arrived dropped cycles due) l.woken m.queued (cores m.onCpu)
    (onDevices m.devices) (onLocks (m.locks.set l.freed) m.channels) (onConditions m.channels)
    (cores m.zombies + cores dropped)
  rw [← here, ← m.queued_enqueueAll] at acts
  rw [← running]
  exact acts

theorem acts_unlock (keyed : Keyed m) (running : m.running = some p) (id : LockId)
    (arrived : List Proc) (dropped : Queue) (cycles : List (Option Pid)) (due : Option Pid) :
    Acts (m.story arrived dropped cycles due)
      ((m.unlock id).story arrived dropped cycles due) := by
  unfold Machine.unlock
  rw [running]
  cases found : m.locks.get? id with
  | none => exact .refl
  | some l =>
    simp only
    split
    · exact acts_emit m (.unlockSkipped p.pid id) rfl rfl arrived dropped cycles due
    · simp only [Lock.release_eq]
      have released := acts_release keyed running found arrived dropped cycles due
      split
      · let m₁ : Machine σ := { m with
          running := some p
          locks := m.locks.set l.freed
          ready := m.ready.enqueueAll l.woken }
        exact released.trans (acts_emit m₁ (.lockReleased p.pid id l.woken.length) rfl rfl
          arrived dropped cycles due)
      · exact released

theorem acts_tryLock (keyed : Keyed m) (running : m.running = some p) (id : LockId)
    (arrived : List Proc) (dropped : Queue) (cycles : List (Option Pid)) (due : Option Pid) :
    Acts (m.story arrived dropped cycles due)
      ((m.tryLock id).story arrived dropped cycles due) := by
  unfold Machine.tryLock
  rw [running]
  cases found : m.locks.get? id with
  | none => exact .refl
  | some l =>
    obtain ⟨others, here, kept, -⟩ := exists_onLocks_lock keyed.locks found m.channels
    have own := keyed.locks.id_eq id l found
    have waiters : (l.tryAcquire p.pid).2.waiters = l.waiters := by
      unfold Lock.tryAcquire
      split <;> rfl
    have after := kept (l.tryAcquire p.pid).2 ((l.id_tryAcquire p.pid).trans own)
    rw [waiters, ← here] at after
    let tried : Machine σ := { m with
      running := some p
      locks := m.locks.set (l.tryAcquire p.pid).2 }
    have roll : tried.roll dropped = m.roll dropped := by
      rw [roll_of_running dropped running, ← after]
      exact roll_of_running (p := p) dropped rfl
    have start : tried.story arrived dropped cycles due = m.story arrived dropped cycles due :=
      story_of_roll roll rfl
    rw [← start]
    exact acts_emit tried (.tryLock p.pid id (l.tryAcquire p.pid).1) rfl rfl arrived dropped
      cycles due

/-! ## Channels -/

theorem acts_enterChannel {id : ChannelId} (keyed : Keyed m) (running : m.running = some p)
    (trap : p.trapAt m.cpuPc m.pairs = .ok (some (.rendezvousAcquire id))) (arrived : List Proc)
    (dropped : Queue) (cycles : List (Option Pid)) :
    Acts (m.story arrived dropped cycles (some p.pid))
      ((m.enterChannel id).2.story arrived dropped cycles
        (dueAfter p.pid (m.enterChannel id).1)) := by
  unfold Machine.enterChannel
  rw [running]
  cases found : m.channels.get? id with
  | none => exact .refl
  | some c =>
    obtain ⟨others, here, kept, -⟩ := exists_onLocks_channel keyed.channels found m.locks
    obtain ⟨others', here', kept', -⟩ := exists_onConditions keyed.channels found
    have conditions : ∀ lock, onConditions (m.channels.set id { c with lock }) =
        onConditions m.channels := fun lock => (kept' { c with lock }).trans here'.symm
    rcases c.lock.open_or_taken p.pid with free | ⟨x, held, other⟩
    · simp only [Lock.acquire_open (p := { p with pc := m.cpuPc - 1 }) free, story_log]
      let l : Lock := { c.lock with holder := some p.pid }
      have after := (kept { c with lock := l }).trans here.symm
      let taken : Machine σ := { m with
        running := some { p with pc := m.cpuPc - 1 }
        channels := m.channels.set id { c with lock := l } }
      have roll : taken.roll dropped = m.roll dropped := by
        rw [roll_of_running dropped running, ← after, ← conditions l]
        exact roll_of_running (p := { p with pc := m.cpuPc - 1 }) dropped rfl
      have same : taken.story arrived dropped cycles (some p.pid) =
          m.story arrived dropped cycles (some p.pid) := story_of_roll roll rfl
      rw [← same]
      exact .refl
    · simp only [Lock.acquire_taken (p := { p with pc := m.cpuPc - 1 }) held other]
      let q : Proc := { p with pc := m.cpuPc - 1, state := .blocked }
      let l : Lock := { c.lock with waiters := c.lock.waiters.enqueue q }
      have after := kept { c with lock := l }
      rw [Queue.cores_enqueue, Multiset.cons_add, ← here] at after
      refine .single (act_pass (.block (p := m.current p) c.lock.id c.lock.holder trap rfl)
        (roll_of_running dropped running) ?_ ?_)
      · refine Eq.trans ?_ (Station.cons_lock q.core ..)
        rw [← after, ← conditions l]
        exact roll_of_idle dropped rfl
      · rfl

/-- Those who are woken by the release of the lock of a channel are ready. -/
theorem acts_releaseChannel {id : ChannelId} {c : Channel} (keyed : Keyed m)
    (running : m.running = some p) (found : m.channels.get? id = some c) (arrived : List Proc)
    (dropped : Queue) (cycles : List (Option Pid)) (due : Option Pid) :
    Acts (m.story arrived dropped cycles due)
      (Machine.story { m with
        running := some p
        channels := m.channels.set id { c with lock := c.lock.freed }
        ready := m.ready.enqueueAll c.lock.woken } arrived dropped cycles due) := by
  obtain ⟨others, here, kept, -⟩ := exists_onLocks_channel keyed.channels found m.locks
  obtain ⟨others', here', kept', -⟩ := exists_onConditions keyed.channels found
  have after := kept { c with lock := c.lock.freed }
  have conditions := (kept' { c with lock := c.lock.freed }).trans here'.symm
  rw [← c.lock.waiters_freed_append, Queue.cores_append, add_comm (cores c.lock.freed.waiters),
    add_assoc, ← after] at here
  have acts := acts_wake (m.story arrived dropped cycles due) c.lock.woken m.queued
    (cores m.onCpu) (onDevices m.devices)
    (onLocks m.locks (m.channels.set id { c with lock := c.lock.freed })) (onConditions m.channels)
    (cores m.zombies + cores dropped)
  rw [← here] at acts
  apply acts.trans
  rw [← conditions, ← m.queued_enqueueAll, ← running]
  exact .refl

theorem acts_leaveChannel (keyed : Keyed m) (running : m.running = some p) (id : ChannelId)
    (arrived : List Proc) (dropped : Queue) (cycles : List (Option Pid)) (due : Option Pid) :
    Acts (m.story arrived dropped cycles due)
      ((m.leaveChannel id).story arrived dropped cycles due) := by
  unfold Machine.leaveChannel
  rw [running]
  cases found : m.channels.get? id with
  | none => exact .refl
  | some c =>
    simp only [Lock.release_eq]
    have released := acts_releaseChannel keyed running found arrived dropped cycles due
    split
    · rw [story_log]
      exact released
    · exact released

/-- Who waits on a channel after a side has parked a process. -/
theorem cores_parking (c : Channel) (q : Proc) (role : Channel.Role) :
    cores ((c.parking q role).fill ++ (c.parking q role).empty) =
      q.core ::ₘ cores (c.fill ++ c.empty) := by
  cases role <;> simp [Channel.parking, Queue.cores_enqueue]

/-- Who waits on a channel before and after a side has taken its turn. -/
theorem cores_taking (c : Channel) (pid : Pid) (role : Channel.Role) :
    cores (c.waiting role.other).head?.toList +
      cores ((c.taking pid role).fill ++ (c.taking pid role).empty) =
      cores (c.fill ++ c.empty) := by
  have split := Queue.cores_head?_add_tail (c.waiting role.other)
  cases role <;> simp only [Channel.taking, Channel.waiting, Channel.Role.other,
    Queue.cores_append] at split ⊢ <;> rw [← split] <;> abel

theorem waiters_taking (c : Channel) (pid : Pid) (role : Channel.Role) :
    (c.taking pid role).lock.waiters = c.lock.waiters := by
  cases role <;> simp only [Channel.taking, Channel.waiters_signalled]

theorem acts_wait {id : ChannelId} {c : Channel} (keyed : Keyed m) (running : m.running = some p)
    (found : m.channels.get? id = some c)
    (trap : p.trapAt m.cpuPc m.pairs = .ok (some (.rendezvousBody id))) (role : Channel.Role)
    (arrived : List Proc) (dropped : Queue) (cycles : List (Option Pid)) :
    Acts (m.story arrived dropped cycles (some p.pid))
      ((Machine.emit { m with
        running := none
        channels := m.channels.set id
          (c.parking { p with pc := m.cpuPc - 2, state := .blocked } role)
        ready := m.ready.enqueueAll c.lock.woken } (.condWait p.pid id)).story arrived dropped
          cycles none) := by
  obtain ⟨others, here, kept, -⟩ := exists_onLocks_channel keyed.channels found m.locks
  obtain ⟨others', here', kept', -⟩ := exists_onConditions keyed.channels found
  let q : Proc := { p with pc := m.cpuPc - 2, state := .blocked }
  let m₁ : Machine σ := { m with
    running := some p
    channels := m.channels.set id { c with lock := c.lock.freed }
    ready := m.ready.enqueueAll c.lock.woken }
  have released : Acts (m.story arrived dropped cycles (some p.pid))
      (m₁.story arrived dropped cycles (some p.pid)) :=
    acts_releaseChannel keyed running found arrived dropped cycles (some p.pid)
  have locks : onLocks m.locks (m.channels.set id (c.parking q role)) =
      onLocks m₁.locks m₁.channels := by
    have freed : (c.parking q role).lock = c.lock.freed := by cases role <;> rfl
    rw [kept, kept, freed]
  have conditions : onConditions (m.channels.set id (c.parking q role)) =
      q.core ::ₘ onConditions m₁.channels := by
    rw [kept', kept', cores_parking, Multiset.cons_add]
  refine released.tail (act_pass (.wait (p := m₁.current p) trap)
    (roll_of_running dropped rfl) ?_ ?_)
  · refine Eq.trans ?_ (Station.cons_condition q.core ..)
    rw [← conditions, ← locks]
    exact roll_of_idle dropped rfl
  · rfl

theorem acts_turn {id : ChannelId} {c : Channel} (keyed : Keyed m) (running : m.running = some p)
    (found : m.channels.get? id = some c) (role : Channel.Role) {e : Event}
    (mark : e.mark? = none) (pair : e.pair? = none) (arrived : List Proc) (dropped : Queue)
    (cycles : List (Option Pid)) (due : Option Pid) :
    Acts (m.story arrived dropped cycles due)
      (((Machine.emit { m with
        running := some p
        channels := m.channels.set id (c.taking p.pid role)
        ready := m.ready.enqueueAll (c.waiting role.other).head?.toList } e).emit
          (.condSignal p.pid id ((c.waiting role.other).head?.map (·.pid)))).story arrived dropped
            cycles due) := by
  obtain ⟨others, here, kept, -⟩ := exists_onLocks_channel keyed.channels found m.locks
  obtain ⟨others', here', kept', -⟩ := exists_onConditions keyed.channels found
  have locks : onLocks m.locks (m.channels.set id (c.taking p.pid role)) =
      onLocks m.locks m.channels := by
    rw [kept, waiters_taking, here]
  have conditions : onConditions m.channels = cores (c.waiting role.other).head?.toList +
      onConditions (m.channels.set id (c.taking p.pid role)) := by
    rw [kept', here', ← add_assoc, cores_taking]
  have queued := m.queued_enqueueAll (c.waiting role.other).head?.toList
  let served : Machine σ := { m with
    running := some p
    channels := m.channels.set id (c.taking p.pid role)
    ready := m.ready.enqueueAll (c.waiting role.other).head?.toList }
  have start : m.roll dropped = Station.roll m.queued (cores m.onCpu) (onDevices m.devices)
      (onLocks served.locks served.channels)
      (cores (c.waiting role.other).head?.toList + onConditions served.channels)
      (cores m.zombies + cores dropped) := by
    rw [locks, ← conditions]
    rfl
  have final : served.roll dropped = Station.roll
      (cores (c.waiting role.other).head?.toList + m.queued) (cores m.onCpu) (onDevices m.devices)
      (onLocks served.locks served.channels) (onConditions served.channels)
      (cores m.zombies + cores dropped) := by
    rw [← queued, Machine.onCpu, running]
    rfl
  have told : Act (m.story arrived dropped cycles due)
      ((m.story arrived dropped cycles due).tell e) := .note mark pair
  have same : served.story arrived dropped cycles due =
      { m.story arrived dropped cycles due with roll := served.roll dropped } := rfl
  rw [story_emit, story_emit, same]
  refine .head told (.single ?_)
  cases waiting : c.waiting role.other with
  | nil =>
    rw [waiting] at start final
    simp only [List.head?_nil, Option.toList_none, Queue.cores_nil, zero_add] at start final
    rw [final, ← start]
    exact .note rfl rfl
  | cons w rest =>
    rw [waiting] at start final
    simp only [List.head?_cons, Option.toList_some, Queue.cores_cons, Queue.cores_nil,
      Multiset.cons_add, zero_add] at start final
    rw [Station.cons_condition] at start
    rw [Station.cons_line] at final
    rw [final]
    exact Act.pass (s := (m.story arrived dropped cycles due).tell e) start
      (.signal w.core p.pid id due)

theorem acts_rendezvous {id : ChannelId} (keyed : Keyed m) (running : m.running = some p)
    (trap : p.trapAt m.cpuPc m.pairs = .ok (some (.rendezvousBody id))) (arrived : List Proc)
    (dropped : Queue) (cycles : List (Option Pid)) :
    Acts (m.story arrived dropped cycles (some p.pid))
      ((m.rendezvous id).2.story arrived dropped cycles (dueAfter p.pid (m.rendezvous id).1)) := by
  unfold Machine.rendezvous
  rw [running]
  cases found : m.channels.get? id with
  | none => exact .refl
  | some c =>
    cases kind : Channel.Role.ofKind? p.kind with
    | none =>
      simp only [kind]
      exact .refl
    | some role =>
      simp only [kind]
      split
      case isTrue turn =>
        have wait := c.wait_eq role { p with pc := m.cpuPc - 2 } m.ready
        simp only [wait]
        exact acts_wait keyed running found trap role arrived dropped cycles
      case isFalse turn =>
        cases role with
        | producer =>
          have produced := c.produce_eq p.pid m.ready
          have signal : (c.produce p.pid m.ready).2.1.pid? = c.fill.head?.map (·.pid) := by
            simp only [Channel.produce, Condition.signal]
            cases c.fill <;> rfl
          simp only [produced, signal]
          exact acts_turn keyed running found .producer rfl rfl arrived dropped cycles (some p.pid)
        | consumer =>
          have consumed := c.consume_eq p.pid m.ready
          have signal : (c.consume p.pid m.ready).2.1.pid? = c.empty.head?.map (·.pid) := by
            simp only [Channel.consume, Condition.signal]
            cases c.empty <;> rfl
          simp only [consumed, signal]
          exact acts_turn keyed running found .consumer rfl rfl arrived dropped cycles (some p.pid)

/-! ## All traps -/

theorem acts_handleTrap {t : Trap} (keyed : Keyed m) (running : m.running = some p)
    (trap : p.trapAt m.cpuPc m.pairs = .ok (some t)) (arrived : List Proc) (dropped : Queue)
    (cycles : List (Option Pid)) :
    Acts (m.story arrived dropped cycles (some p.pid))
      ((m.handleTrap t).2.story arrived dropped cycles
        (dueAfter p.pid (m.handleTrap t).1.isSome)) := by
  let m₁ := m.measure fun c => { c with traps := c.traps.increment t.label }
  have keyed₁ : Keyed m₁ := ⟨keyed.locks, keyed.channels⟩
  have cause : ∀ (parked : Bool) (c : Cause),
      (if parked then some c else none).isSome = parked := by
    intro parked c
    cases parked <;> rfl
  show Acts (m₁.story arrived dropped cycles (some p.pid)) _
  cases t with
  | io device =>
    simp only [Machine.handleTrap, cause]
    exact acts_startIo (m := m₁) running trap arrived dropped cycles
  | lock id =>
    simp only [Machine.handleTrap, cause]
    exact acts_lock keyed₁ running trap arrived dropped cycles
  | unlock id => exact acts_unlock keyed₁ running id arrived dropped cycles (some p.pid)
  | tryLock id => exact acts_tryLock keyed₁ running id arrived dropped cycles (some p.pid)
  | tryUnlock id => exact acts_unlock keyed₁ running id arrived dropped cycles (some p.pid)
  | rendezvousAcquire id =>
    simp only [Machine.handleTrap, cause]
    exact acts_enterChannel keyed₁ running trap arrived dropped cycles
  | rendezvousBody id =>
    simp only [Machine.handleTrap, cause]
    exact acts_rendezvous keyed₁ running trap arrived dropped cycles
  | rendezvousRelease id =>
    exact acts_leaveChannel keyed₁ running id arrived dropped cycles (some p.pid)

/-! ## Devices and ends -/

theorem acts_completeIo {d : DeviceId} (h : m.completeIo d = .ok (some m')) (arrived : List Proc)
    (dropped : Queue) (cycles : List (Option Pid)) :
    Acts (m.story arrived dropped cycles none) (m'.story arrived dropped cycles none) := by
  obtain ⟨dev, p, q, countdown, gen, hd, hq, rfl⟩ := Machine.exists_of_completeIo h
  have found : (m.devices.map (·.queue))[d.num]? = some dev.queue := by
    rw [List.getElem?_map, hd, Option.map_some]
  obtain ⟨others, here, kept⟩ := exists_cores_flatten_set found
  have devices : onDevices m.devices =
      p.core ::ₘ onDevices (m.devices.set d.num { queue := q, countdown }) := by
    rw [onDevices, onDevices, List.map_set, kept, here, hq, Queue.cores_cons, Multiset.cons_add]
  have queued : cores m.newcomers + cores (m.ready.enqueue { p with pc := p.pc + 1 }).toList =
      { p.core with pc := p.core.pc + 1 } ::ₘ m.queued := by
    rw [ReadyQueue.cores_toList_enqueue, Multiset.add_cons]
    rfl
  let rest := Station.roll m.queued (cores m.onCpu)
    (onDevices (m.devices.set d.num { queue := q, countdown })) (onLocks m.locks m.channels)
    (onConditions m.channels) (cores m.zombies + cores dropped)
  have before : m.roll dropped = (.device, p.core) ::ₘ rest := by
    rw [← Station.cons_device, ← devices]
    rfl
  refine .single (act_pass (.complete p.core d) before ?_ ?_)
  · rw [← Station.cons_line, ← queued]
    rfl
  · simp only [Machine.story, Machine.emit, Machine.measure, Journal.measure,
      Journal.tracing_event, Journal.events_event]
    rfl

/-- The running process ends. -/
theorem exists_of_terminateIfDone {pid : Pid} (h : m.terminateIfDone pid = some m')
    (arrived : List Proc) (dropped : Queue) (cycles : List (Option Pid)) :
    ∃ p rest, p.pid = pid ∧ p.shouldTerminate = true ∧ m.roll dropped = (.cpu, p) ::ₘ rest ∧
      m'.story arrived dropped cycles none =
        { m.story arrived dropped cycles (some pid) with
          roll := (.ended, p) ::ₘ rest, due := none }.tell (.terminated p.pid p.kind) := by
  obtain ⟨p, running, rfl, done, rfl⟩ := Machine.exists_of_terminateIfDone h
  let q : Proc := { p with pc := m.cpuPc, state := .terminated, stopped := true }
  have zombies : cores (m.zombies.enqueue q) + cores dropped =
      q.core ::ₘ (cores m.zombies + cores dropped) := by
    rw [Queue.cores_enqueue, Multiset.cons_add]
  have roll : (m.terminate p).roll dropped = (.ended, m.current p) ::ₘ Station.roll m.queued 0
      (onDevices m.devices) (onLocks m.locks m.channels) (onConditions m.channels)
      (cores m.zombies + cores dropped) := by
    refine Eq.trans ?_ (Station.cons_ended q.core ..)
    rw [← zombies]
    exact roll_of_idle dropped rfl
  refine ⟨m.current p, _, rfl, done, roll_of_running dropped running, ?_⟩
  rw [← roll]
  simp only [Machine.story, Machine.terminate, Machine.emit, Machine.measure, Journal.measure,
    Journal.tracing_event, Journal.events_event]
  rfl

theorem settle_goOn {pid : Pid} (h : m.terminateIfDone pid = none) (arrived : List Proc)
    (dropped : Queue) (cycles : List (Option Pid)) :
    Settle (m.story arrived dropped cycles (some pid)) (m.story arrived dropped cycles none) := by
  apply Settle.goOn
  intro p here due
  obtain rfl : pid = p.pid := Option.some.inj due
  rw [Machine.story, Machine.roll, Station.mem_roll, Machine.onCpu] at here
  obtain ⟨q, hq, rfl⟩ := Queue.mem_cores.1 here
  obtain ⟨r, running, rfl⟩ := Option.map_eq_some_iff.1 (Option.mem_toList.1 hq)
  rw [Machine.terminateIfDone, running] at h
  by_contra done
  have ended : r.shouldTerminate = true := by
    rw [Bool.not_eq_false] at done
    exact done
  simp [ended] at h

/-! ## Beginnings -/

theorem story_reportDeadlock (m : Machine σ) (d : Deadlock) (arrived : List Proc) (dropped : Queue)
    (cycles : List (Option Pid)) (due : Option Pid) :
    (m.reportDeadlock d).story arrived dropped cycles due =
      (m.story arrived dropped cycles due).tellAll d.news?.toList := by
  unfold Machine.reportDeadlock Deadlock.news?
  split
  · exact story_emit ..
  · rw [story_log, Option.toList_none, tellAll_nil]

theorem story_foldl_reportDeadlock (found : List Deadlock) (m : Machine σ) (arrived : List Proc)
    (dropped : Queue) (cycles : List (Option Pid)) (due : Option Pid) :
    (found.foldl Machine.reportDeadlock m).story arrived dropped cycles due =
      (m.story arrived dropped cycles due).tellAll (found.filterMap Deadlock.news?) := by
  induction found generalizing m with
  | nil =>
    rw [List.filterMap_nil, tellAll_nil]
    rfl
  | cons d found ih =>
    have news : (d :: found).filterMap Deadlock.news? =
        d.news?.toList ++ found.filterMap Deadlock.news? := by
      rw [List.filterMap_cons]
      cases d.news? <;> rfl
    rw [List.foldl_cons, ih, story_reportDeadlock, tellAll_append, news]

theorem story_scanIfDue (m : Machine σ) (arrived : List Proc) (dropped : Queue)
    (cycles : List (Option Pid)) (due : Option Pid) :
    m.scanIfDue.story arrived dropped cycles due =
      (m.story arrived dropped cycles due).scanIfDue m.pairs m.locks := by
  unfold Machine.scanIfDue scanIfDue
  split
  case isTrue late =>
    have late' : (m.story arrived dropped cycles due).scanInterval ≤
        (m.story arrived dropped cycles due).sinceScan := late
    rw [if_pos late']
    exact story_foldl_reportDeadlock ..
  case isFalse early =>
    have early' : ¬ (m.story arrived dropped cycles due).scanInterval ≤
        (m.story arrived dropped cycles due).sinceScan := early
    rw [if_neg early']

theorem keyed_scanIfDue (keyed : Keyed m) : Keyed m.scanIfDue := by
  obtain ⟨sinceScan, monitor, journal, scan⟩ := Scene.scanIfDue_eq m
  rw [scan]
  exact ⟨keyed.locks, keyed.channels⟩

theorem begin_idle (h : m.running = none) (arrived : List Proc) (dropped : Queue)
    (cycles : List (Option Pid)) :
    Begin (m.story arrived dropped cycles none)
      (m.beginCycle.countIdle.scanIfDue.story arrived dropped (cycles ++ [none]) none) := by
  rw [story_scanIfDue]
  exact .idle m.pairs m.locks (notMem_roll_of_idle dropped h) rfl

theorem begin_tick {q : Proc} {pc : Nat} (hp : m.running = some p)
    (advances : (m.current p).Advances { q with pc }.core) (arrived : List Proc) (dropped : Queue)
    (cycles : List (Option Pid)) :
    Begin (m.story arrived dropped cycles none)
      ((Machine.scanIfDue { m.beginCycle with running := some q, cpuPc := pc }).story arrived
        dropped (cycles ++ [some p.pid]) (some p.pid)) := by
  let m₁ : Machine σ := { m.beginCycle with running := some q, cpuPc := pc }
  have roll : m₁.roll dropped = (.cpu, { q with pc }.core) ::ₘ Station.roll m.queued 0
      (onDevices m.devices) (onLocks m.locks m.channels) (onConditions m.channels)
      (cores m.zombies + cores dropped) := roll_of_running dropped rfl
  have tick := Begin.tick (s := m.story arrived dropped cycles none) m.pairs m.locks
    (roll_of_running dropped hp) advances rfl
  rw [← roll] at tick
  rw [story_scanIfDue]
  exact tick

theorem exists_of_stepRunning {cause : Option Cause} (keyed : Keyed m) (hp : m.running = some p)
    (h : m.stepRunning = .ok (cause, m')) (arrived : List Proc) (dropped : Queue)
    (cycles : List (Option Pid)) :
    ∃ s, Begin (m.story arrived dropped cycles none) s ∧
      Acts s (m'.story arrived dropped (cycles ++ [some p.pid])
        (dueAfter p.pid cause.isSome)) := by
  obtain ⟨m₁, h₁, h⟩ := exists_of_bind_eq_ok h
  obtain ⟨t, ht, h⟩ := exists_of_bind_eq_ok h
  obtain ⟨q, pc, rfl, advances⟩ := Scene.exists_of_advance (m := m.beginCycle) hp h₁
  refine ⟨_, begin_tick hp advances arrived dropped cycles, ?_⟩
  have keyed₁ : Keyed { m.beginCycle with running := some q, cpuPc := pc } :=
    ⟨keyed.locks, keyed.channels⟩
  obtain ⟨running, cpuPc, pairs, -⟩ := Scene.scanIfDue_spec
    { m.beginCycle with running := some q, cpuPc := pc } q [] []
  rw [Machine.pendingTrap, running] at ht
  have trap := Machine.eq_of_attempt ht
  cases t with
  | none =>
    cases h
    exact .refl
  | some t =>
    have handled := Except.ok.inj h
    have acts := acts_handleTrap (keyed_scanIfDue keyed₁) running trap arrived dropped
      (cycles ++ [some p.pid])
    have pid : q.pid = p.pid := advances.pid_eq
    rw [handled, pid] at acts
    exact acts

/-! ## Runs -/

/-- While the counter of the cycles stands, none is written down. -/
theorem cycles_eq [Workload σ] {c c' : Chronicle σ} (h : Chronicle.Next c c')
    (frame : Frame c.story { c' with cycles := c.cycles }.story) : c'.cycles = c.cycles := by
  have iteration : c'.moment.ledger.machine.iteration = c.moment.ledger.machine.iteration :=
    frame.iteration
  rw [h.2, Moment.begun, if_pos iteration, List.append_nil]

/-- No cycle begins while the machine acts. -/
theorem next_of_acts [Workload σ] {c c' : Chronicle σ} (h : Chronicle.Next c c')
    (due : Duty.due c.moment.pending = none)
    (acts : Acts c.story { c' with cycles := c.cycles }.story) : Next c.story c'.story := by
  rw [← cycles_eq h acts.frame] at acts
  exact .between due acts

theorem next_of_ended [Workload σ] {c c' : Chronicle σ} (h : Chronicle.Next c c') {p : Proc}
    {rest : Multiset (Station × Proc)} (here : c.story.roll = (.cpu, p) ::ₘ rest)
    (due : c.story.due = some p.pid) (done : p.shouldTerminate = true)
    (there : { c' with cycles := c.cycles }.story =
      { c.story with roll := (.ended, p) ::ₘ rest, due := none }.tell
        (.terminated p.pid p.kind)) : Next c.story c'.story := by
  have ended := Next.ended here due done
  rw [← there] at ended
  rwa [← cycles_eq h (there ▸ (Act.ended here due done).frame)] at ended

theorem next_of_settles [Workload σ] {c c' : Chronicle σ} (h : Chronicle.Next c c')
    (settles : Relation.ReflTransGen Settle c.story { c' with cycles := c.cycles }.story) :
    Next c.story c'.story := by
  rw [← cycles_eq h (Settle.frame settles)] at settles
  exact .settled settles

/-- A cycle that begins is that of the running process. -/
theorem next_of_begin [Workload σ] {c c' : Chronicle σ} {s : Story} {own : Option Pid}
    (h : Chronicle.Next c c') (running : c.machine.runningPid? = own) (begins : Begin c.story s)
    (acts : Acts s { c' with cycles := c.cycles ++ [own] }.story)
    (dispatches : c'.machine.dispatches = c.machine.dispatches) : Next c.story c'.story := by
  have iteration : c'.moment.ledger.machine.iteration =
      c.moment.ledger.machine.iteration + 1 := acts.frame.iteration.trans begins.iteration
  have cycles : c'.cycles = c.cycles ++ [own] := by
    rw [h.2, Moment.begun, if_neg (by omega), ← running]
    rfl
  rw [← cycles] at acts
  exact .cycle begins acts dispatches

/-- Interrupts come when no cycle is to be closed. -/
theorem due_of_interruptible {pending : List Duty} (h : Duty.Interruptible pending) :
    Duty.due pending = none := by
  cases pending with
  | nil => rfl
  | cons duty rest =>
    cases duty with
    | phases => rfl
    | closeCycle => exact absurd h id

theorem settles_resume (m : Machine σ) (arrived : List Proc) (dropped : Queue)
    (cycles : List (Option Pid)) (pending : List Duty) :
    Relation.ReflTransGen Settle (m.story arrived dropped cycles none)
      (m.story arrived dropped cycles (Duty.due pending)) := by
  cases Duty.due pending with
  | none => exact .refl
  | some pid => exact .single (.resume pid rfl)

/-- Whatever happens in a run happens in its story. -/
theorem next_of_next [Workload σ] {c c' : Chronicle σ} (tidy : c.moment.ledger.scene.Tidy)
    (h : Chronicle.Next c c') : Next c.story c'.story := by
  have keyed := keyed_of_tidy tidy
  obtain ⟨⟨⟨m, arrived, dropped⟩, pending⟩, cycles⟩ := c
  obtain ⟨mo', cycles'⟩ := c'
  cases h.1 with
  | boot done =>
    apply next_of_acts h rfl
    have acts := acts_boot done (arrived.flatMap Arrival.procs) dropped cycles none
    rw [← List.flatMap_append] at acts
    exact acts
  | request done =>
    apply next_of_acts h rfl
    have acts := acts_requestBatch done (arrived.flatMap Arrival.procs) dropped cycles none
    rw [← List.flatMap_append] at acts
    exact acts
  | schedule cause => exact next_of_acts h rfl .refl
  | idleCycle idle =>
    have nobody : m.runningPid? = none := by
      rw [Machine.runningPid?, idle, Option.map_none]
    have begins := begin_idle idle (arrived.flatMap Arrival.procs) dropped cycles
    exact next_of_begin h nobody begins .refl
      (congrArg Prod.snd (Machine.background_scanIfDue m.beginCycle.countIdle))
  | @busyCycle l p cause m' running done =>
    have own : m.runningPid? = some p.pid := by
      rw [Machine.runningPid?, running, Option.map_some]
    obtain ⟨s, begins, acts⟩ := exists_of_stepRunning keyed running done
      (arrived.flatMap Arrival.procs) dropped cycles
    refine next_of_begin h own begins ?_ (Machine.dispatches_stepRunning done)
    cases cause <;> exact acts
  | timer interruptible =>
    apply next_of_acts h (due_of_interruptible interruptible)
    show Acts (m.story _ dropped cycles (Duty.due pending)) _
    rw [due_of_interruptible interruptible]
    exact acts_raiseTimer m (arrived.flatMap Arrival.procs) dropped cycles
  | completion interruptible done =>
    apply next_of_acts h (due_of_interruptible interruptible)
    show Acts (m.story _ dropped cycles (Duty.due pending)) _
    rw [due_of_interruptible interruptible]
    exact acts_completeIo done (arrived.flatMap Arrival.procs) dropped cycles
  | phase done =>
    apply next_of_acts h rfl
    have acts := acts_phase keyed done (arrived.flatMap Arrival.procs) dropped cycles
    rw [← List.flatMap_append] at acts
    exact acts
  | @done l cause pending' =>
    exact next_of_settles h
      (settles_resume m (arrived.flatMap Arrival.procs) dropped cycles pending')
  | @goOn l pid pending' unfinished =>
    apply next_of_settles h
    have closed := settle_goOn unfinished (arrived.flatMap Arrival.procs) dropped cycles
    exact .head closed (settles_resume m (arrived.flatMap Arrival.procs) dropped cycles pending')
  | @terminate l pid m' pending' done =>
    obtain ⟨p, rest, rfl, enough, here, there⟩ := exists_of_terminateIfDone done
      (arrived.flatMap Arrival.procs) dropped cycles
    exact next_of_ended h here rfl enough there

end Story
end Mlfq
