import Mlfq.Proofs.Journey.Basic
import Mlfq.Proofs.Shared.Basic

/-! # The ways of records through the machine

Whatever the machine does but for the timer, the end of a quantum, a priority reset and arrivals, it
conveys the records from place to place. For these four it is said what becomes of the records. -/

namespace Mlfq

variable {σ : Type}

namespace Machine

variable {m m' : Machine σ}

theorem Conveys.of_eq (h : m'.recordsAt = m.recordsAt) : Conveys m m' :=
  fun x hx => ⟨x, by rwa [Holds, ← h], .refl⟩

/-- In the beginning there are no records. -/
theorem not_holds_start {config : Config} {workload : σ} {logLevel : Option Level}
    (x : Place × Proc) : ¬ (start config workload logLevel).Holds x := by
  obtain ⟨place, p⟩ := x
  intro h
  cases place with
  | ready level =>
    change p ∈ (Vector.replicate 16 [])[level.val] at h
    rw [Vector.getElem_replicate] at h
    cases h
  | device id =>
    obtain ⟨d, found, here⟩ := holds_device.1 h
    obtain rfl := (List.mem_replicate.1 (List.mem_of_getElem? found)).2
    cases here
  | _ => cases h

/-! ## The dispatcher -/

theorem conveys_admitNewcomers (m : Machine σ) : Conveys m m.admitNewcomers := by
  refine .of_moves fun place p hp => ?_
  cases place with
  | newcomers => cases hp
  | ready level => exact Holds.queue .newcomers (fun w hw => hw) (.inl rfl) hp
  | _ => exact .inl hp

theorem conveys_dispatch (m : Machine σ) : Conveys m m.dispatch := by
  unfold dispatch
  cases taken : m.ready.dequeue with
  | none => exact .of_eq rfl
  | some next =>
    obtain ⟨p, ready⟩ := next
    obtain ⟨⟨level, first⟩, rest⟩ := ReadyQueue.mem_levels_of_dequeue taken
    refine .of_moves fun place q hq => ?_
    cases place with
    | ready level => exact .inl (rest level q hq)
    | cpu =>
      obtain rfl := List.mem_singleton.1 hq
      exact .inr ⟨(.ready level, p), first, .dispatch level p⟩
    | _ => exact .inl hq

theorem conveys_dropLock (m : Machine σ) (id : LockId) : Conveys m (m.dropLock id) := by
  unfold dropLock
  cases found : m.locks.get? id with
  | none => exact .refl m
  | some l =>
    refine .of_moves fun place p hp => ?_
    cases place with
    | ready level =>
      have parked : ∀ w ∈ l.waiters, m.Holds (.tableLock id, w) :=
        fun w hw => holds_tableLock.2 ⟨l, found, hw⟩
      exact Holds.queue _ parked (.inr rfl) hp
    | tableLock k =>
      obtain ⟨l', found', parked⟩ := holds_tableLock.1 hp
      exact .inl (holds_tableLock.2 ⟨l', Registry.get?_of_erase found', parked⟩)
    | _ => exact .inl hp

theorem conveys_retireFromPair (m : Machine σ) (pid : Pid) : Conveys m (m.retireFromPair pid) := by
  unfold retireFromPair
  rcases MutexPairs.retire pid m.pairs.pairs with ⟨- | ⟨a, b⟩, pairs⟩
  · exact .of_eq rfl
  · refine .trans ?_ ((conveys_dropLock _ a).trans (conveys_dropLock _ b))
    exact .of_eq rfl

theorem conveys_retireFromChannel (m : Machine σ) (p : Proc) :
    Conveys m (m.retireFromChannel p) := by
  unfold retireFromChannel
  split
  · exact .refl m
  · rename_i id _
    split
    · exact .refl m
    · rename_i c found
      dsimp only
      split
      · refine .of_moves fun place q hq => ?_
        cases place with
        | channelLock | fill | empty => exact .inl (holds_of_erase_channel hq rfl rfl)
        | _ => exact .inl hq
      · have kept : ∀ {place q}, place.channel? = some id ∧ q ∈ (c.retire p.pid).recordsAt place →
            m.Holds (place, q) := by
          rintro place q ⟨own, here⟩
          rw [Channel.recordsAt_retire] at here
          exact (holds_channel own).2 ⟨c, found, here⟩
        refine .of_moves fun place q hq => ?_
        cases place with
        | channelLock | fill | empty =>
          exact .inl ((holds_of_set_channel found hq rfl rfl).elim (·) kept)
        | _ => exact .inl hq

theorem conveys_reapOne (m : Machine σ) (p : Proc) : Conveys m (m.reapOne p) :=
  (conveys_retireFromPair m p.pid).trans (conveys_retireFromChannel _ p)

theorem conveys_reap (m : Machine σ) : Conveys m m.reap := by
  have emptied : Conveys m { m with zombies := [] } := by
    refine .of_moves fun place p hp => ?_
    cases place with
    | zombies => cases hp
    | _ => exact .inl hp
  exact emptied.trans ((Conveys.foldl conveys_reapOne m.zombies _).trans (.of_eq rfl))

/-! ## Traps -/

theorem conveys_startIo (m : Machine σ) (device : DeviceId) :
    Conveys m (m.startIo device).2 := by
  unfold startIo
  split
  · rename_i d p found running
    refine .of_moves fun place q hq => ?_
    cases place with
    | cpu => cases hq
    | device k =>
      rcases holds_of_set_device hq rfl with here | ⟨rfl, here⟩
      · exact .inl here
      · rcases Queue.mem_enqueue.1 here with old | rfl
        · exact .inl (holds_device.2 ⟨d, found, old⟩)
        · exact .inr ⟨(.cpu, p), holds_cpu.2 running, .park rfl p m.cpuPc⟩
    | _ => exact .inl hq
  · exact .refl m

theorem conveys_lock (tidy : m.locks.Tidy) (id : LockId) : Conveys m (m.lock id).2 := by
  unfold lock
  cases running : m.running with
  | none => exact .refl m
  | some p =>
    cases found : m.locks.get? id with
    | none => exact .of_eq rfl
    | some l =>
      have parked : ∀ w ∈ l.waiters, m.Holds (.tableLock id, w) :=
        fun w hw => holds_tableLock.2 ⟨l, found, hw⟩
      rcases l.open_or_taken p.pid with free | ⟨h, held, other⟩
      · simp only [Lock.acquire_open (p := { p with pc := m.cpuPc - 1 }) free]
        refine .of_moves fun place q hq => ?_
        cases place with
        | cpu =>
          obtain rfl := List.mem_singleton.1 hq
          exact .inr ⟨(.cpu, p), holds_cpu.2 running, .run p (m.cpuPc - 1) p.wraps⟩
        | tableLock k =>
          rcases holds_of_set_lock tidy found hq rfl rfl with here | ⟨rfl, here⟩
          · exact .inl here
          · exact .inl (parked q here)
        | _ => exact .inl hq
      · simp only [Lock.acquire_taken (p := { p with pc := m.cpuPc - 1 }) held other]
        refine .of_moves fun place q hq => ?_
        cases place with
        | cpu => cases hq
        | tableLock k =>
          rcases holds_of_set_lock tidy found hq rfl rfl with here | ⟨rfl, here⟩
          · exact .inl here
          · rcases Queue.mem_enqueue.1 here with old | rfl
            · exact .inl (parked q old)
            · exact .inr ⟨(.cpu, p), holds_cpu.2 running, .park rfl p (m.cpuPc - 1)⟩
        | _ => exact .inl hq

/-- A release queues processes that were parked on the lock, and nobody is parked anew. -/
theorem mem_release {l : Lock} {w : Proc} (h : w ∈ l.freed.waiters ∨ w ∈ l.woken) :
    w ∈ l.waiters := by
  rw [← l.waiters_freed_append]
  exact List.mem_append.2 h

theorem conveys_unlock (tidy : m.locks.Tidy) (id : LockId) : Conveys m (m.unlock id) := by
  unfold unlock
  split
  · rename_i p l running found
    split
    · exact .of_eq rfl
    · have parked : ∀ w ∈ l.waiters, m.Holds (.tableLock id, w) :=
        fun w hw => holds_tableLock.2 ⟨l, found, hw⟩
      have released : Conveys m { m with
          locks := m.locks.set l.freed, ready := m.ready.enqueueAll l.woken } := by
        refine .of_moves fun place q hq => ?_
        cases place with
        | ready level =>
          exact Holds.queue _ (fun w hw => parked w (mem_release (.inr hw))) (.inr rfl) hq
        | tableLock k =>
          rcases holds_of_set_lock tidy found hq rfl l.id_freed with here | ⟨rfl, here⟩
          · exact .inl here
          · exact .inl (parked q (mem_release (.inl here)))
        | _ => exact .inl hq
      rw [Lock.release_eq]
      dsimp only
      split
      · exact released.trans (.of_eq rfl)
      · exact released
  · exact .refl m

theorem conveys_tryLock (tidy : m.locks.Tidy) (id : LockId) : Conveys m (m.tryLock id) := by
  unfold tryLock
  split
  · rename_i p l running found
    have waiters : (l.tryAcquire p.pid).2.waiters = l.waiters := by
      unfold Lock.tryAcquire
      split <;> rfl
    refine .of_moves fun place q hq => ?_
    cases place with
    | tableLock k =>
      rcases holds_of_set_lock tidy found hq rfl (l.id_tryAcquire p.pid) with here | ⟨rfl, here⟩
      · exact .inl here
      · exact .inl (holds_tableLock.2 ⟨l, found, waiters ▸ here⟩)
    | _ => exact .inl hq
  · exact .refl m

/-- A channel serves the running process: it may park the process and queue others that were parked
on it in one place. -/
theorem conveys_channel {id : ChannelId} {c : Channel} {p : Proc} (running : m.running = some p)
    (found : m.channels.get? id = some c) (r : Option Proc) (c' : Channel) (place : Place)
    (ws : Queue) (cpu : ∀ q ∈ r, ∃ pc, q = { p with pc })
    (parked : ∀ place, ∀ q ∈ c'.recordsAt place,
      q ∈ c.recordsAt place ∨ ∃ pc, q = { p with pc, state := .blocked })
    (woken : ∀ w ∈ ws, w ∈ c.recordsAt place) (own : place.channel? = some id) :
    Conveys m { m with
      running := r
      ready := m.ready.enqueueAll ws
      channels := m.channels.set id c' } := by
  have served : ∀ {place k q}, place.channel? = some k → Machine.Holds { m with
      running := r
      ready := m.ready.enqueueAll ws
      channels := m.channels.set id c' } (place, q) →
      m.Holds (place, q) ∨ ∃ y, m.Holds y ∧ Moves y (place, q) := by
    intro place k q bound hq
    rcases holds_of_set_channel found hq rfl bound with here | ⟨own, here⟩
    · exact .inl here
    · rcases parked place q here with old | ⟨pc, rfl⟩
      · exact .inl ((holds_channel own).2 ⟨c, found, old⟩)
      · have parks : place.state = .blocked := by cases place <;> first | rfl | cases own
        exact .inr ⟨(.cpu, p), holds_cpu.2 running, .park parks p pc⟩
  have waits : place.state = .blocked := by cases place <;> first | rfl | cases own
  refine .of_moves fun place' q hq => ?_
  cases place' with
  | ready level =>
    exact Holds.queue _ (fun w hw => (holds_channel own).2 ⟨c, found, woken w hw⟩) (.inr waits) hq
  | cpu =>
    obtain ⟨pc, rfl⟩ := cpu q (Option.mem_toList.1 hq)
    exact .inr ⟨(.cpu, p), holds_cpu.2 running, .run p pc p.wraps⟩
  | channelLock | fill | empty => exact served rfl hq
  | _ => exact .inl hq

theorem conveys_enterChannel (m : Machine σ) (id : ChannelId) :
    Conveys m (m.enterChannel id).2 := by
  unfold enterChannel
  split
  · rename_i p c running found
    rcases c.lock.open_or_taken p.pid with free | ⟨h, held, other⟩
    · simp only [Lock.acquire_open (p := { p with pc := m.cpuPc - 1 }) free]
      let taken : Channel := { c with lock := { c.lock with holder := some p.pid } }
      have cpu : ∀ q ∈ some { p with pc := m.cpuPc - 1 }, ∃ pc, q = { p with pc } := by
        rintro q ⟨⟩
        exact ⟨_, rfl⟩
      have parked : ∀ place, ∀ q ∈ taken.recordsAt place,
          q ∈ c.recordsAt place ∨ ∃ pc, q = { p with pc, state := .blocked } :=
        fun place q hq => .inl (by cases place <;> exact hq)
      have woken : ∀ w ∈ [], w ∈ c.recordsAt (.channelLock id) := fun w hw => by cases hw
      have enters := conveys_channel running found _ taken (.channelLock id) [] cpu parked woken rfl
      exact enters.trans (.of_eq rfl)
    · simp only [Lock.acquire_taken (p := { p with pc := m.cpuPc - 1 }) held other]
      let waiting : Channel := { c with lock := { c.lock with
        waiters := c.lock.waiters.enqueue { p with pc := m.cpuPc - 1, state := .blocked } } }
      have parked : ∀ place, ∀ q ∈ waiting.recordsAt place,
          q ∈ c.recordsAt place ∨ ∃ pc, q = { p with pc, state := .blocked } := by
        intro place q hq
        cases place with
        | channelLock => exact (Queue.mem_enqueue.1 hq).imp (·) fun new => ⟨_, new⟩
        | _ => exact .inl hq
      have woken : ∀ w ∈ [], w ∈ c.recordsAt (.channelLock id) := fun w hw => by cases hw
      have cpu : ∀ q ∈ none, ∃ pc, q = { p with pc } := fun q hq => by cases hq
      have waits := conveys_channel running found none waiting (.channelLock id) [] cpu parked woken
        rfl
      exact waits.trans (.of_eq rfl)
  · exact .refl m

/-- The running process runs on. -/
theorem runs_on {p : Proc} (running : m.running = some p) :
    ∀ q ∈ m.running, ∃ pc, q = { p with pc } := by
  rw [running]
  rintro q ⟨⟩
  exact ⟨p.pc, rfl⟩

theorem conveys_leaveChannel (m : Machine σ) (id : ChannelId) :
    Conveys m (m.leaveChannel id) := by
  unfold leaveChannel
  split
  · rename_i p c running found
    have released := conveys_channel running found m.running { c with lock := c.lock.freed }
      (.channelLock id) c.lock.woken (runs_on running)
      (fun place q hq => .inl <| match place with
        | .channelLock _ => mem_release (.inl hq)
        | .fill _ | .empty _ => hq)
      (fun w hw => mem_release (.inr hw)) rfl
    rw [Lock.release_eq]
    dsimp only
    split
    · exact released.trans (.of_eq rfl)
    · exact released
  · exact .refl m

/-- A side that waits is parked on its condition, and who waits for the lock of the channel is
queued. -/
theorem conveys_wait {id : ChannelId} {c : Channel} {p : Proc} (running : m.running = some p)
    (found : m.channels.get? id = some c) (role : Channel.Role) (pc : Nat) :
    Conveys m { m with
      running := none
      ready := m.ready.enqueueAll c.lock.woken
      channels := m.channels.set id (c.parking { p with pc, state := .blocked } role) } := by
  refine conveys_channel running found none _ (.channelLock id) c.lock.woken nofun ?_
    (fun w hw => mem_release (.inr hw)) rfl
  intro place q hq
  cases place with
  | channelLock =>
    refine .inl (mem_release (.inl ?_))
    cases role <;> exact hq
  | fill =>
    cases role with
    | producer => exact .inl hq
    | consumer => exact (Queue.mem_enqueue.1 hq).imp (·) fun new => ⟨pc, new⟩
  | empty =>
    cases role with
    | producer => exact (Queue.mem_enqueue.1 hq).imp (·) fun new => ⟨pc, new⟩
    | consumer => exact .inl hq
  | _ => cases role <;> cases hq

/-- The place where the other side of a channel waits. -/
def partnerPlace (id : ChannelId) : Channel.Role → Place
  | .producer => .fill id
  | .consumer => .empty id

/-- A side that takes its turn wakes the other. -/
theorem conveys_turn {id : ChannelId} {c : Channel} {p : Proc} (running : m.running = some p)
    (found : m.channels.get? id = some c) (role : Channel.Role) :
    Conveys m { m with
      ready := m.ready.enqueueAll (c.waiting role.other).head?.toList
      channels := m.channels.set id (c.taking p.pid role) } := by
  refine conveys_channel running found m.running _ (partnerPlace id role) _
    (runs_on running) ?_ ?_ ?_
  · intro place q hq
    left
    cases place with
    | channelLock =>
      have kept : ∀ queue, q ∈ (c.signalled p.pid queue).waiters → q ∈ c.lock.waiters :=
        fun queue h => c.waiters_signalled p.pid queue ▸ h
      cases role <;> exact kept _ hq
    | fill =>
      cases role with
      | producer => exact List.mem_of_mem_tail hq
      | consumer => exact hq
    | empty =>
      cases role with
      | producer => exact hq
      | consumer => exact List.mem_of_mem_tail hq
    | _ => cases role <;> cases hq
  · intro w hw
    cases role <;> exact List.mem_of_mem_head? (Option.mem_toList.1 hw)
  · cases role <;> rfl

theorem conveys_rendezvous (m : Machine σ) (id : ChannelId) :
    Conveys m (m.rendezvous id).2 := by
  unfold rendezvous
  split
  · rename_i p c running found
    split
    · exact .refl m
    · rename_i role _
      split
      · have waits := conveys_wait running found role (m.cpuPc - 2)
        simp only [Channel.wait_eq]
        exact waits.trans (.of_eq rfl)
      · have turn := conveys_turn running found role
        cases role with
        | producer =>
          simp only [Channel.produce_eq]
          exact turn.trans (.of_eq rfl)
        | consumer =>
          simp only [Channel.consume_eq]
          exact turn.trans (.of_eq rfl)
  · exact .refl m

theorem conveys_handleTrap (tidy : m.locks.Tidy) (t : Trap) : Conveys m (m.handleTrap t).2 := by
  let m₀ := m.measure fun c => { c with traps := c.traps.increment t.label }
  have counted : Conveys m m₀ := .of_eq rfl
  simp only [handleTrap]
  cases t with
  | io device => exact counted.trans (conveys_startIo m₀ device)
  | lock id => exact counted.trans (conveys_lock (m := m₀) tidy id)
  | unlock id | tryUnlock id => exact counted.trans (conveys_unlock (m := m₀) tidy id)
  | tryLock id => exact counted.trans (conveys_tryLock (m := m₀) tidy id)
  | rendezvousAcquire id => exact counted.trans (conveys_enterChannel m₀ id)
  | rendezvousBody id => exact counted.trans (conveys_rendezvous m₀ id)
  | rendezvousRelease id => exact counted.trans (conveys_leaveChannel m₀ id)

/-! ## Cycles -/

theorem conveys_scanIfDue (m : Machine σ) : Conveys m m.scanIfDue := by
  obtain ⟨sinceScan, monitor, journal, scan⟩ := Scene.scanIfDue_eq m
  rw [scan]
  exact .of_eq rfl

/-- The step of the running process that begins a cycle. -/
theorem conveys_advance {p : Proc} (running : m.running = some p)
    (h : m.beginCycle.advance = .ok m') : Conveys m m' := by
  have stepped : ∀ cpuPc wraps,
      Conveys m { m.beginCycle with running := some { p with wraps }, cpuPc } := by
    refine fun cpuPc wraps => .of_moves fun place q hq => ?_
    cases place with
    | cpu =>
      obtain rfl := List.mem_singleton.1 hq
      exact .inr ⟨(.cpu, p), holds_cpu.2 running, .run p p.pc wraps⟩
    | _ => exact .inl hq
  unfold advance at h
  rw [show m.beginCycle.running = some p from running] at h
  obtain ⟨pc, -, h⟩ := exists_of_bind_eq_ok h
  split at h
  · cases h
    exact stepped pc p.wraps
  · obtain ⟨wraps, -, h⟩ := exists_of_bind_eq_ok h
    cases h
    exact stepped 0 wraps

theorem conveys_stepRunning (tidy : m.locks.Tidy) {p : Proc} {cause : Option Cause}
    (running : m.running = some p) (h : m.stepRunning = .ok (cause, m')) : Conveys m m' := by
  rcases exists_raises_of_stepRunning running h with
    ⟨m₁, advance, rfl, -⟩ | ⟨t, m₁, raises, handled⟩
  · exact (conveys_advance running advance).trans (conveys_scanIfDue m₁)
  · have locks : m₁.locks = m.locks := congrArg (·.2.1) raises.shared_eq
    obtain ⟨-, m₂, advance, rfl, -⟩ := raises
    have step := (conveys_advance running advance).trans (conveys_scanIfDue m₂)
    rw [show m' = _ from congrArg Prod.snd handled]
    exact step.trans (conveys_handleTrap (locks ▸ tidy) t)

theorem conveys_terminateIfDone {pid : Pid} (h : m.terminateIfDone pid = some m') :
    Conveys m m' := by
  obtain ⟨p, running, -, done, rfl⟩ := exists_of_terminateIfDone h
  refine .of_moves fun place q hq => ?_
  cases place with
  | cpu => cases hq
  | zombies =>
    rcases Queue.mem_enqueue.1 hq with old | rfl
    · exact .inl old
    · exact .inr ⟨(.cpu, p), holds_cpu.2 running, .finish p m.cpuPc done⟩
  | _ => exact .inl hq

theorem conveys_completeIo {device : DeviceId} (h : m.completeIo device = .ok (some m')) :
    Conveys m m' := by
  obtain ⟨d, p, queue, countdown, gen, found, whole, rfl⟩ := exists_of_completeIo h
  refine .of_moves fun place q hq => ?_
  cases place with
  | ready level =>
    rcases ReadyQueue.mem_levels_enqueue hq with old | ⟨rfl, rfl⟩
    · exact .inl old
    · have head := holds_device.2 ⟨d, found, whole ▸ List.mem_cons_self⟩
      exact .inr ⟨(.device device, p), head, .queue (.inr rfl) p (p.pc + 1)⟩
  | device k =>
    rcases holds_of_set_device hq rfl with old | ⟨rfl, behind⟩
    · exact .inl old
    · exact .inl (holds_device.2 ⟨d, found, whole ▸ List.mem_cons_of_mem p behind⟩)
  | _ => exact .inl hq

/-! ## Phases -/

theorem conveys_phase [Workload σ] {cause : Cause} {phase : Phase} (reset : phase ≠ .priorityReset)
    (expiry : cause = .timer → phase ≠ .preemption) (h : m.phase cause phase = .ok m') :
    Conveys m m' := by
  cases phase <;> simp only [Machine.phase] at h
  case priorityReset => exact absurd rfl reset
  all_goals cases h
  case admission => exact conveys_admitNewcomers m
  case preemption =>
    rw [if_neg fun timer => expiry timer rfl]
    exact .refl m
  all_goals split
  · exact conveys_dispatch m
  · exact .refl m
  · exact conveys_reap m
  · exact .refl m

/-! ## What is no move -/

/-- A record that an arrival brings is among the newcomers. -/
def Enters (as : List Arrival) (x : Place × Proc) : Prop :=
  ∃ a ∈ as, ∃ p ∈ a.procs, ∃ plan, x = (.newcomers, { p with state := .new, plan })

theorem holds_admitProc {p : Proc} {x : Place × Proc} (h : (m.admitProc p).Holds x) :
    m.Holds x ∨ x = (.newcomers, { p with state := .new }) := by
  obtain ⟨place, q⟩ := x
  cases place with
  | newcomers => exact (Queue.mem_enqueue.1 h).imp (·) (congrArg _)
  | _ => exact .inl h

theorem holds_receive {a : Arrival} {x : Place × Proc} (h : (m.receive a).Holds x) :
    m.Holds x ∨ Enters [a] x := by
  have enters : ∀ {p}, p ∈ a.procs → ∀ plan,
      x = (.newcomers, { p with state := .new, plan }) → Enters [a] x :=
    fun mem plan new => ⟨a, List.mem_singleton_self a, _, mem, plan, new⟩
  cases a with
  | single p => exact (holds_admitProc h).imp (·) (enters List.mem_cons_self p.plan)
  | mutexPair first second reversed =>
    rcases holds_admitProc h with h | new
    · rcases holds_admitProc h with h | new
      · left
        obtain ⟨place, q⟩ := x
        cases place with
        | tableLock id =>
          obtain ⟨l, found, parked⟩ := holds_tableLock.1 h
          have occupied : l.waiters ≠ [] := List.ne_nil_of_mem parked
          have older := (LockTable.get?_create_cases found).resolve_right occupied
          have oldest := (LockTable.get?_create_cases older).resolve_right occupied
          exact holds_tableLock.2 ⟨l, oldest, parked⟩
        | _ => exact h
      · exact .inr (enters List.mem_cons_self first.plan new)
    · exact .inr (enters (List.mem_cons_of_mem _ List.mem_cons_self) second.plan new)
  | rendezvousPair producer consumer =>
    rcases holds_admitProc h with h | new
    · rcases holds_admitProc h with h | new
      · left
        obtain ⟨place, q⟩ := x
        have old : ∀ {k}, place.channel? = some k → m.Holds (place, q) := by
          intro k bound
          obtain ⟨c, found, parked⟩ := (holds_channel bound).1 h
          rcases Registry.get?_add_cases found with found | rfl
          · exact (holds_channel bound).2 ⟨c, found, parked⟩
          · cases place <;> cases parked
        cases place with
        | channelLock | fill | empty => exact old rfl
        | _ => exact h
      · rw [Proc.bindChannel_eq] at new
        exact .inr (enters List.mem_cons_self _ new)
    · rw [Proc.bindChannel_eq] at new
      exact .inr (enters (List.mem_cons_of_mem _ List.mem_cons_self) _ new)

theorem holds_foldl_receive {as : List Arrival} {x : Place × Proc}
    (h : (as.foldl receive m).Holds x) : m.Holds x ∨ Enters as x := by
  induction as generalizing m with
  | nil => exact .inl h
  | cons a as ih =>
    rcases ih h with before | ⟨b, hb, enters⟩
    · refine (holds_receive before).imp (·) ?_
      rintro ⟨b, hb, enters⟩
      obtain rfl := List.mem_singleton.1 hb
      exact ⟨b, List.mem_cons_self, enters⟩
    · exact .inr ⟨b, List.mem_cons_of_mem a hb, enters⟩

theorem holds_requestBatch [Workload σ] {n : Nat} (h : m.requestBatch = .ok (n, m'))
    {x : Place × Proc} (hx : m'.Holds x) : m.Holds x ∨ Enters m.nextArrivals x := by
  obtain ⟨batch, answer, h⟩ := exists_of_bind_eq_ok h
  have next : m.nextArrivals = batch.arrivals := by rw [nextArrivals, eq_of_attempt answer]
  cases h
  rw [next]
  exact (holds_foldl_receive hx).imp (fun before => before) (·)

/-- What a priority reset makes of a record. -/
def afterReset : Place × Proc → Place × Proc
  | (.ready _, p) => (.ready .highest, { p with priority := .highest })
  | (.cpu, p) => (.cpu, { p with priority := .highest })
  | x => x

@[simp] theorem pid_afterReset (y : Place × Proc) : (afterReset y).2.pid = y.2.pid := by
  obtain ⟨place, p⟩ := y
  cases place <;> rfl

theorem priority_afterReset {y : Place × Proc} (h : y.1.isServed = true) :
    (afterReset y).2.priority = .highest := by
  obtain ⟨place, p⟩ := y
  cases place <;> first | rfl | cases h

theorem afterReset_eq_self {y : Place × Proc} (h : y.1.isServed = false) : afterReset y = y := by
  obtain ⟨place, p⟩ := y
  cases place <;> first | rfl | cases h

theorem holds_resetPriorities [Workload σ] (h : m.resetPriorities = .ok m') {x : Place × Proc}
    (hx : m'.Holds x) : (∃ y, m.Holds y ∧ x = afterReset y) ∨ Enters m.nextArrivals x := by
  obtain ⟨⟨n, m₁⟩, request, h⟩ := exists_of_bind_eq_ok h
  cases h
  refine (holds_requestBatch request hx).imp (fun before => ?_) (·)
  obtain ⟨place, q⟩ := x
  cases place with
  | ready level =>
    obtain ⟨rfl, level', p, here, rfl⟩ := ReadyQueue.mem_levels_resetPriorities before
    exact ⟨(.ready level', p), here, rfl⟩
  | cpu =>
    obtain ⟨p, running, rfl⟩ := Option.map_eq_some_iff.1 (holds_cpu.1 before)
    exact ⟨(.cpu, p), holds_cpu.2 running, rfl⟩
  | _ => exact ⟨_, before, rfl⟩

theorem holds_preempt {p : Proc} (running : m.running = some p) {x : Place × Proc}
    (h : m.preempt.Holds x) : m.Holds x ∧ x.1 ≠ .cpu ∨
      x = (.ready p.priority.demoted,
        { p with pc := m.cpuPc, priority := p.priority.demoted, state := .ready }) := by
  unfold preempt at h
  rw [running] at h
  obtain ⟨place, q⟩ := x
  cases place with
  | ready level =>
    rcases ReadyQueue.mem_levels_enqueue h with old | ⟨rfl, rfl⟩
    · exact .inl ⟨old, nofun⟩
    · exact .inr rfl
  | cpu => cases h
  | _ => exact .inl ⟨h, nofun⟩

/-- Whose quantum has ended is in line one level lower. -/
theorem exists_holds_preempt {p : Proc} (running : m.running = some p) :
    ∃ r, m.preempt.Holds (.ready p.priority.demoted, r) ∧ r.pid = p.pid := by
  refine ⟨{ p with pc := m.cpuPc, priority := p.priority.demoted, state := .ready }, ?_, rfl⟩
  unfold preempt
  rw [running]
  exact ReadyQueue.mem_levels_enqueue_self _ _

theorem holds_raiseTimer {x : Place × Proc} (h : m.raiseTimer.Holds x) :
    m.Holds x ∨ ∃ p, m.running = some p ∧
      x = (.cpu, { p with state := .interrupted, pc := m.cpuPc }) := by
  obtain ⟨place, q⟩ := x
  cases place with
  | cpu =>
    obtain ⟨p, running, rfl⟩ := Option.map_eq_some_iff.1 (holds_cpu.1 h)
    exact .inr ⟨p, running, rfl⟩
  | _ => exact .inl h

end Machine
end Mlfq
