import Mlfq.Proofs.Shared.Frame
import Mlfq.Proofs.Twin.Surface

/-! # Traps on one surface

A trap reads one lock or one channel under the surface. Where machines with one surface have it in
the same state, they handle the trap in the same way, and have it in the same state afterwards. -/

namespace Mlfq

/-- A channel that is the same but for the marks. -/
theorem Channel.exists_marks_of_unmarked_eq {c c' : Channel} (h : c'.unmarked = c.unmarked) :
    ∃ producerGone consumerGone, c' = { c with producerGone, consumerGone } :=
  ⟨c'.producerGone, c'.consumerGone, congrArg (fun u : Channel =>
    { u with producerGone := c'.producerGone, consumerGone := c'.consumerGone }) h⟩

variable {σ : Type}

namespace Machine

/-- Two machines with one surface have the lock or the channel that a trap is about, in the same
state but for marks. -/
structure Aligned (t : Trap) (m m' : Machine σ) : Prop where
  surface : m'.surface = m.surface
  lock : ∀ id r, t.tableRequest? = some (id, r) →
    ∃ l, m.locks.get? id = some l ∧ m'.locks.get? id = some l
  channel : ∀ id, t.channel? = some id → ∃ c c', m.channels.get? id = some c ∧
    m'.channels.get? id = some c' ∧ c'.unmarked = c.unmarked

/-- Two machines have handled a trap in the same way. -/
structure Concur (t : Trap) {α : Type} (x x' : α × Machine σ) : Prop where
  answer : x'.1 = x.1
  aligned : Aligned t x.2 x'.2

variable {m m' : Machine σ} {t : Trap}

theorem Aligned.symm (h : Aligned t m m') : Aligned t m' m where
  surface := h.surface.symm
  lock id r request := by
    obtain ⟨l, found, found'⟩ := h.lock id r request
    exact ⟨l, found', found⟩
  channel id request := by
    obtain ⟨c, c', found, found', same⟩ := h.channel id request
    exact ⟨c', c, found', found, same.symm⟩

/-- What is counted is not part of it. -/
theorem Aligned.measure (h : Aligned t m m') (f f' : Metrics → Metrics) :
    Aligned t (m.measure f) (m'.measure f') := ⟨h.surface, h.lock, h.channel⟩

/-- The trap was about a lock, which is set now. -/
theorem Aligned.of_setLock (tidy : m.locks.Tidy) (tidy' : m'.locks.Tidy) {m₁ m₁' : Machine σ}
    {id : LockId} {r : Lock.Request} {l l' : Lock} (request : t.tableRequest? = some (id, r))
    (channel : t.channel? = none) (found : m.locks.get? id = some l)
    (found' : m'.locks.get? id = some l) (same : l'.id = l.id)
    (surface : m₁'.surface = m₁.surface) (after : m₁.locks = m.locks.set l')
    (after' : m₁'.locks = m'.locks.set l') : Aligned t m₁ m₁' := by
  refine ⟨surface, fun k s here => ⟨l', ?_⟩, fun k here => ?_⟩
  · obtain ⟨rfl, -⟩ := Prod.mk.inj (Option.some.inj (request.symm.trans here))
    rw [after, after', tidy.get?_set found same, tidy'.get?_set found' same, if_pos rfl,
      if_pos rfl]
    exact ⟨rfl, rfl⟩
  · rw [channel] at here
    cases here

/-- The trap was about a channel, which is set now. -/
theorem Aligned.of_setChannel {m₁ m₁' : Machine σ} {id : ChannelId} {c c' d d' : Channel}
    (request : t.channel? = some id) (table : t.tableRequest? = none)
    (found : m.channels.get? id = some c) (found' : m'.channels.get? id = some c')
    (surface : m₁'.surface = m₁.surface) (after : m₁.channels = m.channels.set id d)
    (after' : m₁'.channels = m'.channels.set id d') (same : d'.unmarked = d.unmarked) :
    Aligned t m₁ m₁' := by
  refine ⟨surface, fun k s here => ?_, fun k here => ⟨d, d', ?_, ?_, same⟩⟩
  · rw [table] at here
    cases here
  · obtain rfl := Option.some.inj (request.symm.trans here)
    rw [after, Registry.get?_set (Registry.mem_keys_of_get? found), if_pos rfl]
  · obtain rfl := Option.some.inj (request.symm.trans here)
    rw [after', Registry.get?_set (Registry.mem_keys_of_get? found'), if_pos rfl]

/-! ## Locks -/

section

variable (tidy : m.locks.Tidy) (tidy' : m'.locks.Tidy) {id : LockId}

include tidy tidy'

theorem concur_lock (h : Aligned (.lock id) m m') :
    Concur (.lock id) (m.lock id) (m'.lock id) := by
  obtain ⟨l, found, found'⟩ := h.lock id .acquire rfl
  obtain ⟨d, rfl⟩ := exists_atop_of_surface_eq h.surface
  cases running : m.running with
  | none =>
    simp only [lock, running_atop, running]
    exact ⟨rfl, h⟩
  | some p =>
    simp only [lock, running_atop, cpuPc_atop, running, found, found']
    have same := l.id_acquire { p with pc := m.cpuPc - 1 }
    rcases acquired : l.acquire { p with pc := m.cpuPc - 1 } with ⟨q | _, l'⟩ <;>
      rw [acquired] at same <;>
      exact ⟨rfl, .of_setLock tidy tidy' rfl rfl found found' same rfl rfl rfl⟩

theorem aligned_unlock {r : Lock.Request} (request : t.tableRequest? = some (id, r))
    (channel : t.channel? = none) (h : Aligned t m m') :
    Aligned t (m.unlock id) (m'.unlock id) := by
  obtain ⟨l, found, found'⟩ := h.lock id r request
  obtain ⟨d, rfl⟩ := exists_atop_of_surface_eq h.surface
  cases running : m.running with
  | none =>
    simp only [unlock, running_atop, running]
    exact h
  | some p =>
    simp only [unlock, running_atop, ready_atop, strictUnlock_atop, running, found, found']
    cases m.config.strictUnlock && !l.isHeldBy p.pid with
    | true => exact ⟨rfl, h.lock, h.channel⟩
    | false =>
      cases (l.release m.ready).1.previous.isSome <;>
        exact .of_setLock tidy tidy' request channel found found' (l.id_release m.ready) rfl rfl rfl

theorem aligned_tryLock (h : Aligned (.tryLock id) m m') :
    Aligned (.tryLock id) (m.tryLock id) (m'.tryLock id) := by
  obtain ⟨l, found, found'⟩ := h.lock id .attempt rfl
  obtain ⟨d, rfl⟩ := exists_atop_of_surface_eq h.surface
  cases running : m.running with
  | none =>
    simp only [tryLock, running_atop, running]
    exact h
  | some p =>
    simp only [tryLock, running_atop, running, found, found']
    exact .of_setLock tidy tidy' rfl rfl found found' (l.id_tryAcquire p.pid) rfl rfl rfl

end

/-! ## Channels -/

variable {id : ChannelId}

theorem concur_enterChannel (h : Aligned (.rendezvousAcquire id) m m') :
    Concur (.rendezvousAcquire id) (m.enterChannel id) (m'.enterChannel id) := by
  obtain ⟨c, c', found, found', same⟩ := h.channel id rfl
  obtain ⟨_, _, rfl⟩ := Channel.exists_marks_of_unmarked_eq same
  obtain ⟨d, rfl⟩ := exists_atop_of_surface_eq h.surface
  cases running : m.running with
  | none =>
    simp only [enterChannel, running_atop, running]
    exact ⟨rfl, h⟩
  | some p =>
    simp only [enterChannel, running_atop, cpuPc_atop, running, found, found']
    rcases c.lock.acquire { p with pc := m.cpuPc - 1 } with ⟨- | -, l⟩ <;>
      exact ⟨rfl, .of_setChannel rfl rfl found found' rfl rfl rfl rfl⟩

theorem aligned_leaveChannel (h : Aligned (.rendezvousRelease id) m m') :
    Aligned (.rendezvousRelease id) (m.leaveChannel id) (m'.leaveChannel id) := by
  obtain ⟨c, c', found, found', same⟩ := h.channel id rfl
  obtain ⟨_, _, rfl⟩ := Channel.exists_marks_of_unmarked_eq same
  obtain ⟨d, rfl⟩ := exists_atop_of_surface_eq h.surface
  cases running : m.running with
  | none =>
    simp only [leaveChannel, running_atop, running]
    exact h
  | some p =>
    simp only [leaveChannel, running_atop, ready_atop, running, found, found']
    by_cases woken : 0 < (c.lock.release m.ready).1.woken
    · simp only [if_pos woken]
      exact .of_setChannel rfl rfl found found' rfl rfl rfl rfl
    · simp only [if_neg woken]
      exact .of_setChannel rfl rfl found found' rfl rfl rfl rfl

theorem concur_rendezvous (h : Aligned (.rendezvousBody id) m m') :
    Concur (.rendezvousBody id) (m.rendezvous id) (m'.rendezvous id) := by
  obtain ⟨c, c', found, found', same⟩ := h.channel id rfl
  obtain ⟨_, _, rfl⟩ := Channel.exists_marks_of_unmarked_eq same
  obtain ⟨d, rfl⟩ := exists_atop_of_surface_eq h.surface
  cases running : m.running with
  | none =>
    simp only [rendezvous, running_atop, running]
    exact ⟨rfl, h⟩
  | some p =>
    simp only [rendezvous, running_atop, cpuPc_atop, ready_atop, running, found, found']
    cases Channel.Role.ofKind? p.kind with
    | none => exact ⟨rfl, h⟩
    | some role =>
      -- Whether it is the turn of this side, and what it does, is the same whatever the marks are.
      have turn : ∀ producerGone consumerGone,
          ({ c with producerGone, consumerGone } : Channel).mustWait role = c.mustWait role := by
        cases role <;> exact fun _ _ => rfl
      simp only [turn]
      cases c.mustWait role <;> cases role <;>
        exact ⟨rfl, .of_setChannel rfl rfl found found' rfl rfl rfl rfl⟩

/-! ## All traps -/

/-- Nobody ends with a trap. -/
theorem zombies_handleTrap (m : Machine σ) (t : Trap) :
    (m.handleTrap t).2.zombies = m.zombies := by
  cases t <;> simp only [handleTrap, startIo, lock, unlock, tryLock, enterChannel, rendezvous,
    leaveChannel]
  all_goals
    repeat' split
    all_goals rfl

/-- A trap is handled in the same way where what it is about is in the same state. -/
theorem concur_handleTrap (tidy : m.locks.Tidy) (tidy' : m'.locks.Tidy) (h : Aligned t m m') :
    Concur t (m.handleTrap t) (m'.handleTrap t) := by
  have counted := h.measure (fun c => { c with traps := c.traps.increment t.label })
    fun c => { c with traps := c.traps.increment t.label }
  have locks : ∀ {m : Machine σ} (f), m.locks.Tidy → (m.measure f).locks.Tidy := fun _ => id
  simp only [handleTrap]
  cases t with
  | io device =>
    obtain ⟨answer, parallel⟩ := parallel_startIo counted.surface device
    refine ⟨congrArg (fun parked : Bool => if parked then some Cause.ioTrap else none) answer,
      parallel.surface, fun _ _ request => ?_, fun _ request => ?_⟩ <;> cases request
  | lock id =>
    have concur := concur_lock (locks _ tidy) (locks _ tidy') counted
    exact ⟨congrArg (fun parked : Bool => if parked then some Cause.lockTrap else none)
      concur.answer, concur.aligned⟩
  | unlock id | tryUnlock id =>
    exact ⟨rfl, aligned_unlock (locks _ tidy) (locks _ tidy') rfl rfl counted⟩
  | tryLock id => exact ⟨rfl, aligned_tryLock (locks _ tidy) (locks _ tidy') counted⟩
  | rendezvousAcquire id =>
    have concur := concur_enterChannel counted
    exact ⟨congrArg (fun parked : Bool => if parked then some Cause.rendezvousTrap else none)
      concur.answer, concur.aligned⟩
  | rendezvousBody id =>
    have concur := concur_rendezvous counted
    exact ⟨congrArg (fun parked : Bool => if parked then some Cause.rendezvousTrap else none)
      concur.answer, concur.aligned⟩
  | rendezvousRelease id => exact ⟨rfl, aligned_leaveChannel counted⟩

end Machine
end Mlfq
