import Mlfq.Proofs.Scene.Basic

/-! # The trap handlers in a scene

A process that takes a step and raises a trap makes one step of the scene: the handler parks it, or
serves it and lets it go on. -/

namespace Mlfq

open Queue (cores)

variable {σ : Type}

namespace Machine

/-- The processes that are new or ready. -/
def queued (m : Machine σ) : Multiset Proc := cores m.newcomers + cores m.ready.toList

/-- The running process `p` with the counter of the CPU. -/
def current (m : Machine σ) (p : Proc) : Proc := { p with pc := m.cpuPc }.core

/-- Processes that are woken are ready. -/
theorem queued_enqueueAll (m : Machine σ) (q : Queue) :
    cores m.newcomers + cores (m.ready.enqueueAll q).toList = cores q + m.queued := by
  rw [ReadyQueue.cores_toList_enqueueAll, queued, add_left_comm]

end Machine

namespace Scene

/-- The step of a process, seen from the machine in which it has taken it. -/
structure Stepped (m : Machine σ) (p₀ p : Proc) (t : Option Trap) : Prop where
  running : m.running = some p
  advances : p₀.Advances (m.current p)
  trap : p.trapAt m.cpuPc m.pairs = .ok t

/-- The scene in which process `p₀` is about to take the step. -/
def before (m : Machine σ) (p₀ : Proc) (arrived : List Arrival) (dropped : Queue) : Scene :=
  { (⟨m, arrived, dropped⟩ : Ledger σ).scene with free := p₀ ::ₘ m.queued }

variable {m : Machine σ} {p₀ p : Proc} {t : Option Trap} {arrived : List Arrival} {dropped : Queue}

theorem scene_of_running (p₀ : Proc) (h : m.running = some p) :
    (⟨m, arrived, dropped⟩ : Ledger σ).scene =
    { before m p₀ arrived dropped with free := m.current p ::ₘ m.queued } := by
  simp only [before, Ledger.scene, Machine.onCpu, h, Machine.queued]
  rw [← Multiset.singleton_add, add_comm]
  rfl

theorem scene_of_idle (p₀ : Proc) (h : m.running = none) :
    (⟨m, arrived, dropped⟩ : Ledger σ).scene =
    { before m p₀ arrived dropped with free := m.queued } := by
  simp only [before, Ledger.scene, Machine.onCpu, h, Machine.queued]
  rw [Option.map_none, Option.toList_none, Queue.cores_nil, add_zero]

/-- The process goes on, and others that are woken are ready. -/
theorem scene_of_waking (m : Machine σ) (p₀ p : Proc) (arrived : List Arrival) (dropped q : Queue)
    (locks : LockTable) (channels : Registry ChannelId Channel) :
    (⟨{ m with running := some p, locks, channels, ready := m.ready.enqueueAll q }, arrived,
      dropped⟩ : Ledger σ).scene =
    { before m p₀ arrived dropped with
      free := m.current p ::ₘ cores q + m.queued, locks, channels } := by
  rw [scene_of_running p₀ (p := p)
    (m := { m with running := some p, locks, channels, ready := m.ready.enqueueAll q }) rfl,
    Multiset.cons_add, ← m.queued_enqueueAll q]
  rfl

theorem Stepped.runs (h : Stepped m p₀ p t) :
    (before m p₀ arrived dropped).Runs p₀ (m.current p) m.queued t :=
  ⟨rfl, h.advances, h.trap⟩

theorem step_goOn (h : Stepped m p₀ p t)
    (ignored : ∀ t' ∈ t, (before m p₀ arrived dropped).Ignores (m.current p) t') :
    Step (before m p₀ arrived dropped) (⟨m, arrived, dropped⟩ : Ledger σ).scene := by
  rw [scene_of_running p₀ h.running]
  exact .goOn h.runs ignored

/-- A trap of which nothing comes. -/
theorem step_ignored {t : Trap} (h : Stepped m p₀ p (some t))
    (ignored : (before m p₀ arrived dropped).Ignores (m.current p) t) :
    Step (before m p₀ arrived dropped) (⟨m, arrived, dropped⟩ : Ledger σ).scene := by
  apply step_goOn h
  intro t' ht'
  cases ht'
  exact ignored

theorem step_startIo {d : DeviceId} (h : Stepped m p₀ p (some (.io d))) :
    Step (before m p₀ arrived dropped) (⟨(m.startIo d).2, arrived, dropped⟩ : Ledger σ).scene := by
  have found : (before m p₀ arrived dropped).devices[d.num]? =
      m.devices[d.num]?.map (·.queue) := List.getElem?_map ..
  unfold Machine.startIo
  rw [h.running]
  cases hd : m.devices[d.num]? with
  | none => exact step_ignored h (found.trans (by rw [hd]; rfl))
  | some dev =>
    rw [hd] at found
    refine (Step.request h.runs found
      (r := { p with pc := m.cpuPc, state := .blocked }) rfl).congr ?_
    rw [scene_of_idle p₀ rfl]
    simp only [before, Ledger.scene, Machine.emit, Machine.drawCountdown, Machine.queued,
      List.map_set]

/-! ## Locks -/

theorem step_lock {id : LockId} (h : Stepped m p₀ p (some (.lock id))) :
    Step (before m p₀ arrived dropped) (⟨(m.lock id).2, arrived, dropped⟩ : Ledger σ).scene := by
  unfold Machine.lock
  rw [h.running]
  cases hl : m.locks.get? id with
  | none => exact step_ignored h hl
  | some l =>
    rcases l.open_or_taken p.pid with free | ⟨x, held, other⟩
    · simp only [Lock.acquire_open (p := { p with pc := m.cpuPc - 1 }) free]
      apply (Step.table h.runs rfl hl (.take (by decide) free) nofun).congr
      rw [scene_of_running p₀ rfl, Multiset.singleton_add]
      rfl
    · simp only [Lock.acquire_taken (p := { p with pc := m.cpuPc - 1 }) held other]
      refine (Step.table h.runs rfl hl
        (.park (q := { p with pc := m.cpuPc - 1, state := .blocked }) held other rfl)
        nofun).congr ?_
      rw [scene_of_idle p₀ rfl, zero_add]
      rfl

theorem step_unlock {t : Trap} {id : LockId} (ht : t = .unlock id ∨ t = .tryUnlock id)
    (h : Stepped m p₀ p (some t)) :
    Step (before m p₀ arrived dropped) (⟨m.unlock id, arrived, dropped⟩ : Ledger σ).scene := by
  have skipped : (∀ l, m.locks.get? id = some l → l.holder ≠ some p.pid) →
      (before m p₀ arrived dropped).Ignores (m.current p) t := by
    rcases ht with rfl | rfl <;> exact fun other => other
  have request : t.tableRequest? = some (id, .release) := by rcases ht with rfl | rfl <;> rfl
  unfold Machine.unlock
  rw [h.running]
  cases hl : m.locks.get? id with
  | none =>
    refine step_ignored h (skipped fun l found => ?_)
    rw [hl] at found
    cases found
  | some l =>
    simp only
    split
    case isTrue strict =>
      refine step_ignored h (skipped fun l' found => ?_)
      rw [hl] at found
      cases found
      simp only [Lock.isHeldBy, Bool.and_eq_true, Bool.not_eq_true', beq_eq_false_iff_ne] at strict
      exact strict.2
    case isFalse lenient =>
      rw [Lock.release_eq]
      have owned : (before m p₀ arrived dropped).strict = true → l.holder = some p.pid := by
        intro strict
        have strict : m.config.strictUnlock = true := strict
        simp only [strict, Bool.true_and, Bool.not_eq_true', Bool.not_eq_false, Lock.isHeldBy,
          beq_iff_eq] at lenient
        exact lenient
      apply (Step.table h.runs request hl .release fun strict _ => owned strict).congr
      have scene := scene_of_waking m p₀ p arrived dropped l.woken (m.locks.set l.freed) m.channels
      split <;> exact scene.symm

theorem step_tryLock {id : LockId} (h : Stepped m p₀ p (some (.tryLock id))) :
    Step (before m p₀ arrived dropped) (⟨m.tryLock id, arrived, dropped⟩ : Ledger σ).scene := by
  unfold Machine.tryLock
  rw [h.running]
  cases hl : m.locks.get? id with
  | none => exact step_ignored h hl
  | some l =>
    rcases l.open_or_taken p.pid with free | ⟨x, held, other⟩
    · simp only [Lock.tryAcquire_open free]
      apply (Step.table h.runs rfl hl (.take (by decide) free) nofun).congr
      rw [scene_of_running p₀ (p := p) rfl, Multiset.singleton_add]
      rfl
    · simp only [Lock.tryAcquire_taken held other]
      apply (Step.table h.runs rfl hl (.fail held other) nofun).congr
      rw [scene_of_running p₀ (p := p) rfl, Multiset.singleton_add]
      rfl

/-! ## Channels -/

theorem step_enterChannel {id : ChannelId} (h : Stepped m p₀ p (some (.rendezvousAcquire id))) :
    Step (before m p₀ arrived dropped)
      (⟨(m.enterChannel id).2, arrived, dropped⟩ : Ledger σ).scene := by
  unfold Machine.enterChannel
  rw [h.running]
  cases hc : m.channels.get? id with
  | none => exact step_ignored h hc
  | some c =>
    rcases c.lock.open_or_taken p.pid with free | ⟨x, held, other⟩
    · simp only [Lock.acquire_open (p := { p with pc := m.cpuPc - 1 }) free]
      apply (Step.channel h.runs rfl hc (.lock rfl (.take (by decide) free))).congr
      rw [scene_of_running p₀ rfl, Multiset.singleton_add]
      rfl
    · simp only [Lock.acquire_taken (p := { p with pc := m.cpuPc - 1 }) held other]
      refine (Step.channel h.runs rfl hc (.lock rfl
        (.park (q := { p with pc := m.cpuPc - 1, state := .blocked }) held other rfl))).congr ?_
      rw [scene_of_idle p₀ rfl, zero_add]
      rfl

theorem step_leaveChannel {id : ChannelId} (h : Stepped m p₀ p (some (.rendezvousRelease id))) :
    Step (before m p₀ arrived dropped)
      (⟨m.leaveChannel id, arrived, dropped⟩ : Ledger σ).scene := by
  unfold Machine.leaveChannel
  rw [h.running]
  cases hc : m.channels.get? id with
  | none => exact step_ignored h hc
  | some c =>
    simp only [Lock.release_eq]
    apply (Step.channel h.runs rfl hc (.lock rfl .release)).congr
    have scene := scene_of_waking m p₀ p arrived dropped c.lock.woken m.locks
      (m.channels.set id { c with lock := c.lock.freed })
    split <;> exact scene.symm

theorem step_rendezvous {id : ChannelId} (h : Stepped m p₀ p (some (.rendezvousBody id))) :
    Step (before m p₀ arrived dropped)
      (⟨(m.rendezvous id).2, arrived, dropped⟩ : Ledger σ).scene := by
  unfold Machine.rendezvous
  rw [h.running]
  cases hc : m.channels.get? id with
  | none => exact step_ignored h (.inl hc)
  | some c =>
    cases kind : Channel.Role.ofKind? p.kind with
    | none =>
      simp only [kind]
      exact step_ignored h (.inr kind)
    | some role =>
      simp only [kind]
      split
      case isTrue turn =>
        have wait := c.wait_eq role { p with pc := m.cpuPc - 2 } m.ready
        simp only [wait]
        refine (Step.channel h.runs rfl hc (.wait
          (q := { p with pc := m.cpuPc - 2, state := .blocked }) kind turn rfl)).congr ?_
        rw [scene_of_idle p₀ rfl, ← m.queued_enqueueAll]
        rfl
      case isFalse turn =>
        apply (Step.channel h.runs rfl hc (.turn kind (Bool.eq_false_iff.2 turn))).congr
        have scene := scene_of_waking m p₀ p arrived dropped (c.waiting role.other).head?.toList
          m.locks (m.channels.set id (c.taking p.pid role))
        cases role with
        | producer =>
          have produced := c.produce_eq p.pid m.ready
          simp only [produced]
          exact scene.symm
        | consumer =>
          have consumed := c.consume_eq p.pid m.ready
          simp only [consumed]
          exact scene.symm

/-! ## All traps -/

theorem step_handleTrap {t : Trap} (h : Stepped m p₀ p (some t)) :
    Step (before m p₀ arrived dropped)
      (⟨(m.handleTrap t).2, arrived, dropped⟩ : Ledger σ).scene := by
  let m' := m.measure fun c => { c with traps := c.traps.increment t.label }
  have h' : Stepped m' p₀ p (some t) := ⟨h.running, h.advances, h.trap⟩
  show Step (before m' p₀ arrived dropped) _
  cases t with
  | io device => exact step_startIo h'
  | lock id => exact step_lock h'
  | unlock id => exact step_unlock (.inl rfl) h'
  | tryLock id => exact step_tryLock h'
  | tryUnlock id => exact step_unlock (.inr rfl) h'
  | rendezvousAcquire id => exact step_enterChannel h'
  | rendezvousBody id => exact step_rendezvous h'
  | rendezvousRelease id => exact step_leaveChannel h'

end Scene
end Mlfq
