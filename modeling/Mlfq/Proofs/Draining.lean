import Mlfq.Proofs.Run.Arithmetic
import Mlfq.Proofs.Run.Source
import Mlfq.Proofs.Scene.Places
import Mlfq.Proofs.Workload.Supply
import Mlfq.Simulation

/-! # Devices drain while the CPU stands still

An interrupt runs the dispatcher, which can ask for new processes, queue the running process again,
run another one and drop the ended ones. But only a cycle of the CPU lets a process make a request.
So without cycles a device loses the first of its requests with each of its interrupts, whatever
interrupts the others, until it has none. -/

namespace Mlfq

open Queue (cores)

variable {σ : Type}

/-! ## Answers -/

namespace Workload

variable [Workload σ] {w : σ}

/-- From this state on every request for a batch is answered. -/
def Answers (w : σ) : Prop :=
  ∃ keeps : σ → Prop, keeps w ∧ ∀ w, keeps w → ∀ pids census, ∃ batch,
    Workload.batch w pids census = .ok batch ∧ keeps batch.rest

theorem Supplies.answers {limit : Nat} (h : Supplies limit w) : Answers w := by
  obtain ⟨keeps, start, answers⟩ := h
  refine ⟨keeps, start, fun w good pids census => ?_⟩
  obtain ⟨batch, answer, -, still⟩ := answers w good pids census
  exact ⟨batch, answer, still⟩

namespace Answers

theorem exists_batch (h : Answers w) (pids : PidAllocator) (census : Census) :
    ∃ batch, Workload.batch w pids census = .ok batch ∧ Answers batch.rest := by
  obtain ⟨keeps, start, answers⟩ := h
  obtain ⟨batch, answer, still⟩ := answers w start pids census
  exact ⟨batch, answer, keeps, still, answers⟩

/-- After an answer the later ones are to come. -/
theorem rest (h : Answers w) {pids : PidAllocator} {census : Census} {batch : Batch σ}
    (answer : Workload.batch w pids census = .ok batch) : Answers batch.rest := by
  obtain ⟨batch', answer', still⟩ := h.exists_batch pids census
  obtain rfl : batch' = batch := Except.ok.inj (answer'.symm.trans answer)
  exact still

end Answers
end Workload

/-- The record with which a process goes on when its request is finished. -/
def Proc.resumed (p : Proc) : Proc := { p with pc := p.pc + 1 }

/-- Whether a call is an interrupt of device `d`. -/
def Command.finishes (d : DeviceId) : Command → Bool
  | .ioInterrupt device _ => device = d
  | _ => false

namespace Machine

variable {m m' m'' : Machine σ}

/-! ## Dispatcher runs -/

/-- The processes that are ready or running. -/
def onward (m : Machine σ) : Multiset Proc := cores m.ready.toList + cores m.onCpu

/-- The devices are the same, and who was ready or running is so still. -/
structure Settles (m m' : Machine σ) : Prop where
  devices : m'.devices = m.devices
  onward : m.onward ≤ m'.onward

namespace Settles

theorem refl (m : Machine σ) : m.Settles m := ⟨rfl, le_rfl⟩

theorem trans (h : m.Settles m') (h' : m'.Settles m'') : m.Settles m'' :=
  ⟨h'.devices.trans h.devices, h.onward.trans h'.onward⟩

theorem of_eq (devices : m'.devices = m.devices) (onward : m'.onward = m.onward) : m.Settles m' :=
  ⟨devices, onward.ge⟩

theorem foldl {α : Type} {f : Machine σ → α → Machine σ}
    (each : ∀ (m : Machine σ) a, m.Settles (f m a)) (as : List α) (m : Machine σ) :
    m.Settles (as.foldl f m) := by
  induction as generalizing m with
  | nil => exact .refl m
  | cons a as ih => exact (each m a).trans (ih (f m a))

/-- What is done again and again settles if it does so once. The machine can be a part of what is
computed. -/
theorem foldlM {α β : Type} (machine : α → Machine σ) {f : α → β → Except Crash α} {bs : List β}
    (each : ∀ {a b a'}, f a b = .ok a' → (machine a).Settles (machine a')) {a a' : α}
    (h : bs.foldlM f a = .ok a') : (machine a).Settles (machine a') := by
  induction bs generalizing a with
  | nil =>
    cases h
    exact .refl _
  | cons b bs ih =>
    obtain ⟨a₁, one, h⟩ := exists_of_bind_eq_ok h
    exact (each one).trans (ih h)

end Settles

/-- What shows no difference in a scene makes none for those who are ready or running, if nobody is
admitted meanwhile. -/
theorem onward_eq_of_scene (newcomers : m'.newcomers = m.newcomers)
    (same : (⟨m', [], []⟩ : Ledger σ).scene = (⟨m, [], []⟩ : Ledger σ).scene) :
    m'.onward = m.onward := by
  have free := congrArg Scene.free same
  simp only [Ledger.scene, newcomers, add_assoc] at free
  exact add_left_cancel free

theorem settles_raiseTimer (m : Machine σ) : m.Settles m.raiseTimer :=
  .of_eq rfl (onward_eq_of_scene rfl (Scene.scene_raiseTimer m [] []))

theorem settles_receive (m : Machine σ) (a : Arrival) : m.Settles (m.receive a) := by
  obtain ⟨census, newcomers, locks, pairs, channels, nextChannel, journal, one⟩ :=
    m.exists_of_receive a
  rw [one]
  exact .of_eq rfl rfl

theorem settles_admitNewcomers (m : Machine σ) : m.Settles m.admitNewcomers := by
  refine ⟨rfl, ?_⟩
  rw [onward, admitNewcomers, onward, ReadyQueue.cores_toList_enqueueAll, add_assoc]
  exact Multiset.le_add_left _ _

theorem settles_preempt (m : Machine σ) : m.Settles m.preempt := by
  obtain ⟨running, ready, quantumExpiries, journal, preempt⟩ := m.exists_of_preempt
  have same := Scene.scene_preempt m [] []
  rw [preempt] at same ⊢
  exact .of_eq rfl (onward_eq_of_scene rfl same)

theorem settles_dispatch (idle : m.running = none) : m.Settles m.dispatch := by
  obtain ⟨running, cpuPc, ready, sinceScan, dispatches, journal, dispatch⟩ := m.exists_of_dispatch
  have same := Scene.scene_dispatch idle [] []
  rw [dispatch] at same ⊢
  exact .of_eq rfl (onward_eq_of_scene rfl same)

theorem settles_dropLock (m : Machine σ) (id : LockId) : m.Settles (m.dropLock id) := by
  unfold dropLock
  cases m.locks.get? id with
  | none => exact .refl m
  | some l =>
    refine ⟨rfl, ?_⟩
    rw [onward, onward, ReadyQueue.cores_toList_enqueueAll, add_assoc]
    exact Multiset.le_add_left _ _

theorem settles_retireFromPair (m : Machine σ) (pid : Pid) : m.Settles (m.retireFromPair pid) := by
  unfold retireFromPair
  rcases MutexPairs.retire pid m.pairs.pairs with ⟨- | ⟨a, b⟩, pairs⟩
  · exact .of_eq rfl rfl
  · have unpaired : m.Settles { m with pairs := ⟨pairs⟩ } := .of_eq rfl rfl
    exact unpaired.trans ((settles_dropLock _ a).trans (settles_dropLock _ b))

theorem settles_retireFromChannel (m : Machine σ) (p : Proc) :
    m.Settles (m.retireFromChannel p) := by
  unfold retireFromChannel
  split
  · exact .refl m
  · split
    · exact .refl m
    · dsimp only
      split <;> exact .of_eq rfl rfl

theorem settles_reap (m : Machine σ) : m.Settles m.reap := by
  have one : ∀ (m : Machine σ) p, m.Settles (m.reapOne p) := fun m p =>
    (settles_retireFromPair m p.pid).trans (settles_retireFromChannel _ p)
  have reaped := Settles.foldl one m.zombies { m with zombies := [] }
  exact ⟨reaped.devices, reaped.onward⟩

section

variable [Workload σ]

theorem settles_resetPriorities (h : m.resetPriorities = .ok m') : m.Settles m' := by
  let raised : Machine σ := { m with
    ready := m.ready.resetPriorities
    running := m.running.map fun (p : Proc) => { p with priority := .highest }
    sinceReset := 0 }
  have priorities : m.Settles raised :=
    .of_eq rfl (onward_eq_of_scene rfl (Scene.scene_raisePriorities m [] []))
  obtain ⟨⟨n, m₁⟩, request, h⟩ := exists_of_bind_eq_ok h
  obtain ⟨batch, -, request⟩ := exists_of_bind_eq_ok request
  cases request
  cases h
  have received := Settles.foldl settles_receive batch.arrivals
    { raised with workload := batch.rest, pids := batch.pids }
  exact priorities.trans ⟨received.devices, received.onward⟩

theorem settles_phase {cause : Cause} {phase : Phase} (h : m.phase cause phase = .ok m') :
    m.Settles m' := by
  cases phase with
  | priorityReset =>
    simp only [Machine.phase] at h
    split at h
    · exact settles_resetPriorities h
    · cases h
      exact .refl m
  | admission =>
    cases h
    exact settles_admitNewcomers m
  | preemption =>
    cases h
    split
    · exact settles_preempt m
    · exact .refl m
  | dispatching =>
    cases h
    split
    case isTrue idle => exact settles_dispatch (Option.isNone_iff_eq_none.1 idle)
    case isFalse => exact .refl m
  | reaping =>
    cases h
    split
    · exact settles_reap m
    · exact .refl m

theorem settles_timerInterrupt (h : m.timerInterrupt = .ok m') : m.Settles m' :=
  m.settles_raiseTimer.trans (.foldlM id settles_phase h)

theorem settles_timerInterrupts {n : Nat} (h : timerInterrupts n m = .ok m') : m.Settles m' := by
  induction n generalizing m with
  | zero =>
    cases h
    exact .refl _
  | succ n ih =>
    obtain ⟨m₁, one, h⟩ := exists_of_bind_eq_ok h
    exact (settles_timerInterrupt one).trans (ih h)

theorem settles_completionPhases {rest : List Phase} {timers : List Nat}
    (h : completionPhases rest timers m = .ok m') : m.Settles m' := by
  induction rest generalizing m timers with
  | nil =>
    cases h
    exact .refl _
  | cons phase rest ih =>
    obtain ⟨m₁, interrupts, h⟩ := exists_of_bind_eq_ok h
    obtain ⟨m₂, done, h⟩ := exists_of_bind_eq_ok h
    exact (settles_timerInterrupts interrupts).trans ((settles_phase done).trans (ih h))

/-- A dispatcher run settles if no I/O interrupt is delivered at its checkpoints. -/
theorem settles_schedule {cause : Cause} (io : cause.yieldsToIo = false) {e e' : Episode σ}
    (h : e.schedule cause = .ok e') : e.machine.Settles e'.machine := by
  -- A timer interrupt settles, and an I/O interrupt has to wait until the run is over.
  have deliver : ∀ {e e' : Episode σ} {i : Interrupt}, e.deliver cause i = .ok e' →
      e.machine.Settles e'.machine := by
    intro e e' i h
    cases i with
    | timer =>
      simp only [Episode.deliver] at h
      split at h
      · obtain ⟨m, interrupt, h⟩ := exists_of_bind_eq_ok h
        cases h
        exact settles_timerInterrupt interrupt
      · cases h
        exact .refl _
    | io device timers =>
      simp only [Episode.deliver, io] at h
      cases h
      exact .refl _
  refine .foldlM Episode.machine (fun {e phase e'} h => ?_) h
  obtain ⟨e₁, checkpoint, h⟩ := exists_of_bind_eq_ok h
  obtain ⟨m, done, h⟩ := exists_of_bind_eq_ok h
  cases h
  have delivered := Settles.foldlM Episode.machine deliver checkpoint
  exact delivered.trans (settles_phase done)

end

/-! ## Requests -/

/-- From the first machine to the second each device finishes so many requests, as far as it has
them, and takes none. Who made them is ready or running afterwards, and so is who was before. -/
structure Drains (m : Machine σ) (finished : DeviceId → Nat) (m' : Machine σ) : Prop where
  queue : ∀ d, m'.recordsAt (.device d) = (m.recordsAt (.device d)).drop (finished d)
  resumed : ∀ d, ∀ p ∈ (m.recordsAt (.device d)).take (finished d), p.resumed.core ∈ m'.onward
  onward : m.onward ≤ m'.onward

theorem Settles.drains (h : m.Settles m') : m.Drains (fun _ => 0) m' :=
  ⟨fun d => by rw [recordsAt, h.devices]; rfl, nofun, h.onward⟩

namespace Drains

variable {f g : DeviceId → Nat}

theorem trans (h : m.Drains f m') (h' : m'.Drains g m'') :
    m.Drains (fun d => f d + g d) m'' where
  queue d := by rw [h'.queue, h.queue, List.drop_drop]
  resumed d p hp := by
    -- What is finished later was behind what is finished first.
    rw [List.take_add, List.mem_append, ← h.queue] at hp
    rcases hp with first | later
    · exact Multiset.mem_of_le h'.onward (h.resumed d p first)
    · exact h'.resumed d p later
  onward := h.onward.trans h'.onward

theorem settles (h : m.Drains f m') (h' : m'.Settles m'') : m.Drains f m'' :=
  h.trans h'.drains

/-- A device that has no requests finishes as many as one likes. -/
theorem congr (h : m.Drains f m')
    (same : ∀ d, m.recordsAt (.device d) = [] ∨ f d = g d) : m.Drains g m' := by
  have first : ∀ d, (m.recordsAt (.device d)).drop (f d) = (m.recordsAt (.device d)).drop (g d) ∧
      (m.recordsAt (.device d)).take (f d) = (m.recordsAt (.device d)).take (g d) := by
    intro d
    rcases same d with none | same
    · simp only [none, List.drop_nil, List.take_nil, and_self]
    · rw [same]
      exact ⟨rfl, rfl⟩
  refine ⟨fun d => (h.queue d).trans (first d).1, fun d p hp => h.resumed d p ?_, h.onward⟩
  rwa [(first d).2]

end Drains

/-- The request at the head of a device is finished, and no other. -/
theorem drains_completeIo {device : DeviceId} (h : m.completeIo device = .ok (some m')) :
    m.Drains (fun d => if device = d then 1 else 0) m' := by
  obtain ⟨old, p, rest, countdown, gen, found, first, eq⟩ := exists_of_completeIo h
  have set : m'.devices = m.devices.set device.num { queue := rest, countdown } := by rw [eq]; rfl
  have own : m.recordsAt (.device device) = p :: rest := by rw [recordsAt, found, ← first]; rfl
  have onward : m'.onward = p.resumed.core ::ₘ m.onward := by
    have ready := ReadyQueue.cores_toList_enqueue m.ready p.resumed
    rw [eq, Machine.onward, Machine.onward, ← Multiset.cons_add, ← ready]
    rfl
  constructor
  case queue =>
    intro d
    rw [recordsAt_of_set_device set (List.getElem?_eq_some_iff.1 found).1]
    split
    case isTrue same => rw [← same, own, List.drop_one, List.tail_cons]
    case isFalse => rw [List.drop_zero]
  case resumed =>
    intro d q hq
    split at hq
    case isTrue same =>
      rw [← same, own] at hq
      rw [List.mem_singleton.1 hq, onward]
      exact Multiset.mem_cons_self _ _
    case isFalse => cases hq
  case onward =>
    rw [onward]
    exact Multiset.le_cons_self _ _

/-- A device that has nothing to finish has no requests. -/
theorem no_request_of_completeIo {d : DeviceId} (h : m.completeIo d = .ok none) :
    m.recordsAt (.device d) = [] := by
  unfold completeIo at h
  cases found : m.devices[d.num]? with
  | none => rw [recordsAt, found]; rfl
  | some device =>
    cases queue : device.queue with
    | nil => rw [recordsAt, found]; exact queue
    | cons p rest =>
      simp only [found, queue, Queue.dequeue] at h
      obtain ⟨pc, -, h⟩ := exists_of_bind_eq_ok h
      cases h

/-- An interrupt of a device finishes its first request if it has one, and a dispatcher run after
that finishes no other. -/
theorem drains_of_completion {device : DeviceId} {done : Option (Machine σ)}
    (completion : m.completeIo device = .ok done) (after : (done.getD m).Settles m') :
    m.Drains (fun d => if device = d then 1 else 0) m' := by
  cases done with
  | some m₁ => exact (drains_completeIo completion).settles after
  | none =>
    refine after.drains.congr fun d => ?_
    by_cases same : device = d
    · exact .inl (same ▸ no_request_of_completeIo completion)
    · exact .inr (if_neg same).symm

section

variable [Workload σ]

/-- An interrupt drains its own device by one request, whatever timer interrupts arrive at the
checkpoints. -/
theorem drains_perform {c : Command} (interrupt : c.isInterrupt = true)
    (h : m.perform c = .ok m') : m.Drains (fun d => if c.finishes d then 1 else 0) m' := by
  cases c with
  | boot | request | tick | schedule => cases interrupt
  | timerInterrupt upcoming =>
    obtain ⟨e, run, h⟩ := exists_of_bind_eq_ok h
    cases h
    exact (m.settles_raiseTimer.trans (settles_schedule rfl run)).drains
  | ioInterrupt device upcoming =>
    obtain ⟨e, run, h⟩ := exists_of_bind_eq_ok h
    cases h
    obtain ⟨done, completion, run⟩ := exists_of_bind_eq_ok run
    have after : (done.getD m).Settles e.machine := by
      cases done with
      | none =>
        cases run
        exact .refl m
      | some m₁ => exact settles_schedule (e := ⟨m₁, upcoming, []⟩) rfl run
    simpa only [Command.finishes, decide_eq_true_eq] using drains_of_completion completion after

/-- Interrupts drain each device by as many requests as there are interrupts of it. -/
theorem drains_performAll {cs : List Command} (interrupts : ∀ c ∈ cs, c.isInterrupt = true)
    (h : m.performAll cs = .ok m') : m.Drains (fun d => cs.countP (·.finishes d)) m' := by
  induction cs generalizing m with
  | nil =>
    cases h
    exact (Settles.refl _).drains
  | cons c cs ih =>
    obtain ⟨interrupt, interrupts⟩ := List.forall_mem_cons.1 interrupts
    obtain ⟨m₁, one, h⟩ := exists_of_bind_eq_ok h
    refine ((drains_perform interrupt one).trans (ih interrupts h)).congr fun d => .inr ?_
    rw [List.countP_cons, Nat.add_comm]

/-! ## Faults -/

/-- Every process that waits at a device has a next point, and every request for a batch is
answered. -/
structure CanFinish (m : Machine σ) : Prop where
  next : ∀ d, ∀ p ∈ m.recordsAt (.device d), p.pc < Word.max
  answers : Workload.Answers m.workload

namespace CanFinish

theorem completeIo (good : m.CanFinish) (device : DeviceId) :
    Succeeds (∀ m' ∈ ·, CanFinish m') (m.completeIo device) := by
  have next : ∀ d, m.devices[device.num]? = some d → ∀ p ∈ d.queue, p.pc < Word.max := by
    intro d found p hp
    refine good.next device p ?_
    rw [recordsAt, found]
    exact hp
  obtain ⟨done, completion⟩ := exists_completeIo next
  refine ⟨done, completion, fun m' hm' => ?_⟩
  obtain rfl : done = some m' := hm'
  obtain ⟨workload, -⟩ := of_backdrop (backdrop_completeIo completion)
  refine ⟨fun d p hp => ?_, workload ▸ good.answers⟩
  rw [(drains_completeIo completion).queue] at hp
  exact good.next d p (List.mem_of_mem_drop hp)

theorem phase (good : m.CanFinish) (cause : Cause) (phase : Phase) :
    Succeeds CanFinish (m.phase cause phase) := by
  obtain ⟨batch, answer, -⟩ := good.answers.exists_batch m.pids m.census
  obtain ⟨m', done⟩ := exists_phase ⟨batch, answer⟩ cause phase
  have answers : Workload.Answers m'.workload := by
    have shift : Ledger.Shift ⟨m, [], []⟩ _ := Moment.shift_of_phase done
    cases shift with
    | keep backdrop | ending p backdrop | drop backdrop =>
      obtain ⟨workload, -⟩ := of_backdrop backdrop
      exact workload ▸ good.answers
    | come batch answer backdrop =>
      obtain ⟨workload, -⟩ := of_backdrop backdrop
      exact workload ▸ good.answers.rest answer
  refine ⟨m', done, fun d p hp => good.next d p ?_, answers⟩
  rwa [recordsAt, (settles_phase done).devices] at hp

end CanFinish

/-- Machines whose devices can finish get through interrupts. -/
theorem carries_canFinish : Carries (CanFinish (σ := σ)) where
  timer good := ⟨good.next, good.answers⟩
  completion device good := good.completeIo device
  phase cause phase good := good.phase cause phase

/-! ## Interrupts -/

/-- Calls made first and calls made then are made one after the other. -/
theorem exists_of_performAll_append {before after : List Command}
    (h : m.performAll (before ++ after) = .ok m') :
    ∃ m₁, m.performAll before = .ok m₁ ∧ m₁.performAll after = .ok m' := by
  induction before generalizing m with
  | nil => exact ⟨m, rfl, h⟩
  | cons c before ih =>
    obtain ⟨m₁, one, h⟩ := exists_of_bind_eq_ok h
    obtain ⟨m₂, done, h⟩ := ih h
    exact ⟨m₂, by rw [performAll, one]; exact done, h⟩

/-- What calls that are interrupts make of the queues of the devices. -/
structure Drained (m : Machine σ) (cs : List Command) (m' : Machine σ) : Prop where
  /-- Each call takes the first of the requests of its own device, and changes no other queue. -/
  each : ∀ before c after, cs = before ++ c :: after → ∃ m₁ m₂,
    m.performAll before = .ok m₁ ∧ m₁.perform c = .ok m₂ ∧ ∀ d,
      m₂.recordsAt (.device d) =
        if c.finishes d then (m₁.recordsAt (.device d)).tail else m₁.recordsAt (.device d)
  queue : ∀ d, m'.recordsAt (.device d) =
    (m.recordsAt (.device d)).drop (cs.countP (·.finishes d))
  /-- As many interrupts as there were requests are enough. -/
  idle : ∀ d, List.length (m.recordsAt (.device d)) ≤ cs.countP (·.finishes d) →
    m'.recordsAt (.device d) = []
  /-- Who made a request that was finished is ready or running, at the point after it. -/
  resumed : ∀ d, ∀ p ∈ (m.recordsAt (.device d)).take (cs.countP (·.finishes d)),
    ∃ q ∈ m'.ready.toList ++ m'.onCpu, q.core = ({ p with pc := p.pc + 1 } : Proc).core

theorem drained {cs : List Command} (interrupts : ∀ c ∈ cs, c.isInterrupt = true)
    (h : m.performAll cs = .ok m') : m.Drained cs m' := by
  have all := drains_performAll interrupts h
  constructor
  case each =>
    rintro before c after rfl
    obtain ⟨m₁, first, h⟩ := exists_of_performAll_append h
    obtain ⟨m₂, one, -⟩ := exists_of_bind_eq_ok h
    refine ⟨m₁, m₂, first, one, fun d => ?_⟩
    rw [(drains_perform (interrupts c (by simp)) one).queue]
    split
    · exact List.drop_one
    · rfl
  case queue => exact all.queue
  case idle => exact fun d enough => (all.queue d).trans (List.drop_eq_nil_of_le enough)
  case resumed =>
    intro d p hp
    have goes := all.resumed d p hp
    rwa [onward, ← Queue.cores_append, Queue.mem_cores] at goes

end

end Machine

/-! ## The end of a simulation -/

namespace Simulation

variable [Workload σ] {m m' : Machine σ}

theorem drains_completions {device : DeviceId} {n : Nat} (h : completions device n m = .ok m') :
    m.Drains (fun d => if device = d then n else 0) m' := by
  induction n generalizing m with
  | zero =>
    cases h
    exact (Machine.Settles.refl _).drains.congr fun d => .inr (ite_self 0).symm
  | succ n ih =>
    obtain ⟨m₁, interrupt, h⟩ := exists_of_bind_eq_ok h
    obtain ⟨done, completion, interrupt⟩ := exists_of_bind_eq_ok interrupt
    have after : (done.getD m).Settles m₁ := by
      cases done with
      | none =>
        cases interrupt
        exact .refl m
      | some m₂ => exact Machine.settles_completionPhases interrupt
    refine ((Machine.drains_of_completion completion after).trans (ih h)).congr fun d => .inr ?_
    split
    · exact Nat.add_comm 1 n
    · rfl

/-- When some devices have drained, these have no requests, nor do those that had none. -/
theorem idle_of_foldlM_drain {is : List Nat} (h : is.foldlM drain m = .ok m') {d : DeviceId}
    (idle : m.recordsAt (.device d) = [] ∨ d.num ∈ is) : m'.recordsAt (.device d) = [] := by
  induction is generalizing m with
  | nil =>
    cases h
    exact idle.resolve_right List.not_mem_nil
  | cons i is ih =>
    obtain ⟨m₁, first, h⟩ := exists_of_bind_eq_ok h
    have queue := (drains_completions first).queue d
    refine ih h ?_
    rcases idle with none | here
    · exact .inl (by rw [queue, none, List.drop_nil])
    · rcases List.mem_cons.1 here with rfl | later
      · refine .inl (queue.trans ?_)
        rw [if_pos rfl]
        refine List.drop_eq_nil_of_le ?_
        rw [Machine.recordsAt]
        cases m.devices[d.num]? <;> rfl
      · exact .inr later

/-- A simulation ends with no request left at any device. -/
theorem idle_of_runMachine {shutdown : Bool} {s : Simulation σ}
    (h : runMachine m shutdown = .ok s) (d : DeviceId) : s.machine.recordsAt (.device d) = [] := by
  obtain ⟨m₁, -, h⟩ := exists_of_bind_eq_ok h
  obtain ⟨last, h⟩ : ∃ last : Machine σ, (do
      let m ← (List.range last.devices.length).foldlM drain { last with executing := false }
      return { machine := m, interrupted := shutdown && last.executing }) = Except.ok s := by
    cases shutdown with
    | true => exact ⟨m₁, h⟩
    | false =>
      obtain ⟨last, -, h⟩ := exists_of_bind_eq_ok h
      exact ⟨last, h⟩
  obtain ⟨m₂, drained, h⟩ := exists_of_bind_eq_ok h
  cases h
  refine idle_of_foldlM_drain drained ?_
  by_cases there : d.num < last.devices.length
  · exact .inr (List.mem_range.2 there)
  · left
    rw [Machine.recordsAt, List.getElem?_eq_none (Nat.not_lt.1 there)]
    rfl

end Simulation

/-- Without cycles of the CPU the devices drain: from any machine on, an interrupt of a device takes
the first of its requests, if there is one, and nothing else changes a queue, whatever interrupts
the others and whatever timer interrupts arrive at the checkpoints. So a device has no requests
after as many interrupts as it had requests, and all processes that made them go on. No interrupt
faults if every one of these processes has a next point and requests for batches are answered. -/
theorem drained_of_interrupts [Workload σ] {m : Machine σ} {cs : List Command}
    (interrupts : ∀ c ∈ cs, c.isInterrupt = true) :
    (∀ m', m.performAll cs = .ok m' → m.Drained cs m') ∧
      (m.CanFinish → ∃ m', m.performAll cs = .ok m') := by
  refine ⟨fun m' done => Machine.drained interrupts done, fun good => ?_⟩
  obtain ⟨m', done, -⟩ := Machine.carries_canFinish.performAll interrupts good
  exact ⟨m', done⟩

/-- Three processes that make requests of two devices and one that makes none, and after the first
priority reset another one that makes requests. -/
def ScriptedWorkload.waiting : ScriptedWorkload :=
  ⟨[[.io 9 0 [[1]], .io 9 0 [[1]], .io 9 0 [[], [1]], .compute 9 0], [.io 9 0 [[1]]]]⟩

/-- Interrupts of two devices, with timer interrupts between them and at checkpoints. -/
def Command.finishing : List Command :=
  [.ioInterrupt ⟨0⟩ [[.timer], [], [.timer, .io ⟨1⟩ []]], .timerInterrupt [], .ioInterrupt ⟨0⟩ [],
    .ioInterrupt ⟨1⟩ [[.timer]], .ioInterrupt ⟨0⟩ []]

/-- A run after which two devices drain, while a priority reset brings a process that is run. -/
theorem drained_of_interrupts_waiting : ∃ mo : Moment ScriptedWorkload,
    Moment.Reachable (.start { quantumStep := 0, resetMultiple := 1 } .waiting none) mo ∧
    (mo.ledger.machine.recordsAt (.device ⟨0⟩)).map (·.pid) = [⟨0⟩, ⟨1⟩] ∧
    (mo.ledger.machine.recordsAt (.device ⟨1⟩)).map (·.pid) = [⟨2⟩] ∧
    (∀ c ∈ Command.finishing, c.isInterrupt = true) ∧ mo.ledger.machine.CanFinish ∧
    ∃ m', mo.ledger.machine.performAll Command.finishing = .ok m' ∧
      mo.ledger.machine.Drained Command.finishing m' ∧
      m'.recordsAt (.device ⟨0⟩) = [] ∧ m'.recordsAt (.device ⟨1⟩) = [] := by
  have run : ((Machine.start { quantumStep := 0, resetMultiple := 1 } ScriptedWorkload.waiting
      none).performAll
        (.boot :: List.replicate 5 (.tick []))).toOption.any (fun m =>
      (m.recordsAt (.device ⟨0⟩)).map (·.pid) == [⟨0⟩, ⟨1⟩] &&
        ((m.recordsAt (.device ⟨1⟩)).map (·.pid) == [⟨2⟩] &&
          (m.devices.all (·.queue.all (·.pc < Word.max)) &&
            m.workload.batches.all (·.all (·.maxPc ≤ 9))))) = true := by
    decide +kernel
  obtain ⟨mo, reachable, -, test⟩ := Moment.exists_reachable_of_performAll run
  simp only [Bool.and_eq_true, beq_iff_eq, List.all_eq_true, decide_eq_true_eq] at test
  obtain ⟨first, second, next, small⟩ := test
  have good : mo.ledger.machine.CanFinish := by
    refine ⟨fun d p hp => ?_, (ScriptedWorkload.supplies small).answers⟩
    obtain ⟨device, found, here⟩ := exists_of_mem_getD hp
    exact next device (List.mem_of_getElem? found) p here
  have interrupts : ∀ c ∈ Command.finishing, c.isInterrupt = true := by decide
  obtain ⟨drained, done⟩ := drained_of_interrupts interrupts (m := mo.ledger.machine)
  obtain ⟨m', done⟩ := done good
  refine ⟨mo, reachable, first, second, interrupts, good, m', done, drained m' done, ?_, ?_⟩
  · refine (drained m' done).idle ⟨0⟩ ?_
    rw [← List.length_map (·.pid), first]
    decide
  · refine (drained m' done).idle ⟨1⟩ ?_
    rw [← List.length_map (·.pid), second]
    decide

end Mlfq
