import Mathlib.Tactic.Abel
import Mlfq.Proofs.Scene.Population

/-! # What a step does to the population

A step moves one record at most, unless somebody arrives or is dropped. -/

namespace Mlfq

open Queue (cores)

/-- The record of a process that a lock has served: the process goes on, or it resumes one step back
because another process has the lock. -/
inductive Lock.Resumes (p : Proc) (r : Request) (l l' : Lock) : Proc → Prop
  | on (taken : r = .acquire → l'.holder = some p.pid) : Resumes p r l l' p
  | back (asked : r = .acquire) (kept : l'.holder = l.holder) (other : l.holder ≠ some p.pid) :
    Resumes p r l l' { p with pc := p.pc - 1 }

theorem Lock.Resumes.profile_eq {p q : Proc} {r : Request} {l l' : Lock}
    (h : Resumes p r l l' q) : q.profile = p.profile := by
  cases h <;> rfl

/-- A lock that serves a process loses nobody. -/
theorem Lock.Serves.exists_cons {p : Proc} {r : Request} {l l' : Lock} {out : Multiset Proc}
    (h : Serves p r l l' out) :
    ∃ q, out + cores l'.waiters = q ::ₘ cores l.waiters ∧ Resumes p r l l' q := by
  cases h with
  | take => exact ⟨p, Multiset.singleton_add p _, .on fun _ => rfl⟩
  | fail => exact ⟨p, Multiset.singleton_add p _, .on nofun⟩
  | park held other core =>
    refine ⟨{ p with pc := p.pc - 1 }, ?_, .back rfl rfl fun own => other ?_⟩
    · rw [Queue.cores_enqueue, core, zero_add]
    · exact Option.some.inj (held.symm.trans own)
  | release =>
    refine ⟨p, ?_, .on nofun⟩
    rw [Multiset.cons_add, ← Queue.cores_append, ← Queue.cores_of_perm List.perm_append_comm,
      waiters_freed_append]

namespace Channel

theorem waiters_signalled (c : Channel) (pid : Pid) (q : Queue) :
    (c.signalled pid q).waiters = c.lock.waiters := by
  cases q with
  | nil => rfl
  | cons =>
    simp only [signalled, Lock.tryAcquire]
    cases c.lock.holder <;> rfl

@[simp] theorem parked_retire (c : Channel) (pid : Pid) : (c.retire pid).parked = c.parked := by
  unfold retire
  split
  · rfl
  · split <;> rfl

/-- A channel loses nobody when its lock serves a process. -/
theorem cores_parked_lock {c : Channel} {l : Lock} {q : Proc} {out : Multiset Proc}
    (balanced : out + cores l.waiters = q ::ₘ cores c.lock.waiters) :
    out + cores { c with lock := l }.parked = q ::ₘ cores c.parked := by
  simp only [parked, Queue.cores_append]
  rw [← add_assoc, balanced, Multiset.cons_add]

/-- A channel loses nobody when a side is parked. -/
theorem cores_parked_parking (c : Channel) (q : Proc) (role : Role) :
    cores c.lock.woken + cores (c.parking q role).parked = q.core ::ₘ cores c.parked := by
  have woken := congrArg cores c.lock.waiters_freed_append
  rw [Queue.cores_append] at woken
  cases role <;> simp only [parked, parking, Queue.cores_append, Queue.cores_enqueue,
    ← woken, ← Multiset.singleton_add] <;> abel

/-- A channel loses nobody when a side takes its turn. -/
theorem cores_parked_taking (c : Channel) (p : Proc) (role : Role) :
    p ::ₘ cores (c.waiting role.other).head?.toList + cores (c.taking p.pid role).parked =
      p ::ₘ cores c.parked := by
  have woken := Queue.cores_head?_add_tail (c.waiting role.other)
  cases role <;> simp only [parked, taking, waiting, Role.other, waiters_signalled,
    Queue.cores_append, ← Multiset.singleton_add] at woken ⊢ <;> rw [← woken] <;> abel

/-- A channel that serves a process loses nobody. -/
theorem Serves.exists_cons {p : Proc} {t : Trap} {c c' : Channel} {out : Multiset Proc}
    (h : Serves p t c c' out) :
    ∃ q, out + cores c'.parked = q ::ₘ cores c.parked ∧ q.profile = p.profile := by
  cases h with
  | lock request h =>
    obtain ⟨q, balanced, resumes⟩ := h.exists_cons
    exact ⟨q, cores_parked_lock balanced, resumes.profile_eq⟩
  | @wait id c role q kind turn core =>
    exact ⟨{ p with pc := p.pc - 2 }, core ▸ c.cores_parked_parking q role, rfl⟩
  | @turn id c role kind turn => exact ⟨p, c.cores_parked_taking p role, rfl⟩

end Channel

namespace Scene

/-- Everything parked on a device, a lock of the table or a channel. -/
def parked (s : Scene) : Multiset Proc :=
  cores s.devices.flatten + cores (s.locks.toList.flatMap (·.waiters)) +
    cores (s.channels.values.flatMap Channel.parked)

/-- All records that are somewhere. -/
def population (s : Scene) : Multiset Proc := s.free + s.parked + cores s.zombies

/-- The records with which an arrival would enter now. -/
def enrolled (s : Scene) : Arrival → Queue
  | .rendezvousPair producer consumer =>
    [producer.bindChannel ⟨s.nextChannel⟩, consumer.bindChannel ⟨s.nextChannel⟩]
  | a => a.procs

variable {s s' : Scene}

/-! ## A queue that changes -/

section Around

/-- The population around a device whose queue is replaced. -/
theorem exists_population_set_device {i : Nat} {q : Queue} (found : s.devices[i]? = some q) :
    ∃ rest, s.population = s.free + cores q + rest ∧
      ∀ q' free, { s with free, devices := s.devices.set i q' }.population =
        free + cores q' + rest := by
  obtain ⟨others, hq, hset⟩ := exists_cores_flatten_set found
  refine ⟨others + cores (s.locks.toList.flatMap (·.waiters)) +
    cores (s.channels.values.flatMap Channel.parked) + cores s.zombies, ?_, fun q' free => ?_⟩
  · rw [population, parked, hq]
    abel
  · simp only [population, parked, hset]
    abel

/-- The population around a lock of the table that is replaced. -/
theorem exists_population_set_lock (tidy : s.Tidy) {id : LockId} {l : Lock}
    (found : s.locks.get? id = some l) :
    ∃ rest, s.population = s.free + cores l.waiters + rest ∧
      ∀ l' free, l'.id = id → { s with free, locks := s.locks.set l' }.population =
        free + cores l'.waiters + rest := by
  obtain ⟨others, hl, hset, -⟩ :=
    Registry.exists_cores_values tidy.locks.nodup found (·.waiters)
  refine ⟨cores s.devices.flatten + others + cores (s.channels.values.flatMap Channel.parked) +
    cores s.zombies, ?_, fun l' free own => ?_⟩
  · rw [population, parked, LockTable.toList, hl]
    abel
  · simp only [population, parked, LockTable.toList, LockTable.set, own, hset]
    abel

/-- The population around a channel that is replaced. -/
theorem exists_population_set_channel (tidy : s.Tidy) {id : ChannelId} {c : Channel}
    (found : s.channels.get? id = some c) :
    ∃ rest, s.population = s.free + cores c.parked + rest ∧
      ∀ c' free, { s with free, channels := s.channels.set id c' }.population =
        free + cores c'.parked + rest := by
  obtain ⟨others, hc, hset, -⟩ := Registry.exists_cores_values tidy.channels found Channel.parked
  refine ⟨cores s.devices.flatten + cores (s.locks.toList.flatMap (·.waiters)) + others +
    cores s.zombies, ?_, fun c' free => ?_⟩
  · rw [population, parked, hc]
    abel
  · simp only [population, parked, hset]
    abel

theorem population_dropLock (h : s.locks.Tidy) (id : LockId) :
    (s.dropLock id).population = s.population := by
  unfold dropLock
  cases found : s.locks.get? id with
  | none => rfl
  | some l =>
    obtain ⟨rest, hwaiters, -, herase⟩ :=
      Registry.exists_cores_values h.nodup found (·.waiters)
    simp only [population, parked, LockTable.toList, LockTable.erase, hwaiters, herase]
    abel

/-- With a mutex pair its locks go, but nobody who is parked on them. -/
theorem population_dissolve (tidy : s.Tidy) (pairs : MutexPairs) (a b : LockId) :
    (({ s with pairs }.dropLock a).dropLock b).population = s.population := by
  have locks : ({ s with pairs }.dropLock a).locks.Tidy :=
    Tidy.locks_dropLock (s := { s with pairs }) tidy.locks a
  rw [population_dropLock locks, population_dropLock (s := { s with pairs }) tidy.locks]
  rfl

end Around

/-! ## A record that moves -/

section Moving

variable {p p' : Proc} {rest : Multiset Proc} {t : Option Trap}

theorem Runs.population_eq (runs : s.Runs p p' rest t) :
    s.population = p ::ₘ (rest + s.parked + cores s.zombies) := by
  rw [population, runs.running, Multiset.cons_add, Multiset.cons_add]

/-- A record that has not moved was there before. -/
theorem mem_or_eq_of_move {s' : Scene} {q w : Proc} {others : Multiset Proc}
    (before : s.population = p ::ₘ others) (after : s'.population = q ::ₘ others)
    (hw : w ∈ s'.population) : w = q ∨ w ∈ others ∧ w ∈ s.population := by
  rw [after, Multiset.mem_cons] at hw
  exact hw.imp_right fun here => ⟨here, before ▸ Multiset.mem_cons_of_mem here⟩

theorem exists_population_goOn (runs : s.Runs p p' rest t) : ∃ others,
    s.population = p ::ₘ others ∧ { s with free := p' ::ₘ rest }.population = p' ::ₘ others := by
  refine ⟨_, runs.population_eq, ?_⟩
  rw [population, Multiset.cons_add, Multiset.cons_add]
  rfl

theorem exists_population_request (runs : s.Runs p p' rest t) {d : DeviceId} {q : Queue} {r : Proc}
    (found : s.devices[d.num]? = some q) (core : r.core = p') : ∃ others,
    s.population = p ::ₘ others ∧
    { s with free := rest, devices := s.devices.set d.num (q.enqueue r) }.population =
      p' ::ₘ others := by
  obtain ⟨others, before, after⟩ := exists_population_set_device found
  refine ⟨rest + cores q + others, ?_, ?_⟩
  · rw [before, runs.running, Multiset.cons_add, Multiset.cons_add]
  · rw [after, Queue.cores_enqueue, core, Multiset.add_cons, Multiset.cons_add]

/-- A queue that serves a process, among the others. -/
theorem add_of_served {q : Proc} {queue queue' out others : Multiset Proc}
    (balanced : out + queue' = q ::ₘ queue) :
    out + rest + queue' + others = q ::ₘ (rest + queue + others) := by
  calc out + rest + queue' + others
      = out + queue' + (rest + others) := by abel
    _ = q ::ₘ queue + (rest + others) := by rw [balanced]
    _ = q ::ₘ (queue + (rest + others)) := Multiset.cons_add ..
    _ = q ::ₘ (rest + queue + others) := by rw [add_left_comm, add_assoc]

theorem exists_population_table (tidy : s.Tidy) (runs : s.Runs p p' rest t) {id : LockId}
    {r : Lock.Request} {l l' : Lock} {out : Multiset Proc} (found : s.locks.get? id = some l)
    (serves : Lock.Serves p' r l l' out) : ∃ others q,
    s.population = p ::ₘ others ∧
    { s with free := out + rest, locks := s.locks.set l' }.population = q ::ₘ others ∧
    Lock.Resumes p' r l l' q := by
  obtain ⟨others, before, after⟩ := exists_population_set_lock tidy found
  obtain ⟨q, balanced, resumes⟩ := serves.exists_cons
  refine ⟨rest + cores l.waiters + others, q, ?_, ?_, resumes⟩
  · rw [before, runs.running, Multiset.cons_add, Multiset.cons_add]
  · rw [after l' _ (serves.id_eq.trans (tidy.locks.id_eq _ _ found)), add_of_served balanced]

theorem exists_population_channel (tidy : s.Tidy) (runs : s.Runs p p' rest t) {id : ChannelId}
    {t' : Trap} {c c' : Channel} {out : Multiset Proc} (found : s.channels.get? id = some c)
    (serves : Channel.Serves p' t' c c' out) : ∃ others q,
    s.population = p ::ₘ others ∧
    { s with free := out + rest, channels := s.channels.set id c' }.population = q ::ₘ others ∧
    q.profile = p'.profile := by
  obtain ⟨others, before, after⟩ := exists_population_set_channel tidy found
  obtain ⟨q, balanced, same⟩ := serves.exists_cons
  refine ⟨rest + cores c.parked + others, q, ?_, ?_, same⟩
  · rw [before, runs.running, Multiset.cons_add, Multiset.cons_add]
  · rw [after, add_of_served balanced]

theorem exists_population_complete {d : DeviceId} {q : Queue}
    (found : s.devices[d.num]? = some (p :: q)) : ∃ others,
    s.population = p.core ::ₘ others ∧
    { s with
      free := { p with pc := p.pc + 1 }.core ::ₘ s.free
      devices := s.devices.set d.num q }.population =
        { p with pc := p.pc + 1 }.core ::ₘ others := by
  obtain ⟨others, before, after⟩ := exists_population_set_device found
  refine ⟨s.free + cores q + others, ?_, ?_⟩
  · rw [before, Queue.cores_cons, Multiset.add_cons, Multiset.cons_add]
  · rw [after, Multiset.cons_add, Multiset.cons_add]

theorem population_terminate {q : Proc} (running : s.free = p ::ₘ rest) (core : q.core = p) :
    { s with free := rest, zombies := s.zombies.enqueue q }.population = s.population := by
  simp only [population, parked, running, Queue.cores_enqueue, core, Multiset.add_cons,
    Multiset.cons_add]

end Moving

/-! ## Arrivals -/

theorem population_single (s : Scene) (p : Proc) (arrived : List Arrival) :
    { s with free := p.core ::ₘ s.free, arrived }.population =
      cores (s.enrolled (.single p)) + s.population := by
  simp only [population, parked, enrolled, Arrival.procs, Queue.cores_cons, Queue.cores_nil,
    Multiset.cons_add, zero_add]

theorem population_mutexPair (s : Scene) (first second : Proc) (reversed : Bool)
    (pairs : MutexPairs) (arrived : List Arrival) :
    { s with
      free := first.core ::ₘ second.core ::ₘ s.free
      locks := s.locks.create.2.create.2
      pairs, arrived }.population =
      cores (s.enrolled (.mutexPair first second reversed)) + s.population := by
  have waiters : cores (s.locks.create.2.create.2.toList.flatMap (·.waiters)) =
      cores (s.locks.toList.flatMap (·.waiters)) := by
    simp [LockTable.create, LockTable.toList, Registry.values, Registry.add]
  simp only [population, parked, waiters, enrolled, Arrival.procs, Queue.cores_cons,
    Queue.cores_nil, Multiset.cons_add, zero_add]

theorem population_rendezvousPair (s : Scene) (producer consumer : Proc) (lock : LockId)
    (arrived : List Arrival) :
    { s with
      free := (producer.bindChannel ⟨s.nextChannel⟩).core ::ₘ
        (consumer.bindChannel ⟨s.nextChannel⟩).core ::ₘ s.free
      locks := s.locks.reserve.2
      channels := s.channels.add ⟨s.nextChannel⟩ (.between lock producer.pid consumer.pid)
      nextChannel := s.nextChannel + 1
      arrived }.population =
      cores (s.enrolled (.rendezvousPair producer consumer)) + s.population := by
  have channels : ∀ c : Channel, c.parked = [] →
      cores ((s.channels.add ⟨s.nextChannel⟩ c).values.flatMap Channel.parked) =
        cores (s.channels.values.flatMap Channel.parked) := by
    intro c hc
    simp [Registry.values, Registry.add, hc]
  simp only [population, parked, channels (.between _ _ _) rfl, enrolled, Queue.cores_cons,
    Queue.cores_nil, Multiset.cons_add, zero_add, LockTable.reserve, LockTable.toList]

/-! ## Departures -/

section Departing

variable {p : Proc} {rest : Queue}

theorem population_drop (zombie : s.zombies = p :: rest) (dropped : Queue) :
    s.population = p.core ::ₘ { s with zombies := rest, dropped }.population := by
  simp only [population, parked, zombie, Queue.cores_cons, Multiset.add_cons]

theorem population_leave (tidy : s.Tidy) {id : ChannelId} {c : Channel}
    (zombie : s.zombies = p :: rest) (found : s.channels.get? id = some c) (dropped : Queue) :
    s.population = p.core ::ₘ { s with
      zombies := rest, dropped, channels := s.channels.set id (c.retire p.pid) }.population := by
  obtain ⟨others, hc, hset, -⟩ := Registry.exists_cores_values tidy.channels found Channel.parked
  simp only [population, parked, zombie, hc, hset, Channel.parked_retire, Queue.cores_cons,
    Multiset.add_cons]

/-- With a channel go those who are parked on it. -/
theorem population_close (tidy : s.Tidy) {id : ChannelId} {c : Channel}
    (zombie : s.zombies = p :: rest) (found : s.channels.get? id = some c) (dropped : Queue) :
    s.population = p.core ::ₘ ({ s with
      zombies := rest, dropped, channels := s.channels.erase id }.population + cores c.parked) := by
  obtain ⟨others, hc, -, herase⟩ :=
    Registry.exists_cores_values tidy.channels found Channel.parked
  simp only [population, parked, zombie, hc, herase, Queue.cores_cons, ← Multiset.singleton_add]
  abel

/-! Whoever is there when an ended process has gone was there before. -/

theorem mem_of_drop (zombie : s.zombies = p :: rest) {dropped : Queue} {w : Proc}
    (hw : w ∈ { s with zombies := rest, dropped }.population) : w ∈ s.population := by
  rw [population_drop zombie dropped]
  exact Multiset.mem_cons_of_mem hw

theorem mem_of_leave (tidy : s.Tidy) {id : ChannelId} {c : Channel} (zombie : s.zombies = p :: rest)
    (found : s.channels.get? id = some c) {dropped : Queue} {w : Proc}
    (hw : w ∈ { s with
      zombies := rest, dropped, channels := s.channels.set id (c.retire p.pid) }.population) :
    w ∈ s.population := by
  rw [population_leave tidy zombie found dropped]
  exact Multiset.mem_cons_of_mem hw

theorem mem_of_close (tidy : s.Tidy) {id : ChannelId} {c : Channel} (zombie : s.zombies = p :: rest)
    (found : s.channels.get? id = some c) {dropped : Queue} {w : Proc}
    (hw : w ∈ { s with zombies := rest, dropped, channels := s.channels.erase id }.population) :
    w ∈ s.population := by
  rw [population_close tidy zombie found dropped]
  exact Multiset.mem_cons_of_mem (Multiset.mem_add.2 (.inl hw))

end Departing

/-! ## Who is parked -/

theorem core_mem_of_device {i : Nat} {q : Queue} (found : s.devices[i]? = some q) {w : Proc}
    (hw : w ∈ q) : w.core ∈ s.population := by
  obtain ⟨rest, before, -⟩ := exists_population_set_device found
  rw [before]
  exact Multiset.mem_add.2 (.inl (Multiset.mem_add.2 (.inr (Queue.core_mem_cores hw))))

theorem core_mem_of_lock (tidy : s.Tidy) {id : LockId} {l : Lock}
    (found : s.locks.get? id = some l) {w : Proc} (hw : w ∈ l.waiters) :
    w.core ∈ s.population := by
  obtain ⟨rest, before, -⟩ := exists_population_set_lock tidy found
  rw [before]
  exact Multiset.mem_add.2 (.inl (Multiset.mem_add.2 (.inr (Queue.core_mem_cores hw))))

end Scene
end Mlfq
