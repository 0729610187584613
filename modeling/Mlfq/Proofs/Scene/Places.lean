import Mlfq.Proofs.Scene.Identity

/-! # Places

The places of the machine where a record can be. The population of a scene is what lies in all of
them, so that in a lawful scene a process is in one place only. -/

namespace Mlfq

open Queue (cores)

theorem exists_of_mem_getD {α β : Type} {o : Option α} {f : α → List β} {b : β}
    (h : b ∈ (o.map f).getD []) : ∃ a, o = some a ∧ b ∈ f a := by
  cases o with
  | none => cases h
  | some a => exact ⟨a, rfl, h⟩

/-- Where a record can be. -/
inductive Place where
  | newcomers
  | ready (level : Priority)
  | cpu
  | device (id : DeviceId)
  /-- The waiters of a lock of the table. -/
  | tableLock (id : LockId)
  /-- The waiters of the lock of a channel. -/
  | channelLock (id : ChannelId)
  | fill (id : ChannelId)
  | empty (id : ChannelId)
  | zombies

namespace Machine

variable {σ : Type} (m : Machine σ)

/-- The records in a place, oldest first. -/
def recordsAt : Place → Queue
  | .newcomers => m.newcomers
  | .ready level => m.ready.levels.get level
  | .cpu => m.running.toList
  | .device id => (m.devices[id.num]?.map (·.queue)).getD []
  | .tableLock id => ((m.locks.get? id).map (·.waiters)).getD []
  | .channelLock id => ((m.channels.get? id).map (·.lock.waiters)).getD []
  | .fill id => ((m.channels.get? id).map (·.fill)).getD []
  | .empty id => ((m.channels.get? id).map (·.empty)).getD []
  | .zombies => m.zombies

/-- The records in a place. That of the running process comes with the counter of the CPU. -/
def resumingAt : Place → Queue
  | .cpu => m.onCpu
  | place => m.recordsAt place

/-- The records in all places of one kind. The two conditions of a channel are one kind. -/
def gathered : Place → Queue
  | .newcomers => m.newcomers
  | .ready _ => m.ready.toList
  | .cpu => m.onCpu
  | .device _ => (m.devices.map (·.queue)).flatten
  | .tableLock _ => m.locks.toList.flatMap (·.waiters)
  | .channelLock _ => m.channels.values.flatMap (·.lock.waiters)
  | .fill _ | .empty _ => m.channels.values.flatMap fun c => c.fill ++ c.empty
  | .zombies => m.zombies

/-- No record of process `pid` is anywhere. -/
def Lacks (pid : Pid) : Prop := ∀ place, ∀ p ∈ m.recordsAt place, p.pid ≠ pid

/-- There is one record of process `pid`, and it is in this place. -/
def KeepsAt (pid : Pid) (place : Place) : Prop :=
  ((m.recordsAt place).map (·.pid)).count pid = 1 ∧
    ∀ other, other ≠ place → ∀ p ∈ m.recordsAt other, p.pid ≠ pid

/-- The places that there are. -/
def places : List Place :=
  [.newcomers, .cpu, .zombies] ++ ((List.finRange 16).map .ready ++
    ((List.range m.devices.length).map (fun i => .device ⟨i⟩) ++
      (m.locks.locks.keys.map .tableLock ++
        m.channels.keys.flatMap fun id => [.channelLock id, .fill id, .empty id])))

variable {m}

theorem map_pid_resumingAt (m : Machine σ) (place : Place) :
    (m.resumingAt place).map (·.pid) = (m.recordsAt place).map (·.pid) := by
  cases place with
  | cpu =>
    rw [resumingAt, recordsAt, onCpu]
    cases m.running <;> rfl
  | _ => rfl

theorem resumingAt_of_ne_cpu {place : Place} (away : place ≠ .cpu) :
    m.resumingAt place = m.recordsAt place := by
  cases place with
  | cpu => exact absurd rfl away
  | _ => rfl

/-- Only the queue of the device that is replaced changes. -/
theorem recordsAt_of_set_device {m' : Machine σ} {device : DeviceId} {new : Device}
    (set : m'.devices = m.devices.set device.num new) (there : device.num < m.devices.length)
    (d : DeviceId) :
    m'.recordsAt (.device d) = if device = d then new.queue else m.recordsAt (.device d) := by
  rw [recordsAt, recordsAt, set]
  by_cases same : device = d
  · subst same
    rw [if_pos rfl, List.getElem?_set_self there]
    rfl
  · have number : device.num ≠ d.num := fun number => same (congrArg DeviceId.mk number)
    rw [if_neg same, List.getElem?_set_ne number]

/-- What is nowhere else is at most in the places that there are. -/
theorem mem_places {place : Place} {p : Proc} (h : p ∈ m.recordsAt place) : place ∈ m.places := by
  have known : ∀ {κ α : Type} [DecidableEq κ] {r : Registry κ α} {k : κ} {f : α → Queue},
      p ∈ ((r.get? k).map f).getD [] → k ∈ r.keys := by
    intro κ α _ r k f hp
    obtain ⟨a, found, -⟩ := exists_of_mem_getD hp
    exact Registry.mem_keys_of_get? found
  unfold places
  simp only [List.mem_append, List.mem_map, List.mem_flatMap]
  cases place with
  | newcomers | cpu | zombies => simp
  | ready level => exact .inr (.inl ⟨level, List.mem_finRange level, rfl⟩)
  | device id =>
    obtain ⟨device, found, -⟩ := exists_of_mem_getD h
    exact .inr (.inr (.inl ⟨id.num, List.mem_range.2 (List.getElem?_eq_some_iff.1 found).1, rfl⟩))
  | tableLock id => exact .inr (.inr (.inr (.inl ⟨id, known h, rfl⟩)))
  | channelLock id => exact .inr (.inr (.inr (.inr ⟨id, known h, by simp⟩)))
  | fill id => exact .inr (.inr (.inr (.inr ⟨id, known h, by simp⟩)))
  | empty id => exact .inr (.inr (.inr (.inr ⟨id, known h, by simp⟩)))

end Machine

/-! ## Gathering -/

/-- Everything in a list, entry by entry. -/
theorem flatMap_range_getElem? {α β : Type} (as : List α) (f : α → List β) :
    ((List.range as.length).flatMap fun i => (as[i]?.map f).getD []) = as.flatMap f := by
  rw [List.flatMap_def, List.flatMap_def]
  congr 1
  apply List.ext_getElem
  · simp
  · intro i h₁ h₂
    simp only [List.length_map] at h₂
    simp [List.getElem?_eq_getElem h₂]

/-- Everything in a registry, key by key. -/
theorem Registry.flatMap_keys {κ α β : Type} [DecidableEq κ] {r : Registry κ α}
    (nodup : r.keys.Nodup) (f : α → List β) :
    (r.keys.flatMap fun k => ((r.get? k).map f).getD []) = r.values.flatMap f := by
  rw [keys, values, List.flatMap_map, List.flatMap_map, List.flatMap_def, List.flatMap_def]
  congr 1
  apply List.map_congr_left
  intro e he
  rw [get?_of_mem_entries nodup he]
  rfl

namespace Scene

variable {σ : Type} {l : Ledger σ}

/-- The population is what is in all places. -/
theorem outlines_population (tidy : l.scene.Tidy) : outlines l.scene.population =
    outlines (cores (l.machine.places.flatMap l.machine.recordsAt)) := by
  obtain ⟨m, arrived, dropped⟩ := l
  have ready : ((List.finRange 16).map Place.ready).flatMap m.recordsAt = m.ready.toList := by
    rw [List.flatMap_map, ReadyQueue.toList_eq_flatMap]
    rfl
  have devices : ((List.range m.devices.length).map fun i => Place.device ⟨i⟩).flatMap
      m.recordsAt = (m.devices.map (·.queue)).flatten := by
    rw [List.flatMap_map, ← List.flatMap_def]
    exact flatMap_range_getElem? m.devices (·.queue)
  have locks : (m.locks.locks.keys.map Place.tableLock).flatMap m.recordsAt =
      m.locks.toList.flatMap (·.waiters) := by
    rw [List.flatMap_map]
    exact Registry.flatMap_keys tidy.locks.nodup (·.waiters)
  have channels : (m.channels.keys.flatMap fun id =>
      [Place.channelLock id, .fill id, .empty id]).flatMap m.recordsAt =
      m.channels.values.flatMap Channel.parked := by
    have nodup : m.channels.keys.Nodup := tidy.channels
    rw [List.flatMap_assoc, ← Registry.flatMap_keys nodup Channel.parked]
    congr 1
    funext id
    simp only [List.flatMap_cons, List.flatMap_nil, List.append_nil, Machine.recordsAt]
    cases m.channels.get? id <;> rfl
  have cpu : outlines (cores m.onCpu) = outlines (cores m.running.toList) := by
    rw [Machine.onCpu]
    cases m.running <;> rfl
  have direct : [Place.newcomers, .cpu, .zombies].flatMap m.recordsAt =
      m.newcomers ++ (m.running.toList ++ m.zombies) := by
    simp [Machine.recordsAt]
  rw [Machine.places, List.flatMap_append, List.flatMap_append, List.flatMap_append,
    List.flatMap_append, direct, ready, devices, locks, channels]
  simp only [population, parked, Ledger.scene, outlines_add, Queue.cores_append, cpu]
  abel

theorem map_pid_population (tidy : l.scene.Tidy) : l.scene.population.map (·.pid) =
    (((l.machine.places.flatMap l.machine.recordsAt).map (·.pid) : List Pid) : Multiset Pid) := by
  rw [← map_pid_outlines, outlines_population tidy, map_pid_outlines, Queue.map_pid_cores]

/-- What is in a place is among the records of its kind. -/
theorem mem_gathered (tidy : l.scene.Tidy) {place : Place} {r : Proc}
    (h : r ∈ l.machine.resumingAt place) : r ∈ l.machine.gathered place := by
  have channel : ∀ {id c}, l.machine.channels.get? id = some c →
      c ∈ l.machine.channels.values :=
    fun found => (Registry.mem_values_iff tidy.channels).2 ⟨_, found⟩
  cases place with
  | newcomers | cpu | zombies => exact h
  | ready level =>
    rw [Machine.gathered, ReadyQueue.toList_eq_flatMap]
    exact List.mem_flatMap.2 ⟨level, List.mem_finRange level, h⟩
  | device id =>
    obtain ⟨device, found, here⟩ := exists_of_mem_getD h
    have mem := List.mem_map_of_mem (f := Device.queue) (List.mem_of_getElem? found)
    exact List.mem_flatten.2 ⟨_, mem, here⟩
  | tableLock id =>
    obtain ⟨lock, found, here⟩ := exists_of_mem_getD h
    have mem := (Registry.mem_values_iff tidy.locks.nodup).2 ⟨id, found⟩
    exact List.mem_flatMap.2 ⟨lock, mem, here⟩
  | channelLock id =>
    obtain ⟨c, found, here⟩ := exists_of_mem_getD h
    exact List.mem_flatMap.2 ⟨c, channel found, here⟩
  | fill id =>
    obtain ⟨c, found, here⟩ := exists_of_mem_getD h
    exact List.mem_flatMap.2 ⟨c, channel found, List.mem_append_left _ here⟩
  | empty id =>
    obtain ⟨c, found, here⟩ := exists_of_mem_getD h
    exact List.mem_flatMap.2 ⟨c, channel found, List.mem_append_right _ here⟩

/-- What is in a place is in the population. -/
theorem core_mem_population (tidy : l.scene.Tidy) {place : Place} {r : Proc}
    (h : r ∈ l.machine.resumingAt place) : r.core ∈ l.scene.population := by
  have mem := mem_gathered tidy h
  have free : ∀ {q : Queue}, r ∈ q → cores q ≤ l.scene.free → r.core ∈ l.scene.population :=
    fun here le => Multiset.mem_of_le
      (le.trans ((Multiset.le_add_right _ _).trans (Multiset.le_add_right _ _)))
      (Queue.core_mem_cores here)
  have parked : ∀ {q : Queue}, r ∈ q → cores q ≤ l.scene.parked → r.core ∈ l.scene.population :=
    fun here le => Multiset.mem_of_le
      (le.trans ((Multiset.le_add_left _ _).trans (Multiset.le_add_right _ _)))
      (Queue.core_mem_cores here)
  have channel : (∃ c ∈ l.machine.channels.values, r ∈ c.parked) →
      r.core ∈ l.scene.population :=
    fun ⟨c, hc, here⟩ =>
      parked (List.mem_flatMap.2 ⟨c, hc, here⟩) (Multiset.le_add_left _ _)
  cases place with
  | newcomers =>
    exact free mem ((Multiset.le_add_right _ _).trans (Multiset.le_add_right _ _))
  | ready => exact free mem ((Multiset.le_add_left _ _).trans (Multiset.le_add_right _ _))
  | cpu => exact free mem (Multiset.le_add_left _ _)
  | device => exact parked mem ((Multiset.le_add_right _ _).trans (Multiset.le_add_right _ _))
  | tableLock => exact parked mem ((Multiset.le_add_left _ _).trans (Multiset.le_add_right _ _))
  | channelLock =>
    obtain ⟨c, hc, here⟩ := List.mem_flatMap.1 mem
    exact channel ⟨c, hc, List.mem_append_left _ here⟩
  | fill | empty =>
    obtain ⟨c, hc, here⟩ := List.mem_flatMap.1 mem
    exact channel ⟨c, hc, List.mem_append_right _ here⟩
  | zombies => exact Multiset.mem_add.2 (.inr (Queue.core_mem_cores mem))

/-- Everybody in a lawful scene is in one place. -/
theorem Lawful.exists_keepsAt (lawful : l.scene.Lawful) (tidy : l.scene.Tidy) {pid : Pid}
    (h : pid ∈ l.scene.population.map (·.pid)) : ∃ place, l.machine.KeepsAt pid place := by
  have nodup := lawful.nodup
  rw [map_pid_population tidy, Multiset.coe_nodup, List.map_flatMap] at nodup
  rw [map_pid_population tidy, Multiset.mem_coe, List.map_flatMap] at h
  obtain ⟨place, hplace, here⟩ := List.mem_flatMap.1 h
  refine ⟨place, List.count_eq_one_of_mem ((List.nodup_flatMap.1 nodup).1 place hplace) here, ?_⟩
  rintro other ne p hp rfl
  have there : p.pid ∈ (l.machine.recordsAt other).map (·.pid) := List.mem_map_of_mem hp
  exact ne (eq_of_nodup_flatMap nodup (Machine.mem_places hp) hplace there here)

/-- Who is not in the population is nowhere. -/
theorem lacks_of_notMem (tidy : l.scene.Tidy) {pid : Pid}
    (h : pid ∉ l.scene.population.map (·.pid)) : l.machine.Lacks pid := by
  rintro place p hp rfl
  apply h
  rw [map_pid_population tidy, Multiset.mem_coe]
  exact List.mem_map_of_mem (List.mem_flatMap.2 ⟨place, Machine.mem_places hp, hp⟩)

end Scene
end Mlfq
