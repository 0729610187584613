import Mlfq.Proofs.Scene.Places

/-! # The ways of records

A record comes to a place from another place, by one of a few moves, or with an arrival. Three
things change a record without such a move: the timer stops the running process, the end of a
quantum demotes it, and a priority reset brings records back to the highest priority. They are kept
apart here, so that a move never changes a priority. -/

namespace Mlfq

/-! ## Levels -/

/-- What is taken from a queue was its first record. -/
theorem Queue.eq_cons_of_dequeue {q rest : Queue} {p : Proc} (h : q.dequeue = some (p, rest)) :
    q = p :: rest := by
  cases q with
  | nil => cases h
  | cons x xs =>
    cases h
    rfl

namespace ReadyQueue

variable {ready rest : ReadyQueue} {p q : Proc} {level : Priority}

/-- A record of a level was there before, or is the one that was queued. -/
theorem mem_levels_enqueue (h : p ∈ (ready.enqueue q).levels.get level) :
    p ∈ ready.levels.get level ∨ level = q.priority ∧ p = { q with state := .ready } := by
  change p ∈ (ready.levels.set _ _)[level.val] at h
  rw [Vector.getElem_set] at h
  split at h
  · rename_i same
    obtain rfl : q.priority = level := Fin.ext same
    exact (Queue.mem_enqueue.1 h).imp id fun new => ⟨rfl, new⟩
  · exact .inl h

theorem mem_levels_enqueue_self (ready : ReadyQueue) (p : Proc) :
    { p with state := .ready } ∈ (ready.enqueue p).levels.get p.priority := by
  change _ ∈ (ready.levels.set _ _)[p.priority.val]
  rw [Vector.getElem_set_self]
  exact Queue.mem_enqueue.2 (.inr rfl)

theorem mem_levels_enqueueAll {ps : Queue} (h : p ∈ (ready.enqueueAll ps).levels.get level) :
    p ∈ ready.levels.get level ∨ ∃ q ∈ ps, level = q.priority ∧ p = { q with state := .ready } := by
  unfold enqueueAll at h
  induction ps generalizing ready with
  | nil => exact .inl h
  | cons q ps ih =>
    rcases ih h with before | ⟨r, hr, new⟩
    · exact (mem_levels_enqueue before).imp id fun new => ⟨q, List.mem_cons_self, new⟩
    · exact .inr ⟨r, List.mem_cons_of_mem q hr, new⟩

/-- After a reset all records are at the highest level. -/
theorem mem_levels_resetPriorities (h : p ∈ ready.resetPriorities.levels.get level) :
    level = .highest ∧ ∃ level' q, q ∈ ready.levels.get level' ∧
      p = { q with priority := .highest } := by
  change p ∈ (Vector.set _ _ _ Priority.highest.isLt)[level.val] at h
  rw [Vector.getElem_set] at h
  split at h
  · rename_i same
    obtain ⟨q, hq, rfl⟩ := List.mem_map.1 h
    rw [toList_eq_flatMap, List.mem_flatMap] at hq
    obtain ⟨level', -, here⟩ := hq
    exact ⟨(Fin.ext same).symm, level', q, here, rfl⟩
  · simp at h

/-- What is taken was at its level, and what stays was there. -/
theorem mem_levels_of_dequeue (h : ready.dequeue = some (p, rest)) :
    (∃ level, p ∈ ready.levels.get level) ∧
      ∀ level, ∀ q ∈ rest.levels.get level, q ∈ ready.levels.get level := by
  obtain ⟨level, -, taken⟩ := List.exists_of_findSome?_eq_some h
  obtain ⟨⟨x, xs⟩, first, taken⟩ := Option.map_eq_some_iff.1 taken
  cases taken
  have whole := Queue.eq_cons_of_dequeue first
  have here : p ∈ ready.levels[level.val] := whole ▸ List.mem_cons_self
  refine ⟨⟨level, here⟩, fun level' q stays => ?_⟩
  change q ∈ (ready.levels.set _ _)[level'.val] at stays
  rw [Vector.getElem_set] at stays
  split at stays
  · rename_i same
    obtain rfl : level = level' := Fin.ext same
    have behind : q ∈ ready.levels[level.val] := whole ▸ List.mem_cons_of_mem p stays
    exact behind
  · exact stays

end ReadyQueue

/-! ## Additions -/

theorem Registry.get?_add_cases {κ α : Type} [DecidableEq κ] {r : Registry κ α} {k l : κ} {a b : α}
    (h : (r.add k a).get? l = some b) : r.get? l = some b ∨ b = a := by
  rw [get?, add, List.lookup_append, Option.or_eq_some_iff] at h
  rcases h with old | ⟨-, new⟩
  · exact .inl old
  · rw [lookup_cons] at new
    split at new
    · exact .inr (Option.some.inj new).symm
    · cases new

/-- Nobody is parked on a new lock. -/
theorem LockTable.get?_create_cases {t : LockTable} {id : LockId} {l : Lock}
    (h : t.create.2.get? id = some l) : t.get? id = some l ∨ l.waiters = [] :=
  (Registry.get?_add_cases h).imp (·) fun new => congrArg Lock.waiters new

/-- A channel is given with the plan. -/
theorem Proc.bindChannel_eq (p : Proc) (id : ChannelId) :
    p.bindChannel id = { p with plan := (p.bindChannel id).plan } := by
  unfold bindChannel
  split <;> rfl

/-! ## Moves -/

/-- The state that a record has in this place while the machine is at rest. -/
def Place.state : Place → Proc.State
  | .newcomers => .new
  | .ready _ => .ready
  | .cpu => .running
  | .device _ | .tableLock _ | .channelLock _ | .fill _ | .empty _ => .blocked
  | .zombies => .terminated

/-- Whether the processes in this place are ready or running. -/
def Place.isServed : Place → Bool
  | .ready _ | .cpu => true
  | _ => false

/-- A record goes from a place to a place at the priority that it has. -/
inductive Moves : Place × Proc → Place × Proc → Prop
  /-- The process steps, or gets a lock that it has asked for. -/
  | run (p : Proc) (pc wraps : Nat) : Moves (.cpu, p) (.cpu, { p with pc, wraps })
  | dispatch (level : Priority) (p : Proc) :
    Moves (.ready level, p) (.cpu, { p with state := .running })
  | park {place : Place} (parks : place.state = .blocked) (p : Proc) (pc : Nat) :
    Moves (.cpu, p) (place, { p with pc, state := .blocked })
  /-- A new or parked process can be served from now on. -/
  | queue {place : Place} (waits : place.state = .new ∨ place.state = .blocked) (p : Proc)
    (pc : Nat) : Moves (place, p) (.ready p.priority, { p with pc, state := .ready })
  | finish (p : Proc) (pc : Nat) (done : p.shouldTerminate = true) :
    Moves (.cpu, p) (.zombies, { p with pc, state := .terminated, stopped := true })

theorem Moves.pid_eq {x y : Place × Proc} (h : Moves x y) : y.2.pid = x.2.pid := by cases h <;> rfl

theorem Moves.priority_eq {x y : Place × Proc} (h : Moves x y) : y.2.priority = x.2.priority := by
  cases h <;> rfl

/-- The channel that a place belongs to. -/
def Place.channel? : Place → Option ChannelId
  | .channelLock id | .fill id | .empty id => some id
  | _ => none

/-- The records that are parked on a channel in one of its places. -/
def Channel.recordsAt (c : Channel) : Place → Queue
  | .channelLock _ => c.lock.waiters
  | .fill _ => c.fill
  | .empty _ => c.empty
  | _ => []

theorem Channel.recordsAt_retire (c : Channel) (pid : Pid) :
    (c.retire pid).recordsAt = c.recordsAt := by
  unfold retire
  split
  · rfl
  · split <;> rfl

/-- On its way a record keeps its process and its priority. -/
theorem Moves.eq_of_path {x y : Place × Proc} (h : Relation.ReflTransGen Moves x y) :
    y.2.pid = x.2.pid ∧ y.2.priority = x.2.priority := by
  induction h with
  | refl => exact ⟨rfl, rfl⟩
  | tail _ moves ih => exact ⟨moves.pid_eq.trans ih.1, moves.priority_eq.trans ih.2⟩

variable {σ : Type}

namespace Machine

/-- There is this record in this place. -/
def Holds (m : Machine σ) (x : Place × Proc) : Prop := x.2 ∈ m.recordsAt x.1

/-- Every record of `m'` has come to its place from a place in `m`. -/
def Conveys (m m' : Machine σ) : Prop :=
  ∀ x, m'.Holds x → ∃ y, m.Holds y ∧ Relation.ReflTransGen Moves y x

variable {m m' m'' : Machine σ}

namespace Conveys

theorem refl (m : Machine σ) : Conveys m m := fun x hx => ⟨x, hx, .refl⟩

theorem trans (h : Conveys m m') (h' : Conveys m' m'') : Conveys m m'' := by
  intro x hx
  obtain ⟨y, hy, later⟩ := h' x hx
  obtain ⟨z, hz, earlier⟩ := h y hy
  exact ⟨z, hz, earlier.trans later⟩

theorem foldl {α : Type} {f : Machine σ → α → Machine σ} (each : ∀ m a, Conveys m (f m a))
    (as : List α) (m : Machine σ) : Conveys m (as.foldl f m) := by
  induction as generalizing m with
  | nil => exact .refl m
  | cons a as ih => exact (each m a).trans (ih (f m a))

/-- Every record is where it was or has made one move. -/
theorem of_moves (h : ∀ place, ∀ p ∈ m'.recordsAt place,
    m.Holds (place, p) ∨ ∃ y, m.Holds y ∧ Moves y (place, p)) : Conveys m m' := by
  rintro ⟨place, p⟩ hp
  rcases h place p hp with here | ⟨y, hy, moves⟩
  · exact ⟨_, here, .refl⟩
  · exact ⟨y, hy, .single moves⟩

end Conveys

/-! ## What a place holds -/

theorem holds_device {id : DeviceId} {p : Proc} :
    m.Holds (.device id, p) ↔ ∃ d, m.devices[id.num]? = some d ∧ p ∈ d.queue := by
  simp only [Holds, recordsAt]
  cases m.devices[id.num]? <;> simp

theorem holds_tableLock {id : LockId} {p : Proc} :
    m.Holds (.tableLock id, p) ↔ ∃ l, m.locks.get? id = some l ∧ p ∈ l.waiters := by
  simp only [Holds, recordsAt]
  cases m.locks.get? id <;> simp

/-- The channel of a place, if it is there, decides what is in the place. -/
theorem holds_channel {place : Place} {id : ChannelId} (bound : place.channel? = some id)
    {p : Proc} : m.Holds (place, p) ↔ ∃ c, m.channels.get? id = some c ∧ p ∈ c.recordsAt place := by
  cases place <;> cases bound <;> simp only [Holds, recordsAt, Channel.recordsAt] <;>
    cases m.channels.get? id <;> simp

theorem holds_cpu {p : Proc} : m.Holds (.cpu, p) ↔ m.running = some p := by
  simp only [Holds, recordsAt]
  cases m.running <;> simp [eq_comm]

/-- When a channel is replaced, only what is in its places is new. -/
theorem holds_of_set_channel {id : ChannelId} {c c' : Channel} {place : Place} {p : Proc}
    (found : m.channels.get? id = some c) (h : m'.Holds (place, p))
    (set : m'.channels = m.channels.set id c') {k : ChannelId} (bound : place.channel? = some k) :
    m.Holds (place, p) ∨ place.channel? = some id ∧ p ∈ c'.recordsAt place := by
  obtain ⟨b, found', here⟩ := (holds_channel bound).1 h
  rw [set, Registry.get?_set (Registry.mem_keys_of_get? found)] at found'
  split at found'
  · rename_i same
    cases found'
    exact .inr ⟨same ▸ bound, here⟩
  · exact .inl ((holds_channel bound).2 ⟨b, found', here⟩)

/-- When a channel goes, nothing is new in the places of channels. -/
theorem holds_of_erase_channel {id : ChannelId} {place : Place} {p : Proc}
    (h : m'.Holds (place, p)) (erased : m'.channels = m.channels.erase id) {k : ChannelId}
    (bound : place.channel? = some k) : m.Holds (place, p) := by
  obtain ⟨c, found, here⟩ := (holds_channel bound).1 h
  rw [erased] at found
  exact (holds_channel bound).2 ⟨c, Registry.get?_of_erase found, here⟩

/-- When a lock is replaced, only what is parked on it is new. -/
theorem holds_of_set_lock (tidy : m.locks.Tidy) {id k : LockId} {l l' : Lock} {p : Proc}
    (found : m.locks.get? id = some l) (h : m'.Holds (.tableLock k, p))
    (set : m'.locks = m.locks.set l') (same : l'.id = l.id) :
    m.Holds (.tableLock k, p) ∨ k = id ∧ p ∈ l'.waiters := by
  obtain ⟨b, found', parked⟩ := holds_tableLock.1 h
  rw [set, tidy.get?_set found same] at found'
  split at found'
  · rename_i here
    cases found'
    exact .inr ⟨here, parked⟩
  · exact .inl (holds_tableLock.2 ⟨b, found', parked⟩)

/-- When a device is replaced, only what is in its queue is new. -/
theorem holds_of_set_device {id k : DeviceId} {d : Device} {p : Proc}
    (h : m'.Holds (.device k, p)) (set : m'.devices = m.devices.set id.num d) :
    m.Holds (.device k, p) ∨ k = id ∧ p ∈ d.queue := by
  obtain ⟨b, found, here⟩ := holds_device.1 h
  rw [set, List.getElem?_set] at found
  split at found
  · rename_i same
    split at found
    · cases found
      exact .inr ⟨congrArg DeviceId.mk same.symm, here⟩
    · cases found
  · exact .inl (holds_device.2 ⟨b, found, here⟩)

/-- Processes that wait in one place are queued. -/
theorem Holds.queue (place : Place) {ws : Queue} {level : Priority} {p : Proc}
    (held : ∀ w ∈ ws, m.Holds (place, w)) (waits : place.state = .new ∨ place.state = .blocked)
    (h : p ∈ (m.ready.enqueueAll ws).levels.get level) :
    m.Holds (.ready level, p) ∨ ∃ y, m.Holds y ∧ Moves y (.ready level, p) := by
  rcases ReadyQueue.mem_levels_enqueueAll h with before | ⟨w, hw, rfl, rfl⟩
  · exact .inl before
  · exact .inr ⟨(place, w), held w hw, .queue waits w w.pc⟩

end Machine
end Mlfq
