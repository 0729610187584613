import Mlfq.Proofs.Conservation

/-! # The census counts who is there

The census is kept by hand: admission counts a process as created, its end counts it as ended, and
nothing else writes to it. The books of a run say who has really come and who has gone. That the two
agree makes the census a count of the records that can be found in the queues. -/

namespace Mlfq

open Queue (cores)

variable {σ : Type}

/-! ## Counting by kind -/

/-- The number of processes of a kind among these. -/
def Queue.headcount (kind : Proc.Kind) (q : Queue) : Nat := q.countP (·.kind = kind)

namespace Queue

variable (kind : Proc.Kind)

@[simp] theorem headcount_nil : headcount kind [] = 0 := rfl

@[simp] theorem headcount_append (q r : Queue) :
    headcount kind (q ++ r) = headcount kind q + headcount kind r := List.countP_append

@[simp] theorem headcount_cons (p : Proc) (q : Queue) :
    headcount kind (p :: q) = headcount kind q + if p.kind = kind then 1 else 0 := by
  simp [headcount, List.countP_cons]

theorem headcount_enqueue (q : Queue) (p : Proc) :
    headcount kind (q.enqueue p) = headcount kind q + if p.kind = kind then 1 else 0 := by
  simp [enqueue]

/-- The kind of a process shows in its outline. -/
theorem headcount_eq_countP (q : Queue) :
    headcount kind q = (outlines (cores q)).countP (·.kind = kind) := by
  induction q with
  | nil => simp [outlines]
  | cons p q ih =>
    have counted : (outlines (cores (p :: q))).countP (·.kind = kind) =
        (outlines (cores q)).countP (·.kind = kind) + if p.kind = kind then 1 else 0 := by
      rw [cores_cons, outlines, Multiset.map_cons, Multiset.countP_cons]
      rfl
    rw [headcount_cons, ih, counted]

end Queue

/-! ## Who is there -/

/-- Whether those in a place have not ended. -/
def Place.isLiving : Place → Bool
  | .zombies => false
  | _ => true

/-- The records of all processes that have not ended, wherever they are. -/
def Machine.alive (m : Machine σ) : Queue := (m.places.filter Place.isLiving).flatMap m.recordsAt

/-- All records are those of the processes that have not ended and of those that have. -/
theorem Machine.headcount_places (m : Machine σ) (kind : Proc.Kind) :
    Queue.headcount kind (m.places.flatMap m.recordsAt) =
      m.alive.headcount kind + m.zombies.headcount kind := by
  have levels : ((List.finRange 16).map Place.ready).filter Place.isLiving =
      (List.finRange 16).map .ready := by
    rw [List.filter_eq_self]
    simp [Place.isLiving]
  have devices : ((List.range m.devices.length).map fun i => Place.device ⟨i⟩).filter
      Place.isLiving = (List.range m.devices.length).map fun i => .device ⟨i⟩ := by
    rw [List.filter_eq_self]
    simp [Place.isLiving]
  have locks : (m.locks.locks.keys.map Place.tableLock).filter Place.isLiving =
      m.locks.locks.keys.map .tableLock := by
    rw [List.filter_eq_self]
    simp [Place.isLiving]
  have channels : (m.channels.keys.flatMap fun id =>
      [Place.channelLock id, .fill id, .empty id]).filter Place.isLiving =
      m.channels.keys.flatMap fun id => [.channelLock id, .fill id, .empty id] := by
    rw [List.filter_eq_self]
    intro place mem
    obtain ⟨id, -, mem⟩ := List.mem_flatMap.1 mem
    simp only [List.mem_cons, List.not_mem_nil, or_false] at mem
    rcases mem with rfl | rfl | rfl <;> rfl
  have direct : [Place.newcomers, .cpu, .zombies].filter Place.isLiving = [.newcomers, .cpu] := rfl
  simp only [alive, places, List.filter_append, levels, devices, locks, channels, direct,
    List.flatMap_append, List.flatMap_cons, List.flatMap_nil, Queue.headcount_append, recordsAt,
    Queue.headcount_nil]
  omega

/-! ## The tallies -/

/-- The census says how many processes of each kind have come and how many have ended. -/
structure Ledger.Counted (l : Ledger σ) : Prop where
  created : ∀ kind, (l.machine.census.tally kind).created =
    Queue.headcount kind (l.arrived.flatMap Arrival.procs)
  terminated : ∀ kind, (l.machine.census.tally kind).terminated =
    Queue.headcount kind l.machine.zombies + Queue.headcount kind l.dropped

namespace Census

variable (c : Census) (kind other : Proc.Kind)

theorem created_noteCreated : ((c.noteCreated kind).tally other).created =
    (c.tally other).created + if kind = other then 1 else 0 := by
  rw [noteCreated, tally_modify]
  by_cases h : other = kind
  · simp [h]
  · simp [h, Ne.symm h]

theorem terminated_noteCreated :
    ((c.noteCreated kind).tally other).terminated = (c.tally other).terminated := by
  rw [noteCreated, tally_modify]
  split <;> rfl

theorem created_noteTerminated :
    ((c.noteTerminated kind).tally other).created = (c.tally other).created := by
  rw [noteTerminated, tally_modify]
  split <;> rfl

theorem terminated_noteTerminated : ((c.noteTerminated kind).tally other).terminated =
    (c.tally other).terminated + if kind = other then 1 else 0 := by
  rw [noteTerminated, tally_modify]
  by_cases h : other = kind
  · simp [h]
  · simp [h, Ne.symm h]

theorem created_noteAll (ps : Queue) : ((c.noteAll ps).tally kind).created =
    (c.tally kind).created + Queue.headcount kind ps := by
  induction ps generalizing c with
  | nil => rfl
  | cons p ps ih =>
    rw [Queue.headcount_cons, ← Nat.add_assoc, Nat.add_right_comm, ← created_noteCreated]
    exact ih (c.noteCreated p.kind)

theorem terminated_noteAll (ps : Queue) :
    ((c.noteAll ps).tally kind).terminated = (c.tally kind).terminated := by
  induction ps generalizing c with
  | nil => rfl
  | cons p ps ih => exact (ih (c.noteCreated p.kind)).trans (terminated_noteCreated ..)

end Census

/-- Whatever happens, the census follows. -/
theorem Ledger.Counted.shift [Workload σ] {l l' : Ledger σ} (h : l.Counted) (shift : l.Shift l') :
    l'.Counted := by
  cases shift with
  | keep backdrop arrived dropped =>
    obtain ⟨-, -, census, zombies⟩ := Machine.of_backdrop backdrop
    constructor <;> intro kind
    · rw [census, arrived, h.created]
    · rw [census, zombies, dropped, h.terminated]
  | come batch answer backdrop arrived dropped =>
    obtain ⟨-, -, census, zombies⟩ := Machine.of_backdrop backdrop
    constructor <;> intro kind
    · rw [census, arrived, Census.created_noteAll, h.created, List.flatMap_append,
        Queue.headcount_append]
    · rw [census, zombies, dropped, Census.terminated_noteAll, h.terminated]
  | ending p backdrop arrived dropped =>
    obtain ⟨-, -, census, zombies⟩ := Machine.of_backdrop backdrop
    constructor <;> intro kind
    · rw [census, arrived, Census.created_noteTerminated, h.created]
    · rw [census, zombies, dropped, Census.terminated_noteTerminated, h.terminated,
        Queue.headcount_enqueue]
      omega
  | drop backdrop arrived dropped =>
    obtain ⟨-, -, census, zombies⟩ := Machine.of_backdrop backdrop
    constructor <;> intro kind
    · rw [census, arrived, h.created]
    · rw [census, zombies, dropped, h.terminated, Queue.headcount_append, Queue.headcount_nil]
      omega

namespace Moment

variable [Workload σ] {config : Config} {workload : σ} {logLevel : Option Level} {mo : Moment σ}

theorem counted_of_reachable (reachable : Reachable (.start config workload logLevel) mo) :
    mo.ledger.Counted := by
  induction reachable with
  | refl => exact ⟨fun kind => by cases kind <;> rfl, fun kind => by cases kind <;> rfl⟩
  | tail _ next ih => exact ih.shift next.shift

/-- The processes of a kind that live according to the census are those whose records are
somewhere else than among the ended. -/
theorem live_eq_headcount (reachable : Reachable (.start config workload logLevel) mo)
    (distinct : Arrival.Distinct mo.ledger.arrived) (coupled : ∀ a ∈ mo.ledger.arrived, a.Coupled)
    (kind : Proc.Kind) :
    (mo.ledger.machine.census.tally kind).live = mo.ledger.machine.alive.headcount kind := by
  have steps := Scene.steps_of_reachable reachable
  have fresh := Scene.fresh_start config workload logLevel
  have counted := counted_of_reachable reachable
  -- Who has come is somewhere or was dropped, and who is somewhere lives or has ended.
  have come : Queue.headcount kind (mo.ledger.arrived.flatMap Arrival.procs) =
      mo.ledger.machine.alive.headcount kind + mo.ledger.machine.zombies.headcount kind +
        Queue.headcount kind mo.ledger.dropped := by
    have balanced : outlines mo.ledger.scene.books = Scene.guests mo.ledger.arrived :=
      Scene.balanced_of_steps fresh steps distinct coupled
    rw [Queue.headcount_eq_countP, ← Machine.headcount_places, Queue.headcount_eq_countP,
      Queue.headcount_eq_countP, ← Multiset.countP_add,
      ← Scene.outlines_population (Scene.tidy_of_steps fresh steps)]
    rw [Scene.books, outlines_add, outlines_profiles, outlines_profiles] at balanced
    exact congrArg (Multiset.countP (·.kind = kind)) balanced.symm
  rw [Tally.live, counted.created, counted.terminated, come]
  omega

end Moment
end Mlfq
