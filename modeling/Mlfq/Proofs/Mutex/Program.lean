import Mlfq.Proofs.Deadlock.Program

/-! # The rounds of a two-lock program

A program asks for a lock at the points of one set and releases it at the points of another; the
points of the same number make a round. When no two sets share a point, a process raises at each
point the trap of its set, so that a round that was begun is ended by a release. -/

namespace Mlfq

namespace TriggerSet

/-- Past an opening point and before the closing point of the same number. -/
def Between (opens closes : TriggerSet) (pc : Nat) : Prop :=
  ∃ i lo hi : Nat, opens.points[i]? = some lo ∧ closes.points[i]? = some hi ∧ lo ≤ pc ∧ pc < hi

variable {opens closes : TriggerSet} {pc : Nat}

/-- A round goes on until its closing point. -/
theorem Between.succ (h : opens.Between closes pc) :
    opens.Between closes (pc + 1) ∨ pc + 1 ∈ closes.points := by
  obtain ⟨i, lo, hi, opening, closing, low, high⟩ := h
  rcases Nat.lt_or_eq_of_le (Nat.succ_le_of_lt high) with before | rfl
  · exact .inl ⟨i, lo, hi, opening, closing, Nat.le_succ_of_le low, before⟩
  · exact .inr (List.mem_of_getElem? closing)

/-- A round has begun at its opening point. -/
theorem Between.pred (h : opens.Between closes pc) :
    pc ∈ opens.points ∨ ∃ before, pc = before + 1 ∧ opens.Between closes before := by
  obtain ⟨i, lo, hi, opening, closing, low, high⟩ := h
  rcases Nat.lt_or_eq_of_le low with after | rfl
  · obtain ⟨before, rfl⟩ := Nat.exists_eq_add_of_lt after
    exact .inr ⟨lo + before, rfl, i, lo, hi, opening, closing, by omega, by omega⟩
  · exact .inl (List.mem_of_getElem? opening)

/-- Sets of as many points open and close rounds. -/
theorem between_of_mem {n : Nat} (opening : opens.points.length = n)
    (closing : closes.points.length = n)
    (rounds : ∀ i lo hi : Nat, opens.points[i]? = some lo → closes.points[i]? = some hi → lo < hi)
    (here : pc ∈ opens.points) : opens.Between closes pc := by
  obtain ⟨i, found⟩ := List.mem_iff_getElem?.1 here
  have lt : i < closes.points.length := by
    rw [closing, ← opening]
    exact (List.getElem?_eq_some_iff.1 found).1
  have end_ := List.getElem?_eq_getElem lt
  exact ⟨i, pc, closes.points[i], found, end_, Nat.le_refl pc, rounds i _ _ found end_⟩

/-- The points of a round. -/
theorem mem_zip_of_getElem? {i lo hi : Nat} (opening : opens.points[i]? = some lo)
    (closing : closes.points[i]? = some hi) : (lo, hi) ∈ opens.points.zip closes.points := by
  apply List.mem_of_getElem? (i := i)
  exact List.getElem?_zip_eq_some.2 ⟨opening, closing⟩

theorem point_eq_ok_iff {set : TriggerSet} {i pc : Nat} :
    set.point i = .ok pc ↔ set.points[i]? = some pc := by
  unfold point
  cases set.points[i]? <;> simp

end TriggerSet

/-- One of the two locks of a mutex user, in the order in which it takes them. -/
inductive WhichLock where
  | first
  | second
  deriving DecidableEq

/-- A lock of a member of a pair. -/
def PairMember.lock (mem : PairMember) : WhichLock → LockId
  | .first => mem.first
  | .second => mem.second

namespace MutexProgram

/-- What a program does with a lock at a point. -/
inductive Action where
  | lock
  | unlock
  | tryLock
  | tryUnlock
  deriving DecidableEq

/-- The trap that an action raises. -/
def Action.trap (id : LockId) : Action → Trap
  | .lock => .lock id
  | .unlock => .unlock id
  | .tryLock => .tryLock id
  | .tryUnlock => .tryUnlock id

/-- What an action asks of the lock. -/
def Action.request : Action → Lock.Request
  | .lock => .acquire
  | .tryLock => .attempt
  | .unlock | .tryUnlock => .release

@[simp] theorem Action.tableRequest?_trap (action : Action) (id : LockId) :
    (action.trap id).tableRequest? = some (id, action.request) := by
  cases action <;> rfl

/-- The points at which a program does this with a lock. -/
def set (program : MutexProgram) : Action → WhichLock → TriggerSet
  | .lock, .first => program.lockFirst
  | .lock, .second => program.lockSecond
  | .unlock, .first => program.unlockFirst
  | .unlock, .second => program.unlockSecond
  | .tryLock, .first => program.tryFirst
  | .tryLock, .second => program.trySecond
  | .tryUnlock, .first => program.tryUnlockFirst
  | .tryUnlock, .second => program.tryUnlockSecond

/-- The sets in the order in which they are looked up. -/
def sets (program : MutexProgram) : List TriggerSet :=
  [program.lockFirst, program.lockSecond, program.unlockFirst, program.unlockSecond,
    program.tryFirst, program.trySecond, program.tryUnlockFirst, program.tryUnlockSecond]

/-- Within a round in which the program waits for the lock. -/
def InBlocking (program : MutexProgram) (which : WhichLock) (pc : Nat) : Prop :=
  (program.set .lock which).Between (program.set .unlock which) pc

/-- Within a round in which the program takes the lock if it is free. -/
def InTry (program : MutexProgram) (which : WhichLock) (pc : Nat) : Prop :=
  (program.set .tryLock which).Between (program.set .tryUnlock which) pc

/-- There are four rounds of each kind, no two sets share a point, and in a round both locks are
asked for before one of them is released. -/
structure Orderly (program : MutexProgram) : Prop where
  four : ∀ set ∈ program.sets, set.points.length = 4
  apart : program.sets.Pairwise fun a b => ∀ pc ∈ a.points, pc ∉ b.points
  rounds : ∀ (which which' : WhichLock) (i lo hi : Nat),
    (program.set .lock which).points[i]? = some lo →
    (program.set .unlock which').points[i]? = some hi → lo < hi
  tryRounds : ∀ (which which' : WhichLock) (i lo hi : Nat),
    (program.set .tryLock which).points[i]? = some lo →
    (program.set .tryUnlock which').points[i]? = some hi → lo < hi

variable {program : MutexProgram} {which : WhichLock} {action : Action} {pc : Nat}
  {mem : PairMember}

/-! ## Traps -/

/-- The traps of a program in the order in which they are looked up. -/
def traps (program : MutexProgram) (mem : PairMember) : List (TriggerSet × Trap) :=
  [(program.lockFirst, .lock mem.first), (program.lockSecond, .lock mem.second),
    (program.unlockFirst, .unlock mem.first), (program.unlockSecond, .unlock mem.second),
    (program.tryFirst, .tryLock mem.first), (program.trySecond, .tryLock mem.second),
    (program.tryUnlockFirst, .tryUnlock mem.first),
    (program.tryUnlockSecond, .tryUnlock mem.second)]

theorem trapAt_eq (program : MutexProgram) (pc : Nat) (mem : PairMember) :
    program.trapAt pc mem.first mem.second =
      ((program.traps mem).find? (·.1.contains pc)).map (·.2) := rfl

theorem mem_traps_iff {e : TriggerSet × Trap} : e ∈ program.traps mem ↔
    ∃ action which, e = (program.set action which, action.trap (mem.lock which)) := by
  constructor
  · intro h
    simp only [traps, List.mem_cons, List.not_mem_nil, or_false] at h
    rcases h with rfl | rfl | rfl | rfl | rfl | rfl | rfl | rfl
    · exact ⟨.lock, .first, rfl⟩
    · exact ⟨.lock, .second, rfl⟩
    · exact ⟨.unlock, .first, rfl⟩
    · exact ⟨.unlock, .second, rfl⟩
    · exact ⟨.tryLock, .first, rfl⟩
    · exact ⟨.tryLock, .second, rfl⟩
    · exact ⟨.tryUnlock, .first, rfl⟩
    · exact ⟨.tryUnlock, .second, rfl⟩
  · rintro ⟨action, which, rfl⟩
    cases action <;> cases which <;> simp [traps, set, Action.trap, PairMember.lock]

theorem mem_sets (program : MutexProgram) (action : Action) (which : WhichLock) :
    program.set action which ∈ program.sets := by
  cases action <;> cases which <;> simp [sets, set]

/-- The trap of a program is that of an action which it has at this point. -/
theorem exists_action {t : Trap} (h : program.trapAt pc mem.first mem.second = some t) :
    ∃ action which, t = action.trap (mem.lock which) ∧
      pc ∈ (program.set action which).points := by
  rw [trapAt_eq] at h
  obtain ⟨e, found, rfl⟩ := Option.map_eq_some_iff.1 h
  have here := List.find?_some found
  obtain ⟨action, which, rfl⟩ := mem_traps_iff.1 (List.mem_of_find?_eq_some found)
  exact ⟨action, which, rfl, List.contains_iff_mem.1 here⟩

/-- When no two sets share a point, the set that has the point is found. -/
theorem find?_eq_of_apart {traps : List (TriggerSet × Trap)}
    (apart : (traps.map Prod.fst).Pairwise fun a b => ∀ pc ∈ a.points, pc ∉ b.points)
    {e : TriggerSet × Trap} (he : e ∈ traps) (here : pc ∈ e.1.points) :
    traps.find? (·.1.contains pc) = some e := by
  induction traps with
  | nil => cases he
  | cons e' traps ih =>
    rw [List.map_cons, List.pairwise_cons] at apart
    rcases List.mem_cons.1 he with rfl | later
    · have own : e.1.contains pc = true := List.contains_iff_mem.2 here
      rw [List.find?_cons, own]
    · have skip : e'.1.contains pc = false := by
        apply Bool.eq_false_iff.2
        intro both
        exact apart.1 e.1 (List.mem_map_of_mem later) pc (List.contains_iff_mem.1 both) here
      rw [List.find?_cons, skip]
      exact ih apart.2 later

/-- At a point of an action the program raises its trap. -/
theorem Orderly.trapAt_eq (orderly : program.Orderly)
    (here : pc ∈ (program.set action which).points) (mem : PairMember) :
    program.trapAt pc mem.first mem.second = some (action.trap (mem.lock which)) := by
  have apart : ((program.traps mem).map Prod.fst).Pairwise
    fun a b => ∀ pc ∈ a.points, pc ∉ b.points := orderly.apart
  rw [MutexProgram.trapAt_eq,
    find?_eq_of_apart apart (mem_traps_iff.2 ⟨action, which, rfl⟩) here]
  rfl

/-! ## Rounds -/

/-- Within a round in which the program asks for the lock and may have it. -/
def MayHold (program : MutexProgram) (which : WhichLock) (pc : Nat) : Prop :=
  program.InBlocking which pc ∨ program.InTry which pc

/-- A program that may have a lock goes on or releases it. -/
theorem MayHold.succ (h : program.MayHold which pc) : program.MayHold which (pc + 1) ∨
    ∃ action : Action, action.request = .release ∧ pc + 1 ∈ (program.set action which).points := by
  rcases h with blocking | try_
  · rcases blocking.succ with inside | closing
    · exact .inl (.inl inside)
    · exact .inr ⟨.unlock, rfl, closing⟩
  · rcases try_.succ with inside | closing
    · exact .inl (.inr inside)
    · exact .inr ⟨.tryUnlock, rfl, closing⟩

/-- From the point at which the program asks for a lock it may have the lock. -/
theorem Orderly.mayHold_of_mem (orderly : program.Orderly) (asks : action.request ≠ .release)
    (here : pc ∈ (program.set action which).points) : program.MayHold which pc := by
  have four := fun action => orderly.four _ (program.mem_sets action which)
  cases action with
  | lock =>
    have rounds := orderly.rounds which which
    exact .inl (TriggerSet.between_of_mem (four _) (four _) rounds here)
  | tryLock =>
    have rounds := orderly.tryRounds which which
    exact .inr (TriggerSet.between_of_mem (four _) (four _) rounds here)
  | unlock | tryUnlock => exact absurd rfl asks

/-! ## Windows -/

theorem exists_of_mapM_eq_ok {ε α β : Type} {f : α → Except ε β} {as : List α} {bs : List β}
    (h : as.mapM f = .ok bs) {a : α} (ha : a ∈ as) : ∃ b ∈ bs, f a = .ok b := by
  induction as generalizing bs with
  | nil => cases ha
  | cons a' as ih =>
    rw [List.mapM_cons] at h
    obtain ⟨b, first, h⟩ := exists_of_bind_eq_ok h
    obtain ⟨bs', rest, h⟩ := exists_of_bind_eq_ok h
    cases h
    rcases List.mem_cons.1 ha with rfl | later
    · exact ⟨b, List.mem_cons_self, first⟩
    · obtain ⟨b', hb', found⟩ := ih rest later
      exact ⟨b', List.mem_cons_of_mem _ hb', found⟩

/-- The points of one number of an action on the two locks. -/
theorem min_le_point_le_max {action : Action} {i a b n : Nat}
    (first : (program.set action .first).points[i]? = some a)
    (second : (program.set action .second).points[i]? = some b)
    (own : (program.set action which).points[i]? = some n) : min a b ≤ n ∧ n ≤ max a b := by
  cases which with
  | first =>
    obtain rfl := Option.some.inj (first.symm.trans own)
    exact ⟨Nat.min_le_left _ _, Nat.le_max_left _ _⟩
  | second =>
    obtain rfl := Option.some.inj (second.symm.trans own)
    exact ⟨Nat.min_le_right _ _, Nat.le_max_right _ _⟩

/-- A round lies in its window. -/
theorem exists_window {i lo hi : Nat} {windows : List (Nat × Nat)}
    (h : program.roundWindows i = .ok windows) {opens closes : Action}
    (kind : opens = .lock ∧ closes = .unlock ∨ opens = .tryLock ∧ closes = .tryUnlock)
    (opening : (program.set opens which).points[i]? = some lo)
    (closing : (program.set closes which).points[i]? = some hi) :
    ∃ w ∈ windows, w.1 ≤ lo ∧ hi ≤ w.2 := by
  obtain ⟨l₁, lock₁, h⟩ := exists_of_bind_eq_ok h
  obtain ⟨l₂, lock₂, h⟩ := exists_of_bind_eq_ok h
  obtain ⟨u₁, unlock₁, h⟩ := exists_of_bind_eq_ok h
  obtain ⟨u₂, unlock₂, h⟩ := exists_of_bind_eq_ok h
  obtain ⟨l₃, try₁, h⟩ := exists_of_bind_eq_ok h
  obtain ⟨l₄, try₂, h⟩ := exists_of_bind_eq_ok h
  obtain ⟨u₃, tryUnlock₁, h⟩ := exists_of_bind_eq_ok h
  obtain ⟨u₄, tryUnlock₂, h⟩ := exists_of_bind_eq_ok h
  cases h
  rw [TriggerSet.point_eq_ok_iff] at lock₁ lock₂ unlock₁ unlock₂ try₁ try₂ tryUnlock₁ tryUnlock₂
  rcases kind with ⟨rfl, rfl⟩ | ⟨rfl, rfl⟩
  · have low := (min_le_point_le_max lock₁ lock₂ opening).1
    have high := (min_le_point_le_max unlock₁ unlock₂ closing).2
    exact ⟨_, List.mem_cons_self, low, high⟩
  · have low := (min_le_point_le_max try₁ try₂ opening).1
    have high := (min_le_point_le_max tryUnlock₁ tryUnlock₂ closing).2
    exact ⟨_, List.mem_cons_of_mem _ List.mem_cons_self, low, high⟩

/-- A counter that is not past the largest one does not wrap while the program may have a lock. -/
theorem MayHold.lt_maxPc (h : program.MayHold which pc) (orderly : program.Orderly) {maxPc : Nat}
    (le : pc ≤ maxPc) (spares : program.Spares maxPc) : pc < maxPc := by
  obtain ⟨windows, computed, spared⟩ := spares
  obtain ⟨rounds, mapped, computed⟩ := exists_of_bind_eq_ok computed
  cases computed
  -- The round has one of the four numbers for which windows are computed.
  have room : ∀ (opens closes : Action) (i lo hi : Nat),
      (opens = .lock ∧ closes = .unlock ∨ opens = .tryLock ∧ closes = .tryUnlock) →
      (program.set opens which).points[i]? = some lo →
      (program.set closes which).points[i]? = some hi → lo ≤ pc → pc < hi → pc < maxPc := by
    intro opens closes i lo hi kind opening closing low high
    have lt : i < 4 := by
      rw [← orderly.four _ (program.mem_sets opens which)]
      exact (List.getElem?_eq_some_iff.1 opening).1
    have number : i ∈ [0, 1, 2, 3] := by
      simp only [List.mem_cons, List.not_mem_nil, or_false]
      omega
    obtain ⟨ws, hws, round⟩ := exists_of_mapM_eq_ok mapped number
    obtain ⟨w, hw, before, after⟩ := exists_window round kind opening closing
    have outside := spared w (List.mem_flatten.2 ⟨ws, hws, hw⟩)
    omega
  rcases h with ⟨i, lo, hi, opening, closing, low, high⟩ | ⟨i, lo, hi, opening, closing, low, high⟩
  · exact room .lock .unlock i lo hi (.inl ⟨rfl, rfl⟩) opening closing low high
  · exact room .tryLock .tryUnlock i lo hi (.inr ⟨rfl, rfl⟩) opening closing low high

/-! ## The standard program -/

theorem orderly_standard : standard.Orderly := by
  have blocking : ∀ which which',
      ∀ e ∈ (standard.set .lock which).points.zip (standard.set .unlock which').points,
        e.1 < e.2 := by
    intro which which'
    cases which <;> cases which' <;> decide
  have trying : ∀ which which',
      ∀ e ∈ (standard.set .tryLock which).points.zip (standard.set .tryUnlock which').points,
        e.1 < e.2 := by
    intro which which'
    cases which <;> cases which' <;> decide
  refine ⟨by decide, by decide, ?_, ?_⟩
  · intro which which' i lo hi opening closing
    exact blocking which which' (lo, hi) (TriggerSet.mem_zip_of_getElem? opening closing)
  · intro which which' i lo hi opening closing
    exact trying which which' (lo, hi) (TriggerSet.mem_zip_of_getElem? opening closing)

/-- The standard program does not release a lock within a round in which it has waited for it. -/
theorem request_ne_release_of_inBlocking (inside : standard.InBlocking which pc)
    (here : pc ∈ (standard.set action which).points) : action.request ≠ .release := by
  have clear : ∀ e ∈ (standard.set .lock which).points.zip (standard.set .unlock which).points,
      ∀ x ∈ (standard.set .unlock which).points ++ (standard.set .tryUnlock which).points,
        ¬(e.1 ≤ x ∧ x < e.2) := by
    cases which <;> decide
  obtain ⟨i, lo, hi, opening, closing, low, high⟩ := inside
  have round := TriggerSet.mem_zip_of_getElem? opening closing
  intro release
  refine clear (lo, hi) round pc ?_ ⟨low, high⟩
  cases action with
  | lock | tryLock => cases release
  | unlock => exact List.mem_append_left _ here
  | tryUnlock => exact List.mem_append_right _ here

/-- The standard program asks for nothing at the counter 0. -/
theorem pos_of_mem_standard (here : pc ∈ (standard.set action which).points) : 0 < pc := by
  have all : ∀ x ∈ (standard.set action which).points, 0 < x := by
    cases action <;> cases which <;> decide
  exact all pc here

end MutexProgram
end Mlfq
