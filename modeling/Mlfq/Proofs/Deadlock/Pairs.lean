import Mlfq.Proofs.Lock.Invariant
import Mlfq.Proofs.Scene.Identity
import Mlfq.Proofs.Trap

/-! # Mutex pairs and their locks

Every lock of the table belongs to one mutex pair, and only the two members of the pair ever hold
it or are parked on it. -/

namespace Mlfq

namespace MutexPair

/-- The processes of a pair. -/
def pids (q : MutexPair) : List Pid := [q.left.pid, q.right.pid]

/-- The locks of a pair. -/
def locks (q : MutexPair) : List LockId := [q.left.first, q.left.second]

/-- The second member takes the locks of the first, in one order or the other. -/
def Shares (q : MutexPair) : Prop :=
  q.right.first = q.left.first ∧ q.right.second = q.left.second ∨
    q.right.first = q.left.second ∧ q.right.second = q.left.first

theorem pid_mem_of_member? {q : MutexPair} {pid : Pid} {mem : PairMember}
    (h : q.member? pid = some mem) : pid ∈ q.pids := by
  unfold member? at h
  split at h
  · exact List.mem_cons.2 (.inl (Eq.symm ‹_›))
  · split at h
    · exact List.mem_cons_of_mem _ (List.mem_singleton.2 (Eq.symm ‹_›))
    · cases h

theorem exists_member? {q : MutexPair} {pid : Pid} (h : pid ∈ q.pids) :
    ∃ mem, q.member? pid = some mem := by
  unfold member?
  simp only [pids, List.mem_cons, List.not_mem_nil, or_false] at h
  split
  · exact ⟨_, rfl⟩
  · rw [if_pos (h.resolve_left (Ne.symm ‹_›)).symm]
    exact ⟨_, rfl⟩

theorem eq_of_member? {q : MutexPair} {pid : Pid} {mem : PairMember}
    (h : q.member? pid = some mem) : mem = q.left ∨ mem = q.right := by
  unfold member? at h
  split at h
  · exact .inl (Option.some.inj h).symm
  · split at h
    · exact .inr (Option.some.inj h).symm
    · cases h

theorem Shares.mem_locks {q : MutexPair} (shares : q.Shares) {pid : Pid} {mem : PairMember}
    (h : q.member? pid = some mem) {id : LockId} (hid : id = mem.first ∨ id = mem.second) :
    id ∈ q.locks := by
  unfold member? at h
  unfold locks
  split at h
  · cases h
    simpa using hid
  · split at h
    · cases h
      rcases shares with ⟨first, second⟩ | ⟨first, second⟩ <;> rw [first, second] at hid
      · simpa using hid
      · simpa using hid.symm
    · cases h

/-- The pair without the marks of the members that have gone. -/
def unmarked (q : MutexPair) : MutexPair :=
  { left := { q.left with retired := false }, right := { q.right with retired := false } }

@[simp] theorem pids_unmarked (q : MutexPair) : q.unmarked.pids = q.pids := rfl
@[simp] theorem locks_unmarked (q : MutexPair) : q.unmarked.locks = q.locks := rfl

theorem locks_of_unmarked_eq {q q' : MutexPair} (h : q'.unmarked = q.unmarked) :
    q'.left.first = q.left.first ∧ q'.left.second = q.left.second :=
  ⟨congrArg (·.left.first) h, congrArg (·.left.second) h⟩

/-- The pair was made for these processes, and it may have got marks since. -/
def MadeFor (q : MutexPair) (first second : Pid) (reversed : Bool) : Prop :=
  q.unmarked = .sharing first second q.left.first q.left.second reversed

section MadeFor

variable {q q' : MutexPair} {first second : Pid} {reversed : Bool}

theorem MadeFor.of_unmarked_eq (h : q.MadeFor first second reversed)
    (alike : q'.unmarked = q.unmarked) : q'.MadeFor first second reversed := by
  obtain ⟨own₁, own₂⟩ := locks_of_unmarked_eq alike
  rw [MadeFor, alike, own₁, own₂]
  exact h

theorem MadeFor.pids_eq (h : q.MadeFor first second reversed) : q.pids = [first, second] := by
  have pids : q.unmarked.pids = _ := congrArg pids h
  rw [pids_unmarked] at pids
  cases reversed <;> exact pids

theorem MadeFor.shares (h : q.MadeFor first second reversed) : q.Shares := by
  have first := congrArg (·.right.first) h
  have second := congrArg (·.right.second) h
  cases reversed with
  | false => exact .inl ⟨first, second⟩
  | true => exact .inr ⟨first, second⟩

end MadeFor

theorem pid_mem_of_retire? {q q' : MutexPair} {pid : Pid} (h : q.retire? pid = some q') :
    pid ∈ q.pids := by
  unfold retire? at h
  split at h
  case isTrue left => exact left ▸ List.mem_cons_self
  case isFalse =>
    split at h
    case isTrue right => exact right ▸ List.mem_cons_of_mem _ List.mem_cons_self
    case isFalse => cases h

theorem unmarked_retire? {q q' : MutexPair} {pid : Pid} (h : q.retire? pid = some q') :
    q'.unmarked = q.unmarked := by
  unfold retire? at h
  split at h
  · cases h
    rfl
  · split at h
    · cases h
      rfl
    · cases h

end MutexPair

namespace MutexPairs

/-- While a member stays, the pair only gets a mark. -/
theorem unmarked_of_retire_none {pid : Pid} {pairs pairs' : List MutexPair}
    (h : retire pid pairs = (none, pairs')) :
    pairs'.map MutexPair.unmarked = pairs.map MutexPair.unmarked := by
  induction pairs generalizing pairs' with
  | nil =>
    cases h
    rfl
  | cons q pairs ih =>
    unfold retire at h
    cases hq : q.retire? pid with
    | none =>
      rcases hr : retire pid pairs with ⟨locks, rest⟩
      simp only [hq, hr, Prod.mk.injEq] at h
      obtain ⟨rfl, rfl⟩ := h
      rw [List.map_cons, List.map_cons, ih hr]
    | some q' =>
      simp only [hq] at h
      split at h
      case isTrue => cases h
      case isFalse =>
        cases h
        rw [List.map_cons, List.map_cons, MutexPair.unmarked_retire? hq]

theorem exists_unmarked_of_retire_none {pid : Pid} {pairs pairs' : List MutexPair}
    (h : retire pid pairs = (none, pairs')) {q : MutexPair} (hq : q ∈ pairs') :
    ∃ q' ∈ pairs, q'.unmarked = q.unmarked :=
  List.mem_map.1 (unmarked_of_retire_none h ▸ List.mem_map_of_mem hq)

/-- With the second member a pair goes, and its locks are named. -/
theorem split_of_retire_some {pid : Pid} {pairs pairs' : List MutexPair} {a b : LockId}
    (h : retire pid pairs = (some (a, b), pairs')) : ∃ before q after,
      pairs = before ++ q :: after ∧ pairs' = before ++ after ∧ q.locks = [a, b] ∧
      pid ∈ q.pids := by
  induction pairs generalizing pairs' with
  | nil => cases h
  | cons q pairs ih =>
    unfold retire at h
    cases hq : q.retire? pid with
    | none =>
      rcases hr : retire pid pairs with ⟨locks, rest⟩
      simp only [hq, hr, Prod.mk.injEq] at h
      obtain ⟨rfl, rfl⟩ := h
      obtain ⟨before, q', after, rfl, rfl, of_pair⟩ := ih hr
      exact ⟨q :: before, q', after, rfl, rfl, of_pair⟩
    | some q' =>
      simp only [hq] at h
      split at h
      case isTrue =>
        cases h
        have locks := congrArg MutexPair.locks (MutexPair.unmarked_retire? hq)
        exact ⟨[], q, pairs, rfl, rfl, locks.symm, MutexPair.pid_mem_of_retire? hq⟩
      case isFalse => cases h

/-- A pair with other members stays as it is. -/
theorem mem_retire {pid : Pid} {pairs : List MutexPair} {q : MutexPair} (hq : q ∈ pairs)
    (other : pid ∉ q.pids) : q ∈ (retire pid pairs).2 := by
  induction pairs with
  | nil => cases hq
  | cons q₀ pairs ih =>
    unfold retire
    cases h₀ : q₀.retire? pid with
    | none =>
      rcases List.mem_cons.1 hq with rfl | hq
      · exact List.mem_cons_self
      · exact List.mem_cons_of_mem _ (ih hq)
    | some q₁ =>
      have ne : q ≠ q₀ := fun same => other (same ▸ MutexPair.pid_mem_of_retire? h₀)
      have rest := List.mem_of_ne_of_mem ne hq
      simp only
      split
      · exact rest
      · exact List.mem_cons_of_mem _ rest

theorem mem_of_retire_some {pid : Pid} {pairs pairs' : List MutexPair} {a b : LockId}
    (h : retire pid pairs = (some (a, b), pairs')) {q : MutexPair} (hq : q ∈ pairs') :
    q ∈ pairs := by
  obtain ⟨before, q₀, after, rfl, rfl, -⟩ := split_of_retire_some h
  rcases List.mem_append.1 hq with hq | hq
  · exact List.mem_append_left _ hq
  · exact List.mem_append_right _ (List.mem_cons_of_mem _ hq)

end MutexPairs

/-- After two locks were made, every other lock was there before. -/
theorem LockTable.Tidy.new_or_old {t : LockTable} (h : t.Tidy) {k : LockId} {l : Lock}
    (found : t.create.2.create.2.get? k = some l) :
    (∃ id, l = { id }) ∨
      t.get? k = some l ∧ k ≠ t.create.1 ∧ k ≠ t.create.2.create.1 := by
  rw [h.create.get?_create, h.get?_create] at found
  split at found
  case isTrue =>
    cases found
    exact .inl ⟨_, rfl⟩
  case isFalse ne_second =>
    split at found
    case isTrue =>
      cases found
      exact .inl ⟨_, rfl⟩
    case isFalse ne_first => exact .inr ⟨found, ne_first, ne_second⟩

/-- After two locks were made, every lock that was there before is the same. -/
theorem LockTable.Tidy.get?_of_old {t : LockTable} (h : t.Tidy) {k : LockId} {l : Lock}
    (found : t.get? k = some l) : t.create.2.create.2.get? k = some l := by
  have old := Registry.mem_keys_of_get? found
  have ne_first : k ≠ t.create.1 := by
    rintro rfl
    exact h.fresh old
  have ne_second : k ≠ t.create.2.create.1 := by
    rintro rfl
    refine h.create.fresh ?_
    rw [LockTable.create, Registry.keys_add]
    exact List.mem_append_left _ old
  rw [h.create.get?_create, if_neg ne_second, h.get?_create, if_neg ne_first, found]

/-- Two neighbours are taken out of a list without repetition. -/
theorem filter_ne_ne {α : Type} [DecidableEq α] {before after : List α} {a b : α}
    (nodup : (before ++ ([a, b] ++ after)).Nodup) :
    ((before ++ ([a, b] ++ after)).filter (· ≠ a)).filter (· ≠ b) = before ++ after := by
  rw [List.nodup_append, List.nodup_append] at nodup
  obtain ⟨-, ⟨-, -, hafter⟩, hbefore⟩ := nodup
  have kept : ∀ x ∈ before ++ after, x ≠ a ∧ x ≠ b := by
    intro x hx
    rcases List.mem_append.1 hx with hx | hx
    · exact ⟨hbefore x hx a (by simp), hbefore x hx b (by simp)⟩
    · exact ⟨(hafter a (by simp) x hx).symm, (hafter b (by simp) x hx).symm⟩
  rw [List.filter_filter, List.filter_append, List.filter_append, ← List.append_assoc]
  have pair : [a, b].filter (fun x => decide (x ≠ b) && decide (x ≠ a)) = [] := by simp
  rw [pair, List.append_nil, ← List.filter_append, List.filter_eq_self]
  intro x hx
  simpa using (kept x hx).symm

namespace Scene

variable {s s' : Scene}

theorem get?_dropLock (s : Scene) (id k : LockId) :
    (s.dropLock id).locks.get? k = if k = id then none else s.locks.get? k := by
  unfold dropLock
  cases found : s.locks.get? id with
  | none =>
    by_cases here : k = id
    · rw [if_pos here, here, found]
    · rw [if_neg here]
  | some l => exact Registry.get?_erase ..

theorem get?_of_dropLock {id k : LockId} {l : Lock}
    (found : (s.dropLock id).locks.get? k = some l) : s.locks.get? k = some l := by
  rw [get?_dropLock] at found
  split at found
  · cases found
  · exact found

theorem keys_dropLock (s : Scene) (id : LockId) :
    (s.dropLock id).locks.locks.keys = s.locks.locks.keys.filter (· ≠ id) := by
  unfold dropLock
  cases found : s.locks.get? id with
  | none =>
    have absent := Registry.get?_eq_none_iff.1 found
    symm
    apply List.filter_eq_self.2
    intro k mem
    have other : k ≠ id := fun same => absent (same ▸ mem)
    simpa using other
  | some l => exact Registry.keys_erase ..

/-- The mutex pairs divide the locks of the table among themselves. -/
structure Paired (s : Scene) : Prop where
  keys : s.locks.locks.keys = s.pairs.pairs.flatMap MutexPair.locks
  origin : ∀ q ∈ s.pairs.pairs, ∃ first second reversed,
    .mutexPair first second reversed ∈ s.arrived ∧ q.MadeFor first.pid second.pid reversed
  sound : ∀ id l, s.locks.get? id = some l → l.Sound
  within : ∀ q ∈ s.pairs.pairs, ∀ id ∈ q.locks, ∀ l, s.locks.get? id = some l → l.Within q.pids
  members : (s.pairs.pairs.flatMap MutexPair.pids).Sublist
    ((s.arrived.flatMap Arrival.procs).map (·.pid))

namespace Paired

/-- A lock has one owner. -/
theorem owner_unique (h : s.Paired) (tidy : s.Tidy) {q q' : MutexPair} {id : LockId}
    (hq : q ∈ s.pairs.pairs) (hq' : q' ∈ s.pairs.pairs) (hid : id ∈ q.locks)
    (hid' : id ∈ q'.locks) : q = q' :=
  eq_of_nodup_flatMap (h.keys ▸ tidy.locks.nodup) hq hq' hid hid'

/-- A lock has an owner. -/
theorem exists_owner (h : s.Paired) {id : LockId} {l : Lock} (found : s.locks.get? id = some l) :
    ∃ q ∈ s.pairs.pairs, id ∈ q.locks := by
  have mem := Registry.mem_keys_of_get? found
  rw [h.keys] at mem
  exact List.mem_flatMap.1 mem

/-- A process is the member of one pair. -/
theorem pair_unique (h : s.Paired) (distinct : Arrival.Distinct s.arrived) {q q' : MutexPair}
    {pid : Pid} (hq : q ∈ s.pairs.pairs) (hq' : q' ∈ s.pairs.pairs) (hpid : pid ∈ q.pids)
    (hpid' : pid ∈ q'.pids) : q = q' :=
  eq_of_nodup_flatMap (h.members.nodup distinct) hq hq' hpid hpid'

/-- The locks of a pair are two locks. -/
theorem first_ne_second (h : s.Paired) (tidy : s.Tidy) {q : MutexPair}
    (hq : q ∈ s.pairs.pairs) : q.left.first ≠ q.left.second := by
  have nodup := (List.nodup_flatMap.1 (h.keys ▸ tidy.locks.nodup)).1 q hq
  exact fun same => (List.nodup_cons.1 nodup).1 (List.mem_singleton.2 same)

/-- The member of a pair that makes a request of the table makes it of its own lock. -/
theorem exists_owner_of_trap (h : s.Paired) {p : Proc} {t : Trap} {id : LockId} {r : Lock.Request}
    (trap : p.trapAt p.pc s.pairs = .ok (some t)) (request : t.tableRequest? = some (id, r)) :
    ∃ q ∈ s.pairs.pairs, id ∈ q.locks ∧ p.pid ∈ q.pids := by
  rcases Proc.trapAt_cases trap with ⟨program, q, mem, -, hq, member, ht⟩ | ⟨_, _, -, ht⟩ |
    ⟨_, d, -, rfl⟩
  · obtain ⟨_, _, request', hid⟩ := MutexProgram.exists_request_of_trapAt ht
    rw [request] at request'
    cases request'
    obtain ⟨_, _, _, -, made⟩ := h.origin q hq
    exact ⟨q, hq, made.shares.mem_locks member hid, MutexPair.pid_mem_of_member? member⟩
  · cases t <;> cases ht <;> cases request
  · cases request

/-- A newcomer is not a member of a pair that is there. -/
theorem pid_notMem_of_arrival (h : s.Paired) {a : Arrival}
    (distinct : Arrival.Distinct (s.arrived ++ [a])) {p : Proc}
    (hp : p ∈ Queue.cores (s.enrolled a)) :
    ∀ q ∈ s.pairs.pairs, p.pid ∉ q.pids := by
  intro q hq member
  have earlier := h.members.subset (List.mem_flatMap.2 ⟨q, hq, member⟩)
  obtain ⟨g, hg, rfl⟩ := Queue.mem_cores.1 hp
  refine distinct.pid_ne earlier ?_ rfl
  rw [← map_pid_enrolled s a]
  exact List.mem_map.2 ⟨g, hg, rfl⟩

theorem frame (h : s.Paired) (locks : s'.locks.locks = s.locks.locks) (pairs : s'.pairs = s.pairs)
    (arrived : s.arrived <+: s'.arrived) : s'.Paired := by
  have get? : ∀ id, s'.locks.get? id = s.locks.get? id := by
    intro id
    rw [LockTable.get?, locks]
    rfl
  refine ⟨?_, ?_, ?_, ?_, ?_⟩
  · rw [locks, pairs]
    exact h.keys
  · intro q hq
    rw [pairs] at hq
    obtain ⟨first, second, reversed, come, made⟩ := h.origin q hq
    exact ⟨first, second, reversed, arrived.subset come, made⟩
  · intro id l found
    rw [get?] at found
    exact h.sound id l found
  · intro q hq id hid l found
    rw [pairs] at hq
    rw [get?] at found
    exact h.within q hq id hid l found
  · rw [pairs]
    exact h.members.trans ((arrived.sublist.flatMap _).map _)

/-- A pair arrives with two new locks. -/
theorem arrive (h : s.Paired) (tidy : s.Tidy) (first second : Proc) (reversed : Bool)
    (free : Multiset Proc) :
    { s with
      free
      locks := s.locks.create.2.create.2
      pairs := s.pairs.add (.sharing first.pid second.pid s.locks.create.1
        s.locks.create.2.create.1 reversed)
      arrived := s.arrived ++ [Arrival.mutexPair first second reversed] }.Paired := by
  refine ⟨?_, ?_, ?_, ?_, ?_⟩
  · simp only [LockTable.create, Registry.keys_add, MutexPairs.add, List.flatMap_append,
      h.keys, List.append_assoc]
    rfl
  · intro q hq
    rcases List.mem_append.1 hq with hq | hq
    · obtain ⟨f, g, r, come, made⟩ := h.origin q hq
      exact ⟨f, g, r, List.mem_append_left _ come, made⟩
    · refine ⟨first, second, reversed, List.mem_append_right _ List.mem_cons_self, ?_⟩
      rw [List.mem_singleton.1 hq]
      cases reversed <;> rfl
  · intro k l found
    rcases tidy.locks.new_or_old found with ⟨id, rfl⟩ | ⟨found, -⟩
    · exact Lock.sound_new id
    · exact h.sound k l found
  · intro q hq k hk l found
    rcases tidy.locks.new_or_old found with ⟨id, rfl⟩ | ⟨found, ne_first, ne_second⟩
    · exact Lock.within_new id q.pids
    · rcases List.mem_append.1 hq with hq | hq
      · exact h.within q hq k hk l found
      · rw [List.mem_singleton.1 hq] at hk
        rcases List.mem_cons.1 hk with rfl | hk
        · exact absurd rfl ne_first
        · exact absurd (List.mem_singleton.1 hk) ne_second
  · rw [MutexPairs.add, List.flatMap_append, List.flatMap_append, List.map_append]
    apply h.members.append
    cases reversed <;> exact List.Sublist.refl _

/-- A member is served by a lock of its pair. -/
theorem serve (h : s.Paired) (tidy : s.Tidy) {p : Proc} {t : Trap} {id : LockId}
    {r : Lock.Request} {l l' : Lock} {out : Multiset Proc}
    (trap : p.trapAt p.pc s.pairs = .ok (some t)) (request : t.tableRequest? = some (id, r))
    (found : s.locks.get? id = some l) (serves : Lock.Serves p r l l' out) (free : Multiset Proc) :
    { s with free, locks := s.locks.set l' }.Paired := by
  obtain ⟨q₀, hq₀, hid₀, user⟩ := h.exists_owner_of_trap trap request
  have get? := tidy.locks.get?_set found serves.id_eq
  refine ⟨?_, h.origin, ?_, ?_, h.members⟩
  · rw [LockTable.set, Registry.keys_set]
    exact h.keys
  · intro k m hm
    rw [get?] at hm
    split at hm
    case isTrue =>
      cases hm
      exact serves.sound (h.sound id l found)
    case isFalse => exact h.sound k m hm
  · intro q hq k hk m hm
    rw [get?] at hm
    split at hm
    case isTrue here =>
      cases hm
      have own : q = q₀ := h.owner_unique tidy hq hq₀ hk (here ▸ hid₀)
      exact serves.within (h.within q hq id (here ▸ hk) l found) (own ▸ user)
    case isFalse => exact h.within q hq k hk m hm

/-- A pair gets a mark. -/
theorem retire (h : s.Paired) {pid : Pid} {pairs : List MutexPair}
    (hr : MutexPairs.retire pid s.pairs.pairs = (none, pairs)) :
    { s with pairs := ⟨pairs⟩ }.Paired := by
  have marks := MutexPairs.unmarked_of_retire_none hr
  have same : ∀ {β : Type} (f : MutexPair → List β), (∀ q, f q.unmarked = f q) →
      pairs.flatMap f = s.pairs.pairs.flatMap f := by
    intro β f hf
    have mapped := congrArg (List.flatMap f) marks
    simpa only [List.flatMap_map, hf] using mapped
  refine ⟨?_, ?_, h.sound, ?_, ?_⟩
  · rw [same _ MutexPair.locks_unmarked]
    exact h.keys
  · intro q hq
    obtain ⟨q', hq', alike⟩ := MutexPairs.exists_unmarked_of_retire_none hr hq
    obtain ⟨first, second, reversed, come, made⟩ := h.origin q' hq'
    exact ⟨first, second, reversed, come, made.of_unmarked_eq alike.symm⟩
  · intro q hq
    obtain ⟨q', hq', alike⟩ := MutexPairs.exists_unmarked_of_retire_none hr hq
    rw [← q.locks_unmarked, ← q.pids_unmarked, ← alike]
    exact h.within q' hq'
  · rw [same _ MutexPair.pids_unmarked]
    exact h.members

/-- A pair goes, and its locks with it. -/
theorem dissolve (h : s.Paired) (tidy : s.Tidy) {pid : Pid} {pairs : List MutexPair}
    {a b : LockId} (hr : MutexPairs.retire pid s.pairs.pairs = (some (a, b), pairs)) :
    (({ s with pairs := ⟨pairs⟩ }.dropLock a).dropLock b).Paired := by
  obtain ⟨before, q₀, after, hpairs, rfl, hlocks, -⟩ := MutexPairs.split_of_retire_some hr
  have kept := fun q => MutexPairs.mem_of_retire_some (q := q) hr
  refine ⟨?_, ?_, ?_, ?_, ?_⟩
  · have nodup := tidy.locks.nodup
    rw [h.keys, hpairs, List.flatMap_append, List.flatMap_cons, hlocks] at nodup
    rw [keys_dropLock, keys_dropLock, pairs_dropLock, pairs_dropLock, List.flatMap_append]
    refine .trans ?_ (filter_ne_ne nodup)
    rw [h.keys, hpairs, List.flatMap_append, List.flatMap_cons, hlocks]
  · intro q hq
    rw [pairs_dropLock, pairs_dropLock] at hq
    rw [arrived_dropLock, arrived_dropLock]
    exact h.origin q (kept q hq)
  · intro k l found
    have found := get?_of_dropLock (get?_of_dropLock found)
    exact h.sound k l found
  · intro q hq k hk l found
    rw [pairs_dropLock, pairs_dropLock] at hq
    have found := get?_of_dropLock (get?_of_dropLock found)
    exact h.within q (kept q hq) k hk l found
  · rw [pairs_dropLock, pairs_dropLock, arrived_dropLock, arrived_dropLock]
    have members := h.members
    rw [hpairs, List.flatMap_append, List.flatMap_cons] at members
    refine .trans ?_ members
    rw [List.flatMap_append]
    exact (List.Sublist.refl _).append (List.sublist_append_right _ _)

theorem step (h : s.Paired) (tidy : s.Tidy) (step : Step s s') : s'.Paired := by
  have arrived := arrived_prefix_of_step step
  cases step with
  | mutexPair first second reversed => exact h.arrive tidy first second reversed _
  | table runs request found serves => exact h.serve tidy runs.trap request found serves _
  | retire zombie hr => exact h.retire hr
  | dissolve zombie hr => exact h.dissolve tidy hr
  | scan | single | rendezvousPair | goOn | request | channel | complete | terminate | drop |
      leave | close => exact h.frame rfl rfl arrived

end Paired

theorem Fresh.paired (fresh : s.Fresh) : s.Paired := by
  have absent : ∀ id, s.locks.get? id = none := fun id =>
    Registry.get?_eq_none_iff.2 (fresh.locks ▸ List.not_mem_nil)
  refine ⟨by rw [fresh.locks, fresh.pairs]; rfl, ?_, ?_, ?_, by simp [fresh.pairs]⟩
  · simp [fresh.pairs]
  · intro id l found
    rw [absent] at found
    cases found
  · simp [fresh.pairs]

theorem paired_of_steps (fresh : s.Fresh) (steps : Steps s s') : s'.Paired := by
  induction steps with
  | refl => exact fresh.paired
  | tail steps step ih => exact ih.step (tidy_of_steps fresh steps) step

end Scene
end Mlfq
