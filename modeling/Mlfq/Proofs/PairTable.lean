import Mlfq.Proofs.Members
import Mlfq.Proofs.Shared.Pairs

/-! # The table of mutex pairs, call by call

What is in the table is told by the calls that were made of it: a pair is there from its addition
until both its members have been retired, in the order of the additions, and the call that retires
the second of them returns its locks. The row of the members, in which a process is found by its
place, gives the same answers and never looks at a place that is not there. -/

namespace Mlfq

namespace MutexPairs

/-- Two processes and two locks that are added as a pair. -/
structure Addition where
  p1 : Pid
  p2 : Pid
  a : LockId
  b : LockId
  /-- Whether the second process takes the locks in the opposite order. -/
  reversed : Bool
  deriving DecidableEq

/-- The pair as it is added. -/
def Addition.pair (d : Addition) : MutexPair := .sharing d.p1 d.p2 d.a d.b d.reversed

/-- A call of the table. -/
inductive Call where
  | add (d : Addition)
  | retire (pid : Pid)
  deriving DecidableEq

/-- The locks that a call returns, and the table after it. -/
def call (t : MutexPairs) : Call → Option (LockId × LockId) × MutexPairs
  | .add d => (none, t.add d.pair)
  | .retire pid =>
    let (locks, pairs) := retire pid t.pairs
    (locks, ⟨pairs⟩)

/-- The locks that calls made one after the other return, and the table after them. -/
def calls (t : MutexPairs) : List Call → List (Option (LockId × LockId)) × MutexPairs
  | [] => ([], t)
  | c :: cs =>
    let (locks, next) := t.call c
    let (answers, last) := next.calls cs
    (locks :: answers, last)

/-- Only processes that are not in the table are added, and no process as its own partner. -/
def Call.IsNew (t : MutexPairs) : Call → Prop
  | .add d => d.p1 ≠ d.p2 ∧ t.find? d.p1 = none ∧ t.find? d.p2 = none
  | .retire _ => True

instance decidableIsNew (t : MutexPairs) : (c : Call) → Decidable (c.IsNew t)
  | .add d => inferInstanceAs
      (Decidable (d.p1 ≠ d.p2 ∧ t.find? d.p1 = none ∧ t.find? d.p2 = none))
  | .retire _ => isTrue trivial

/-- Whenever one of these calls is made, the processes that it adds are new. -/
def Lawful (t : MutexPairs) : List Call → Prop
  | [] => True
  | c :: cs => c.IsNew t ∧ Lawful (t.call c).2 cs

instance decidableLawful (t : MutexPairs) : (cs : List Call) → Decidable (t.Lawful cs)
  | [] => isTrue trivial
  | c :: cs => @instDecidableAnd _ _ _ (decidableLawful (t.call c).2 cs)

/-- Whether one of these calls retires process `pid`. -/
def gone (cs : List Call) (pid : Pid) : Bool := decide (.retire pid ∈ cs)

theorem gone_add (d : Addition) (cs : List Call) (pid : Pid) :
    gone (.add d :: cs) pid = gone cs pid := by
  simp [gone]

theorem gone_retire (x : Pid) (cs : List Call) (pid : Pid) :
    gone (.retire x :: cs) pid = (decide (pid = x) || gone cs pid) := by
  simp [gone]

/-- The pair of an addition is in the table after these later calls. -/
def Addition.Stands (d : Addition) (later : List Call) : Prop :=
  ¬(gone later d.p1 = true ∧ gone later d.p2 = true)

/-- The record of the first process of an addition after these later calls. -/
def Addition.left (d : Addition) (later : List Call) : PairMember :=
  ⟨d.p1, d.a, d.b, gone later d.p1⟩

/-- The record of the second process, which takes the locks in the opposite order if the pair is
reversed. -/
def Addition.right (d : Addition) (later : List Call) : PairMember :=
  if d.reversed then ⟨d.p2, d.b, d.a, gone later d.p2⟩ else ⟨d.p2, d.a, d.b, gone later d.p2⟩

/-- The locks that an addition names. -/
def Call.brought? : Call → Option (LockId × LockId)
  | .add d => some (d.a, d.b)
  | .retire _ => none

end MutexPairs

namespace MemberRow

open MutexPairs (Call)

/-- A call of the row, in which every place that is looked at has to be there. -/
def call (row : MemberRow) : Call → Except Fault (Option (LockId × LockId) × MemberRow)
  | .add d => .ok (none, row ++ [d.pair.left, d.pair.right])
  | .retire pid => row.retire pid

/-- Calls of the row made one after the other. -/
def calls (row : MemberRow) :
    List Call → Except Fault (List (Option (LockId × LockId)) × MemberRow)
  | [] => .ok ([], row)
  | c :: cs => do
    let (locks, next) ← row.call c
    let (answers, last) ← MemberRow.calls next cs
    return (locks :: answers, last)

end MemberRow

/-! ## What is left of a pair -/

namespace MutexPair

open MutexPairs (Call gone gone_add gone_retire)

variable {q q' : MutexPair} {pid : Pid} {cs : List Call}

/-- The pair with these marks. -/
def mark (q : MutexPair) (left right : Bool) : MutexPair :=
  { left := { q.left with retired := left }, right := { q.right with retired := right } }

/-- What is left of a pair after these calls: whoever is retired gets a mark, and with the second
mark the pair is gone. -/
def after (q : MutexPair) (cs : List Call) : Option MutexPair :=
  let q' := q.mark (q.left.retired || gone cs q.left.pid) (q.right.retired || gone cs q.right.pid)
  if q'.isAbandoned then none else some q'

theorem after_nil (stays : q.isAbandoned = false) : q.after [] = some q := by
  have same : q.mark (q.left.retired || gone [] q.left.pid)
      (q.right.retired || gone [] q.right.pid) = q := by
    simp [mark, gone]
  simp only [after, same, stays]
  rfl

theorem after_add (d : MutexPairs.Addition) : q.after (.add d :: cs) = q.after cs := by
  simp only [after, gone_add]

theorem after_of_isAbandoned (goes : q.isAbandoned = true) : q.after cs = none := by
  simp only [isAbandoned, Bool.and_eq_true] at goes
  simp [after, mark, isAbandoned, goes]

/-- A process that is no member does not touch the pair. -/
theorem after_retire_of_none (h : q.retire? pid = none) :
    q.after (.retire pid :: cs) = q.after cs := by
  have left : q.left.pid ≠ pid := by
    intro own
    simp [retire?, own] at h
  have right : q.right.pid ≠ pid := by
    intro own
    simp [retire?, left, own] at h
  simp only [after, gone_retire, left, right, decide_false, Bool.false_or]

/-- A member that goes is marked, whatever comes later. -/
theorem after_retire_of_some (distinct : q.left.pid ≠ q.right.pid) (h : q.retire? pid = some q') :
    q.after (.retire pid :: cs) = q'.after cs := by
  unfold retire? at h
  split at h
  case isTrue left =>
    cases h
    subst left
    simp [after, mark, gone_retire, isAbandoned, distinct.symm]
  case isFalse left =>
    split at h
    case isTrue right =>
      cases h
      subst right
      simp [after, mark, gone_retire, isAbandoned, left]
    case isFalse => cases h

/-- First some calls, and then others. -/
theorem after_append (h : q.after cs = some q') (later : List Call) :
    q.after (cs ++ later) = q'.after later := by
  have both : ∀ x, gone (cs ++ later) x = (gone cs x || gone later x) := by
    simp [gone]
  simp only [after] at h
  split at h
  · cases h
  · cases h
    simp only [after, both, mark, Bool.or_assoc]

theorem ne_of_nodup_pids (distinct : q.pids.Nodup) : q.left.pid ≠ q.right.pid := by
  intro same
  simp [pids, same] at distinct

end MutexPair

namespace MutexPairs

variable {t : MutexPairs} {q : MutexPair} {cs : List Call} {pid : Pid} {d : Addition}

theorem pids_pair (d : Addition) : d.pair.pids = [d.p1, d.p2] := by
  cases h : d.reversed <;> simp [Addition.pair, MutexPair.sharing, MutexPair.pids, h]

theorem isAbandoned_pair (d : Addition) : d.pair.isAbandoned = false := by
  simp [Addition.pair, MutexPair.sharing, MutexPair.isAbandoned]

/-- The records of a pair that is there. -/
theorem after_pair (stands : d.Stands cs) : d.pair.after cs = some ⟨d.left cs, d.right cs⟩ := by
  have left : (gone cs d.p1 && gone cs d.p2) = false := by
    rw [← Bool.not_eq_true, Bool.and_eq_true]
    exact stands
  cases h : d.reversed <;>
    simp [MutexPair.after, MutexPair.mark, MutexPair.isAbandoned, Addition.pair, MutexPair.sharing,
      Addition.left, Addition.right, h, left]

theorem stands_of_after (h : d.pair.after cs = some q) : d.Stands cs := by
  rintro ⟨first, second⟩
  cases reversed : d.reversed <;>
    simp [MutexPair.after, MutexPair.mark, MutexPair.isAbandoned, Addition.pair, MutexPair.sharing,
      reversed, first, second] at h

/-! ## The table after calls -/

/-- Nobody is in the table twice, and a pair of which both members have gone is not in it. -/
structure Sound (t : MutexPairs) : Prop where
  distinct : (t.pairs.flatMap MutexPair.pids).Nodup
  stays : ∀ q ∈ t.pairs, q.isAbandoned = false

theorem find?_eq_none_iff : t.find? pid = none ↔ pid ∉ t.pairs.flatMap MutexPair.pids := by
  rw [find?, List.findSome?_eq_none_iff, List.mem_flatMap]
  constructor
  · rintro none ⟨q, hq, own⟩
    obtain ⟨mem, found⟩ := MutexPair.exists_member? own
    rw [none q hq] at found
    cases found
  · intro absent q hq
    rw [Option.eq_none_iff_forall_ne_some]
    intro mem found
    exact absent ⟨q, hq, MutexPair.pid_mem_of_member? found⟩

namespace Sound

theorem empty : ({} : MutexPairs).Sound := ⟨List.nodup_nil, nofun⟩

theorem add (h : t.Sound) (new : (Call.add d).IsNew t) : (t.add d.pair).Sound := by
  obtain ⟨ne, first, second⟩ := new
  rw [find?_eq_none_iff] at first second
  constructor
  · rw [MutexPairs.add, List.flatMap_append, List.flatMap_singleton, pids_pair, List.nodup_append]
    refine ⟨h.distinct, by simpa using ne, ?_⟩
    rintro x hx y hy rfl
    rcases List.mem_pair.1 hy with rfl | rfl
    · exact first hx
    · exact second hx
  · intro q hq
    rcases List.mem_append.1 hq with old | new
    · exact h.stays q old
    · rw [List.mem_singleton.1 new]
      exact isAbandoned_pair d

theorem retire (h : t.Sound) (pid : Pid) : Sound ⟨(MutexPairs.retire pid t.pairs).2⟩ := by
  constructor
  · exact h.distinct.sublist (flatMap_pids_retire pid t.pairs)
  · intro q hq
    rcases (mem_retire_iff h.distinct).1 hq with ⟨old, -⟩ | ⟨-, -, -, stays⟩
    · exact h.stays q old
    · exact stays

theorem call (h : t.Sound) {c : Call} (new : c.IsNew t) : (t.call c).2.Sound := by
  cases c with
  | add d => exact h.add new
  | retire pid => exact h.retire pid

theorem calls (h : t.Sound) (lawful : t.Lawful cs) : (t.calls cs).2.Sound := by
  induction cs generalizing t with
  | nil => exact h
  | cons c cs ih => exact ih (h.call lawful.1) lawful.2

end Sound

/-- The pairs that the calls leave in the table: those that were added and of which not both members
were retired later. -/
def standing : List Call → List MutexPair
  | [] => []
  | .add d :: later => (d.pair.after later).toList ++ standing later
  | .retire _ :: later => standing later

/-- A pair in the table is an addition to which later calls gave its marks. -/
theorem mem_standing : q ∈ standing cs ↔
    ∃ d later, .add d :: later <:+ cs ∧ d.pair.after later = some q := by
  induction cs with
  | nil => simp [standing]
  | cons c cs ih =>
    cases c with
    | add d =>
      simp only [standing, List.mem_append, Option.mem_toList, ih, List.suffix_cons_iff]
      constructor
      · rintro (here | ⟨e, later, before, left⟩)
        · exact ⟨d, cs, .inl rfl, here⟩
        · exact ⟨e, later, .inr before, left⟩
      · rintro ⟨e, later, same | before, left⟩
        · cases same
          exact .inl left
        · exact .inr ⟨e, later, before, left⟩
    | retire pid =>
      simp [standing, ih, List.suffix_cons_iff]

/-- It makes no difference whether a process goes before or among the later calls. -/
theorem filterMap_after_retire {pairs : List MutexPair}
    (distinct : (pairs.flatMap MutexPair.pids).Nodup) (pid : Pid) (cs : List Call) :
    (retire pid pairs).2.filterMap (·.after cs) =
      pairs.filterMap (·.after (.retire pid :: cs)) := by
  induction pairs with
  | nil => rfl
  | cons q pairs ih =>
    rw [List.flatMap_cons, List.nodup_append] at distinct
    obtain ⟨own, rest, apart⟩ := distinct
    unfold retire
    cases marked : q.retire? pid with
    | none =>
      simp only [List.filterMap_cons, MutexPair.after_retire_of_none marked, ih rest]
    | some q' =>
      have same : q.after (.retire pid :: cs) = q'.after cs :=
        MutexPair.after_retire_of_some (MutexPair.ne_of_nodup_pids own) marked
      -- No other pair has this member.
      have others : pairs.filterMap (·.after (.retire pid :: cs)) =
          pairs.filterMap (·.after cs) := by
        apply List.filterMap_congr
        intro r hr
        apply MutexPair.after_retire_of_none
        rw [Option.eq_none_iff_forall_ne_some]
        intro r' marked'
        have member := List.mem_flatMap.2 ⟨r, hr, MutexPair.pid_mem_of_retire? marked'⟩
        exact apart pid (MutexPair.pid_mem_of_retire? marked) pid member rfl
      simp only [List.filterMap_cons, same, others]
      split
      case isTrue goes => simp only [MutexPair.after_of_isAbandoned goes]
      case isFalse => rw [List.filterMap_cons]

/-- After calls the table holds what they left of the pairs that were there, and of those that they
added. -/
theorem pairs_calls (sound : t.Sound) (lawful : t.Lawful cs) :
    (t.calls cs).2.pairs = t.pairs.filterMap (·.after cs) ++ standing cs := by
  induction cs generalizing t with
  | nil =>
    have all : t.pairs.filterMap (·.after []) = t.pairs := by
      rw [List.filterMap_congr fun q hq => MutexPair.after_nil (sound.stays q hq)]
      exact List.filterMap_some
    rw [all]
    exact (List.append_nil _).symm
  | cons c cs ih =>
    have next := ih (sound.call lawful.1) lawful.2
    cases c with
    | add d =>
      have later : ∀ q : MutexPair, q.after (.add d :: cs) = q.after cs :=
        fun q => MutexPair.after_add d
      have pairs : (t.call (.add d)).2.pairs = t.pairs ++ [d.pair] := rfl
      rw [pairs, List.filterMap_append, List.append_assoc] at next
      simp only [later, standing]
      refine next.trans ?_
      cases h : d.pair.after cs <;> simp [h]
    | retire pid =>
      have pairs : (t.call (.retire pid)).2.pairs = (MutexPairs.retire pid t.pairs).2 := rfl
      rw [pairs, filterMap_after_retire sound.distinct] at next
      exact next

/-! ## Looking into the table -/

/-- The members of pair `k` have the places `2 * k` and `2 * k + 1`. -/
theorem getElem?_members (t : MutexPairs) (k : Nat) :
    t.members[2 * k]? = (t.pairs[k]?).map (·.left) ∧
      t.members[2 * k + 1]? = (t.pairs[k]?).map (·.right) := by
  obtain ⟨pairs⟩ := t
  induction pairs generalizing k with
  | nil => simp [members]
  | cons q pairs ih =>
    have row : members ⟨q :: pairs⟩ = q.left :: q.right :: members ⟨pairs⟩ := rfl
    cases k with
    | zero => simp [row]
    | succ k =>
      have place : 2 * (k + 1) = 2 * k + 1 + 1 := by omega
      simp only [row, place, List.getElem?_cons_succ]
      exact ih k

/-- The two members of a pair are found, and each is the partner of the other. -/
theorem Sound.lookup (h : t.Sound) (hq : q ∈ t.pairs) :
    t.find? q.left.pid = some q.left ∧ t.find? q.right.pid = some q.right ∧
      t.partner? q.left.pid = some q.right.pid ∧ t.partner? q.right.pid = some q.left.pid := by
  obtain ⟨before, after, split⟩ := List.append_of_mem hq
  have distinct := h.distinct
  rw [split, List.flatMap_append, List.flatMap_cons, List.nodup_append, List.nodup_append]
    at distinct
  obtain ⟨-, ⟨own, -, -⟩, apart⟩ := distinct
  have ne := MutexPair.ne_of_nodup_pids own
  have elsewhere : ∀ x ∈ q.pids, ∀ r ∈ before, x ≠ r.left.pid ∧ x ≠ r.right.pid := by
    intro x hx r hr
    have other : ∀ y ∈ r.pids, x ≠ y := fun y hy same =>
      apart y (List.mem_flatMap.2 ⟨r, hr, hy⟩) x (List.mem_append_left _ hx) same.symm
    exact ⟨other _ List.mem_cons_self, other _ (List.mem_cons_of_mem _ List.mem_cons_self)⟩
  have search : ∀ x ∈ q.pids, t.find? x = q.member? x ∧ t.partner? x = q.partner? x := by
    intro x hx
    have none : before.findSome? (·.member? x) = none ∧ before.findSome? (·.partner? x) = none := by
      constructor <;>
        · rw [List.findSome?_eq_none_iff]
          intro r hr
          obtain ⟨left, right⟩ := elsewhere x hx r hr
          simp [MutexPair.member?, MutexPair.partner?, left.symm, right.symm]
    have here : (q.member? x).isSome = true ∧ (q.partner? x).isSome = true := by
      rcases List.mem_pair.1 hx with rfl | rfl <;>
        simp [MutexPair.member?, MutexPair.partner?, ne]
    obtain ⟨mem, hmem⟩ := Option.isSome_iff_exists.1 here.1
    obtain ⟨other, hother⟩ := Option.isSome_iff_exists.1 here.2
    rw [find?, partner?, split, List.findSome?_append, List.findSome?_append, none.1, none.2,
      List.findSome?_cons, List.findSome?_cons, hmem, hother]
    exact ⟨rfl, rfl⟩
  have left := search q.left.pid List.mem_cons_self
  have right := search q.right.pid (List.mem_cons_of_mem _ List.mem_cons_self)
  rw [left.1, left.2, right.1, right.2]
  simp [MutexPair.member?, MutexPair.partner?, ne]

/-- Who is found is a member of a pair. -/
theorem exists_pair_of_find? {mem : PairMember} (h : t.find? pid = some mem) :
    ∃ q ∈ t.pairs, pid = q.left.pid ∨ pid = q.right.pid := by
  obtain ⟨q, hq, found⟩ := List.exists_of_findSome?_eq_some h
  have member := MutexPair.pid_mem_of_member? found
  exact ⟨q, hq, List.mem_pair.1 member⟩

theorem partner?_eq_none (h : t.find? pid = none) : t.partner? pid = none := by
  rw [find?, List.findSome?_eq_none_iff] at h
  rw [partner?, List.findSome?_eq_none_iff]
  intro q hq
  have none := h q hq
  unfold MutexPair.member? at none
  unfold MutexPair.partner?
  split at none
  · cases none
  · split at none
    · cases none
    · simp [*]

/-! ## Locks that come back -/

/-- The locks that a pair leaves behind. -/
def leftover (q : MutexPair) : LockId × LockId := (q.left.first, q.left.second)

theorem leftover_of_unmarked_eq {q q' : MutexPair} (h : q'.unmarked = q.unmarked) :
    leftover q' = leftover q := by
  obtain ⟨first, second⟩ := MutexPair.locks_of_unmarked_eq h
  rw [leftover, leftover, first, second]

/-- Locks are returned for the pair of the process that is retired, when its partner is gone. -/
theorem Sound.retire_eq_some_iff (h : t.Sound) {locks : LockId × LockId} :
    (MutexPairs.retire pid t.pairs).1 = some locks ↔
      ∃ q ∈ t.pairs, pid ∈ q.pids ∧ q.after [.retire pid] = none ∧ leftover q = locks := by
  obtain ⟨pairs⟩ := t
  obtain ⟨distinct, stays⟩ := h
  induction pairs with
  | nil => simp [MutexPairs.retire]
  | cons q pairs ih =>
    rw [List.flatMap_cons, List.nodup_append] at distinct
    obtain ⟨own, rest, apart⟩ := distinct
    unfold MutexPairs.retire
    cases marked : q.retire? pid with
    | none =>
      have other : pid ∉ q.pids := by
        intro member
        obtain ⟨q', hq'⟩ := q.exists_retire? member
        rw [marked] at hq'
        cases hq'
      simp only [List.mem_cons, exists_eq_or_imp, other, false_and, false_or]
      exact ih rest fun r hr => stays r (List.mem_cons_of_mem _ hr)
    | some q' =>
      have member := MutexPair.pid_mem_of_retire? marked
      have others : ¬∃ r ∈ pairs, pid ∈ r.pids ∧ r.after [.retire pid] = none ∧
          leftover r = locks := by
        rintro ⟨r, hr, mine, -⟩
        exact apart pid member pid (List.mem_flatMap.2 ⟨r, hr, mine⟩) rfl
      have left : q.after [.retire pid] = q'.after [] :=
        MutexPair.after_retire_of_some (MutexPair.ne_of_nodup_pids own) marked
      have same := leftover_of_unmarked_eq (MutexPair.unmarked_retire? marked)
      simp only [List.mem_cons, exists_eq_or_imp, others, or_false, member, true_and, left]
      cases goes : q'.isAbandoned with
      | true =>
        rw [MutexPair.after_of_isAbandoned goes, ← same]
        simp [leftover]
      | false =>
        rw [MutexPair.after_nil goes]
        simp

/-- Whatever locks are in the table or come into it are returned or stay. -/
theorem returned_perm (t : MutexPairs) (cs : List Call) :
    ((t.calls cs).1.filterMap id ++ (t.calls cs).2.pairs.map leftover).Perm
      (t.pairs.map leftover ++ cs.filterMap Call.brought?) := by
  induction cs generalizing t with
  | nil => simp [calls]
  | cons c cs ih =>
    have next := ih (t.call c).2
    cases c with
    | add d =>
      have pairs : (t.call (.add d)).2.pairs = t.pairs ++ [d.pair] := rfl
      rw [pairs, List.map_append, List.append_assoc] at next
      exact next
    | retire pid =>
      rcases hr : retire pid t.pairs with ⟨locks, pairs⟩
      have now : t.call (.retire pid) = (locks, ⟨pairs⟩) := by simp only [call, hr]
      rw [now] at next
      simp only [calls, now, List.filterMap_cons, Call.brought?]
      cases locks with
      | none =>
        have same : pairs.map leftover = t.pairs.map leftover := by
          have unmarked := unmarked_of_retire_none hr
          have through := congrArg (List.map leftover) unmarked
          rwa [List.map_map, List.map_map] at through
        rw [← same]
        exact next
      | some locks =>
        obtain ⟨a, b⟩ := locks
        obtain ⟨before, q, after, split, rfl, own, -⟩ := split_of_retire_some hr
        have left : leftover q = (a, b) := by
          simp only [MutexPair.locks, List.cons.injEq, and_true] at own
          rw [leftover, own.1, own.2]
        have whole : t.pairs.map leftover =
            before.map leftover ++ (a, b) :: after.map leftover := by
          rw [split, List.map_append, List.map_cons, left]
        rw [whole, List.append_assoc]
        refine (next.cons (a, b)).trans ?_
        rw [List.map_append, List.append_assoc]
        exact List.perm_middle.symm

/-! ## The row -/

/-- The row answers every call as the table does. -/
theorem call_members (t : MutexPairs) (c : Call) :
    MemberRow.call t.members c = .ok ((t.call c).1, (t.call c).2.members) := by
  cases c with
  | add d =>
    have row : (t.add d.pair).members = t.members ++ [d.pair.left, d.pair.right] := by
      simp [members, add]
    rw [MemberRow.call, call, row]
  | retire pid => exact t.retire_members pid

theorem calls_members (t : MutexPairs) (cs : List Call) :
    MemberRow.calls t.members cs = .ok ((t.calls cs).1, (t.calls cs).2.members) := by
  induction cs generalizing t with
  | nil => rfl
  | cons c cs ih =>
    rw [MemberRow.calls, call_members]
    simp only [bind, Except.bind, ih]
    rfl

/-- The members of pairs that differ in the marks only differ in the marks only. -/
theorem map_members_unmarked (pairs : List MutexPair) :
    (members ⟨pairs⟩).map (fun e => { e with retired := false }) =
      members ⟨pairs.map MutexPair.unmarked⟩ := by
  simp [members, List.map_flatMap, List.flatMap_map, MutexPair.unmarked]

/-! ## All calls -/

/-- The table that calls make of an empty one. -/
def ofCalls (cs : List Call) : MutexPairs := (calls {} cs).2

/-- What the table and the row of its members show after calls. -/
structure StaysPaired (cs : List Call) : Prop where
  /-- The row gives the same answers, and no place is looked at that is not there. -/
  row : MemberRow.calls [] cs = .ok ((calls {} cs).1, (ofCalls cs).members)
  rowSearch : ∀ pid, MemberRow.search (ofCalls cs).members pid = .ok ((ofCalls cs).find? pid)
  rowPartner : ∀ pid, MemberRow.partner (ofCalls cs).members pid = .ok ((ofCalls cs).partner? pid)
  /-- The pairs are those added and not gone, in the order of their additions. -/
  pairs : (ofCalls cs).pairs = standing cs
  /-- Two neighbours in the row are the members of one addition. -/
  places : ∀ k, 2 * k < (ofCalls cs).members.length → ∃ d later, .add d :: later <:+ cs ∧
    d.Stands later ∧ (ofCalls cs).members[2 * k]? = some (d.left later) ∧
      (ofCalls cs).members[2 * k + 1]? = some (d.right later)
  search : ∀ d later, .add d :: later <:+ cs → d.Stands later →
    (ofCalls cs).find? d.p1 = some (d.left later) ∧ (ofCalls cs).find? d.p2 = some (d.right later)
  mapped : ∀ pid, (ofCalls cs).find? pid ≠ none → ∃ d later, .add d :: later <:+ cs ∧
    d.Stands later ∧ (pid = d.p1 ∨ pid = d.p2)
  partner : ∀ pid, (ofCalls cs).find? pid ≠ none → ∃ other, other ≠ pid ∧
    (ofCalls cs).partner? pid = some other ∧ (ofCalls cs).partner? other = some pid
  noPartner : ∀ pid, (ofCalls cs).find? pid = none → (ofCalls cs).partner? pid = none
  /-- A call returns the locks of the addition that stood before it and does not stand after it. -/
  closes : ∀ pid a b, ((ofCalls cs).call (.retire pid)).1 = some (a, b) ↔
    ∃ d later, .add d :: later <:+ cs ∧ d.Stands later ∧ ¬d.Stands (later ++ [.retire pid]) ∧
      d.a = a ∧ d.b = b
  /-- Two neighbours leave the row with the locks. -/
  removes : ∀ pid locks, ((ofCalls cs).call (.retire pid)).1 = some locks →
    ∃ before left right after, (ofCalls cs).members = before ++ left :: right :: after ∧
      before.length % 2 = 0 ∧ (left.pid = pid ∨ right.pid = pid) ∧
      (left.first, left.second) = locks ∧
      ((ofCalls cs).call (.retire pid)).2.members = before ++ after
  /-- Without locks all processes, locks and places stay. -/
  keeps : ∀ pid, ((ofCalls cs).call (.retire pid)).1 = none →
    ((ofCalls cs).call (.retire pid)).2.members.map (fun e => { e with retired := false }) =
      (ofCalls cs).members.map fun e => { e with retired := false }
  /-- The locks of each addition were returned once or are still in the table. -/
  returned : ((calls {} cs).1.filterMap id ++ (ofCalls cs).pairs.map leftover).Perm
    (cs.filterMap Call.brought?)

/-- With one more retirement an addition falls if the process is one of its two and nothing is left
of the pair. -/
theorem not_stands_append_iff (stands : d.Stands cs) :
    ¬d.Stands (cs ++ [.retire pid]) ↔ (pid = d.p1 ∨ pid = d.p2) ∧
      d.pair.after (cs ++ [.retire pid]) = none := by
  have left : d.pair.after (cs ++ [.retire pid]) = none ↔ ¬d.Stands (cs ++ [.retire pid]) := by
    constructor
    · intro none stands
      rw [after_pair stands] at none
      cases none
    · intro fallen
      rw [Option.eq_none_iff_forall_ne_some]
      exact fun q left => fallen (stands_of_after left)
  rw [left, iff_and_self]
  intro fallen
  by_contra other
  obtain ⟨first, second⟩ := not_or.1 other
  apply fallen
  rintro ⟨gone₁, gone₂⟩
  apply stands
  constructor
  · simpa [gone, Ne.symm first] using gone₁
  · simpa [gone, Ne.symm second] using gone₂

theorem ofCalls_pairs (lawful : Lawful {} cs) : (ofCalls cs).pairs = standing cs :=
  pairs_calls Sound.empty lawful

/-- The pairs in the table are the additions that stand. -/
theorem mem_ofCalls (lawful : Lawful {} cs) : q ∈ (ofCalls cs).pairs ↔
    ∃ d later, .add d :: later <:+ cs ∧ d.Stands later ∧ q = ⟨d.left later, d.right later⟩ := by
  rw [ofCalls_pairs lawful, mem_standing]
  constructor
  · rintro ⟨d, later, added, left⟩
    have stands := stands_of_after left
    rw [after_pair stands] at left
    exact ⟨d, later, added, stands, (Option.some.inj left).symm⟩
  · rintro ⟨d, later, added, stands, rfl⟩
    exact ⟨d, later, added, after_pair stands⟩

theorem pid_right (d : Addition) (later : List Call) : (d.right later).pid = d.p2 := by
  unfold Addition.right
  split <;> rfl

/-- Locks come back for the addition that does not stand any more. -/
theorem closes_iff (lawful : Lawful {} cs) {a b : LockId} :
    ((ofCalls cs).call (.retire pid)).1 = some (a, b) ↔
      ∃ d later, .add d :: later <:+ cs ∧ d.Stands later ∧ ¬d.Stands (later ++ [.retire pid]) ∧
        d.a = a ∧ d.b = b := by
  have sound : (ofCalls cs).Sound := Sound.empty.calls lawful
  have returns : ((ofCalls cs).call (.retire pid)).1 = (retire pid (ofCalls cs).pairs).1 := rfl
  rw [returns, sound.retire_eq_some_iff]
  constructor
  · rintro ⟨q, hq, member, goes, locks⟩
    obtain ⟨d, later, added, stands, rfl⟩ := (mem_ofCalls lawful).1 hq
    refine ⟨d, later, added, stands, ?_, congrArg Prod.fst locks, congrArg Prod.snd locks⟩
    rw [not_stands_append_iff stands, MutexPair.after_append (after_pair stands)]
    refine ⟨?_, goes⟩
    rw [← pid_right d later]
    exact List.mem_pair.1 member
  · rintro ⟨d, later, added, stands, fallen, rfl, rfl⟩
    rw [not_stands_append_iff stands, MutexPair.after_append (after_pair stands)] at fallen
    refine ⟨_, (mem_ofCalls lawful).2 ⟨d, later, added, stands, rfl⟩, ?_, fallen.2, rfl⟩
    rw [← pid_right d later] at fallen
    exact List.mem_pair.2 fallen.1

/-- Whatever is called of an empty table, the row of its members stays a row of pairs. Only
processes that are not in the table are to be added. -/
theorem staysPaired_of_lawful (lawful : Lawful {} cs) : StaysPaired cs := by
  have sound : (ofCalls cs).Sound := Sound.empty.calls lawful
  constructor
  case row => exact calls_members {} cs
  case rowSearch => exact (ofCalls cs).search_members
  case rowPartner => exact (ofCalls cs).partner_members
  case pairs => exact ofCalls_pairs lawful
  case places =>
    intro k inside
    rw [length_members, size] at inside
    have found := List.getElem?_eq_getElem (Nat.lt_of_mul_lt_mul_left inside)
    obtain ⟨d, later, added, stands, same⟩ := (mem_ofCalls lawful).1 (List.mem_of_getElem? found)
    have places := (ofCalls cs).getElem?_members k
    rw [found, same] at places
    exact ⟨d, later, added, stands, places⟩
  case search =>
    intro d later added stands
    obtain ⟨left, right, -⟩ := sound.lookup ((mem_ofCalls lawful).2 ⟨d, later, added, stands, rfl⟩)
    rw [pid_right] at right
    exact ⟨left, right⟩
  case mapped =>
    intro pid mapped
    obtain ⟨mem, found⟩ := Option.ne_none_iff_exists'.1 mapped
    obtain ⟨q, hq, own⟩ := exists_pair_of_find? found
    obtain ⟨d, later, added, stands, rfl⟩ := (mem_ofCalls lawful).1 hq
    rw [pid_right] at own
    exact ⟨d, later, added, stands, own⟩
  case partner =>
    intro pid mapped
    obtain ⟨mem, found⟩ := Option.ne_none_iff_exists'.1 mapped
    obtain ⟨q, hq, own⟩ := exists_pair_of_find? found
    have ne := MutexPair.ne_of_nodup_pids ((List.nodup_flatMap.1 sound.distinct).1 q hq)
    obtain ⟨-, -, left, right⟩ := sound.lookup hq
    rcases own with rfl | rfl
    · exact ⟨q.right.pid, ne.symm, left, right⟩
    · exact ⟨q.left.pid, ne, right, left⟩
  case noPartner => exact fun pid => partner?_eq_none
  case closes => exact fun pid a b => closes_iff lawful
  case removes =>
    intro pid locks closed
    rcases hr : retire pid (ofCalls cs).pairs with ⟨returned, pairs⟩
    have now : (ofCalls cs).call (.retire pid) = (returned, ⟨pairs⟩) := by simp only [call, hr]
    rw [now] at closed ⊢
    obtain rfl : returned = some locks := closed
    obtain ⟨before, q, after, split, rfl, own, member⟩ := split_of_retire_some hr
    refine ⟨members ⟨before⟩, q.left, q.right, members ⟨after⟩, ?_, even_length_members _, ?_, ?_,
      ?_⟩
    · rw [← members_append before q after, ← split]
    · rcases List.mem_pair.1 member with left | right
      · exact .inl left.symm
      · exact .inr right.symm
    · simp only [MutexPair.locks, List.cons.injEq, and_true] at own
      rw [own.1, own.2]
    · exact List.flatMap_append
  case keeps =>
    intro pid none
    rcases hr : retire pid (ofCalls cs).pairs with ⟨returned, pairs⟩
    have now : (ofCalls cs).call (.retire pid) = (returned, ⟨pairs⟩) := by simp only [call, hr]
    rw [now] at none ⊢
    obtain rfl : returned = .none := none
    rw [map_members_unmarked, unmarked_of_retire_none hr, ← map_members_unmarked]
  case returned => exact returned_perm {} cs

/-- A pair whose second member goes first, a process that is retired twice, one that is in no pair,
and one that comes back after its pair has gone. -/
def Call.roundTrip : List Call :=
  [.add ⟨⟨0⟩, ⟨1⟩, ⟨0⟩, ⟨1⟩, true⟩, .add ⟨⟨2⟩, ⟨3⟩, ⟨2⟩, ⟨3⟩, false⟩, .retire ⟨1⟩, .retire ⟨1⟩,
    .retire ⟨7⟩, .retire ⟨2⟩, .retire ⟨0⟩, .add ⟨⟨4⟩, ⟨0⟩, ⟨4⟩, ⟨5⟩, true⟩, .retire ⟨0⟩]

/-- In the end two pairs are left, each with one member that has gone. -/
theorem staysPaired_of_lawful_roundTrip : Lawful {} Call.roundTrip ∧ StaysPaired Call.roundTrip ∧
    (calls {} Call.roundTrip).1.filterMap id = [(⟨0⟩, ⟨1⟩)] ∧
    (ofCalls Call.roundTrip).members =
      [⟨⟨2⟩, ⟨2⟩, ⟨3⟩, true⟩, ⟨⟨3⟩, ⟨2⟩, ⟨3⟩, false⟩,
        ⟨⟨4⟩, ⟨4⟩, ⟨5⟩, false⟩, ⟨⟨0⟩, ⟨5⟩, ⟨4⟩, true⟩] := by
  have lawful : Lawful {} Call.roundTrip := by decide
  exact ⟨lawful, staysPaired_of_lawful lawful, by decide, by decide⟩

end MutexPairs
end Mlfq
