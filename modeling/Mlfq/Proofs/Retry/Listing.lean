import Mlfq.Proofs.Mutex.Holding
import Mlfq.Proofs.Shared.Frame
import Mlfq.Proofs.Shared.Pairs

/-! # A member that stays

As long as a member of a mutex pair is not dropped, it is listed under its number with the locks
that it got on its arrival, and between two cycles these locks stay as they are. It does not matter
whether the numbers of the others are different. -/

namespace Mlfq

namespace MutexPair

variable {q q' : MutexPair} {pid x : Pid} {mem : PairMember}

/-- A member is the same when another process goes. -/
theorem member?_of_retire? (h : q.retire? x = some q') (other : x ≠ pid) :
    q'.member? pid = q.member? pid := by
  unfold retire? at h
  unfold member?
  split at h
  case isTrue left =>
    cases h
    rw [if_neg (fun own => other (left.symm.trans own)),
      if_neg (fun own => other (left.symm.trans own))]
  case isFalse =>
    split at h
    case isTrue right =>
      cases h
      rw [if_neg (fun own => other (right.symm.trans own)),
        if_neg (fun own => other (right.symm.trans own))]
    case isFalse => cases h

/-- A pair that goes has marks for both its members. -/
theorem retired_of_isAbandoned (goes : q.isAbandoned = true) (h : q.member? pid = some mem) :
    mem.retired = true := by
  rw [isAbandoned, Bool.and_eq_true] at goes
  rcases eq_of_member? h with rfl | rfl
  · exact goes.1
  · exact goes.2

/-- The member that is a process has a mark if the process has one. -/
theorem marks_of_member? (h : q.member? pid = some mem) (marked : mem.retired = true) :
    q.Marks pid := by
  unfold member? at h
  split at h
  case isTrue left =>
    cases h
    exact .inl ⟨left, marked⟩
  case isFalse =>
    split at h
    case isTrue right =>
      cases h
      exact .inr ⟨right, marked⟩
    case isFalse => cases h

end MutexPair

namespace MutexPairs

variable {t : MutexPairs} {pid x : Pid} {mem : PairMember}

theorem find?_add (h : t.find? pid = some mem) (q : MutexPair) :
    (t.add q).find? pid = some mem := by
  rw [find?, add, List.findSome?_append]
  exact Option.or_eq_some_iff.2 (.inl h)

/-- A member without a mark is found as before when another process goes. -/
theorem find?_retire {pairs : List MutexPair} (h : find? ⟨pairs⟩ pid = some mem)
    (unmarked : mem.retired = false) (other : x ≠ pid) :
    find? ⟨(retire x pairs).2⟩ pid = some mem := by
  unfold find? at *
  induction pairs with
  | nil => cases h
  | cons q pairs ih =>
    rw [List.findSome?_cons] at h
    unfold retire
    cases marks : q.retire? x with
    | none =>
      dsimp only
      rw [List.findSome?_cons]
      cases own : q.member? pid with
      | some => rwa [own] at h
      | none =>
        rw [own] at h
        exact ih h
    | some q' =>
      have same := MutexPair.member?_of_retire? marks other
      dsimp only
      split
      case isTrue goes =>
        -- Its own pair does not go.
        cases own : q.member? pid with
        | some =>
          rw [own] at h same
          cases h
          rw [MutexPair.retired_of_isAbandoned goes same] at unmarked
          cases unmarked
        | none => rwa [own] at h
      case isFalse => rwa [List.findSome?_cons, same]

end MutexPairs

variable {σ : Type}

namespace Machine

variable {m m' : Machine σ} {pid : Pid} {mem : PairMember}

/-- Process `pid` is listed as the member `mem` of a pair, and has no mark. -/
structure Enlists (m : Machine σ) (pid : Pid) (mem : PairMember) : Prop where
  found : m.pairs.find? pid = some mem
  unmarked : mem.retired = false

namespace Enlists

theorem congr (h : m.Enlists pid mem) (pairs : m'.pairs = m.pairs) : m'.Enlists pid mem :=
  ⟨pairs ▸ h.found, h.unmarked⟩

theorem receive (h : m.Enlists pid mem) (a : Arrival) : (m.receive a).Enlists pid mem := by
  cases a with
  | single | rendezvousPair => exact h.congr rfl
  | mutexPair => exact ⟨MutexPairs.find?_add h.found _, h.unmarked⟩

theorem foldl_receive (h : m.Enlists pid mem) (as : List Arrival) :
    (as.foldl Machine.receive m).Enlists pid mem := by
  induction as generalizing m with
  | nil => exact h
  | cons a as ih => exact ih (h.receive a)

theorem foldl_reapOne (h : m.Enlists pid mem) {ps : Queue} (others : pid ∉ ps.map (·.pid)) :
    (ps.foldl Machine.reapOne m).Enlists pid mem := by
  induction ps generalizing m with
  | nil => exact h
  | cons p ps ih =>
    rw [List.map_cons, List.mem_cons, not_or] at others
    refine ih ⟨?_, h.unmarked⟩ others.2
    have stays := MutexPairs.find?_retire h.found h.unmarked (Ne.symm others.1)
    rwa [← pairs_reapOne] at stays

end Enlists
end Machine

/-! ## Runs -/

namespace Moment

variable [Workload σ] {mo mo' : Moment σ} {pid : Pid} {mem : PairMember}

/-- Who was dropped up to the next moment has ended by now. -/
theorem Next.ended_of_mem_goneIds (next : Next mo mo') (gone : pid ∈ mo'.ledger.goneIds) :
    ∃ z, (z ∈ mo.ledger.machine.zombies ∨ z ∈ mo.ledger.dropped) ∧ z.pid = pid := by
  obtain ⟨z, hz, own⟩ := List.mem_map.1 gone
  refine ⟨z, ?_, own⟩
  cases next.turn with
  | still _ _ dropped | trap _ _ _ dropped | arrive _ _ _ dropped => exact .inr (dropped ▸ hz)
  | reap _ _ _ dropped =>
    rw [dropped, List.mem_append] at hz
    exact hz.symm

theorem Next.goneIds_subset (next : Next mo mo') : mo.ledger.goneIds ⊆ mo'.ledger.goneIds := by
  unfold Ledger.goneIds
  cases next.turn with
  | still _ _ dropped | trap _ _ _ dropped | arrive _ _ _ dropped =>
    rw [dropped]
    exact List.Subset.refl _
  | reap _ _ _ dropped =>
    rw [dropped, List.map_append]
    exact List.subset_append_left _ _

/-- A process that is not dropped stays listed. -/
theorem Next.enlists (next : Next mo mo') (tidy : mo.ledger.machine.locks.Tidy)
    (h : mo.ledger.machine.Enlists pid mem) (stays : pid ∉ mo'.ledger.goneIds) :
    mo'.ledger.machine.Enlists pid mem := by
  have pairs_eq : ∀ {m m' : Machine σ}, m.shared = m'.shared → m.pairs = m'.pairs :=
    fun same => congrArg Prod.fst same
  cases next.turn with
  | still shared => exact h.congr (shared.elim pairs_eq pairs_eq)
  | trap raises handled => exact h.congr (handled ▸ (raises.confines tidy).pairs)
  | arrive before after =>
    exact ((h.congr (pairs_eq before)).foldl_receive _).congr (pairs_eq after)
  | reap before after _ dropped =>
    refine ((h.congr (pairs_eq before)).foldl_reapOne fun gone => stays ?_).congr (pairs_eq after)
    rw [Ledger.goneIds, dropped, List.map_append]
    exact List.mem_append_right _ gone

theorem Next.iteration_le (next : Next mo mo') (tidy : mo.ledger.machine.locks.Tidy) :
    mo.ledger.machine.iteration ≤ mo'.ledger.machine.iteration := by
  rcases next.turn.spares_or_raises tidy with spares | ⟨p, t, m, -, -, confines⟩
  · exact spares.iteration
  · rw [confines.iteration]
    exact Nat.le_succ _

/-- As long as no cycle begins, the locks of a member that stays are as they were. -/
theorem Next.get?_lock_eq (next : Next mo mo') (tidy : mo.ledger.machine.locks.Tidy)
    (paired : mo.ledger.scene.Paired) (paired' : mo'.ledger.scene.Paired)
    (within : mo'.ledger.machine.iteration = mo.ledger.machine.iteration)
    (h : mo.ledger.machine.Enlists pid mem) (h' : mo'.ledger.machine.Enlists pid mem)
    (which : WhichLock) : mo'.ledger.machine.locks.get? (mem.lock which) =
      mo.ledger.machine.locks.get? (mem.lock which) := by
  obtain ⟨l, found⟩ := paired.exists_lock h.found which
  obtain ⟨l', found'⟩ := paired'.exists_lock h'.found which
  have found' : mo'.ledger.machine.locks.get? (mem.lock which) = some l' := found'
  rcases next.turn.spares_or_raises tidy with spares | ⟨p, t, m, -, -, confines⟩
  · have old := tidy.lt _ (Registry.mem_keys_of_get? found)
    refine (spares.locks _ old).resolve_left fun gone => ?_
    rw [gone] at found'
    cases found'
  · rw [confines.iteration] at within
    exact absurd within (Nat.succ_ne_self _)

end Moment
end Mlfq
