import Mlfq.Proofs.Deadlock.Dissolution
import Mlfq.Proofs.Shared.Basic

/-! # How long a mutex pair is listed

A pair is listed when its members arrive, and it is taken out when the second of them is dropped.
Meanwhile a member is marked as soon as it is dropped. -/

namespace Mlfq

namespace MutexPair

variable {q q' : MutexPair} {pid x : Pid}

theorem exists_retire? (h : pid ∈ q.pids) : ∃ q', q.retire? pid = some q' := by
  unfold retire?
  split
  · exact ⟨_, rfl⟩
  · rcases List.mem_pair.1 h with left | right
    · exact absurd left.symm ‹_›
    · rw [if_pos right.symm]
      exact ⟨_, rfl⟩

theorem pids_retire? (h : q.retire? pid = some q') : q'.pids = q.pids := by
  rw [← pids_unmarked, unmarked_retire? h, pids_unmarked]

theorem marks_retire?_iff (h : q.retire? pid = some q') : q'.Marks x ↔ x = pid ∨ q.Marks x := by
  refine ⟨marks_of_retire? h, ?_⟩
  unfold retire? at h
  split at h
  case isTrue left =>
    cases h
    rintro (rfl | ⟨own, -⟩ | marked)
    · exact .inl ⟨left, rfl⟩
    · exact .inl ⟨own, rfl⟩
    · exact .inr marked
  case isFalse =>
    split at h
    case isTrue right =>
      cases h
      rintro (rfl | marked | ⟨own, -⟩)
      · exact .inr ⟨right, rfl⟩
      · exact .inl marked
      · exact .inr ⟨own, rfl⟩
    case isFalse => cases h

/-- The marks of two different members are two marks. -/
theorem isAbandoned_iff (distinct : q.pids.Nodup) :
    q.isAbandoned = true ↔ ∀ x ∈ q.pids, q.Marks x := by
  have ne : q.left.pid ≠ q.right.pid := fun same =>
    (List.nodup_cons.1 distinct).1 (List.mem_singleton.2 same)
  rw [isAbandoned, Bool.and_eq_true]
  constructor
  · rintro ⟨left, right⟩ x hx
    rcases List.mem_pair.1 hx with rfl | rfl
    · exact .inl ⟨rfl, left⟩
    · exact .inr ⟨rfl, right⟩
  · intro all
    constructor
    · rcases all q.left.pid List.mem_cons_self with ⟨-, marked⟩ | ⟨same, -⟩
      · exact marked
      · exact absurd same.symm ne
    · have member : q.right.pid ∈ q.pids := List.mem_cons_of_mem _ List.mem_cons_self
      rcases all q.right.pid member with ⟨same, -⟩ | ⟨-, marked⟩
      · exact absurd same ne
      · exact marked

end MutexPair

namespace MutexPairs

/-- When a process goes, the pairs of which it is no member are left alone, and its own is marked or
goes. -/
theorem mem_retire_iff {pid : Pid} {pairs : List MutexPair}
    (distinct : (pairs.flatMap MutexPair.pids).Nodup) {q' : MutexPair} :
    q' ∈ (retire pid pairs).2 ↔ q' ∈ pairs ∧ pid ∉ q'.pids ∨
      ∃ q ∈ pairs, q.retire? pid = some q' ∧ q'.isAbandoned = false := by
  induction pairs with
  | nil => simp [retire]
  | cons q₀ pairs ih =>
    rw [List.flatMap_cons, List.nodup_append] at distinct
    obtain ⟨-, rest, apart⟩ := distinct
    unfold retire
    cases marked : q₀.retire? pid with
    | none =>
      have other : pid ∉ q₀.pids := fun member => by
        obtain ⟨q, hq⟩ := q₀.exists_retire? member
        rw [marked] at hq
        cases hq
      simp only [List.mem_cons, ih rest]
      constructor
      · rintro (rfl | ⟨hq, member⟩ | ⟨q, hq, own⟩)
        · exact .inl ⟨.inl rfl, other⟩
        · exact .inl ⟨.inr hq, member⟩
        · exact .inr ⟨q, .inr hq, own⟩
      · rintro (⟨rfl | hq, member⟩ | ⟨q, rfl | hq, own, stays⟩)
        · exact .inl rfl
        · exact .inr (.inl ⟨hq, member⟩)
        · rw [marked] at own
          cases own
        · exact .inr (.inr ⟨q, hq, own, stays⟩)
    | some q₁ =>
      have mine := MutexPair.pid_mem_of_retire? marked
      -- The process is a member of no other pair.
      have others : ∀ q ∈ pairs, pid ∉ q.pids := fun q hq member =>
        apart pid mine pid (List.mem_flatMap.2 ⟨q, hq, member⟩) rfl
      have first : (∃ q ∈ q₀ :: pairs, q.retire? pid = some q' ∧ q'.isAbandoned = false) ↔
          q' = q₁ ∧ q₁.isAbandoned = false := by
        constructor
        · rintro ⟨q, hq, own, stays⟩
          rcases List.mem_cons.1 hq with rfl | hq
          · cases marked.symm.trans own
            exact ⟨rfl, stays⟩
          · exact absurd (MutexPair.pid_mem_of_retire? own) (others q hq)
        · rintro ⟨rfl, stays⟩
          exact ⟨q₀, List.mem_cons_self, marked, stays⟩
      have later : q' ∈ q₀ :: pairs ∧ pid ∉ q'.pids ↔ q' ∈ pairs := by
        constructor
        · rintro ⟨hq, member⟩
          exact (List.mem_cons.1 hq).resolve_left fun same => member (same ▸ mine)
        · exact fun hq => ⟨List.mem_cons_of_mem _ hq, others q' hq⟩
      rw [first, later]
      cases goes : q₁.isAbandoned with
      | true => simp [goes]
      | false => simp [goes, or_comm]

theorem flatMap_pids_retire (pid : Pid) (pairs : List MutexPair) :
    ((retire pid pairs).2.flatMap MutexPair.pids).Sublist (pairs.flatMap MutexPair.pids) := by
  induction pairs with
  | nil => exact List.Sublist.refl _
  | cons q pairs ih =>
    unfold retire
    cases marked : q.retire? pid with
    | none => exact (List.Sublist.refl _).append ih
    | some q₁ =>
      simp only
      split
      · exact List.sublist_append_right _ _
      · rw [List.flatMap_cons, List.flatMap_cons, MutexPair.pids_retire? marked]

/-- The pairs that have arrived are listed until both their members have gone, and a member is
marked when it has gone. -/
structure Lists (pairs : List MutexPair) (arrived : List Arrival) (gone : List Pid) : Prop where
  members : (pairs.flatMap MutexPair.pids).Sublist ((arrived.flatMap Arrival.procs).map (·.pid))
  marks : ∀ q ∈ pairs, ∀ x ∈ q.pids, (q.Marks x ↔ x ∈ gone)
  stays : ∀ q ∈ pairs, q.isAbandoned = false
  listed : ∀ first second reversed, .mutexPair first second reversed ∈ arrived →
    ¬(first.pid ∈ gone ∧ second.pid ∈ gone) →
    ∃ q ∈ pairs, q.MadeFor first.pid second.pid reversed

namespace Lists

variable {pairs : List MutexPair} {arrived : List Arrival} {gone : List Pid}

theorem nil : Lists [] [] [] :=
  ⟨List.Sublist.refl _, fun _ hq => absurd hq List.not_mem_nil,
    fun _ hq => absurd hq List.not_mem_nil, fun _ _ _ come => absurd come List.not_mem_nil⟩

theorem nodup (h : Lists pairs arrived gone) (distinct : Arrival.Distinct arrived) :
    (pairs.flatMap MutexPair.pids).Nodup := h.members.nodup distinct

/-- Of the members of a listed pair at least one is still there. -/
theorem not_both (h : Lists pairs arrived gone) (distinct : Arrival.Distinct arrived)
    {q : MutexPair} (hq : q ∈ pairs) : ¬∀ x ∈ q.pids, x ∈ gone := by
  intro all
  have nodup := (List.nodup_flatMap.1 (h.nodup distinct)).1 q hq
  have goes := (q.isAbandoned_iff nodup).2 fun x hx => (h.marks q hq x hx).2 (all x hx)
  rw [h.stays q hq] at goes
  cases goes

/-- A pair that arrives is listed behind the others. -/
theorem arrive (h : Lists pairs arrived gone) {first second : Proc} {reversed : Bool} (a b : LockId)
    (new : ∀ p ∈ [first, second], p.pid ∉ gone) :
    Lists (pairs ++ [.sharing first.pid second.pid a b reversed])
      (arrived ++ [.mutexPair first second reversed]) gone := by
  have made : (MutexPair.sharing first.pid second.pid a b reversed).MadeFor first.pid second.pid
      reversed := by cases reversed <;> rfl
  refine ⟨?_, fun q hq x hx => ?_, fun q hq => ?_, fun f s r come left => ?_⟩
  · rw [List.flatMap_append, List.flatMap_append, List.map_append]
    apply h.members.append
    cases reversed <;> exact List.Sublist.refl _
  · rcases List.mem_append.1 hq with hq | hq
    · exact h.marks q hq x hx
    · rw [List.mem_singleton.1 hq] at hx ⊢
      rw [made.pids_eq] at hx
      have here : x ∉ gone := by
        rcases List.mem_pair.1 hx with rfl | rfl
        · exact new first List.mem_cons_self
        · exact new second (List.mem_cons_of_mem _ List.mem_cons_self)
      refine iff_of_false ?_ here
      cases reversed <;> rintro (⟨-, marked⟩ | ⟨-, marked⟩) <;> cases marked
  · rcases List.mem_append.1 hq with hq | hq
    · exact h.stays q hq
    · rw [List.mem_singleton.1 hq]
      cases reversed <;> rfl
  · rcases List.mem_append.1 come with come | come
    · obtain ⟨q, hq, own⟩ := h.listed f s r come left
      exact ⟨q, List.mem_append_left _ hq, own⟩
    · cases List.mem_singleton.1 come
      exact ⟨_, List.mem_append_right _ List.mem_cons_self, made⟩

/-- Other arrivals list no pair. -/
theorem other (h : Lists pairs arrived gone) {a : Arrival}
    (single : ∀ first second reversed, a ≠ .mutexPair first second reversed) :
    Lists pairs (arrived ++ [a]) gone where
  members := h.members.trans (((List.sublist_append_left _ _).flatMap _).map _)
  marks := h.marks
  stays := h.stays
  listed first second reversed come := by
    rcases List.mem_append.1 come with come | come
    · exact h.listed first second reversed come
    · exact absurd (List.mem_singleton.1 come).symm (single first second reversed)

/-- A process goes. -/
theorem retire (h : Lists pairs arrived gone) (distinct : Arrival.Distinct arrived) (pid : Pid) :
    Lists (MutexPairs.retire pid pairs).2 arrived (gone ++ [pid]) := by
  have nodup := h.nodup distinct
  refine ⟨(flatMap_pids_retire pid pairs).trans h.members, fun q' hq' x hx => ?_, fun q' hq' => ?_,
    fun first second reversed come left => ?_⟩
  · rw [List.mem_append, List.mem_singleton]
    rcases (mem_retire_iff nodup).1 hq' with ⟨old, other⟩ | ⟨q, hq, marked, -⟩
    · rw [h.marks q' old x hx, or_iff_left]
      rintro rfl
      exact other hx
    · rw [MutexPair.pids_retire? marked] at hx
      rw [MutexPair.marks_retire?_iff marked, h.marks q hq x hx, or_comm]
  · rcases (mem_retire_iff nodup).1 hq' with ⟨old, -⟩ | ⟨-, -, -, stays⟩
    · exact h.stays q' old
    · exact stays
  · obtain ⟨q, hq, made⟩ := h.listed first second reversed come fun both =>
      left (both.imp (List.mem_append_left _) (List.mem_append_left _))
    by_cases member : pid ∈ q.pids
    · obtain ⟨q', marked⟩ := q.exists_retire? member
      refine ⟨q', (mem_retire_iff nodup).2 (.inr ⟨q, hq, marked, ?_⟩),
        made.of_unmarked_eq (MutexPair.unmarked_retire? marked)⟩
      -- If the pair went, both its members would have gone.
      by_contra goes
      refine left ?_
      have ended : ∀ x ∈ [first.pid, second.pid], x ∈ gone ++ [pid] := by
        intro x hx
        rw [← made.pids_eq] at hx
        rcases MutexPair.eq_or_marks_of_isAbandoned marked (Bool.not_eq_false _ ▸ goes) hx with
          rfl | before
        · exact List.mem_append_right _ List.mem_cons_self
        · exact List.mem_append_left _ ((h.marks q hq x hx).1 before)
      exact ⟨ended _ List.mem_cons_self, ended _ (List.mem_cons_of_mem _ List.mem_cons_self)⟩
    · exact ⟨q, (mem_retire_iff nodup).2 (.inl ⟨hq, member⟩), made⟩

end Lists
end MutexPairs

variable {σ : Type}

namespace Machine

open MutexPairs (Lists)

variable {arrived : List Arrival} {gone : List Pid}

theorem pairs_dropLock (m : Machine σ) (id : LockId) : (m.dropLock id).pairs = m.pairs := by
  unfold dropLock
  split <;> rfl

theorem pairs_reapOne (m : Machine σ) (p : Proc) :
    (m.reapOne p).pairs.pairs = (MutexPairs.retire p.pid m.pairs.pairs).2 := by
  have channel : ∀ m : Machine σ, (m.retireFromChannel p).pairs = m.pairs := by
    intro m
    unfold retireFromChannel
    split
    · rfl
    · split
      · rfl
      · dsimp only
        split <;> rfl
  rw [reapOne, channel, retireFromPair]
  rcases MutexPairs.retire p.pid m.pairs.pairs with ⟨- | ⟨a, b⟩, pairs⟩
  · rfl
  · dsimp only
    rw [pairs_dropLock, pairs_dropLock]

theorem lists_receive {m : Machine σ} (h : Lists m.pairs.pairs arrived gone) {a : Arrival}
    (new : ∀ p ∈ a.procs, p.pid ∉ gone) :
    Lists (m.receive a).pairs.pairs (arrived ++ [a]) gone := by
  cases a with
  | single | rendezvousPair => exact h.other (by simp)
  | mutexPair first second reversed => exact h.arrive _ _ new

theorem lists_foldl_receive {m : Machine σ} {as : List Arrival}
    (h : Lists m.pairs.pairs arrived gone) (new : ∀ a ∈ as, ∀ p ∈ a.procs, p.pid ∉ gone) :
    Lists (as.foldl receive m).pairs.pairs (arrived ++ as) gone := by
  induction as generalizing m arrived with
  | nil => rwa [List.append_nil]
  | cons a as ih =>
    have first := lists_receive h (new a List.mem_cons_self)
    have rest := ih first fun b hb => new b (List.mem_cons_of_mem _ hb)
    rwa [List.append_assoc] at rest

theorem lists_foldl_reapOne {m : Machine σ} {ps : Queue} (h : Lists m.pairs.pairs arrived gone)
    (distinct : Arrival.Distinct arrived) :
    Lists (ps.foldl reapOne m).pairs.pairs arrived (gone ++ ps.map (·.pid)) := by
  induction ps generalizing m gone with
  | nil => rwa [List.map_nil, List.append_nil]
  | cons p ps ih =>
    have first := h.retire distinct p.pid
    rw [← pairs_reapOne] at first
    have rest := ih first
    rwa [List.append_assoc] at rest

end Machine

/-- The numbers of the processes that were dropped. -/
def Ledger.goneIds (l : Ledger σ) : List Pid := l.dropped.map (·.pid)

namespace Moment

variable [Workload σ]

/-- Who comes was not dropped before. -/
theorem pid_notMem_goneIds {config : Config} {workload : σ} {logLevel : Option Level}
    {mo : Moment σ} (reachable : Reachable (.start config workload logLevel) mo)
    {as : List Arrival} (distinct : Arrival.Distinct (mo.ledger.arrived ++ as)) :
    ∀ a ∈ as, ∀ p ∈ a.procs, p.pid ∉ mo.ledger.goneIds := by
  intro a ha p hp gone
  obtain ⟨q, hq, same⟩ := List.mem_map.1 gone
  have earlier := Scene.distinct_of_prefix (List.prefix_append mo.ledger.arrived as) distinct
  have lawful := (Scene.fresh_start config workload logLevel).lawful
    (Scene.steps_of_reachable reachable) earlier
  have known := lawful.pid_mem_arrived (Scene.profile_mem_books_of_dropped hq)
  rw [Arrival.Distinct, List.flatMap_append, List.map_append, List.nodup_append] at distinct
  exact distinct.2.2 q.pid known p.pid
    (List.mem_map_of_mem (List.mem_flatMap.2 ⟨a, ha, hp⟩)) same

/-- In every run the pairs are listed as long as one of their members is there. -/
theorem lists_of_reachable {config : Config} {workload : σ} {logLevel : Option Level}
    {mo : Moment σ} (reachable : Reachable (.start config workload logLevel) mo)
    (distinct : Arrival.Distinct mo.ledger.arrived) :
    MutexPairs.Lists mo.ledger.machine.pairs.pairs mo.ledger.arrived mo.ledger.goneIds := by
  induction reachable with
  | refl => exact .nil
  | @tail mo₁ mo₂ reachable next ih =>
    have pairs_eq : ∀ {m m' : Machine σ}, m.shared = m'.shared → m.pairs = m'.pairs :=
      fun same => congrArg Prod.fst same
    cases next.turn with
    | still shared arrived dropped =>
      have pairs : mo₂.ledger.machine.pairs = mo₁.ledger.machine.pairs :=
        shared.elim pairs_eq pairs_eq
      rw [arrived] at distinct ⊢
      rw [Ledger.goneIds, pairs, dropped]
      exact ih distinct
    | @trap p t m raises handled arrived dropped =>
      have tidy := (Scene.tidy_of_steps (Scene.fresh_start config workload logLevel)
        (Scene.steps_of_reachable reachable)).locks
      have pairs : mo₂.ledger.machine.pairs = mo₁.ledger.machine.pairs :=
        handled ▸ (raises.confines tidy).pairs
      rw [arrived] at distinct ⊢
      rw [Ledger.goneIds, pairs, dropped]
      exact ih distinct
    | @arrive m as before after arrived dropped =>
      rw [arrived] at distinct ⊢
      rw [Ledger.goneIds, dropped, pairs_eq after]
      have new := pid_notMem_goneIds reachable distinct
      have earlier := Scene.distinct_of_prefix (List.prefix_append _ _) distinct
      have listed := ih earlier
      rw [← pairs_eq before] at listed
      exact Machine.lists_foldl_receive listed new
    | @reap m before after arrived dropped =>
      rw [arrived] at distinct ⊢
      have listed := ih distinct
      rw [← pairs_eq before] at listed
      rw [Ledger.goneIds, dropped, List.map_append, pairs_eq after]
      exact Machine.lists_foldl_reapOne listed distinct

end Moment
end Mlfq
