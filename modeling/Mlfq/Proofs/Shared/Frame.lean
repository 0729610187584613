import Mlfq.Proofs.Shared.Basic

/-! # What is left alone

Arrivals bring locks and channels under new numbers, and with ended processes some go. What exists
already and stays is changed by traps only. -/

namespace Mlfq

theorem Registry.get?_add_of_ne {κ α : Type} [DecidableEq κ] {r : Registry κ α} {k l : κ}
    (other : l ≠ k) (a : α) : (r.add k a).get? l = r.get? l := by
  rw [get?, get?, add, List.lookup_append, lookup_cons, if_neg other, List.lookup_nil,
    Option.or_none]

theorem LockTable.get?_create_of_lt {t : LockTable} {id : LockId} (old : id.num < t.nextId) :
    t.create.2.get? id = t.get? id := by
  refine Registry.get?_add_of_ne ?_ _
  rintro rfl
  exact Nat.lt_irrefl _ old

/-- The channel without the marks of the sides that have gone. -/
def Channel.unmarked (c : Channel) : Channel :=
  { c with producerGone := false, consumerGone := false }

theorem Channel.unmarked_retire (c : Channel) (pid : Pid) :
    (c.retire pid).unmarked = c.unmarked := by
  unfold retire
  split
  · rfl
  · split <;> rfl

variable {σ : Type}

namespace Machine

/-- From one machine to the other, every lock and every channel that was made before has gone or is
as it was. A channel may have got marks. -/
structure Spares (m m' : Machine σ) : Prop where
  nextId : m.locks.nextId ≤ m'.locks.nextId
  locks : ∀ id, id.num < m.locks.nextId →
    m'.locks.get? id = none ∨ m'.locks.get? id = m.locks.get? id
  nextChannel : m.nextChannel ≤ m'.nextChannel
  channels : ∀ id, id.num < m.nextChannel → m'.channels.get? id = none ∨
    (m'.channels.get? id).map Channel.unmarked = (m.channels.get? id).map Channel.unmarked
  iteration : m.iteration ≤ m'.iteration

variable {m m' m'' : Machine σ}

namespace Spares

theorem trans (h : Spares m m') (h' : Spares m' m'') : Spares m m'' := by
  refine ⟨h.nextId.trans h'.nextId, fun id old => ?_, h.nextChannel.trans h'.nextChannel,
    fun id old => ?_, h.iteration.trans h'.iteration⟩
  · rcases h'.locks id (old.trans_le h.nextId) with gone | same
    · exact .inl gone
    · rw [same]
      exact h.locks id old
  · rcases h'.channels id (old.trans_le h.nextChannel) with gone | same
    · exact .inl gone
    · refine (h.channels id old).imp (fun gone => ?_) same.trans
      rwa [gone, Option.map_none, Option.map_eq_none_iff] at same

theorem of_shared_eq (h : m'.shared = m.shared) : Spares m m' := by
  have same := Confines.of_shared_eq h none
  exact ⟨same.nextId.ge, fun id _ => .inr (same.locks id nofun), same.nextChannel.ge,
    fun id _ => .inr (congrArg _ (same.channels id nofun)), same.iteration.ge⟩

theorem foldl {α : Type} {f : Machine σ → α → Machine σ} (each : ∀ m a, Spares m (f m a))
    (as : List α) (m : Machine σ) : Spares m (as.foldl f m) := by
  induction as generalizing m with
  | nil => exact .of_shared_eq rfl
  | cons a as ih => exact (each m a).trans (ih (f m a))

end Spares

theorem shared_admitProc (m : Machine σ) (p : Proc) : (m.admitProc p).shared = m.shared := rfl

/-- An arrival has its locks and its channel under new numbers. -/
theorem spares_receive (m : Machine σ) (a : Arrival) : Spares m (m.receive a) := by
  cases a with
  | single p => exact .of_shared_eq (shared_admitProc m p)
  | mutexPair first second reversed =>
    have made : ∀ pairs, Spares m { m with locks := m.locks.create.2.create.2, pairs } := by
      intro pairs
      refine ⟨Nat.le_add_right _ 2, fun id old => .inr ?_, Nat.le_refl _, fun _ _ => .inr rfl,
        Nat.le_refl _⟩
      exact (LockTable.get?_create_of_lt (Nat.lt_succ_of_lt old)).trans
        (LockTable.get?_create_of_lt old)
    exact (made _).trans
      (.of_shared_eq ((shared_admitProc _ second).trans (shared_admitProc _ first)))
  | rendezvousPair producer consumer =>
    let id : ChannelId := ⟨m.nextChannel⟩
    have made : ∀ lock, Spares m { m with
        locks := m.locks.reserve.2
        channels := m.channels.add id (.between lock producer.pid consumer.pid)
        nextChannel := m.nextChannel + 1 } := by
      intro lock
      refine ⟨Nat.le_succ _, fun _ _ => .inr rfl, Nat.le_succ _, fun k old => .inr ?_,
        Nat.le_refl _⟩
      refine congrArg _ (Registry.get?_add_of_ne ?_ _)
      rintro rfl
      exact Nat.lt_irrefl _ old
    exact (made _).trans (.of_shared_eq
      ((shared_admitProc _ (consumer.bindChannel id)).trans
        (shared_admitProc _ (producer.bindChannel id))))

theorem spares_dropLock (m : Machine σ) (id : LockId) : Spares m (m.dropLock id) := by
  unfold dropLock
  split
  · exact .of_shared_eq rfl
  · refine ⟨Nat.le_refl _, fun k _ => ?_, Nat.le_refl _, fun _ _ => .inr rfl, Nat.le_refl _⟩
    have erased : (m.locks.erase id).get? k = if k = id then none else m.locks.get? k :=
      Registry.get?_erase ..
    split at erased
    · exact .inl erased
    · exact .inr erased

theorem spares_retireFromPair (m : Machine σ) (pid : Pid) :
    Spares m (m.retireFromPair pid) := by
  have marked : ∀ pairs, Spares m { m with pairs } := fun pairs =>
    ⟨Nat.le_refl _, fun _ _ => .inr rfl, Nat.le_refl _, fun _ _ => .inr rfl, Nat.le_refl _⟩
  unfold retireFromPair
  rcases MutexPairs.retire pid m.pairs.pairs with ⟨- | ⟨a, b⟩, pairs⟩
  · exact marked ⟨pairs⟩
  · exact (marked ⟨pairs⟩).trans ((spares_dropLock _ a).trans (spares_dropLock _ b))

theorem spares_retireFromChannel (m : Machine σ) (p : Proc) :
    Spares m (m.retireFromChannel p) := by
  unfold retireFromChannel
  split
  · exact .of_shared_eq rfl
  · rename_i id _
    split
    · exact .of_shared_eq rfl
    · rename_i c found
      dsimp only
      split
      · refine ⟨Nat.le_refl _, fun _ _ => .inr rfl, Nat.le_refl _, fun k _ => ?_, Nat.le_refl _⟩
        have erased := Registry.get?_erase m.channels id k
        split at erased
        · exact .inl erased
        · exact .inr (congrArg _ erased)
      · refine ⟨Nat.le_refl _, fun _ _ => .inr rfl, Nat.le_refl _, fun k _ => .inr ?_,
          Nat.le_refl _⟩
        have set := Registry.get?_set (Registry.mem_keys_of_get? found) (c.retire p.pid) k
        split at set
        · obtain rfl := ‹k = id›
          simp only [set, found, Option.map_some, Channel.unmarked_retire]
        · exact congrArg _ set

theorem spares_reapOne (m : Machine σ) (p : Proc) : Spares m (m.reapOne p) :=
  (spares_retireFromPair m p.pid).trans (spares_retireFromChannel _ p)

end Machine

/-! ## Runs -/

namespace Moment

/-- The process whose cycle a step of a run is, if it is one. -/
def stepper? (mo mo' : Moment σ) : Option Proc :=
  if mo'.ledger.machine.iteration = mo.ledger.machine.iteration then none
  else mo.ledger.machine.running

variable {mo mo' : Moment σ}

/-- A step of a run in which no trap is handled spares everything. -/
theorem Turn.spares_or_raises (h : Turn mo mo') (tidy : mo.ledger.machine.locks.Tidy) :
    mo.ledger.machine.Spares mo'.ledger.machine ∨
    ∃ p t m, mo.ledger.machine.Raises p t m ∧ mo.stepper? mo' = some p ∧
      Machine.Confines (some t) mo.ledger.machine.beginCycle mo'.ledger.machine := by
  cases h with
  | still shared =>
    rcases shared with same | begun
    · exact .inl (.of_shared_eq same)
    · have counted : mo.ledger.machine.Spares mo.ledger.machine.beginCycle :=
        ⟨Nat.le_refl _, fun _ _ => .inr rfl, Nat.le_refl _, fun _ _ => .inr rfl, Nat.le_succ _⟩
      exact .inl (counted.trans (.of_shared_eq begun))
  | @trap p t m raises handled =>
    have confines := raises.confines tidy
    rw [← handled] at confines
    refine .inr ⟨p, t, m, raises, ?_, confines⟩
    rw [stepper?, confines.iteration]
    exact (if_neg (Nat.succ_ne_self _)).trans raises.1
  | arrive before after =>
    exact .inl (.trans (.of_shared_eq before)
      (.trans (.foldl Machine.spares_receive _ _) (.of_shared_eq after)))
  | reap before after =>
    exact .inl (.trans (.of_shared_eq before)
      (.trans (.foldl Machine.spares_reapOne _ _) (.of_shared_eq after)))

end Moment
end Mlfq
