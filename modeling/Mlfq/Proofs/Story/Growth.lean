import Mlfq.Proofs.Story.Topics

/-! # How the trace grows

Two things stand out in the trace: the release of a lock of the table, and a turn on a channel. All
else tells of neither and leaves the slots of the channels as they are; so it can be passed over
where those two are followed through a run. -/

namespace Mlfq

/-- Whether an event is a turn on a channel. -/
def Event.isExchange : Event → Bool
  | .produced .. | .consumed .. => true
  | _ => false

/-- Whether an event is the release of a lock of the table. -/
def Event.isRelease : Event → Bool
  | .lockReleased .. => true
  | _ => false

/-- An event that is neither a turn on a channel nor the release of a lock. -/
def Event.Plain (e : Event) : Prop := e.isExchange = false ∧ e.isRelease = false

theorem Event.isExchange_eq_false {e : Event} (h : e.topic ≠ .exchange) : e.isExchange = false := by
  cases e <;> first | rfl | exact absurd rfl h

theorem Event.isRelease_eq_false {e : Event} (h : e.topic ≠ .release) : e.isRelease = false := by
  cases e <;> first | rfl | exact absurd rfl h

variable {σ : Type}

namespace Machine

/-- The events between two machines have property `P`, and no slot changes. -/
structure Routine (P : Event → Prop) (m m' : Machine σ) : Prop where
  journal : m.journal.Grows P m'.journal
  slots : KeepsSlots m.channels m.nextChannel m'.channels m'.nextChannel

variable {P Q : Event → Prop} {m m' : Machine σ}

theorem Routine.mono (h : Routine P m m') (imp : ∀ e, P e → Q e) : Routine Q m m' :=
  ⟨h.journal.mono imp, h.slots⟩

namespace Tells

variable {topics : List Event.Topic}

/-- What is told without turns on channels. -/
theorem routine_of_no_exchange (h : Tells topics m m') (other : .exchange ∉ topics) :
    Routine (·.isExchange = false) m m' := by
  refine ⟨h.journal.mono fun e mem => Event.isExchange_eq_false fun turn => ?_, h.slots other⟩
  exact other (turn ▸ mem)

/-- What is told without turns on channels and releases of locks. -/
theorem routine (h : Tells topics m m') (turns : .exchange ∉ topics)
    (releases : .release ∉ topics) : Routine Event.Plain m m' := by
  refine ⟨h.journal.mono fun e mem => ⟨?_, ?_⟩, h.slots turns⟩
  · exact Event.isExchange_eq_false fun turn => turns (turn ▸ mem)
  · exact Event.isRelease_eq_false fun release => releases (release ▸ mem)

end Tells

theorem Raises.routine {p : Proc} {t : Trap} (h : m.Raises p t m') : Routine Event.Plain m m' :=
  h.tells.routine (by decide) (by decide)

/-- The release of a lock of the table leaves the channels alone. -/
theorem routine_unlock (m : Machine σ) (id : LockId) :
    Routine (·.isExchange = false) m (m.unlock id) :=
  (tells_unlock m id).routine_of_no_exchange (by decide)

/-- A rendezvous releases no lock of the table. -/
theorem grows_rendezvous (m : Machine σ) (id : ChannelId) :
    m.journal.Grows (·.isRelease = false) (m.rendezvous id).2.journal := by
  refine (tells_rendezvous m id).journal.mono fun e mem =>
    Event.isRelease_eq_false fun release => ?_
  rw [release] at mem
  exact absurd mem (by decide)

/-- A trap that is neither a release of a lock nor the body of a rendezvous. -/
theorem routine_handleTrap (m : Machine σ) {t : Trap}
    (other : ∀ id channel, t ≠ .unlock id ∧ t ≠ .tryUnlock id ∧ t ≠ .rendezvousBody channel) :
    Routine Event.Plain m (m.handleTrap t).2 := by
  have tells := tells_handleTrap m t
  cases t with
  | unlock id => exact absurd rfl (other id ⟨0⟩).1
  | tryUnlock id => exact absurd rfl (other id ⟨0⟩).2.1
  | rendezvousBody id => exact absurd rfl (other ⟨0⟩ id).2.2
  | _ => exact tells.routine (by simp [Trap.topics]) (by simp [Trap.topics])

end Machine

/-- Whatever happens in a run is routine, unless a process raises a trap. -/
theorem Moment.Next.routine_or_raises [Workload σ] {mo mo' : Moment σ} (h : Next mo mo') :
    mo.ledger.machine.Routine Event.Plain mo'.ledger.machine ∨
      ∃ p t m, mo.ledger.machine.Raises p t m ∧ mo'.ledger.machine = (m.handleTrap t).2 := by
  rcases h.tells_or_serves with tells | raises | ⟨d, done⟩
  · exact .inl (tells.routine (by decide) (by decide))
  · exact .inr raises
  · exact .inl ((Machine.tells_completeIo done).routine (by decide) (by decide))

end Mlfq
