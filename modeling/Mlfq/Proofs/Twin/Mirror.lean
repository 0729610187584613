import Mlfq.Proofs.Bookkeeping
import Mlfq.Proofs.Isolation
import Mlfq.Proofs.Mutex.Holding
import Mlfq.Proofs.Twin.Trap
import Mlfq.Proofs.WorkConservation

/-! # Runs that mirror each other

Two runs of one schedule may have dropped different ended processes. Then locks, channels and mutex
pairs are there in the one that have gone in the other, but what is there in both is in the same
state. -/

namespace Mlfq

open MutexPairs (Lists)

variable {σ : Type}

namespace Ledger

/-- The processes that have ended so far, oldest first. -/
def ended (l : Ledger σ) : Queue := l.dropped ++ l.machine.zombies

/-- Every channel of the one is in the other in the same state but for marks, or it has gone there
with its sides. -/
def Houses (l l' : Ledger σ) : Prop := ∀ id c, l.machine.channels.get? id = some c →
  (∃ c', l'.machine.channels.get? id = some c' ∧ c'.unmarked = c.unmarked) ∨
    l'.machine.channels.get? id = none ∧ c.producer ∈ l'.goneIds ∧ c.consumer ∈ l'.goneIds

/-- What has come and what is seen from outside is the same, and so is what both have of mutex
pairs, locks and channels. -/
structure Mirrors (l l' : Ledger σ) : Prop where
  surface : l'.machine.surface = l.machine.surface
  arrived : l'.arrived = l.arrived
  ended : l'.ended = l.ended
  pairs : ∀ q ∈ l.machine.pairs.pairs, ∀ q' ∈ l'.machine.pairs.pairs, ∀ x ∈ q.pids, x ∈ q'.pids →
    q'.unmarked = q.unmarked
  locks : ∀ id a b, l.machine.locks.get? id = some a → l'.machine.locks.get? id = some b → b = a
  there : l.Houses l'
  back : l'.Houses l

variable {l l' l₁ : Ledger σ}

theorem Mirrors.symm (h : l.Mirrors l') : l'.Mirrors l where
  surface := h.surface.symm
  arrived := h.arrived.symm
  ended := h.ended.symm
  pairs q' hq' q hq x mem' mem := (h.pairs q hq q' hq' x mem mem').symm
  locks id b a found' found := (h.locks id a b found found').symm
  there := h.back
  back := h.there

/-- From one ledger to a later one only ended processes were dropped, and locks, channels and pairs
have gone with them. -/
structure Sheds (l l₁ : Ledger σ) : Prop where
  surface : l₁.machine.surface = l.machine.surface
  arrived : l₁.arrived = l.arrived
  ended : l₁.ended = l.ended
  pairs : ∀ q ∈ l₁.machine.pairs.pairs, ∃ q₀ ∈ l.machine.pairs.pairs, q₀.unmarked = q.unmarked
  locks : ∀ id a, l₁.machine.locks.get? id = some a → l.machine.locks.get? id = some a
  channels : ∀ id c, l₁.machine.channels.get? id = some c →
    ∃ c₀, l.machine.channels.get? id = some c₀ ∧ c₀.unmarked = c.unmarked
  houses : l.Houses l₁
  gone : l.goneIds ⊆ l₁.goneIds

/-- The sides of a channel do not depend on its marks. -/
theorem sides_of_unmarked_eq {c c' : Channel} (h : c'.unmarked = c.unmarked) :
    c'.producer = c.producer ∧ c'.consumer = c.consumer :=
  ⟨congrArg (·.producer) h, congrArg (·.consumer) h⟩

/-- Dropping ended processes in one of two runs leaves them mirrors of each other. -/
theorem Mirrors.sheds (h : l.Mirrors l') (sheds : l.Sheds l₁) : l₁.Mirrors l' where
  surface := h.surface.trans sheds.surface.symm
  arrived := h.arrived.trans sheds.arrived.symm
  ended := h.ended.trans sheds.ended.symm
  pairs q hq q' hq' x mem mem' := by
    obtain ⟨q₀, hq₀, same⟩ := sheds.pairs q hq
    have mem₀ : x ∈ q₀.pids := by rwa [← q₀.pids_unmarked, same, q.pids_unmarked]
    exact (h.pairs q₀ hq₀ q' hq' x mem₀ mem').trans same
  locks id a b found found' := h.locks id a b (sheds.locks id a found) found'
  there id c found := by
    obtain ⟨c₀, found₀, same⟩ := sheds.channels id c found
    obtain ⟨producer, consumer⟩ := sides_of_unmarked_eq same
    rw [← producer, ← consumer, ← same]
    exact h.there id c₀ found₀
  back id c' found' := by
    rcases h.back id c' found' with ⟨c, found, same⟩ | ⟨absent, producer, consumer⟩
    · rcases sheds.houses id c found with ⟨c₁, found₁, same₁⟩ | ⟨absent, gone⟩
      · exact .inl ⟨c₁, found₁, same₁.trans same⟩
      · obtain ⟨producer, consumer⟩ := sides_of_unmarked_eq same
        exact .inr ⟨absent, producer ▸ consumer ▸ gone⟩
    · refine .inr ⟨?_, sheds.gone producer, sheds.gone consumer⟩
      cases found₁ : l₁.machine.channels.get? id with
      | none => rfl
      | some c₁ =>
        obtain ⟨c₀, found₀, -⟩ := sheds.channels id c₁ found₁
        rw [absent] at found₀
        cases found₀

end Ledger

/-! ## What leaves the tables alone -/

namespace Ledger.Mirrors

variable {m m' m₁ m₁' : Machine σ} {arrived arrived' : List Arrival} {dropped dropped' : Queue}

/-- Two runs that go on in parallel stay mirrors of each other. -/
theorem parallel (h : Mirrors ⟨m, arrived, dropped⟩ ⟨m', arrived', dropped'⟩)
    (go : Machine.Parallel m m' m₁ m₁') :
    Mirrors ⟨m₁, arrived, dropped⟩ ⟨m₁', arrived', dropped'⟩ := by
  obtain ⟨surface, left, right⟩ := go
  simp only [Machine.tables, Prod.mk.injEq] at left right
  obtain ⟨zombies, pairs, locks, channels⟩ := left
  obtain ⟨zombies', pairs', locks', channels'⟩ := right
  obtain ⟨-, same, ended, alike, equal, there, back⟩ := h
  simp only [Ledger.ended, Houses, LockTable.get?, ← zombies, ← pairs, ← locks, ← channels,
    ← zombies', ← pairs', ← locks', ← channels'] at ended alike equal there back
  exact ⟨surface, same, ended, alike, equal, there, back⟩

/-- A process ends in both runs, or in none. -/
theorem terminateIfDone (h : Mirrors ⟨m, arrived, dropped⟩ ⟨m', arrived', dropped'⟩) (pid : Pid) :
    Option.Rel (fun m₁ m₁' => Mirrors ⟨m₁, arrived, dropped⟩ ⟨m₁', arrived', dropped'⟩)
      (m.terminateIfDone pid) (m'.terminateIfDone pid) := by
  obtain ⟨d, hd⟩ := Machine.exists_atop_of_surface_eq h.surface
  obtain rfl : m' = m.atop d := hd
  unfold Machine.terminateIfDone
  rw [Machine.running_atop]
  cases m.running with
  | none => exact .none
  | some p =>
    dsimp only
    by_cases done : (p.pid = pid && p.shouldTerminate) = true
    · rw [if_pos done, if_pos done]
      refine .some ⟨rfl, h.arrived, ?_, h.pairs, h.locks, h.there, h.back⟩
      have same : dropped' ++ d.zombies = dropped ++ m.zombies := h.ended
      exact (List.append_assoc ..).symm.trans
        ((congrArg (· ++ _) same).trans (List.append_assoc ..))
    · rw [if_neg done, if_neg done]
      exact .none

end Ledger.Mirrors

/-! ## Arrivals -/

/-- The ledger is one of a run. -/
def Ledger.Comes (l : Ledger σ) : Prop := ∃ s : Scene, s.Fresh ∧ Scene.Steps s l.scene

namespace Ledger.Comes

variable {l : Ledger σ}

theorem tidy (h : l.Comes) : l.scene.Tidy := by
  obtain ⟨s, fresh, steps⟩ := h
  exact Scene.tidy_of_steps fresh steps

theorem paired (h : l.Comes) : l.scene.Paired := by
  obtain ⟨s, fresh, steps⟩ := h
  exact Scene.paired_of_steps fresh steps

/-- The members of the pairs that are listed have come. -/
theorem pid_mem_arrived (h : l.Comes) {q : MutexPair} (hq : q ∈ l.machine.pairs.pairs) {x : Pid}
    (hx : x ∈ q.pids) : x ∈ (l.arrived.flatMap Arrival.procs).map (·.pid) :=
  h.paired.members.subset (List.mem_flatMap.2 ⟨q, hq, hx⟩)

end Ledger.Comes

namespace Ledger.Mirrors

variable {m m' m₁ m₁' : Machine σ} {arrived : List Arrival} {dropped dropped' : Queue}

theorem parallel_admitProc (same : m'.surface = m.surface) (p : Proc) :
    Machine.Parallel m m' (m.admitProc p) (m'.admitProc p) := by
  obtain ⟨d, rfl⟩ := Machine.exists_atop_of_surface_eq same
  exact ⟨rfl, rfl, rfl⟩

/-- A mutex pair comes with two new locks. -/
theorem receive_mutexPair (h : Mirrors ⟨m, arrived, dropped⟩ ⟨m', arrived, dropped'⟩)
    (comes : (⟨m, arrived, dropped⟩ : Ledger σ).Comes)
    (comes' : (⟨m', arrived, dropped'⟩ : Ledger σ).Comes) {first second : Proc} {reversed : Bool}
    (distinct : Arrival.Distinct (arrived ++ [.mutexPair first second reversed])) :
    Mirrors
      ⟨{ m with
          locks := m.locks.create.2.create.2
          pairs := m.pairs.add (.sharing first.pid second.pid m.locks.create.1
            m.locks.create.2.create.1 reversed) }, arrived, dropped⟩
      ⟨{ m' with
          locks := m'.locks.create.2.create.2
          pairs := m'.pairs.add (.sharing first.pid second.pid m'.locks.create.1
            m'.locks.create.2.create.1 reversed) }, arrived, dropped'⟩ := by
  have tidy : m.locks.Tidy := comes.tidy.locks
  have tidy' : m'.locks.Tidy := comes'.tidy.locks
  obtain ⟨d, hd⟩ := Machine.exists_atop_of_surface_eq h.surface
  obtain rfl : m' = m.atop d := hd
  have member : ∀ {a b : LockId} {x : Pid},
      x ∈ (MutexPair.sharing first.pid second.pid a b reversed).pids →
      x ∉ (arrived.flatMap Arrival.procs).map (·.pid) := by
    intro a b x hx known
    refine distinct.pid_ne known ?_ rfl
    cases reversed <;> exact hx
  refine ⟨rfl, rfl, h.ended, fun q hq q' hq' x hx hx' => ?_, fun id a b found found' => ?_,
    h.there, h.back⟩
  · rcases List.mem_append.1 hq with old | new <;> rcases List.mem_append.1 hq' with old' | new'
    · exact h.pairs q old q' old' x hx hx'
    · rw [List.mem_singleton.1 new'] at hx'
      exact absurd (comes.pid_mem_arrived old hx) (member hx')
    · rw [List.mem_singleton.1 new] at hx
      exact absurd (comes'.pid_mem_arrived old' hx') (member hx)
    · rw [List.mem_singleton.1 new, List.mem_singleton.1 new']
      rfl
  · rw [tidy.create.get?_create, tidy.get?_create] at found
    rw [tidy'.create.get?_create, tidy'.get?_create] at found'
    change (if id = m.locks.create.2.create.1 then some _ else
      if id = m.locks.create.1 then some _ else (m.atop d).locks.get? id) = some b at found'
    split at found
    · rw [if_pos ‹_›] at found'
      exact Option.some.inj (found'.symm.trans found)
    · rw [if_neg ‹_›] at found'
      split at found
      · rw [if_pos ‹_›] at found'
        exact Option.some.inj (found'.symm.trans found)
      · rw [if_neg ‹_›] at found'
        exact h.locks id a b found found'

/-- When both get a channel under one new number, each still has those of the other. -/
theorem Houses_add {l l' l₁ l₁' : Ledger σ} (h : l.Houses l') {id : ChannelId} {c : Channel}
    (new : id ∉ l.machine.channels.keys) (new' : id ∉ l'.machine.channels.keys)
    (after : l₁.machine.channels = l.machine.channels.add id c)
    (after' : l₁'.machine.channels = l'.machine.channels.add id c)
    (dropped : l₁'.dropped = l'.dropped) : l₁.Houses l₁' := by
  intro k b found
  rw [after, Registry.get?_add new] at found
  rw [after', Registry.get?_add new', Ledger.goneIds, dropped]
  split at found
  · rw [if_pos ‹_›]
    exact .inl ⟨b, found, rfl⟩
  · rw [if_neg ‹_›]
    exact h k b found

/-- A rendezvous pair comes with a new channel. -/
theorem receive_rendezvousPair (h : Mirrors ⟨m, arrived, dropped⟩ ⟨m', arrived, dropped'⟩)
    (comes : (⟨m, arrived, dropped⟩ : Ledger σ).Comes)
    (comes' : (⟨m', arrived, dropped'⟩ : Ledger σ).Comes) (producer consumer : Pid) :
    Mirrors
      ⟨{ m with
          locks := m.locks.reserve.2
          channels := m.channels.add ⟨m.nextChannel⟩
            (.between m.locks.reserve.1 producer consumer)
          nextChannel := m.nextChannel + 1 }, arrived, dropped⟩
      ⟨{ m' with
          locks := m'.locks.reserve.2
          channels := m'.channels.add ⟨m'.nextChannel⟩
            (.between m'.locks.reserve.1 producer consumer)
          nextChannel := m'.nextChannel + 1 }, arrived, dropped'⟩ := by
  obtain ⟨d, hd⟩ := Machine.exists_atop_of_surface_eq h.surface
  obtain rfl : m' = m.atop d := hd
  have new := comes.tidy.fresh
  have new' := comes'.tidy.fresh
  exact ⟨rfl, rfl, h.ended, h.pairs, h.locks, Houses_add h.there new new' rfl rfl rfl,
    Houses_add h.back new' new rfl rfl rfl⟩

theorem receive (h : Mirrors ⟨m, arrived, dropped⟩ ⟨m', arrived, dropped'⟩)
    (comes : (⟨m, arrived, dropped⟩ : Ledger σ).Comes)
    (comes' : (⟨m', arrived, dropped'⟩ : Ledger σ).Comes) {a : Arrival}
    (distinct : Arrival.Distinct (arrived ++ [a])) :
    Mirrors ⟨m.receive a, arrived ++ [a], dropped⟩ ⟨m'.receive a, arrived ++ [a], dropped'⟩ := by
  have noted : ∀ {m m' : Machine σ}, Mirrors ⟨m, arrived, dropped⟩ ⟨m', arrived, dropped'⟩ →
      Mirrors ⟨m, arrived ++ [a], dropped⟩ ⟨m', arrived ++ [a], dropped'⟩ := fun h =>
    ⟨h.surface, rfl, h.ended, h.pairs, h.locks, h.there, h.back⟩
  cases a with
  | single p => exact noted (h.parallel (parallel_admitProc h.surface p))
  | mutexPair first second reversed =>
    have made := h.receive_mutexPair comes comes' distinct
    have one := made.parallel (parallel_admitProc made.surface first)
    exact noted (one.parallel (parallel_admitProc one.surface second))
  | rendezvousPair producer consumer =>
    obtain ⟨d, hd⟩ := Machine.exists_atop_of_surface_eq h.surface
    obtain rfl : m' = m.atop d := hd
    have made := h.receive_rendezvousPair comes comes' producer.pid consumer.pid
    have one := made.parallel
      (parallel_admitProc made.surface (producer.bindChannel ⟨m.nextChannel⟩))
    have two := one.parallel
      (parallel_admitProc one.surface (consumer.bindChannel ⟨m.nextChannel⟩))
    exact noted two

/-- Two runs that are mirrors of each other get the same arrivals. -/
theorem foldl_receive (as : List Arrival)
    (h : Mirrors ⟨m, arrived, dropped⟩ ⟨m', arrived, dropped'⟩)
    (comes : (⟨m, arrived, dropped⟩ : Ledger σ).Comes)
    (comes' : (⟨m', arrived, dropped'⟩ : Ledger σ).Comes)
    (distinct : Arrival.Distinct (arrived ++ as)) :
    Mirrors ⟨as.foldl Machine.receive m, arrived ++ as, dropped⟩
      ⟨as.foldl Machine.receive m', arrived ++ as, dropped'⟩ := by
  induction as generalizing m m' arrived with
  | nil =>
    rw [List.append_nil]
    exact h
  | cons a as ih =>
    rw [List.append_cons] at distinct ⊢
    have first := Scene.distinct_of_prefix (List.prefix_append (arrived ++ [a]) as) distinct
    have next : ∀ {m : Machine σ} {dropped : Queue},
        (⟨m, arrived, dropped⟩ : Ledger σ).Comes →
        (⟨m.receive a, arrived ++ [a], dropped⟩ : Ledger σ).Comes := by
      rintro m dropped ⟨s, fresh, steps⟩
      exact ⟨s, fresh, steps.tail (Scene.step_receive m a arrived dropped)⟩
    exact ih (h.receive comes comes' first) (next comes) (next comes') distinct

end Ledger.Mirrors

/-! ## Dropping ended processes -/

namespace Machine

/-- A lock that goes leaves the surface alone but for the processes that were parked on it. -/
theorem surface_dropLock (m : Machine σ) (id : LockId) :
    (m.dropLock id).surface = { m.surface with ready := (m.dropLock id).ready } ∧
      (m.dropLock id).zombies = m.zombies := by
  unfold dropLock
  split <;> exact ⟨rfl, rfl⟩

theorem surface_retireFromPair (m : Machine σ) (pid : Pid) :
    (m.retireFromPair pid).surface = { m.surface with ready := (m.retireFromPair pid).ready } ∧
      (m.retireFromPair pid).zombies = m.zombies := by
  unfold retireFromPair
  rcases MutexPairs.retire pid m.pairs.pairs with ⟨- | ⟨a, b⟩, pairs⟩
  · exact ⟨rfl, rfl⟩
  · obtain ⟨first, zombies⟩ := surface_dropLock { m with pairs := ⟨pairs⟩ } a
    obtain ⟨second, zombies'⟩ := surface_dropLock (dropLock { m with pairs := ⟨pairs⟩ } a) b
    dsimp only
    rw [second, first]
    exact ⟨rfl, zombies'.trans zombies⟩

theorem surface_retireFromChannel (m : Machine σ) (p : Proc) :
    (m.retireFromChannel p).surface = m.surface ∧ (m.retireFromChannel p).zombies = m.zombies := by
  unfold retireFromChannel
  split
  · exact ⟨rfl, rfl⟩
  · split
    · exact ⟨rfl, rfl⟩
    · dsimp only
      split <;> exact ⟨rfl, rfl⟩

theorem surface_foldl_reapOne (ps : Queue) (m : Machine σ) :
    (ps.foldl reapOne m).surface = { m.surface with ready := (ps.foldl reapOne m).ready } ∧
      (ps.foldl reapOne m).zombies = m.zombies := by
  induction ps generalizing m with
  | nil => exact ⟨rfl, rfl⟩
  | cons p ps ih =>
    obtain ⟨rest, zombies⟩ := ih (m.reapOne p)
    obtain ⟨pair, zombies'⟩ := surface_retireFromPair m p.pid
    obtain ⟨channel, zombies''⟩ := surface_retireFromChannel (m.retireFromPair p.pid) p
    rw [List.foldl_cons, rest, reapOne, channel, pair]
    exact ⟨rfl, zombies.trans (zombies''.trans zombies')⟩

/-- The pairs that are listed were listed before. -/
theorem exists_pair_of_foldl_reapOne (ps : Queue) (m : Machine σ) {q : MutexPair}
    (hq : q ∈ (ps.foldl reapOne m).pairs.pairs) :
    ∃ q₀ ∈ m.pairs.pairs, q₀.unmarked = q.unmarked := by
  induction ps generalizing m with
  | nil => exact ⟨q, hq, rfl⟩
  | cons p ps ih =>
    obtain ⟨q₁, hq₁, same⟩ := ih (m.reapOne p) hq
    rw [pairs_reapOne] at hq₁
    rcases hr : MutexPairs.retire p.pid m.pairs.pairs with ⟨- | ⟨a, b⟩, pairs⟩ <;> rw [hr] at hq₁
    · obtain ⟨q₀, hq₀, alike⟩ := MutexPairs.exists_unmarked_of_retire_none hr hq₁
      exact ⟨q₀, hq₀, alike.trans same⟩
    · exact ⟨q₁, MutexPairs.mem_of_retire_some hr hq₁, same⟩

theorem spares_reap (m : Machine σ) : Spares m m.reap := by
  have emptied : Spares m { m with zombies := [] } := .of_shared_eq rfl
  have reaped := emptied.trans (.foldl spares_reapOne m.zombies _)
  exact reaped.trans (.of_shared_eq rfl)

/-- A channel that is still there has got marks only. -/
theorem Spares.unmarked_eq {m m' : Machine σ} (h : Spares m m') {id : ChannelId}
    (old : id.num < m.nextChannel) {c c' : Channel} (found : m.channels.get? id = some c)
    (found' : m'.channels.get? id = some c') : c'.unmarked = c.unmarked := by
  rcases h.channels id old with gone | same
  · rw [found'] at gone
    cases gone
  · rw [found, found'] at same
    exact Option.some.inj same

end Machine

namespace Ledger.Comes

variable {m : Machine σ} {arrived : List Arrival} {dropped : Queue}

theorem reap (comes : (⟨m, arrived, dropped⟩ : Ledger σ).Comes) :
    (⟨m.reap, arrived, dropped ++ m.zombies⟩ : Ledger σ).Comes := by
  obtain ⟨s, fresh, before⟩ := comes
  exact ⟨s, fresh, before.trans (Scene.steps_reap m arrived dropped)⟩

theorem surface_reap (comes : (⟨m, arrived, dropped⟩ : Ledger σ).Comes)
    (distinct : Arrival.Distinct arrived) :
    m.reap.surface = m.surface ∧ m.reap.zombies = [] := by
  obtain ⟨s, fresh, before⟩ := comes
  obtain ⟨rest, none⟩ := Machine.surface_foldl_reapOne m.zombies { m with zombies := [] }
  have ready : (m.zombies.foldl Machine.reapOne { m with zombies := [] }).ready = m.ready :=
    Scene.ready_reap fresh before distinct
  rw [ready] at rest
  exact ⟨rest, none⟩

/-- A channel stays while one of its sides was not dropped. -/
theorem houses_reap (comes : (⟨m, arrived, dropped⟩ : Ledger σ).Comes)
    (coupled : ∀ a ∈ arrived, a.Coupled) :
    (⟨m, arrived, dropped⟩ : Ledger σ).Houses ⟨m.reap, arrived, dropped ++ m.zombies⟩ := by
  intro id c found
  have old := comes.tidy.channels_lt id (Registry.mem_keys_of_get? found)
  obtain ⟨s, fresh, before⟩ := comes
  cases found₁ : m.reap.channels.get? id with
  | some c₁ => exact .inl ⟨c₁, rfl, (Machine.spares_reap m).unmarked_eq old found found₁⟩
  | none =>
    rcases Scene.exists_channel_or_dropped_of_steps fresh before found
      (Scene.steps_reap m arrived dropped) coupled with ⟨c₁, found₁', -⟩ | gone
    · have found₁' : m.reap.channels.get? id = some c₁ := found₁'
      rw [found₁] at found₁'
      cases found₁'
    · exact .inr ⟨rfl, gone .producer, gone .consumer⟩

/-- Dropping ended processes changes nothing but the tables, and there only by taking out what
belongs to them. -/
theorem sheds_reap (comes : (⟨m, arrived, dropped⟩ : Ledger σ).Comes)
    (distinct : Arrival.Distinct arrived) (coupled : ∀ a ∈ arrived, a.Coupled) :
    (⟨m, arrived, dropped⟩ : Ledger σ).Sheds ⟨m.reap, arrived, dropped ++ m.zombies⟩ := by
  obtain ⟨surface, none⟩ := comes.surface_reap distinct
  have spares := Machine.spares_reap m
  have nextId : m.reap.locks.nextId = m.locks.nextId := congrArg (·.locks.nextId) surface
  have nextChannel : m.reap.nextChannel = m.nextChannel := congrArg (·.nextChannel) surface
  refine ⟨surface, rfl, ?_,
    fun q hq => Machine.exists_pair_of_foldl_reapOne m.zombies { m with zombies := [] } hq,
    fun id a found₁ => ?_, fun id c₁ found₁ => ?_, comes.houses_reap coupled,
    List.map_subset _ (List.subset_append_left dropped m.zombies)⟩
  · simp only [Ledger.ended, none, List.append_nil]
  · have old := comes.reap.tidy.locks.lt id (Registry.mem_keys_of_get? found₁)
    rcases spares.locks id (nextId ▸ old) with gone | same
    · rw [found₁] at gone
      cases gone
    · exact same ▸ found₁
  · have old : id.num < m.nextChannel :=
      nextChannel ▸ comes.reap.tidy.channels_lt id (Registry.mem_keys_of_get? found₁)
    cases found : m.channels.get? id with
    | none =>
      rcases spares.channels id old with gone | same
      · rw [found₁] at gone
        cases gone
      · rw [found₁, found] at same
        cases same
    | some c => exact ⟨c, rfl, (spares.unmarked_eq old found found₁).symm⟩

end Ledger.Comes
end Mlfq
