import Mlfq.Proofs.Channel.Section

/-! # How long a channel is there

A channel is made when a rendezvous pair arrives. A side is marked on it when it is dropped, and
with the second side the channel goes. No channel has the lock of another, or one of the table. -/

namespace Mlfq

/-- A process that uses a channel arrives in a rendezvous pair of which the other member uses it
too. -/
def Arrival.Joined : Arrival → Prop
  | .single p => p.channel? = none
  | .mutexPair first second _ => first.channel? = none ∧ second.channel? = none
  | .rendezvousPair producer consumer => producer.channel? = none ↔ consumer.channel? = none

theorem Arrival.Joined.coupled {a : Arrival} (h : a.Joined) : a.Coupled := by
  cases a with
  | single | mutexPair => exact h
  | rendezvousPair => trivial

/-- If one member of a pair uses the channel, both do. -/
theorem Arrival.Joined.both {producer consumer p : Proc}
    (h : (Arrival.rendezvousPair producer consumer).Joined) (member : p ∈ [producer, consumer])
    (uses : p.channel? ≠ none) : ∀ q ∈ [producer, consumer], q.channel? ≠ none := by
  have same : producer.channel? = none ↔ consumer.channel? = none := h
  intro q hq
  rcases List.mem_pair.1 member with rfl | rfl <;> rcases List.mem_pair.1 hq with rfl | rfl
  · exact uses
  · exact fun none => uses (same.2 none)
  · exact fun none => uses (same.1 none)
  · exact uses

namespace Channel

variable {c c' : Channel} {pid : Pid} {role : Role}

theorem gone_retire_of_gone (h : c.gone role = true) : (c.retire pid).gone role = true := by
  unfold retire
  split
  · cases role with
    | producer => rfl
    | consumer => exact h
  · split
    · cases role with
      | producer => exact h
      | consumer => rfl
    · exact h

/-- Who goes gets its mark. -/
theorem gone_retire_self (ne : c.producer ≠ c.consumer) (own : c.partner role = pid) :
    (c.retire pid).gone role = true := by
  unfold retire
  cases role with
  | producer =>
    have here : pid = c.producer := own.symm
    rw [if_pos here]
    rfl
  | consumer =>
    have here : pid = c.consumer := own.symm
    have other : pid ≠ c.producer := fun same => ne (same.symm.trans here)
    rw [if_neg other, if_pos here]
    rfl

theorem isAbandoned_of_gone (h : ∀ role, c.gone role = true) : c.isAbandoned = true :=
  Bool.and_eq_true_iff.2 ⟨h .producer, h .consumer⟩

theorem isAbandoned_eq (c : Channel) : c.isAbandoned = (c.gone .producer && c.gone .consumer) := rfl

theorem Serves.lock_id {p : Proc} {t : Trap} {out : Multiset Proc} (h : Serves p t c c' out) :
    c'.lock.id = c.lock.id := by
  cases h with
  | lock request h => exact h.id_eq
  | wait => rw [lock_parking, Lock.id_freed]
  | @turn id c role =>
    rw [lock_taking]
    unfold signalled
    split
    · rfl
    · exact Lock.id_tryAcquire ..

end Channel

namespace Scene

variable {s s' : Scene}

/-! ## Marks -/

theorem mem_arrived_of_step (step : Step s s') {a : Arrival} (h : a ∈ s'.arrived) :
    a ∈ s.arrived ∨ s'.arrived = s.arrived ++ [a] := by
  cases step with
  | single | mutexPair | rendezvousPair =>
    rcases List.mem_append.1 h with old | new
    · exact .inl old
    · cases List.mem_singleton.1 new
      exact .inr rfl
  | dissolve =>
    rw [arrived_dropLock, arrived_dropLock] at h
    exact .inl h
  | _ => exact .inl h

/-- Who is dropped now was the first of the ended processes, and if its channel stays it is noted
there. -/
theorem retired_of_mem_dropped (step : Step s s') {p : Proc} (hp : p ∈ s'.dropped) :
    p ∈ s.dropped ∨ (∃ rest, s.zombies = p :: rest) ∧ s'.arrived = s.arrived ∧
      ∀ id c c', p.channel? = some id → s.channels.get? id = some c →
        s'.channels.get? id = some c' → c' = c.retire p.pid := by
  have last : ∀ {z : Proc}, p ∈ s.dropped ++ [z] → p ∈ s.dropped ∨ p = z := fun hp =>
    (List.mem_append.1 hp).imp_right List.mem_singleton.1
  cases step with
  | drop zombie alone =>
    refine (last hp).imp_right ?_
    rintro rfl
    refine ⟨⟨_, zombie⟩, rfl, fun id c c' uses found => ?_⟩
    rw [alone id uses] at found
    cases found
  | leave zombie bound here stays =>
    refine (last hp).imp_right ?_
    rintro rfl
    refine ⟨⟨_, zombie⟩, rfl, fun id c c' uses found found' => ?_⟩
    cases bound.symm.trans uses
    cases here.symm.trans found
    rw [Registry.get?_set (Registry.mem_keys_of_get? here), if_pos rfl] at found'
    exact (Option.some.inj found').symm
  | close zombie bound here goes =>
    refine (last hp).imp_right ?_
    rintro rfl
    refine ⟨⟨_, zombie⟩, rfl, fun id c c' uses found found' => ?_⟩
    cases bound.symm.trans uses
    rw [Registry.get?_erase, if_pos rfl] at found'
    cases found'
  | dissolve =>
    rw [dropped_dropLock, dropped_dropLock] at hp
    exact .inl hp
  | _ => exact .inl hp

/-- Two channels have no side in common. -/
theorem Seated.eq_of_partner (h : s.Seated) (distinct : Arrival.Distinct s.arrived)
    {id id' : ChannelId} {c c' : Channel} (found : s.channels.get? id = some c)
    (found' : s.channels.get? id' = some c') {role role' : Channel.Role}
    (same : c.partner role = c'.partner role') : id = id' := by
  obtain ⟨producer, consumer, come, left, right⟩ := h.origin id' c' found'
  have side : c.partner role ∈ [c.producer, c.consumer] := by cases role <;> simp [Channel.partner]
  have member : ∃ p ∈ [producer, consumer], p.pid = c.partner role := by
    cases role' with
    | producer => exact ⟨producer, List.mem_cons_self, left.symm.trans same.symm⟩
    | consumer =>
      exact ⟨consumer, List.mem_cons_of_mem _ List.mem_cons_self, right.symm.trans same.symm⟩
  obtain ⟨p, hp, own⟩ := member
  obtain ⟨left', -⟩ := h.sides_of_arrival distinct found come hp (own ▸ side)
  exact h.unique id id' c c' found found' (left'.trans left.symm)

/-- A channel stays with its sides, or it goes with both of them, of which the last has used it. -/
theorem Bound.exists_channel_or_dropped (h : s.Bound) (tidy : s.Tidy) (step : Step s s')
    {id : ChannelId} {c : Channel} (found : s.channels.get? id = some c) :
    (∃ c', s'.channels.get? id = some c' ∧ c'.partner = c.partner) ∨
      (∀ role, c.partner role ∈ s'.dropped.map (·.pid)) ∧
      ∃ p ∈ s.population, p.channel? = some id := by
  have dropped := (dropped_prefix_of_step step).subset
  rcases exists_channel_or_close tidy step found with
    ⟨c', found'⟩ | ⟨z, rest, zombie, goes, drop, uses⟩
  · refine .inl ⟨c', found', ?_⟩
    rcases (channelStep_of_step tidy step found').old_or_new with ⟨c₀, before, sides⟩ | ⟨new, -⟩
    · cases found.symm.trans before
      exact sides
    · exact absurd (new ▸ Registry.mem_keys_of_get? found) tidy.fresh
  · refine .inr ⟨fun role => ?_, z.core, ?_, uses⟩
    · rcases Channel.gone_retire (Channel.gone_of_isAbandoned goes role) with gone | own
      · obtain ⟨r, hr, partner⟩ := h.gone id c found role gone
        exact List.mem_map.2 ⟨r, dropped hr, partner⟩
      · exact List.mem_map.2 ⟨z, drop ▸ List.mem_append_right _ List.mem_cons_self, own.symm⟩
    · rw [population, zombie, Queue.cores_cons]
      exact Multiset.mem_add.2 (.inr (Multiset.mem_cons_self _ _))

/-- A side that was dropped is marked, no channel is there of which both sides are marked, and a
channel goes only with both its sides. -/
structure Closing (s : Scene) : Prop where
  marks : ∀ id c, s.channels.get? id = some c → ∀ role, ∀ p ∈ s.dropped, p.channel? ≠ none →
    c.partner role = p.pid → c.gone role = true
  stays : ∀ id c, s.channels.get? id = some c → c.isAbandoned = false
  lasts : ∀ producer consumer, .rendezvousPair producer consumer ∈ s.arrived →
    (∃ id c, s.channels.get? id = some c ∧ c.producer = producer.pid ∧
      c.consumer = consumer.pid) ∨
    ∀ p ∈ [producer, consumer], p.channel? ≠ none ∧ p.pid ∈ s.dropped.map (·.pid)

namespace Closing

theorem marks_step (h : s.Closing) (tidy : s.Tidy) (bound : s.Bound) (seated : s.Seated)
    (reached : s.Open) (lawful : s.Lawful) (distinct : Arrival.Distinct s'.arrived)
    (step : Step s s') {id : ChannelId} {c' : Channel} (found : s'.channels.get? id = some c')
    {role : Channel.Role} {p : Proc} (hp : p ∈ s'.dropped) (uses : p.channel? ≠ none)
    (side : c'.partner role = p.pid) : c'.gone role = true := by
  rcases retired_of_mem_dropped step hp with old | ⟨⟨rest, zombie⟩, arrived, last⟩
  · cases channelStep_of_step tidy step found with
    | kept before => exact h.marks id c' before role p old uses side
    | served runs request before serves =>
      rw [serves.gone_eq]
      exact h.marks id _ before role p old uses (serves.partner_eq ▸ side)
    | left zombie before same =>
      rw [same, Channel.partner_retire] at side
      rw [same]
      exact Channel.gone_retire_of_gone (h.marks id _ before role p old uses side)
    | @made producer consumer lock come new same =>
      -- Who was dropped has come before.
      have known := lawful.pid_mem_arrived (profile_mem_books_of_dropped old)
      rw [come] at distinct
      refine absurd rfl (distinct.pid_ne known (y := p.pid) ?_)
      rw [same] at side
      cases role with
      | producer => exact side ▸ List.mem_cons_self
      | consumer => exact side ▸ List.mem_cons_of_mem _ List.mem_cons_self
  · obtain ⟨k, own⟩ := Option.ne_none_iff_exists'.1 uses
    have here : p.core ∈ s.population := by
      rw [population, zombie, Queue.cores_cons]
      exact Multiset.mem_add.2 (.inr (Multiset.mem_cons_self _ _))
    have own' : p.core.channel? = some k := own
    obtain ⟨c₀, found₀⟩ := reached p.core here k own'
    obtain ⟨role₀, side₀⟩ := bound.has _ (profile_mem_books here) k own' c₀ found₀
    rcases (channelStep_of_step tidy step found).old_or_new with ⟨c, before, sides⟩ | ⟨-, new⟩
    · have distinct₀ := lawful.distinct
      have same : c.partner role = c₀.partner role₀ :=
        (congrFun sides role).symm.trans (side.trans side₀.symm)
      cases seated.eq_of_partner distinct₀ before found₀ same
      rw [last id c c' own before found]
      exact Channel.gone_retire_self (seated.producer_ne_consumer distinct₀ before)
        ((congrFun sides role).symm.trans side)
    · obtain ⟨producer, consumer, come, -⟩ := new
      rw [arrived] at come
      simp at come

theorem stays_step (h : s.Closing) (tidy : s.Tidy) (step : Step s s') {id : ChannelId}
    {c' : Channel} (found : s'.channels.get? id = some c') : c'.isAbandoned = false := by
  cases channelStep_of_step tidy step found with
  | kept before => exact h.stays id c' before
  | served runs request before serves =>
    rw [Channel.isAbandoned_eq, serves.gone_eq, ← Channel.isAbandoned_eq]
    exact h.stays id _ before
  | left zombie before same dropped stays => exact stays
  | made come new same =>
    rw [same]
    rfl

theorem lasts_step (h : s.Closing) (tidy : s.Tidy) (bound : s.Bound) (lawful : s.Lawful)
    (joined : ∀ a ∈ s'.arrived, a.Joined) (step : Step s s') {producer consumer : Proc}
    (come : .rendezvousPair producer consumer ∈ s'.arrived) :
    (∃ id c, s'.channels.get? id = some c ∧ c.producer = producer.pid ∧
      c.consumer = consumer.pid) ∨
    ∀ p ∈ [producer, consumer], p.channel? ≠ none ∧ p.pid ∈ s'.dropped.map (·.pid) := by
  have dropped := (dropped_prefix_of_step step).subset
  rcases mem_arrived_of_step step come with earlier | new
  · rcases h.lasts producer consumer earlier with ⟨id, c, found, left, right⟩ | both
    · rcases bound.exists_channel_or_dropped tidy step found with
        ⟨c', found', sides⟩ | ⟨gone, z, here, uses⟩
      · exact .inl ⟨id, c', found', (congrFun sides .producer).trans left,
          (congrFun sides .consumer).trans right⟩
      · -- The last side to go uses the channel, so both of them do.
        obtain ⟨role, side⟩ := bound.has _ (profile_mem_books here) id uses c found
        have member : ∃ p ∈ [producer, consumer], p.pid = z.pid := by
          cases role with
          | producer => exact ⟨producer, List.mem_cons_self, left.symm.trans side⟩
          | consumer =>
            exact ⟨consumer, List.mem_cons_of_mem _ List.mem_cons_self, right.symm.trans side⟩
        obtain ⟨p, hp, same⟩ := member
        have outline := lawful.outline_eq (profile_mem_books here)
          (List.mem_flatMap.2 ⟨_, earlier, hp⟩) same
        have both := (joined _ come).both hp (Proc.channel?_ne_none_of_outline_eq outline uses)
        refine .inr fun q hq => ⟨both q hq, ?_⟩
        rcases List.mem_pair.1 hq with rfl | rfl
        · exact left ▸ gone .producer
        · exact right ▸ gone .consumer
    · exact .inr fun p hp => (both p hp).imp_right fun gone => List.map_subset _ dropped gone
  · obtain ⟨-, lock, channels⟩ := made_of_step step new
    refine .inl ⟨⟨s.nextChannel⟩, .between lock producer.pid consumer.pid, ?_, rfl, rfl⟩
    rw [channels, Registry.get?_add tidy.fresh, if_pos rfl]

/-- A rendezvous pair has its channel until both members, if they use it, have gone. -/
theorem exists_channel_iff (h : s.Closing) (lawful : s.Lawful) {producer consumer : Proc}
    (come : .rendezvousPair producer consumer ∈ s.arrived) :
    (∃ id c, s.channels.get? id = some c ∧ c.producer = producer.pid ∧
      c.consumer = consumer.pid) ↔
    ¬∀ p ∈ [producer, consumer], p.channel? ≠ none ∧ p.pid ∈ s.dropped.map (·.pid) := by
  refine ⟨?_, (h.lasts producer consumer come).resolve_right⟩
  rintro ⟨id, c, found, left, right⟩ both
  have gone : ∀ p ∈ [producer, consumer], ∀ role, c.partner role = p.pid →
      c.gone role = true := by
    intro p hp role side
    obtain ⟨uses, ended⟩ := both p hp
    obtain ⟨k, own⟩ := Option.ne_none_iff_exists'.1 uses
    obtain ⟨z, hz, same⟩ := List.mem_map.1 ended
    have outline := lawful.outline_eq (profile_mem_books_of_dropped hz)
      (List.mem_flatMap.2 ⟨_, come, hp⟩) same.symm
    exact h.marks id c found role z hz (Proc.channel?_ne_none_of_outline_eq outline.symm own)
      (side.trans same.symm)
  have goes : c.isAbandoned = true := by
    refine Channel.isAbandoned_of_gone fun role => ?_
    cases role with
    | producer => exact gone producer List.mem_cons_self .producer left
    | consumer => exact gone consumer (List.mem_cons_of_mem _ List.mem_cons_self) .consumer right
  rw [h.stays id c found] at goes
  cases goes

end Closing

theorem Fresh.closing (fresh : s.Fresh) : s.Closing := by
  refine ⟨fun id c found => ?_, fun id c found => ?_, fun producer consumer come => ?_⟩
  · rw [fresh.get?_channels] at found
    cases found
  · rw [fresh.get?_channels] at found
    cases found
  · rw [fresh.arrived] at come
    cases come

theorem closing_of_steps (fresh : s.Fresh) (steps : Steps s s')
    (distinct : Arrival.Distinct s'.arrived) (joined : ∀ a ∈ s'.arrived, a.Joined) :
    s'.Closing := by
  induction steps with
  | refl => exact fresh.closing
  | @tail s₁ s₂ steps step ih =>
    have arrived := arrived_prefix_of_step step
    have distinct₁ := distinct_of_prefix arrived distinct
    have joined₁ : ∀ a ∈ s₁.arrived, a.Joined := fun a ha => joined a (arrived.subset ha)
    have coupled : ∀ a ∈ s₁.arrived, a.Coupled := fun a ha => (joined₁ a ha).coupled
    have h := ih distinct₁ joined₁
    have tidy := tidy_of_steps fresh steps
    have bound := bound_of_steps fresh steps coupled
    have lawful := fresh.lawful steps distinct₁
    exact ⟨fun id c found role p hp => h.marks_step tidy bound
        (seated_of_steps fresh steps distinct₁) (open_of_steps fresh steps distinct₁ coupled) lawful
        distinct step found hp,
      fun id c found => h.stays_step tidy step found,
      fun producer consumer come => h.lasts_step tidy bound lawful joined step come⟩

/-! ## Locks -/

@[simp] theorem nextId_dropLock (s : Scene) (id : LockId) :
    (s.dropLock id).locks.nextId = s.locks.nextId := by unfold dropLock; split <;> rfl

/-- Every channel has a lock of its own. -/
structure Numbered (s : Scene) : Prop where
  lt : ∀ id c, s.channels.get? id = some c → c.lock.id.num < s.locks.nextId
  apart : ∀ id c, s.channels.get? id = some c → c.lock.id ∉ s.locks.locks.keys
  unique : ∀ id id' c c', s.channels.get? id = some c → s.channels.get? id' = some c' →
    c.lock.id = c'.lock.id → id = id'

namespace Numbered

/-- No channel is made, and a lock that is made gets a new number. -/
theorem frame (h : s.Numbered) (channels : ∀ id c', s'.channels.get? id = some c' →
      ∃ c, s.channels.get? id = some c ∧ c'.lock.id = c.lock.id)
    (next : s.locks.nextId ≤ s'.locks.nextId)
    (keys : ∀ k ∈ s'.locks.locks.keys, k ∈ s.locks.locks.keys ∨ s.locks.nextId ≤ k.num) :
    s'.Numbered := by
  refine ⟨fun id c' found => ?_, fun id c' found mem => ?_, fun id id' c c' found found' same => ?_⟩
  · obtain ⟨c, before, own⟩ := channels id c' found
    exact own ▸ (h.lt id c before).trans_le next
  · obtain ⟨c, before, own⟩ := channels id c' found
    rw [own] at mem
    rcases keys _ mem with old | new
    · exact h.apart id c before old
    · exact absurd (h.lt id c before) new.not_gt
  · obtain ⟨c₀, before, own⟩ := channels id c found
    obtain ⟨c₁, before', own'⟩ := channels id' c' found'
    exact h.unique id id' c₀ c₁ before before' (own.symm.trans (same.trans own'))

/-- A channel that is made takes the next number for its lock. -/
theorem arrive (h : s.Numbered) (tidy : s.Tidy) (producer consumer : Proc)
    (free : Multiset Proc) (arrived : List Arrival) :
    { s with
      free
      arrived
      locks := s.locks.reserve.2
      channels := s.channels.add ⟨s.nextChannel⟩
        (.between s.locks.reserve.1 producer.pid consumer.pid)
      nextChannel := s.nextChannel + 1 }.Numbered := by
  have cases : ∀ id c, (s.channels.add ⟨s.nextChannel⟩
      (.between s.locks.reserve.1 producer.pid consumer.pid)).get? id = some c →
      id = ⟨s.nextChannel⟩ ∧ c.lock.id = ⟨s.locks.nextId⟩ ∨ s.channels.get? id = some c := by
    intro id c found
    rw [Registry.get?_add tidy.fresh] at found
    split at found
    case isTrue here =>
      cases found
      exact .inl ⟨here, rfl⟩
    case isFalse => exact .inr found
  have other : ∀ id c, s.channels.get? id = some c → c.lock.id ≠ ⟨s.locks.nextId⟩ := by
    intro id c found same
    have lt := h.lt id c found
    rw [same] at lt
    exact Nat.lt_irrefl _ lt
  refine ⟨fun id c found => ?_, fun id c found => ?_, fun id id' c c' found found' same => ?_⟩
  · rcases cases id c found with ⟨-, new⟩ | old
    · rw [new]
      exact Nat.lt_succ_self _
    · exact Nat.lt_succ_of_lt (h.lt id c old)
  · rcases cases id c found with ⟨-, new⟩ | old
    · rw [new]
      exact tidy.locks.fresh
    · exact h.apart id c old
  · rcases cases id c found with ⟨here, new⟩ | old <;>
      rcases cases id' c' found' with ⟨here', new'⟩ | old'
    · rw [here, here']
    · exact absurd (same.symm.trans new) (other id' c' old')
    · exact absurd (same.trans new') (other id c old)
    · exact h.unique id id' c c' old old' same

theorem step (h : s.Numbered) (tidy : s.Tidy) (step : Step s s') : s'.Numbered := by
  have same : ∀ id c, s.channels.get? id = some c →
      ∃ c', s.channels.get? id = some c' ∧ c.lock.id = c'.lock.id :=
    fun _ c found => ⟨c, found, rfl⟩
  cases step with
  | scan | single | goOn | request | complete | terminate | retire | drop =>
    exact h.frame same (Nat.le_refl _) fun k hk => .inl hk
  | mutexPair =>
    refine h.frame same (Nat.le_add_right _ 2) fun k hk => ?_
    simp only [LockTable.create, Registry.keys_add, List.mem_append, List.mem_singleton] at hk
    rcases hk with (old | rfl) | rfl
    · exact .inl old
    · exact .inr (Nat.le_refl _)
    · exact .inr (Nat.le_succ _)
  | rendezvousPair producer consumer => exact h.arrive tidy producer consumer _ _
  | table runs request found serves =>
    refine h.frame same (Nat.le_refl _) fun k hk => .inl ?_
    rwa [LockTable.set, Registry.keys_set] at hk
  | channel runs request found serves =>
    exact h.frame (fun _ _ => Registry.exists_of_set (·.lock.id) found serves.lock_id)
      (Nat.le_refl _) fun k hk => .inl hk
  | dissolve zombie hr =>
    refine h.frame (fun id c found => ?_) ?_ fun k hk => .inl ?_
    · rw [channels_dropLock, channels_dropLock] at found
      exact ⟨c, found, rfl⟩
    · simp
    · rw [keys_dropLock, keys_dropLock] at hk
      exact (List.mem_filter.1 (List.mem_filter.1 hk).1).1
  | leave zombie bound found stays =>
    exact h.frame
      (fun _ _ => Registry.exists_of_set (·.lock.id) found (by rw [Channel.lock_retire]))
      (Nat.le_refl _) fun k hk => .inl hk
  | close zombie bound found goes =>
    exact h.frame (fun k d after => ⟨d, Registry.get?_of_erase after, rfl⟩) (Nat.le_refl _)
      fun k hk => .inl hk

end Numbered

theorem numbered_of_steps (fresh : s.Fresh) (steps : Steps s s') : s'.Numbered := by
  induction steps with
  | refl =>
    have absent : ∀ {id : ChannelId} {c : Channel}, s.channels.get? id ≠ some c := by
      intro id c found
      rw [fresh.get?_channels] at found
      cases found
    exact ⟨fun _ _ found => absurd found absent, fun _ _ found => absurd found absent,
      fun _ _ _ _ found => absurd found absent⟩
  | tail steps step ih => exact ih.step (tidy_of_steps fresh steps) step

end Scene
end Mlfq
