import Mlfq.Proofs.Scene.Identity
import Mlfq.Proofs.Trap
import Mlfq.Proofs.Workload.Library

/-! # Processes and their channels

A process that meets another one on a channel is one of the two for which the channel was made, as
long as such processes arrive in pairs. So nobody is parked on a channel that goes. -/

namespace Mlfq

open Queue (cores)

/-- Processes that use a channel arrive only as the members of a rendezvous pair. -/
def Arrival.Coupled : Arrival → Prop
  | .single p => p.channel? = none
  | .mutexPair first second _ => first.channel? = none ∧ second.channel? = none
  | .rendezvousPair _ _ => True

theorem Arrival.Library.coupled {a : Arrival} (h : a.Library) : a.Coupled := by
  cases h with
  | compute | io => rfl
  | mutexPair => exact ⟨rfl, rfl⟩
  | rendezvousPair => trivial

namespace Proc

theorem channel?_bindChannel {p : Proc} {channel id : ChannelId}
    (h : (p.bindChannel channel).channel? = some id) : id = channel := by
  unfold bindChannel at h
  split at h
  case h_1 => exact (Option.some.inj h).symm
  case h_2 other =>
    cases plan : p.plan with
    | rendezvous triggers own => exact absurd plan (other triggers own)
    | none | io | mutex => simp [channel?, plan] at h

end Proc

namespace Channel

/-- Whether a side has gone. -/
def gone (c : Channel) : Role → Bool
  | .producer => c.producerGone
  | .consumer => c.consumerGone

/-- Process `pid` is one of the two sides. -/
def Has (c : Channel) (pid : Pid) : Prop := ∃ role, c.partner role = pid

variable {p : Proc} {t : Trap} {c c' : Channel} {out : Multiset Proc}

theorem Serves.partner_eq (h : Serves p t c c' out) : c'.partner = c.partner := by
  cases h with
  | lock => rfl
  | @wait id c role => cases role <;> rfl
  | @turn id c role => cases role <;> rfl

theorem Serves.gone_eq (h : Serves p t c c' out) : c'.gone = c.gone := by
  cases h with
  | lock => rfl
  | @wait id c role => cases role <;> rfl
  | @turn id c role => cases role <;> rfl

/-- Who is parked after a service is the process that was served or was parked before. -/
theorem Serves.mem_parked (h : Serves p t c c' out) {w : Proc} (hw : w ∈ c'.parked) :
    w.profile = p.profile ∨ ∃ v ∈ c.parked, v.profile = w.profile := by
  obtain ⟨q, balanced, same⟩ := h.exists_cons
  have parked : w.core ∈ q ::ₘ cores c.parked :=
    balanced ▸ Multiset.mem_add.2 (.inr (Queue.core_mem_cores hw))
  rcases Multiset.mem_cons.1 parked with own | before
  · left
    rw [← w.profile_core, own, same]
  · obtain ⟨v, hv, core⟩ := Queue.mem_cores.1 before
    right
    exact ⟨v, hv, by rw [← v.profile_core, core, w.profile_core]⟩

@[simp] theorem partner_retire (c : Channel) (pid : Pid) : (c.retire pid).partner = c.partner := by
  unfold retire
  split
  · rfl
  · split <;> rfl

theorem gone_retire {pid : Pid} {role : Role} (h : (c.retire pid).gone role = true) :
    c.gone role = true ∨ c.partner role = pid := by
  unfold retire at h
  split at h
  case isTrue own =>
    cases role with
    | producer => exact .inr own.symm
    | consumer => exact .inl h
  case isFalse =>
    split at h
    case isTrue own =>
      cases role with
      | producer => exact .inl h
      | consumer => exact .inr own.symm
    case isFalse => exact .inl h

theorem gone_of_isAbandoned (h : c.isAbandoned = true) (role : Role) : c.gone role = true := by
  rw [isAbandoned, Bool.and_eq_true] at h
  cases role with
  | producer => exact h.1
  | consumer => exact h.2

end Channel

namespace Scene

variable {s s' : Scene}

/-! ## One channel -/

/-- Where a channel of the later scene comes from. -/
inductive ChannelStep (s s' : Scene) (id : ChannelId) (c' : Channel) : Prop
  | kept (found : s.channels.get? id = some c')
  | served {p p' : Proc} {rest : Multiset Proc} {t : Trap} {c : Channel} {out : Multiset Proc}
    (runs : s.Runs p p' rest (some t)) (request : t.channel? = some id)
    (found : s.channels.get? id = some c) (serves : Channel.Serves p' t c c' out)
  | left {p : Proc} {rest : Queue} {c : Channel} (zombie : s.zombies = p :: rest)
    (found : s.channels.get? id = some c) (same : c' = c.retire p.pid)
    (dropped : s'.dropped = s.dropped ++ [p]) (stays : c'.isAbandoned = false)
  | made {producer consumer : Proc} {lock : LockId}
    (arrived : s'.arrived = s.arrived ++ [.rendezvousPair producer consumer])
    (new : id = ⟨s.nextChannel⟩) (same : c' = .between lock producer.pid consumer.pid)

theorem channelStep_of_step (tidy : s.Tidy) (step : Step s s') {id : ChannelId} {c' : Channel}
    (found : s'.channels.get? id = some c') : ChannelStep s s' id c' := by
  cases step with
  | scan | single | mutexPair | goOn | request | table | complete | terminate | retire | drop =>
    exact .kept found
  | rendezvousPair producer consumer =>
    rw [Registry.get?_add tidy.fresh] at found
    split at found
    case isTrue new =>
      cases found
      exact .made rfl new rfl
    case isFalse => exact .kept found
  | channel runs request here serves =>
    rw [Registry.get?_set (Registry.mem_keys_of_get? here)] at found
    split at found
    case isTrue own =>
      cases found
      subst own
      exact .served runs request here serves
    case isFalse => exact .kept found
  | dissolve =>
    rw [channels_dropLock, channels_dropLock] at found
    exact .kept found
  | leave zombie bound here stays =>
    rw [Registry.get?_set (Registry.mem_keys_of_get? here)] at found
    split at found
    case isTrue own =>
      cases found
      subst own
      exact .left zombie here rfl rfl stays
    case isFalse => exact .kept found
  | close zombie bound here goes => exact .kept (Registry.get?_of_erase found)

/-- A channel was there before, with the same sides, or was made for the pair that arrives. -/
theorem ChannelStep.old_or_new {id : ChannelId} {c' : Channel} (h : ChannelStep s s' id c') :
    (∃ c, s.channels.get? id = some c ∧ c'.partner = c.partner) ∨
      id = ⟨s.nextChannel⟩ ∧ ∃ producer consumer,
        s'.arrived = s.arrived ++ [.rendezvousPair producer consumer] ∧
        c'.producer = producer.pid ∧ c'.consumer = consumer.pid := by
  cases h with
  | kept found => exact .inl ⟨c', found, rfl⟩
  | served runs request found serves => exact .inl ⟨_, found, serves.partner_eq⟩
  | left zombie found same => exact .inl ⟨_, found, by rw [same, Channel.partner_retire]⟩
  | @made producer consumer lock arrived new same =>
    subst same
    exact .inr ⟨new, producer, consumer, arrived, rfl, rfl⟩

theorem nextChannel_le_of_step (step : Step s s') : s.nextChannel ≤ s'.nextChannel := by
  cases step with
  | rendezvousPair => exact Nat.le_succ _
  | dissolve =>
    rw [nextChannel_dropLock, nextChannel_dropLock]
  | _ => exact Nat.le_refl _

/-- With a rendezvous pair comes the next channel. -/
theorem made_of_step (step : Step s s') {producer consumer : Proc}
    (arrived : s'.arrived = s.arrived ++ [.rendezvousPair producer consumer]) :
    s'.nextChannel = s.nextChannel + 1 ∧ ∃ lock, s'.channels =
      s.channels.add ⟨s.nextChannel⟩ (.between lock producer.pid consumer.pid) := by
  cases step with
  | rendezvousPair =>
    cases List.append_cancel_left arrived
    exact ⟨rfl, _, rfl⟩
  | single | mutexPair => cases List.append_cancel_left arrived
  | _ => simp at arrived

/-! ## All channels -/

/-- The processes of the books that have a channel are its two sides, only they are parked on it,
and a side that has gone was dropped. -/
structure Bound (s : Scene) : Prop where
  lt : ∀ p ∈ s.books, ∀ id, p.channel? = some id → id.num < s.nextChannel
  has : ∀ p ∈ s.books, ∀ id, p.channel? = some id →
    ∀ c, s.channels.get? id = some c → c.Has p.pid
  parked : ∀ id c, s.channels.get? id = some c → ∀ w ∈ c.parked, w.channel? = some id
  gone : ∀ id c, s.channels.get? id = some c → ∀ role, c.gone role = true →
    ∃ p ∈ s.dropped, p.pid = c.partner role

namespace Bound

/-- Who arrives now and has a channel is a member of a rendezvous pair, and the channel is the next
one. -/
theorem of_enrolled {a : Arrival} (coupled : a.Coupled) {q : Proc} (hq : q ∈ s.enrolled a)
    {id : ChannelId} (h : q.channel? = some id) : id = ⟨s.nextChannel⟩ ∧
      ∃ producer consumer, a = .rendezvousPair producer consumer ∧
        (q.pid = producer.pid ∨ q.pid = consumer.pid) := by
  cases a with
  | single p =>
    rw [List.mem_singleton.1 hq, show p.channel? = none from coupled] at h
    cases h
  | mutexPair first second reversed =>
    rcases List.mem_cons.1 hq with rfl | hq
    · rw [coupled.1] at h
      cases h
    · rw [List.mem_singleton.1 hq, coupled.2] at h
      cases h
  | rendezvousPair producer consumer =>
    rcases List.mem_cons.1 hq with rfl | hq
    · exact ⟨Proc.channel?_bindChannel h, producer, consumer, rfl, .inl (Proc.pid_bindChannel ..)⟩
    · rw [List.mem_singleton.1 hq] at h ⊢
      exact ⟨Proc.channel?_bindChannel h, producer, consumer, rfl, .inr (Proc.pid_bindChannel ..)⟩

theorem step (h : s.Bound) (tidy : s.Tidy) (coupled : ∀ a ∈ s'.arrived, a.Coupled)
    (step : Step s s') : s'.Bound := by
  have next := nextChannel_le_of_step step
  have dropped := (dropped_prefix_of_step step).subset
  -- Either a record of the books is an old one or its channel is new.
  have record : ∀ p ∈ s'.books, ∀ id, p.channel? = some id →
      id.num < s'.nextChannel ∧ ∀ c, s'.channels.get? id = some c → c.Has p.pid := by
    intro p hp id bound
    rcases step.mem_books tidy hp with old | ⟨a, arrived, q, hq, rfl⟩
    · refine ⟨(h.lt p old id bound).trans_le next, fun c found => ?_⟩
      rcases (channelStep_of_step tidy step found).old_or_new with ⟨c₀, before, sides⟩ | ⟨new, -⟩
      · obtain ⟨role, side⟩ := h.has p old id bound c₀ before
        exact ⟨role, sides ▸ side⟩
      · rw [new] at bound
        exact absurd (h.lt p old _ bound) (Nat.lt_irrefl _)
    · have mem : a ∈ s'.arrived := arrived ▸ List.mem_append_right _ List.mem_cons_self
      obtain ⟨rfl, producer, consumer, rfl, side⟩ := of_enrolled (coupled a mem) hq bound
      obtain ⟨succ, lock, channels⟩ := made_of_step step arrived
      refine ⟨succ ▸ Nat.lt_succ_self _, fun c found => ?_⟩
      rw [channels, Registry.get?_add tidy.fresh, if_pos rfl] at found
      cases found
      rcases side with side | side
      · exact ⟨.producer, side.symm⟩
      · exact ⟨.consumer, side.symm⟩
  refine ⟨fun p hp id bound => (record p hp id bound).1,
    fun p hp id bound => (record p hp id bound).2, fun id c found w hw => ?_,
    fun id c found role gone => ?_⟩
  · cases channelStep_of_step tidy step found with
    | kept before => exact h.parked id c before w hw
    | served runs request before serves =>
      rcases serves.mem_parked hw with same | ⟨v, hv, same⟩
      · rw [← w.channel?_profile, same, Proc.channel?_profile]
        exact Proc.channel?_of_trapAt runs.trap request
      · rw [← w.channel?_profile, ← same, Proc.channel?_profile]
        exact h.parked id _ before v hv
    | left zombie before same =>
      rw [same, Channel.parked_retire] at hw
      exact h.parked id _ before w hw
    | made arrived new same =>
      rw [same] at hw
      cases hw
  · cases channelStep_of_step tidy step found with
    | kept before =>
      obtain ⟨p, hp, same⟩ := h.gone id c before role gone
      exact ⟨p, dropped hp, same⟩
    | served runs request before serves =>
      rw [serves.gone_eq] at gone
      obtain ⟨p, hp, same⟩ := h.gone id _ before role gone
      exact ⟨p, dropped hp, serves.partner_eq ▸ same⟩
    | @left p rest c₀ zombie before same drop =>
      rw [same] at gone ⊢
      rw [Channel.partner_retire]
      rcases Channel.gone_retire gone with gone | own
      · obtain ⟨p, hp, same⟩ := h.gone id _ before role gone
        exact ⟨p, dropped hp, same⟩
      · exact ⟨p, drop ▸ List.mem_append_right _ List.mem_cons_self, own.symm⟩
    | made arrived new same =>
      rw [same] at gone
      cases role <;> cases gone

/-- When a channel goes, both its sides have ended, and nobody is parked on it. -/
theorem parked_eq_nil_of_close (h : s.Bound) (tidy : s.Tidy) (lawful : s.Lawful) {p : Proc}
    {rest : Queue} {id : ChannelId} {c : Channel} (zombie : s.zombies = p :: rest)
    (found : s.channels.get? id = some c) (goes : (c.retire p.pid).isAbandoned = true) :
    c.parked = [] := by
  by_contra parked
  obtain ⟨w, hw⟩ := List.exists_mem_of_ne_nil _ parked
  have others : s.population = p.core ::ₘ (s.free + s.parked + cores rest) := by
    rw [population, zombie, Queue.cores_cons, Multiset.add_cons]
  have mem : w.core ∈ s.free + s.parked + cores rest := by
    have here : w ∈ s.channels.values.flatMap Channel.parked :=
      List.mem_flatMap.2 ⟨c, (Registry.mem_values_iff tidy.channels).2 ⟨id, found⟩, hw⟩
    refine Multiset.mem_add.2 (.inl (Multiset.mem_add.2 (.inr ?_)))
    exact Multiset.mem_add.2 (.inr (Queue.core_mem_cores here))
  have population : w.core ∈ s.population := others ▸ Multiset.mem_cons_of_mem mem
  have uses := h.parked id c found w hw
  obtain ⟨role, side⟩ := h.has _ (profile_mem_books population) id uses c found
  rcases Channel.gone_retire (Channel.gone_of_isAbandoned goes role) with gone | own
  · obtain ⟨q, hq, same⟩ := h.gone id c found role gone
    exact lawful.pid_notMem_dropped population hq (same.trans side)
  · exact lawful.pid_ne others mem (side.symm.trans own)

end Bound

theorem Fresh.get?_channels (fresh : s.Fresh) (id : ChannelId) : s.channels.get? id = none :=
  Registry.get?_eq_none_iff.2 (fresh.channels ▸ List.not_mem_nil)

theorem Fresh.bound (fresh : s.Fresh) : s.Bound := by
  refine ⟨?_, ?_, ?_, ?_⟩
  · intro p hp
    rw [fresh.books] at hp
    exact absurd hp (Multiset.notMem_zero p)
  · intro p hp
    rw [fresh.books] at hp
    exact absurd hp (Multiset.notMem_zero p)
  · intro id c found
    rw [fresh.get?_channels] at found
    cases found
  · intro id c found
    rw [fresh.get?_channels] at found
    cases found

theorem bound_of_steps (fresh : s.Fresh) (steps : Steps s s')
    (coupled : ∀ a ∈ s'.arrived, a.Coupled) : s'.Bound := by
  induction steps with
  | refl => exact fresh.bound
  | @tail s₁ s₂ steps step ih =>
    have before : ∀ a ∈ s₁.arrived, a.Coupled := fun a ha =>
      coupled a ((arrived_prefix_of_step step).subset ha)
    exact (ih before).step (tidy_of_steps fresh steps) coupled step

end Scene
end Mlfq
