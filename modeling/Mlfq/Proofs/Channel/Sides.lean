import Mlfq.Proofs.Channel.Alternation

/-! # The sides of a channel

Each channel was made for one rendezvous pair. The pair takes turns on it, as every process that
uses the channel is on the side of its kind. -/

namespace Mlfq

open Queue (cores)

theorem Proc.channel?_ne_none_of_outline_eq {p q : Proc} (same : q.outline = p.outline)
    {id : ChannelId} (h : p.channel? = some id) : q.channel? ≠ none := by
  intro none
  have plan : p.plan = q.plan := by
    apply plan_eq_of_outline_eq same.symm
    intro triggers other own
    rw [channel?, own] at none
    cases none
  rw [channel?, plan] at h
  rw [channel?, h] at none
  cases none

namespace Scene

variable {s s' : Scene}

/-- Every channel was made for a rendezvous pair, and for each pair there is one. -/
structure Seated (s : Scene) : Prop where
  origin : ∀ id c, s.channels.get? id = some c → ∃ producer consumer,
    .rendezvousPair producer consumer ∈ s.arrived ∧ c.producer = producer.pid ∧
      c.consumer = consumer.pid
  unique : ∀ id id' c c', s.channels.get? id = some c → s.channels.get? id' = some c' →
    c.producer = c'.producer → id = id'

namespace Seated

theorem step (h : s.Seated) (tidy : s.Tidy) (distinct : Arrival.Distinct s'.arrived)
    (step : Step s s') : s'.Seated := by
  have arrived := arrived_prefix_of_step step
  -- The producer of an old channel has not come just now.
  have other : ∀ {id c₀ producer consumer}, s.channels.get? id = some c₀ →
      s'.arrived = s.arrived ++ [.rendezvousPair producer consumer] →
      c₀.producer ≠ producer.pid := by
    intro id c₀ producer consumer before come
    obtain ⟨producer₀, consumer₀, earlier, side, -⟩ := h.origin id c₀ before
    rw [come] at distinct
    refine distinct.pid_ne ?_ List.mem_cons_self
    rw [side]
    exact List.mem_map_of_mem (List.mem_flatMap.2 ⟨_, earlier, List.mem_cons_self⟩)
  constructor
  · intro id c found
    rcases (channelStep_of_step tidy step found).old_or_new with ⟨c₀, before, sides⟩ | ⟨-, new⟩
    · obtain ⟨producer, consumer, come, left, right⟩ := h.origin id c₀ before
      exact ⟨producer, consumer, arrived.subset come,
        (congrFun sides .producer).trans left, (congrFun sides .consumer).trans right⟩
    · obtain ⟨producer, consumer, come, left, right⟩ := new
      exact ⟨producer, consumer, come ▸ List.mem_append_right _ List.mem_cons_self, left, right⟩
  · intro id id' c c' found found' same
    rcases (channelStep_of_step tidy step found).old_or_new with ⟨c₀, before, sides⟩ | ⟨new, pair⟩
    · have side : c.producer = c₀.producer := congrFun sides .producer
      rcases (channelStep_of_step tidy step found').old_or_new with
        ⟨c₁, before', sides'⟩ | ⟨-, producer, consumer, come, left, -⟩
      · have side' : c'.producer = c₁.producer := congrFun sides' .producer
        exact h.unique id id' c₀ c₁ before before' (side.symm.trans (same.trans side'))
      · exact absurd (side.symm.trans (same.trans left)) (other before come)
    · obtain ⟨producer, consumer, come, left, -⟩ := pair
      rcases (channelStep_of_step tidy step found').old_or_new with
        ⟨c₁, before', sides'⟩ | ⟨new', -⟩
      · have side' : c'.producer = c₁.producer := congrFun sides' .producer
        exact absurd (side'.symm.trans (same.symm.trans left)) (other before' come)
      · rw [new, new']

/-- The sides of a channel are two processes. -/
theorem producer_ne_consumer (h : s.Seated) (distinct : Arrival.Distinct s.arrived)
    {id : ChannelId} {c : Channel} (found : s.channels.get? id = some c) :
    c.producer ≠ c.consumer := by
  obtain ⟨producer, consumer, come, left, right⟩ := h.origin id c found
  rw [Arrival.Distinct, List.map_flatMap] at distinct
  have nodup := (List.nodup_flatMap.1 distinct).1 _ come
  rw [left, right]
  exact fun same => (List.nodup_cons.1 nodup).1 (List.mem_singleton.2 same)

/-- The channel of which a member of a rendezvous pair is a side was made for the pair. -/
theorem sides_of_arrival (h : s.Seated) (distinct : Arrival.Distinct s.arrived) {id : ChannelId}
    {c : Channel} (found : s.channels.get? id = some c) {producer consumer p : Proc}
    (come : .rendezvousPair producer consumer ∈ s.arrived) (member : p ∈ [producer, consumer])
    (side : p.pid ∈ [c.producer, c.consumer]) :
    c.producer = producer.pid ∧ c.consumer = consumer.pid := by
  obtain ⟨producer', consumer', come', left, right⟩ := h.origin id c found
  rw [left, right] at side
  have own : Arrival.rendezvousPair producer consumer = .rendezvousPair producer' consumer' :=
    distinct.arrival_unique come come' (List.mem_map_of_mem member) side
  cases own
  exact ⟨left, right⟩

/-- The side of a process is the one of its kind. -/
theorem exists_role (h : s.Seated) (bound : s.Bound) (lawful : s.Lawful)
    (sided : ∀ a ∈ s.arrived, a.Sided) {p : Proc} (hp : p ∈ s.population) {id : ChannelId}
    (uses : p.channel? = some id) {c : Channel} (found : s.channels.get? id = some c) :
    ∃ role, Channel.Role.ofKind? p.kind = some role ∧ c.partner role = p.pid := by
  obtain ⟨role, own⟩ := bound.has _ (profile_mem_books hp) id uses c found
  obtain ⟨producer, consumer, come, left, right⟩ := h.origin id c found
  obtain ⟨kind₁, kind₂⟩ := sided _ come
  -- The process that arrived on the side has the kind of the side.
  have kind : ∀ q ∈ [producer, consumer], q.pid = p.pid → (q.channel? ≠ none →
      Channel.Role.ofKind? q.kind = some role) → Channel.Role.ofKind? p.kind = some role := by
    intro q hq same kind
    have guest : q ∈ s.arrived.flatMap Arrival.procs := List.mem_flatMap.2 ⟨_, come, hq⟩
    have outline := lawful.outline_eq (profile_mem_books hp) guest same
    have kind_eq := congrArg Proc.kind outline
    rw [Proc.kind_outline, Proc.kind_outline] at kind_eq
    exact kind_eq ▸ kind (Proc.channel?_ne_none_of_outline_eq outline uses)
  refine ⟨role, ?_, own⟩
  cases role with
  | producer =>
    refine kind producer List.mem_cons_self (left.symm.trans own) fun uses => ?_
    rw [kind₁ uses]
    rfl
  | consumer =>
    refine kind consumer (List.mem_cons_of_mem _ List.mem_cons_self) (right.symm.trans own)
      fun uses => ?_
    rw [kind₂ uses]
    rfl

end Seated

theorem seated_of_steps (fresh : s.Fresh) (steps : Steps s s')
    (distinct : Arrival.Distinct s'.arrived) : s'.Seated := by
  induction steps with
  | refl =>
    constructor
    · intro id c found
      rw [fresh.get?_channels] at found
      cases found
    · intro id id' c c' found
      rw [fresh.get?_channels] at found
      cases found
  | tail steps step ih =>
    have before := distinct_of_prefix (arrived_prefix_of_step step) distinct
    exact (ih before).step (tidy_of_steps fresh steps) distinct step

/-- Who runs is not parked on the channel, and nobody is parked there twice. -/
theorem Lawful.nodup_parked (h : s.Lawful) (tidy : s.Tidy) {p p' : Proc} {rest : Multiset Proc}
    {t : Option Trap} (runs : s.Runs p p' rest t) {id : ChannelId} {c : Channel}
    (found : s.channels.get? id = some c) : (p'.pid :: c.parked.map (·.pid)).Nodup := by
  obtain ⟨others, before, -⟩ := exists_population_set_channel tidy found
  have nodup := h.nodup
  rw [before, runs.running, Multiset.cons_add, Multiset.cons_add, Multiset.map_cons,
    Multiset.map_add, Multiset.map_add, Queue.map_pid_cores] at nodup
  rw [← Multiset.coe_nodup, ← Multiset.cons_coe, runs.advances.pid_eq]
  refine Multiset.nodup_of_le (Multiset.cons_le_cons _ ?_) nodup
  exact (Multiset.le_add_left _ _).trans (Multiset.le_add_right _ _)

/-- The sides of every channel take turns. -/
theorem alternates_of_steps (fresh : s.Fresh) (steps : Steps s s')
    (distinct : Arrival.Distinct s'.arrived) (sided : ∀ a ∈ s'.arrived, a.Sided) :
    ∀ id c, s'.channels.get? id = some c → c.Alternates := by
  induction steps with
  | refl =>
    intro id c found
    rw [fresh.get?_channels] at found
    cases found
  | @tail s₁ s₂ steps step ih =>
    intro id c' found
    have arrived := arrived_prefix_of_step step
    have distinct := distinct_of_prefix arrived distinct
    have sided : ∀ a ∈ s₁.arrived, a.Sided := fun a ha => sided a (arrived.subset ha)
    have ih := ih distinct sided
    have tidy := tidy_of_steps fresh steps
    cases channelStep_of_step tidy step found with
    | kept before => exact ih id c' before
    | @served p p' rest t c out runs request before serves =>
      have lawful := fresh.lawful steps distinct
      have seated := seated_of_steps fresh steps distinct
      have bound := bound_of_steps fresh steps fun a ha => (sided a ha).coupled
      have uses : p.channel? = some id :=
        runs.advances.channel?_eq ▸ Proc.channel?_of_trapAt runs.trap request
      have here : p ∈ s₁.population := runs.population_eq ▸ Multiset.mem_cons_self p _
      obtain ⟨role, kind, own⟩ := seated.exists_role bound lawful sided here uses before
      exact (ih id c before).serves serves (runs.advances.kind_eq ▸ kind)
        (own.trans runs.advances.pid_eq.symm) (lawful.nodup_parked tidy runs before)
    | @left p rest c zombie before same =>
      subst same
      exact (ih id c before).retire p.pid
    | made come new same =>
      subst same
      exact Channel.alternates_between ..

end Scene
end Mlfq
