import Mathlib.Data.List.Range
import Mlfq.Proofs.Channel.Rendezvous
import Mlfq.Proofs.Story.Growth

/-! # A channel hands over every value once

The trace of a run tells of every turn that was taken on a channel. The two sides take turns, and
the values that go in come out again in the same order. Nothing is asked of the processes: the flag
of the slot alone lets a producer in or a consumer. -/

namespace Mlfq

/-- What an event tells of the turns on channel `id`: the side whose turn it was, and the value. -/
def Event.exchange? (id : ChannelId) : Event → Option (Channel.Role × Nat)
  | .produced _ channel value => if channel = id then some (.producer, value) else none
  | .consumed _ channel value => if channel = id then some (.consumer, value) else none
  | _ => none

/-- The turns on channel `id` in the order in which they were taken. -/
def Trace.exchanges (t : Trace) (id : ChannelId) : List (Channel.Role × Nat) :=
  t.events.filterMap (Event.exchange? id)

namespace Channel

/-- The values in the turns of one side. -/
def valuesOf (turns : List (Role × Nat)) (role : Role) : List Nat :=
  (turns.filter (·.1 = role)).map (·.2)

/-- The turns that were taken on a channel hand over every value once: the two sides alternate and
the producer begins, each side has the values 1, 2, 3 and so on, and the channel knows how many went
in and whether the last is still there. -/
structure HandsOver (c : Channel) (turns : List (Role × Nat)) : Prop where
  begins : ∀ turn, turns.head? = some turn → turn.1 = .producer
  alternates : (turns.map (·.1)).IsChain (· ≠ ·)
  produced : ∀ k (h : k < (valuesOf turns .producer).length), (valuesOf turns .producer)[k] = k + 1
  consumed : ∀ k (h : k < (valuesOf turns .consumer).length), (valuesOf turns .consumer)[k] = k + 1
  counter : c.counter = (valuesOf turns .producer).length
  full : c.full = true ↔
    (valuesOf turns .producer).length = (valuesOf turns .consumer).length + 1

/-- Turn number `n`, counted from 0. -/
def turn (n : Nat) : Role × Nat := (if n % 2 = 0 then .producer else .consumer, n / 2 + 1)

/-- The first `n` turns. -/
def firstTurns (n : Nat) : List (Role × Nat) := (List.range n).map turn

theorem firstTurns_succ (n : Nat) : firstTurns (n + 1) = firstTurns n ++ [turn n] := by
  rw [firstTurns, List.range_succ, List.map_append]
  rfl

theorem valuesOf_firstTurns (n : Nat) :
    valuesOf (firstTurns n) .producer = List.range' 1 ((n + 1) / 2) ∧
      valuesOf (firstTurns n) .consumer = List.range' 1 (n / 2) := by
  induction n with
  | zero => exact ⟨rfl, rfl⟩
  | succ n ih =>
    have grow : ∀ role, valuesOf (firstTurns (n + 1)) role =
        valuesOf (firstTurns n) role ++ if (turn n).1 = role then [n / 2 + 1] else [] := by
      intro role
      rw [firstTurns_succ, valuesOf, List.filter_append, List.map_append]
      split <;> simp_all [valuesOf, turn]
    rw [grow, grow, ih.1, ih.2]
    rcases Nat.mod_two_eq_zero_or_one n with even | odd
    · have side : (turn n).1 = .producer := if_pos even
      have more : (n + 1 + 1) / 2 = (n + 1) / 2 + 1 := by omega
      have same : (n + 1) / 2 = n / 2 := by omega
      rw [side, if_pos rfl, if_neg nofun, more, List.range'_1_concat, List.append_nil, same]
      exact ⟨by rw [Nat.add_comm], rfl⟩
    · have side : (turn n).1 = .consumer := if_neg (by omega)
      have same : (n + 1 + 1) / 2 = (n + 1) / 2 := by omega
      have more : (n + 1) / 2 = n / 2 + 1 := by omega
      rw [side, if_pos rfl, if_neg nofun, same, List.append_nil, more, List.range'_1_concat]
      exact ⟨rfl, by rw [Nat.add_comm]⟩

theorem handsOver_firstTurns {c : Channel} {n : Nat}
    (slot : c.slot = ((n + 1) / 2, decide (n % 2 = 1))) : c.HandsOver (firstTurns n) := by
  obtain ⟨produced, consumed⟩ := valuesOf_firstTurns n
  obtain ⟨counter, full⟩ := Prod.mk.inj slot
  refine ⟨?_, ?_, ?_, ?_, ?_, ?_⟩
  · intro turn first
    cases n with
    | zero => cases first
    | succ n =>
      rw [firstTurns, List.range_succ_eq_map] at first
      cases first
      rfl
  · rw [firstTurns, List.map_map, List.isChain_map, List.isChain_range]
    intro i _
    simp only [Function.comp, turn]
    rcases Nat.mod_two_eq_zero_or_one i with even | odd
    · rw [if_pos even, if_neg (by omega)]
      exact nofun
    · rw [if_neg (by omega), if_pos (by omega)]
      exact nofun
  · intro k hk
    simp only [produced, List.getElem_range']
    omega
  · intro k hk
    simp only [consumed, List.getElem_range']
    omega
  · rw [produced, List.length_range', counter]
  · rw [produced, consumed, List.length_range', List.length_range', full, decide_eq_true_eq]
    omega

end Channel

theorem Channel.slot_wait (c : Channel) (role : Role) (p : Proc) (ready : ReadyQueue) :
    (c.wait role p ready).2.1.slot = c.slot := by
  cases role <;> rfl

variable {σ : Type}

namespace Machine

variable {m m' : Machine σ}

theorem exchanges_emit (tracing : m.journal.tracing = true) (e : Event) (id : ChannelId) :
    (m.emit e).journal.trace.exchanges id =
      m.journal.trace.exchanges id ++ (e.exchange? id).toList := by
  have events : (m.emit e).journal.trace.events = m.journal.trace.events ++ [e] :=
    events_emit tracing e
  rw [Trace.exchanges, events, List.filterMap_append]
  rfl

/-- What is not a turn is not told as one. -/
theorem exchanges_of_grows (h : m.journal.Grows (·.isExchange = false) m'.journal)
    (id : ChannelId) : m'.journal.trace.exchanges id = m.journal.trace.exchanges id := by
  obtain ⟨-, es, quiet, events⟩ := h
  have none : es.filterMap (Event.exchange? id) = [] := by
    refine List.filterMap_eq_nil_iff.2 fun e he => ?_
    have := quiet e he
    cases e <;> first | rfl | cases this
  rw [Trace.exchanges, events, List.filterMap_append, none, List.append_nil]
  rfl

/-- The trace tells of the turns on every channel there is, and of none on a channel to come. -/
structure CountsExchanges (m : Machine σ) : Prop where
  tracing : m.journal.tracing = true
  made : ∀ id c, m.channels.get? id = some c → id.num < m.nextChannel
  turns : ∀ id c, m.channels.get? id = some c → ∃ n,
    m.journal.trace.exchanges id = Channel.firstTurns n ∧ c.slot = ((n + 1) / 2, decide (n % 2 = 1))
  unmade : ∀ id : ChannelId, m.nextChannel ≤ id.num → m.journal.trace.exchanges id = []

namespace CountsExchanges

theorem start {config : Config} (tracing : config.recordTrace = true) (workload : σ)
    (logLevel : Option Level) : (Machine.start config workload logLevel).CountsExchanges :=
  ⟨tracing, nofun, nofun, fun _ _ => rfl⟩

theorem of_routine (h : m.CountsExchanges) (routine : m.Routine (·.isExchange = false) m') :
    m'.CountsExchanges := by
  refine ⟨routine.journal.1.trans h.tracing, ?_, ?_, ?_⟩
  · intro id c' found
    rcases routine.slots.slots id c' found with ⟨c, found, -⟩ | ⟨-, high, -⟩
    · exact Nat.lt_of_lt_of_le (h.made id c found) routine.slots.grows
    · exact high
  · intro id c' found
    rw [exchanges_of_grows routine.journal id]
    rcases routine.slots.slots id c' found with ⟨c, found, slot⟩ | ⟨low, -, slot⟩
    · obtain ⟨n, turns, slot'⟩ := h.turns id c found
      exact ⟨n, turns, slot.trans slot'⟩
    · exact ⟨0, h.unmade id low, slot⟩
  · intro id high
    rw [exchanges_of_grows routine.journal id]
    exact h.unmade id (Nat.le_trans routine.slots.grows high)

/-- A turn that the slot allows is the next one. -/
theorem of_exchange (h : m.CountsExchanges) (m' : Machine σ) (e e' : Event) {id : ChannelId}
    {c c' : Channel} {role : Channel.Role}
    (found : m.channels.get? id = some c) (allowed : c.mustWait role = false)
    (channels : m'.channels = m.channels.set id c') (made : m'.nextChannel = m.nextChannel)
    (slot : c'.slot = (c.counter + if role = .producer then 1 else 0, decide (role = .producer)))
    (journal : m'.journal = m.journal)
    (turn : ∀ id', e.exchange? id' = if id = id' then some (role, c'.counter) else none)
    (other : ∀ id', e'.exchange? id' = none) : ((m'.emit e).emit e').CountsExchanges := by
  have tracing : m'.journal.tracing = true := journal ▸ h.tracing
  have tracing' : (m'.emit e).journal.tracing = true := (Journal.tracing_event ..).trans tracing
  have told : ∀ id', ((m'.emit e).emit e').journal.trace.exchanges id' =
      m.journal.trace.exchanges id' ++ if id = id' then [(role, c'.counter)] else [] := by
    intro id'
    rw [exchanges_emit tracing', exchanges_emit tracing, other, turn, journal]
    split <;> simp
  have mem := Registry.mem_keys_of_get? found
  refine ⟨(Journal.tracing_event ..).trans tracing', ?_, ?_, ?_⟩
  · intro id₁ c₁ found₁
    change m'.channels.get? id₁ = some c₁ at found₁
    change id₁.num < m'.nextChannel
    rw [channels, Registry.get?_set mem] at found₁
    rw [made]
    split at found₁
    · obtain rfl := ‹id₁ = id›
      exact h.made id₁ c found
    · exact h.made id₁ c₁ found₁
  · intro id₁ c₁ found₁
    change m'.channels.get? id₁ = some c₁ at found₁
    rw [channels, Registry.get?_set mem] at found₁
    rw [told id₁]
    split at found₁
    · obtain rfl := ‹id₁ = id›
      cases found₁
      obtain ⟨n, turns, before⟩ := h.turns id₁ c found
      obtain ⟨counter, full⟩ := Prod.mk.inj before
      obtain ⟨counter', full'⟩ := Prod.mk.inj slot
      refine ⟨n + 1, ?_, ?_⟩
      · rw [if_pos rfl, turns, Channel.firstTurns_succ, Channel.turn]
        cases role <;> simp_all [Channel.mustWait] <;> omega
      · cases role <;> simp_all [Channel.mustWait, Channel.slot] <;> omega
    · rw [if_neg fun same => ‹¬id₁ = id› same.symm, List.append_nil]
      exact h.turns id₁ c₁ found₁
  · intro id₁ high
    change m'.nextChannel ≤ id₁.num at high
    rw [made] at high
    have old : id ≠ id₁ := by
      rintro rfl
      exact absurd (h.made id c found) (Nat.not_lt.2 high)
    rw [told id₁, if_neg old, List.append_nil]
    exact h.unmade id₁ high

theorem rendezvous (h : m.CountsExchanges) (id : ChannelId) :
    (m.rendezvous id).2.CountsExchanges := by
  unfold Machine.rendezvous
  split
  · rename_i p c running found
    split
    · exact h
    · rename_i role side
      split
      · have plain : (Event.condWait p.pid id).isExchange = false := rfl
        exact h.of_routine ⟨.event (.refl _) plain _, .set found (Channel.slot_wait c role _ _) _⟩
      · have allowed : c.mustWait role = false := Bool.eq_false_iff.2 ‹_›
        cases role with
        | producer =>
          let out := c.produce p.pid m.ready
          let m₁ : Machine σ := { m with
            channels := m.channels.set id out.2.2.1
            ready := out.2.2.2 }
          exact h.of_exchange m₁ (.produced p.pid id out.1) (.condSignal p.pid id out.2.1.pid?)
            found allowed rfl rfl rfl rfl (fun _ => rfl) fun _ => rfl
        | consumer =>
          let out := c.consume p.pid m.ready
          let m₁ : Machine σ := { m with
            channels := m.channels.set id out.2.2.1
            ready := out.2.2.2 }
          exact h.of_exchange m₁ (.consumed p.pid id out.1) (.condSignal p.pid id out.2.1.pid?)
            found allowed rfl rfl rfl rfl (fun _ => rfl) fun _ => rfl
  · exact h

theorem handleTrap (h : m.CountsExchanges) (t : Trap) : (m.handleTrap t).2.CountsExchanges := by
  let m₀ := m.measure fun c => { c with traps := c.traps.increment t.label }
  have counted : m₀.CountsExchanges := h.of_routine ⟨.refl _, .refl _ _⟩
  cases t with
  | unlock id | tryUnlock id => exact counted.of_routine (routine_unlock m₀ id)
  | rendezvousBody id => exact counted.rendezvous id
  | _ => exact h.of_routine ((routine_handleTrap m (by simp)).mono fun _ plain => plain.1)

theorem next [Workload σ] {mo mo' : Moment σ} (h : mo.ledger.machine.CountsExchanges)
    (next : Moment.Next mo mo') : mo'.ledger.machine.CountsExchanges := by
  rcases next.routine_or_raises with routine | ⟨p, t, m₁, raises, handled⟩
  · exact h.of_routine (routine.mono fun _ plain => plain.1)
  · rw [handled]
    exact (h.of_routine (raises.routine.mono fun _ plain => plain.1)).handleTrap t

theorem of_reachable [Workload σ] {mo : Moment σ} (h : m.CountsExchanges)
    (reachable : Moment.Reachable m mo) : mo.ledger.machine.CountsExchanges := by
  induction reachable with
  | refl => exact h
  | tail _ step ih => exact ih.next step

end CountsExchanges
end Machine

/-- Every channel that has not been removed hands over every value once, whoever uses it. -/
theorem handsOver_of_reachable [Workload σ] {config : Config} {workload : σ}
    {logLevel : Option Level} {mo : Moment σ}
    (reachable : Moment.Reachable (.start config workload logLevel) mo)
    (tracing : config.recordTrace = true) {id : ChannelId} {c : Channel}
    (found : mo.ledger.machine.channels.get? id = some c) :
    c.HandsOver (mo.ledger.machine.journal.trace.exchanges id) := by
  have counts := (Machine.CountsExchanges.start tracing workload logLevel).of_reachable reachable
  obtain ⟨n, turns, slot⟩ := counts.turns id c found
  exact turns ▸ Channel.handsOver_firstTurns slot

/-- A pair that meets at every second step, and a third process that consumes from its channel. -/
def Arrival.crowd : List Arrival :=
  let side (pid : Pid) (kind : Proc.Kind) : Proc :=
    { pid, kind, maxPc := 4, terminateAfter := 0, plan := .rendezvous (.ofList [2]) ⟨0⟩ }
  [.rendezvousPair (side ⟨0⟩ .producer) (side ⟨1⟩ .consumer), .single (side ⟨2⟩ .consumer)]

/-- A run in which three values went through a channel with two consumers, but for the last, which
is still there. -/
theorem handsOver_of_reachable_crowd : ∃ mo : Moment GivenArrivals,
    Moment.Reachable (.start {} ⟨Arrival.crowd⟩ none) mo ∧
    ∃ c, mo.ledger.machine.channels.get? ⟨0⟩ = some c ∧
      c.HandsOver (mo.ledger.machine.journal.trace.exchanges ⟨0⟩) ∧
      (mo.ledger.machine.journal.trace.exchanges ⟨0⟩).length = 5 := by
  have run : ((Machine.start {} (⟨Arrival.crowd⟩ : GivenArrivals) none).performAll
      (.boot :: List.replicate 34 (.tick []))).toOption.any (fun m =>
        (m.channels.get? ⟨0⟩).isSome &&
          (m.journal.trace.exchanges ⟨0⟩).length == 5) = true := by decide +kernel
  obtain ⟨mo, reachable, -, test⟩ := Moment.exists_reachable_of_performAll run
  rw [Bool.and_eq_true, Option.isSome_iff_exists, beq_iff_eq] at test
  obtain ⟨⟨c, found⟩, five⟩ := test
  exact ⟨mo, reachable, c, found, handsOver_of_reachable reachable rfl found, five⟩

end Mlfq
