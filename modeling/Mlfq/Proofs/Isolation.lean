import Mlfq.Proofs.Channel.Closing
import Mlfq.Proofs.Shared.Frame
import Mlfq.Proofs.Shared.Pairs

/-! # Pairs keep to themselves

Only the members of a pair hold the locks of the pair or wait for them, and only in their cycles do
the locks change. The same is true of channels. -/

namespace Mlfq

namespace Scene

variable {s s' s₀ : Scene} {q : MutexPair}

/-! ## What becomes of a pair -/

/-- A pair that was listed is listed, perhaps with marks, or it has gone for good, and its locks
with it. -/
inductive Outcome (s : Scene) (q : MutexPair) : Prop
  | listed {q' : MutexPair} (mem : q' ∈ s.pairs.pairs) (same : q'.unmarked = q.unmarked)
  | dissolved (locks : ∀ id ∈ q.locks, s.locks.get? id = none ∧ id.num < s.locks.nextId)
    (members : ∀ q' ∈ s.pairs.pairs, ∀ x ∈ q.pids, x ∉ q'.pids)

/-- A lock that has gone does not come back. -/
theorem lock_stays_gone (tidy : s.Tidy) (step : Step s s') {id : LockId}
    (gone : s.locks.get? id = none ∧ id.num < s.locks.nextId) :
    s'.locks.get? id = none ∧ id.num < s'.locks.nextId := by
  cases step with
  | mutexPair =>
    have old := LockTable.get?_create_of_lt gone.2
    exact ⟨(LockTable.get?_create_of_lt (Nat.lt_succ_of_lt gone.2)).trans (old.trans gone.1),
      gone.2.trans_le (Nat.le_add_right _ 2)⟩
  | rendezvousPair => exact ⟨gone.1, Nat.lt_succ_of_lt gone.2⟩
  | table runs request found serves =>
    refine ⟨?_, gone.2⟩
    rw [tidy.locks.get?_set found serves.id_eq, if_neg]
    · exact gone.1
    · rintro rfl
      rw [gone.1] at found
      cases found
  | dissolve =>
    rw [get?_dropLock, get?_dropLock, nextId_dropLock, nextId_dropLock]
    refine ⟨?_, gone.2⟩
    split
    · rfl
    · split
      · rfl
      · exact gone.1
  | _ => exact gone

namespace Outcome

/-- When a pair is dissolved, either it was this one or this one stays. -/
theorem of_dissolve (paired : s.Paired) (tidy : s.Tidy) (distinct : Arrival.Distinct s.arrived)
    {q' : MutexPair} (mem : q' ∈ s.pairs.pairs) (same : q'.unmarked = q.unmarked) {pid : Pid}
    {pairs : List MutexPair} {a b : LockId}
    (hr : MutexPairs.retire pid s.pairs.pairs = (some (a, b), pairs)) :
    (({ s with pairs := ⟨pairs⟩ }.dropLock a).dropLock b).Outcome q := by
  obtain ⟨before, q₀, after, split, rfl, own, -⟩ := MutexPairs.split_of_retire_some hr
  have pids : q.pids = q'.pids := by
    rw [← q.pids_unmarked, ← same, q'.pids_unmarked]
  have locks : q.locks = q'.locks := by
    rw [← q.locks_unmarked, ← same, q'.locks_unmarked]
  by_cases stays : q' ∈ before ++ after
  · refine .listed ?_ same
    rw [pairs_dropLock, pairs_dropLock]
    exact stays
  · obtain rfl : q' = q₀ := by
      rw [split, List.mem_append, List.mem_cons] at mem
      rw [List.mem_append] at stays
      tauto
    refine .dissolved (fun id hid => ?_) fun q₁ hq₁ x hx member => ?_
    · rw [locks] at hid
      have here : id ∈ s.locks.locks.keys := paired.keys ▸ List.mem_flatMap.2 ⟨q', mem, hid⟩
      rw [own] at hid
      rw [get?_dropLock, get?_dropLock, nextId_dropLock, nextId_dropLock]
      refine ⟨?_, tidy.locks.lt id here⟩
      rcases List.mem_pair.1 hid with rfl | rfl
      · rw [if_pos rfl, ite_self]
      · rw [if_pos rfl]
    · rw [pairs_dropLock, pairs_dropLock] at hq₁
      have known : q₁ ∈ s.pairs.pairs := MutexPairs.mem_of_retire_some hr hq₁
      -- The pair that goes was listed once.
      exact stays (paired.pair_unique distinct known mem member (pids ▸ hx) ▸ hq₁)

theorem step (h : s.Outcome q) (paired : s.Paired) (tidy : s.Tidy)
    (known : ∀ x ∈ q.pids, x ∈ (s.arrived.flatMap Arrival.procs).map (·.pid))
    (distinct : Arrival.Distinct s'.arrived) (step : Step s s') : s'.Outcome q := by
  have earlier := distinct_of_prefix (arrived_prefix_of_step step) distinct
  cases h with
  | listed mem same =>
    cases step with
    | mutexPair => exact .listed (List.mem_append_left _ mem) same
    | retire zombie hr =>
      have marked := MutexPairs.unmarked_of_retire_none hr ▸ List.mem_map_of_mem mem
      obtain ⟨q'', mem', same'⟩ := List.mem_map.1 marked
      exact .listed mem' (same'.trans same)
    | dissolve zombie hr => exact of_dissolve paired tidy earlier mem same hr
    | _ => exact .listed mem same
  | dissolved locks members =>
    refine .dissolved (fun id hid => lock_stays_gone tidy step (locks id hid)) ?_
    cases step with
    | mutexPair first second reversed =>
      intro q' hq' x hx member
      rcases List.mem_append.1 hq' with old | new
      · exact members q' old x hx member
      · rw [List.mem_singleton.1 new] at member
        refine distinct.pid_ne (known x hx) (y := x) ?_ rfl
        cases reversed <;> exact member
    | retire zombie hr =>
      intro q' hq' x hx member
      obtain ⟨q'', old, same⟩ := MutexPairs.exists_unmarked_of_retire_none hr hq'
      refine members q'' old x hx ?_
      rwa [← q''.pids_unmarked, same, q'.pids_unmarked]
    | dissolve zombie hr =>
      rw [pairs_dropLock, pairs_dropLock]
      exact fun q' hq' => members q' (MutexPairs.mem_of_retire_some hr hq')
    | _ => exact members

end Outcome

theorem outcome_of_steps (fresh : s₀.Fresh) (before : Steps s₀ s) (hq : q ∈ s.pairs.pairs)
    (steps : Steps s s') (distinct : Arrival.Distinct s'.arrived) : s'.Outcome q := by
  have known : ∀ x ∈ q.pids, x ∈ (s.arrived.flatMap Arrival.procs).map (·.pid) := fun x hx =>
    (paired_of_steps fresh before).members.subset (List.mem_flatMap.2 ⟨q, hq, hx⟩)
  induction steps with
  | refl => exact .listed hq rfl
  | @tail s₁ s₂ steps step ih =>
    have before₁ := before.trans steps
    have arrived := arrived_prefix_of_steps steps
    have earlier := distinct_of_prefix (arrived_prefix_of_step step) distinct
    refine (ih earlier).step
      (paired_of_steps fresh before₁) (tidy_of_steps fresh before₁) (fun x hx => ?_) distinct step
    exact ((arrived.sublist.flatMap _).map _).subset (known x hx)

/-- A channel stays with its sides until both of them were dropped. -/
theorem exists_channel_or_dropped_of_steps (fresh : s₀.Fresh) (before : Steps s₀ s)
    {id : ChannelId} {c : Channel} (found : s.channels.get? id = some c) (steps : Steps s s')
    (coupled : ∀ a ∈ s'.arrived, a.Coupled) :
    (∃ c', s'.channels.get? id = some c' ∧ c'.partner = c.partner) ∨
      ∀ role, c.partner role ∈ s'.dropped.map (·.pid) := by
  induction steps with
  | refl => exact .inl ⟨c, found, rfl⟩
  | @tail s₁ s₂ steps step ih =>
    have before₁ := before.trans steps
    have coupled₁ : ∀ a ∈ s₁.arrived, a.Coupled := fun a ha =>
      coupled a ((arrived_prefix_of_step step).subset ha)
    rcases ih coupled₁ with ⟨c₁, found₁, sides₁⟩ | dropped
    · rcases (bound_of_steps fresh before₁ coupled₁).exists_channel_or_dropped
        (tidy_of_steps fresh before₁) step found₁ with ⟨c₂, found₂, sides₂⟩ | ⟨dropped, -⟩
      · exact .inl ⟨c₂, found₂, sides₂.trans sides₁⟩
      · exact .inr (sides₁ ▸ dropped)
    · exact .inr fun role => List.map_subset _ (dropped_prefix_of_step step).subset (dropped role)

end Scene

variable {σ : Type} [Workload σ]

/-! ## Runs -/

namespace Moment

/-- From the one moment the run comes to the other, and these are the processes whose cycles begin
on the way. An interrupt is nobody's cycle. -/
inductive Cycles (mo : Moment σ) : List Proc → Moment σ → Prop
  | refl : Cycles mo [] mo
  | tail {who : List Proc} {mo₁ mo₂ : Moment σ} (cycles : Cycles mo who mo₁)
    (next : Next mo₁ mo₂) : Cycles mo (who ++ (mo₁.stepper? mo₂).toList) mo₂

variable {config : Config} {workload : σ} {logLevel : Option Level} {mo mo' : Moment σ}
  {who : List Proc}

theorem Cycles.path (h : Cycles mo who mo') : Relation.ReflTransGen Next mo mo' := by
  induction h with
  | refl => exact .refl
  | tail _ next ih => exact ih.tail next

theorem exists_cycles (path : Relation.ReflTransGen Next mo mo') : ∃ who, Cycles mo who mo' := by
  induction path with
  | refl => exact ⟨[], .refl⟩
  | tail _ next ih =>
    obtain ⟨who, cycles⟩ := ih
    exact ⟨_, cycles.tail next⟩

theorem tidy_of_reachable (reachable : Reachable (.start config workload logLevel) mo) :
    mo.ledger.scene.Tidy :=
  Scene.tidy_of_steps (Scene.fresh_start ..) (Scene.steps_of_reachable reachable)

/-- Each of the processes has begun a cycle of the machine. -/
theorem Cycles.length_le (reachable : Reachable (.start config workload logLevel) mo)
    (h : Cycles mo who mo') :
    mo.ledger.machine.iteration + who.length ≤ mo'.ledger.machine.iteration := by
  induction h with
  | refl => exact Nat.le_refl _
  | @tail who mo₁ mo₂ cycles next ih =>
    have tidy := tidy_of_reachable (reachable.trans cycles.path)
    have le : mo₁.ledger.machine.iteration ≤ mo₂.ledger.machine.iteration := by
      rcases next.turn.spares_or_raises tidy.locks with spares | ⟨p, t, m, -, -, confines⟩
      · exact spares.iteration
      · exact confines.iteration ▸ Nat.le_succ _
    rw [List.length_append, stepper?]
    split
    · exact ih.trans le
    · have one : mo₁.ledger.machine.running.toList.length ≤ 1 := by
        cases mo₁.ledger.machine.running <;> simp
      omega

/-- The locks of a pair are the same until they go, unless a member has had a cycle. -/
theorem Cycles.lock_eq (reachable : Reachable (.start config workload logLevel) mo)
    (h : Cycles mo who mo') (distinct : Arrival.Distinct mo'.ledger.arrived) {q : MutexPair}
    (hq : q ∈ mo.ledger.machine.pairs.pairs) (others : ∀ p ∈ who, p.pid ∉ q.pids) {id : LockId}
    (hid : id ∈ q.locks) : id.num < mo'.ledger.machine.locks.nextId ∧
      (mo'.ledger.machine.locks.get? id = none ∨
        mo'.ledger.machine.locks.get? id = mo.ledger.machine.locks.get? id) := by
  have fresh := Scene.fresh_start config workload logLevel
  have steps := Scene.steps_of_reachable reachable
  induction h with
  | refl =>
    have here : id ∈ mo.ledger.machine.locks.locks.keys :=
      (Scene.paired_of_steps fresh steps).keys ▸ List.mem_flatMap.2 ⟨q, hq, hid⟩
    exact ⟨(tidy_of_reachable reachable).locks.lt id here, .inr rfl⟩
  | @tail who mo₁ mo₂ cycles next ih =>
    have steps₁ := Scene.steps_of_path cycles.path
    have tidy := Scene.tidy_of_steps fresh (steps.trans steps₁)
    have distinct₁ := Scene.distinct_of_prefix
      (Scene.arrived_prefix_of_steps (Scene.steps_of_next next)) distinct
    obtain ⟨old, ih⟩ := ih distinct₁ fun p hp => others p (List.mem_append_left _ hp)
    rcases next.turn.spares_or_raises tidy.locks with
      spares | ⟨p, t, m, raises, stepper, confines⟩
    · refine ⟨old.trans_le spares.nextId, ?_⟩
      rcases spares.locks id old with gone | same
      · exact .inl gone
      · rwa [same]
    · have paired := Scene.paired_of_steps fresh (steps.trans steps₁)
      have mine : p.pid ∉ q.pids := by
        refine others p (List.mem_append_right _ ?_)
        rw [stepper]
        exact List.mem_singleton_self p
      refine ⟨confines.nextId ▸ old, ?_⟩
      rwa [confines.locks id]
      -- The trap is about a lock of another pair.
      rintro t' ⟨⟩ r request
      obtain ⟨p', runs, -⟩ := raises.exists_runs mo₁.ledger.arrived mo₁.ledger.dropped
      obtain ⟨q₁, hq₁, hid₁, user⟩ := paired.exists_owner_of_trap runs.trap request
      cases Scene.outcome_of_steps fresh steps hq steps₁ distinct₁ with
      | @listed q' mem same =>
        have hid' : id ∈ q'.locks := by rwa [← q'.locks_unmarked, same, q.locks_unmarked]
        rw [paired.owner_unique tidy hq₁ mem hid₁ hid', runs.advances.pid_eq, ← q'.pids_unmarked,
          same, q.pids_unmarked] at user
        exact mine user
      | dissolved locks =>
        have here : id ∈ mo₁.ledger.scene.locks.locks.keys :=
          paired.keys ▸ List.mem_flatMap.2 ⟨q₁, hq₁, hid₁⟩
        exact Registry.get?_eq_none_iff.1 (locks id hid).1 here

/-- The locks of a pair go with its members: a pair of which somebody is left is listed, and then
its locks are there. -/
theorem mem_goneIds_of_lock (reachable : Reachable (.start config workload logLevel) mo)
    (path : Relation.ReflTransGen Next mo mo') (distinct : Arrival.Distinct mo'.ledger.arrived)
    {q : MutexPair} (hq : q ∈ mo.ledger.machine.pairs.pairs) {id : LockId} (hid : id ∈ q.locks)
    (gone : mo'.ledger.machine.locks.get? id = none) : ∀ x ∈ q.pids, x ∈ mo'.ledger.goneIds := by
  have fresh := Scene.fresh_start config workload logLevel
  have before := Scene.steps_of_reachable reachable
  have between := Scene.steps_of_path path
  by_contra left
  have origin := (Scene.paired_of_steps fresh before).origin q hq
  obtain ⟨first, second, reversed, come, made⟩ := origin
  have come' := (Scene.arrived_prefix_of_steps between).subset come
  have lists := lists_of_reachable (reachable.trans path) distinct
  obtain ⟨q', hq', made'⟩ := lists.listed first second reversed come' fun both => left <| by
    rw [made.pids_eq]
    intro x hx
    rcases List.mem_pair.1 hx with rfl | rfl
    · exact both.1
    · exact both.2
  cases Scene.outcome_of_steps fresh before hq between distinct with
  | @listed q₁ mem alike =>
    have here : id ∈ mo'.ledger.scene.locks.locks.keys := by
      rw [(Scene.paired_of_steps fresh (before.trans between)).keys]
      refine List.mem_flatMap.2 ⟨q₁, mem, ?_⟩
      rwa [← q₁.locks_unmarked, alike, q.locks_unmarked]
    exact Registry.get?_eq_none_iff.1 gone here
  | dissolved locks members =>
    refine members q' hq' first.pid ?_ ?_
    · rw [made.pids_eq]
      exact List.mem_cons_self
    · rw [made'.pids_eq]
      exact List.mem_cons_self

/-- A channel is the same until it goes, unless a process that uses it has had a cycle. -/
theorem Cycles.channel_eq (reachable : Reachable (.start config workload logLevel) mo)
    (h : Cycles mo who mo') {id : ChannelId} {c : Channel}
    (found : mo.ledger.machine.channels.get? id = some c)
    (others : ∀ p ∈ who, p.channel? ≠ some id) : id.num < mo'.ledger.machine.nextChannel ∧
      (mo'.ledger.machine.channels.get? id = none ∨
        (mo'.ledger.machine.channels.get? id).map Channel.unmarked = some c.unmarked) := by
  induction h with
  | refl =>
    exact ⟨(tidy_of_reachable reachable).channels_lt id (Registry.mem_keys_of_get? found),
      .inr (congrArg _ found)⟩
  | @tail who mo₁ mo₂ cycles next ih =>
    have tidy := tidy_of_reachable (reachable.trans cycles.path)
    obtain ⟨old, ih⟩ := ih fun p hp => others p (List.mem_append_left _ hp)
    rcases next.turn.spares_or_raises tidy.locks with
      spares | ⟨p, t, m, raises, stepper, confines⟩
    · refine ⟨old.trans_le spares.nextChannel, ?_⟩
      rcases spares.channels id old with gone | same
      · exact .inl gone
      · rw [← Option.map_eq_none_iff (f := Channel.unmarked), same]
        exact ih.imp_left fun gone => by rw [gone, Option.map_none]
    · have mine : p.channel? ≠ some id := by
        refine others p (List.mem_append_right _ ?_)
        rw [stepper]
        exact List.mem_singleton_self p
      refine ⟨confines.nextChannel ▸ old, ?_⟩
      rwa [confines.channels id]
      rintro t' ⟨⟩ request
      obtain ⟨p', runs, -⟩ := raises.exists_runs mo₁.ledger.arrived mo₁.ledger.dropped
      exact mine (runs.advances.channel?_eq ▸ Proc.channel?_of_trapAt runs.trap request)

end Moment

/-- Who holds a lock or waits for it is one of those for whom it was made, and on each condition of
a channel only one side waits. -/
structure Ledger.Isolates {σ : Type} (l : Ledger σ) : Prop where
  owner : ∀ id lock, l.machine.locks.get? id = some lock →
    ∃ q ∈ l.machine.pairs.pairs, id ∈ q.locks
  lock : ∀ q ∈ l.machine.pairs.pairs, ∀ id ∈ q.locks, ∀ lock,
    l.machine.locks.get? id = some lock → lock.Within q.pids
  channelLock : ∀ id c, l.machine.channels.get? id = some c →
    c.lock.Within [c.producer, c.consumer]
  fill : ∀ id c, l.machine.channels.get? id = some c → ∀ w ∈ c.fill, w.pid = c.consumer
  empty : ∀ id c, l.machine.channels.get? id = some c → ∀ w ∈ c.empty, w.pid = c.producer

/-- These processes have left alone the locks of the pairs and the channels that are not theirs. A
lock or a channel that has gone has gone with its processes. -/
structure Ledger.SparedBy {σ : Type} (l : Ledger σ) (who : List Proc) (l' : Ledger σ) : Prop where
  locks : ∀ q ∈ l.machine.pairs.pairs, (∀ p ∈ who, p.pid ∉ q.pids) → ∀ id ∈ q.locks,
    l'.machine.locks.get? id = l.machine.locks.get? id ∨
      l'.machine.locks.get? id = none ∧ ∀ x ∈ q.pids, x ∈ l'.goneIds
  channels : ∀ id c, l.machine.channels.get? id = some c → (∀ p ∈ who, p.channel? ≠ some id) →
    (∃ c', l'.machine.channels.get? id = some c' ∧ c'.unmarked = c.unmarked) ∨
      l'.machine.channels.get? id = none ∧ c.producer ∈ l'.goneIds ∧ c.consumer ∈ l'.goneIds

/-- At every moment of every run, only the members of a pair hold or wait for its locks, and only
the sides of a channel hold or wait for its lock. On the way there from an earlier moment, locks and
channels were changed only in the cycles of their own processes, and removed only when these were
dropped. All processes are to have different numbers, and one with a rendezvous plan is to arrive as
the producer or the consumer of a pair and be of that kind. -/
theorem isolates_of_reachable {config : Config} {workload : σ} {logLevel : Option Level}
    {mo mo' : Moment σ} {who : List Proc}
    (reachable : Moment.Reachable (.start config workload logLevel) mo)
    (cycles : Moment.Cycles mo who mo') (distinct : Arrival.Distinct mo'.ledger.arrived)
    (sided : ∀ a ∈ mo'.ledger.arrived, a.Sided) :
    mo'.ledger.Isolates ∧ mo.ledger.SparedBy who mo'.ledger := by
  have fresh := Scene.fresh_start config workload logLevel
  have before := Scene.steps_of_reachable reachable
  have between := Scene.steps_of_path cycles.path
  have steps := before.trans between
  have paired := Scene.paired_of_steps fresh steps
  have alternates := Scene.alternates_of_steps fresh steps distinct sided
  refine ⟨⟨fun id lock => paired.exists_owner, paired.within, fun id c found => ?_,
    fun id c found => ?_, fun id c found => ?_⟩, ⟨fun q hq others id hid => ?_,
    fun id c found others => ?_⟩⟩
  · exact (alternates id c found).within
  · exact (alternates id c found).side .consumer
  · exact (alternates id c found).side .producer
  · rcases (cycles.lock_eq reachable distinct hq others hid).2 with gone | same
    · exact .inr ⟨gone, Moment.mem_goneIds_of_lock reachable cycles.path distinct hq hid gone⟩
    · exact .inl same
  · rcases (cycles.channel_eq reachable found others).2 with gone | same
    · have coupled : ∀ a ∈ mo'.ledger.arrived, a.Coupled := fun a ha => (sided a ha).coupled
      have outcome := Scene.exists_channel_or_dropped_of_steps fresh before found between coupled
      rcases outcome with ⟨c', found', -⟩ | dropped
      · have found' : mo'.ledger.machine.channels.get? id = some c' := found'
        rw [gone] at found'
        cases found'
      · exact .inr ⟨gone, dropped .producer, dropped .consumer⟩
    · exact .inl (Option.map_eq_some_iff.1 same)

/-- A tick of a process that holds a lock, in a run with two mutex pairs and a rendezvous pair. -/
theorem isolates_of_reachable_tick : ∃ (mo mo' : Moment ScriptedWorkload) (who : List Proc),
    Moment.Reachable
      (.start {} ⟨[[.mutexPair 100 false, .mutexPair 100 false, .rendezvousPair 100]]⟩ none) mo ∧
    Moment.Cycles mo who mo' ∧ who.length ≤ 1 ∧
    (mo'.ledger.Isolates ∧ mo.ledger.SparedBy who mo'.ledger) ∧
    mo.ledger.machine.pairs.pairs.length = 2 ∧ mo.ledger.machine.channels.keys.length = 1 ∧
    ∃ p, mo.ledger.machine.running = some p ∧
      ∃ l ∈ mo.ledger.machine.locks.toList, l.holder = some p.pid := by
  let busy (m : Machine ScriptedWorkload) : Bool :=
    m.pairs.pairs.length = 2 && (m.channels.keys.length = 1 && m.running.any fun p =>
      m.locks.toList.any fun l => l.holder = some p.pid)
  let ticks (m : Machine ScriptedWorkload) : Bool :=
    (m.performAll [.tick []]).toOption.any fun m' => m'.iteration = m.iteration + 1
  have run : ((Machine.start {} (⟨[[.mutexPair 100 false, .mutexPair 100 false,
      .rendezvousPair 100]]⟩ : ScriptedWorkload) none).performAll
        ([.boot] ++ List.replicate 8 (.tick []))).toOption.any (fun m => busy m && ticks m) =
      true := by decide +kernel
  obtain ⟨mo, reachable, rest, test⟩ := Moment.exists_reachable_of_performAll run
  rw [Bool.and_eq_true] at test
  obtain ⟨holds, ticks⟩ := test
  obtain ⟨mo', path, -, next⟩ := Moment.exists_path_of_performAll rest ticks
  obtain ⟨who, cycles⟩ := Moment.exists_cycles path
  have le := cycles.length_le reachable
  rw [decide_eq_true_eq] at next
  obtain ⟨library, distinct⟩ := Moment.distinct_of_library (reachable.trans path)
  have sided : ∀ a ∈ mo'.ledger.arrived, a.Sided := fun a ha => (library a ha).sided
  simp only [busy, Bool.and_eq_true, decide_eq_true_eq, Option.any_eq_true, List.any_eq_true]
    at holds
  exact ⟨mo, mo', who, reachable, cycles, by omega,
    isolates_of_reachable reachable cycles distinct sided, holds⟩

end Mlfq
