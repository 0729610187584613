import Mlfq.Proofs.Bookkeeping
import Mlfq.Proofs.Twin.Mirror

/-! # Steps of two runs

What happens in one of two runs that mirror each other happens in the other too, and leaves them
mirrors of each other. -/

namespace Mlfq

variable {σ : Type}

/-- What a mutex user asks for depends on its pair through its two locks only. -/
theorem Proc.trapAt_congr {p : Proc} {pairs pairs' : MutexPairs}
    (same : (pairs'.find? p.pid).map PairMember.lock = (pairs.find? p.pid).map PairMember.lock)
    (pc : Nat) : p.trapAt pc pairs' = p.trapAt pc pairs := by
  have locks : ∀ (program : MutexProgram) (t : MutexPairs),
      ((t.find? p.pid).bind fun mem => program.trapAt pc mem.first mem.second) =
        ((t.find? p.pid).map PairMember.lock).bind fun lock =>
          program.trapAt pc (lock .first) (lock .second) := by
    intro program t
    cases t.find? p.pid <;> rfl
  unfold trapAt
  cases p.plan with
  | mutex program =>
    dsimp only
    rw [locks, same, ← locks]
  | _ => rfl

/-! ## Books -/

/-- What holds of the books of a run in which all processes have different numbers and nobody uses
the channel of others. -/
structure Ledger.InOrder (l : Ledger σ) : Prop where
  tidy : l.scene.Tidy
  paired : l.scene.Paired
  lawful : l.scene.Lawful
  reached : l.scene.Open
  lists : MutexPairs.Lists l.machine.pairs.pairs l.arrived l.goneIds

theorem Moment.inOrder_of_reachable [Workload σ] {config : Config} {workload : σ}
    {logLevel : Option Level} {mo : Moment σ}
    (reachable : Reachable (.start config workload logLevel) mo)
    (distinct : Arrival.Distinct mo.ledger.arrived) (coupled : ∀ a ∈ mo.ledger.arrived, a.Coupled) :
    mo.ledger.InOrder := by
  have fresh := Scene.fresh_start config workload logLevel
  have steps := Scene.steps_of_reachable reachable
  exact ⟨Scene.tidy_of_steps fresh steps, Scene.paired_of_steps fresh steps,
    fresh.lawful steps distinct, Scene.open_of_steps fresh steps distinct coupled,
    Moment.lists_of_reachable reachable distinct⟩

/-- Who runs was not dropped. -/
theorem Ledger.InOrder.pid_notMem_goneIds {l : Ledger σ} (order : l.InOrder) {p : Proc}
    (running : l.machine.running = some p) : p.pid ∉ l.goneIds := by
  intro gone
  obtain ⟨z, hz, same⟩ := List.mem_map.1 gone
  exact order.lawful.pid_notMem_dropped (Scene.current_mem_population running) hz same

namespace Ledger.Mirrors

/-! ## Members -/

section

variable {l l' : Ledger σ} {pid : Pid}

/-- A pair that is listed in the one run is listed in the other while one of its members was not
dropped there. -/
theorem exists_pair (h : l.Mirrors l') (order : l.InOrder) (order' : l'.InOrder) {q : MutexPair}
    (hq : q ∈ l.machine.pairs.pairs) (member : pid ∈ q.pids) (there : pid ∉ l'.goneIds) :
    ∃ q' ∈ l'.machine.pairs.pairs, q'.unmarked = q.unmarked := by
  obtain ⟨first, second, reversed, come, made⟩ := order.paired.origin q hq
  have left : ¬(first.pid ∈ l'.goneIds ∧ second.pid ∈ l'.goneIds) := by
    rintro ⟨one, two⟩
    rw [made.pids_eq] at member
    rcases List.mem_pair.1 member with rfl | rfl
    · exact there one
    · exact there two
  obtain ⟨q', hq', made'⟩ := order'.lists.listed first second reversed (h.arrived ▸ come) left
  refine ⟨q', hq', h.pairs q hq q' hq' pid member ?_⟩
  rwa [made'.pids_eq, ← made.pids_eq]

theorem exists_member (h : l.Mirrors l') (order : l.InOrder) (order' : l'.InOrder)
    (there : pid ∉ l'.goneIds) {mem : PairMember} (found : l.machine.pairs.find? pid = some mem) :
    ∃ mem', l'.machine.pairs.find? pid = some mem' ∧ mem'.lock = mem.lock := by
  obtain ⟨q, hq, member, -⟩ := order.paired.exists_pair found
  obtain ⟨q', hq', alike⟩ :=
    h.exists_pair order order' hq (MutexPair.pid_mem_of_member? member) there
  obtain ⟨mem', member', same⟩ := MutexPair.exists_member?_of_unmarked_eq alike member
  exact ⟨mem', order'.paired.find?_eq order'.lawful.distinct hq' member', same⟩

/-- A process that was dropped in neither run has the same locks in both. -/
theorem map_lock_find?_eq (h : l.Mirrors l') (order : l.InOrder) (order' : l'.InOrder)
    (here : pid ∉ l.goneIds) (there : pid ∉ l'.goneIds) :
    (l'.machine.pairs.find? pid).map PairMember.lock =
      (l.machine.pairs.find? pid).map PairMember.lock := by
  cases found : l.machine.pairs.find? pid with
  | some mem =>
    obtain ⟨mem', found', same⟩ := h.exists_member order order' there found
    rw [found', Option.map_some, Option.map_some, same]
  | none =>
    cases found' : l'.machine.pairs.find? pid with
    | none => rfl
    | some mem' =>
      obtain ⟨mem, found₀, -⟩ := h.symm.exists_member order' order here found'
      rw [found] at found₀
      cases found₀

end

/-! ## Traps -/

section

variable {m m' : Machine σ} {arrived : List Arrival} {dropped dropped' : Queue} {t : Trap}

/-- What a trap is about is in the same state in both runs if it exists in both. -/
theorem aligned (h : Mirrors ⟨m, arrived, dropped⟩ ⟨m', arrived, dropped'⟩) (finds : m.Finds t)
    (finds' : m'.Finds t) : Machine.Aligned t m m' := by
  refine ⟨h.surface, fun id r request => ?_, fun id request => ?_⟩
  · obtain ⟨a, found⟩ := finds.1 id r request
    obtain ⟨b, found'⟩ := finds'.1 id r request
    exact ⟨a, found, h.locks id a b found found' ▸ found'⟩
  · obtain ⟨c, found⟩ := finds.2 id request
    obtain ⟨c', found'⟩ := finds'.2 id request
    rcases h.there id c found with ⟨c₁, found₁, same⟩ | ⟨absent, -⟩
    · exact ⟨c, c₁, found, found₁, same⟩
    · rw [found'] at absent
      cases absent

/-- The channels that a trap is not about stay as they were in both runs. -/
theorem houses_of_confines {l l' l₁ l₁' : Ledger σ} (h : l.Houses l')
    (aligned : Machine.Aligned t l₁.machine l₁'.machine)
    (confines : Machine.Confines (some t) l.machine l₁.machine)
    (confines' : Machine.Confines (some t) l'.machine l₁'.machine)
    (dropped : l₁'.dropped = l'.dropped) : l₁.Houses l₁' := by
  intro id c found
  by_cases about : t.channel? = some id
  · obtain ⟨c₀, c', found₀, found', same⟩ := aligned.channel id about
    rw [found] at found₀
    cases found₀
    exact .inl ⟨c', found', same⟩
  · have aside : ∀ t' ∈ some t, t'.channel? ≠ some id := by
      rintro t' ⟨⟩
      exact about
    rw [confines.channels id aside] at found
    rw [confines'.channels id aside, Ledger.goneIds, dropped]
    exact h id c found

/-- A trap that finds in both runs what it is about is handled in the same way. -/
theorem handleTrap (h : Mirrors ⟨m, arrived, dropped⟩ ⟨m', arrived, dropped'⟩)
    (tidy : m.locks.Tidy) (tidy' : m'.locks.Tidy) (finds : m.Finds t) (finds' : m'.Finds t) :
    (m'.handleTrap t).1 = (m.handleTrap t).1 ∧
      Mirrors ⟨(m.handleTrap t).2, arrived, dropped⟩ ⟨(m'.handleTrap t).2, arrived, dropped'⟩ := by
  obtain ⟨answer, aligned⟩ := Machine.concur_handleTrap tidy tidy' (h.aligned finds finds')
  have confines := Machine.confines_handleTrap tidy t
  have confines' := Machine.confines_handleTrap tidy' t
  have back : Machine.Aligned t (m'.handleTrap t).2 (m.handleTrap t).2 := aligned.symm
  refine ⟨answer, aligned.surface, rfl, ?_, ?_, fun id a b found found' => ?_,
    houses_of_confines h.there aligned confines confines' rfl,
    houses_of_confines h.back back confines' confines rfl⟩
  · simp only [Ledger.ended, Machine.zombies_handleTrap]
    exact h.ended
  · simp only [confines.pairs, confines'.pairs]
    exact h.pairs
  · by_cases about : ∃ r, t.tableRequest? = some (id, r)
    · obtain ⟨r, request⟩ := about
      obtain ⟨l, found₀, found₀'⟩ := aligned.lock id r request
      rw [found] at found₀
      rw [found'] at found₀'
      exact Option.some.inj (found₀'.trans found₀.symm)
    · have aside : ∀ t' ∈ some t, ∀ r, t'.tableRequest? ≠ some (id, r) := by
        rintro t' ⟨⟩ r request
        exact about ⟨r, request⟩
      rw [confines.locks id aside] at found
      rw [confines'.locks id aside] at found'
      exact h.locks id a b found found'

end

/-! ## Phases -/

section

variable {m m' : Machine σ} {arrived : List Arrival} {dropped dropped' : Queue}

/-- One run may drop its ended processes while the other keeps its own. -/
theorem reaping {l' : Ledger σ} (h : Mirrors ⟨m, arrived, dropped⟩ l')
    (comes : (⟨m, arrived, dropped⟩ : Ledger σ).Comes) (distinct : Arrival.Distinct arrived)
    (coupled : ∀ a ∈ arrived, a.Coupled) :
    Mirrors ⟨if m.config.zombieThreshold ≤ m.zombies.length then m.reap else m, arrived,
      dropped ++ m.droppedBy .reaping⟩ l' := by
  simp only [Machine.droppedBy]
  split
  · exact h.sheds (comes.sheds_reap distinct coupled)
  · rwa [List.append_nil]

variable [Workload σ]

theorem nextArrivals_eq (same : m'.surface = m.surface) : m'.nextArrivals = m.nextArrivals := by
  obtain ⟨d, rfl⟩ := Machine.exists_atop_of_surface_eq same
  rfl

/-- Both runs ask for one batch and get the same. -/
theorem requestBatch (h : Mirrors ⟨m, arrived, dropped⟩ ⟨m', arrived, dropped'⟩)
    (comes : (⟨m, arrived, dropped⟩ : Ledger σ).Comes)
    (comes' : (⟨m', arrived, dropped'⟩ : Ledger σ).Comes)
    (distinct : (∃ a, m.requestBatch = .ok a) → Arrival.Distinct (arrived ++ m.nextArrivals)) :
    Outcomes (fun a b => b.1 = a.1 ∧ Mirrors ⟨a.2, arrived ++ m.nextArrivals, dropped⟩
      ⟨b.2, arrived ++ m.nextArrivals, dropped'⟩) m.requestBatch m'.requestBatch := by
  obtain ⟨d, hd⟩ := Machine.exists_atop_of_surface_eq h.surface
  obtain rfl : m' = m.atop d := hd
  have same : Workload.batch (m.atop d).workload (m.atop d).pids (m.atop d).census =
      Workload.batch m.workload m.pids m.census := rfl
  unfold Machine.requestBatch at distinct ⊢
  unfold Machine.nextArrivals at distinct ⊢
  rw [same]
  cases hb : Workload.batch m.workload m.pids m.census with
  | error fault => exact .error fault _ _
  | ok batch =>
    rw [hb] at distinct
    have asked : Mirrors
        ⟨{ m with workload := batch.rest, pids := batch.pids }, arrived, dropped⟩
        ⟨{ m.atop d with workload := batch.rest, pids := batch.pids }, arrived, dropped'⟩ :=
      h.parallel ⟨rfl, rfl, rfl⟩
    exact .ok ⟨rfl, asked.foldl_receive batch.arrivals comes comes' (distinct ⟨_, rfl⟩)⟩

theorem boot (h : Mirrors ⟨m, arrived, dropped⟩ ⟨m', arrived, dropped'⟩)
    (comes : (⟨m, arrived, dropped⟩ : Ledger σ).Comes)
    (comes' : (⟨m', arrived, dropped'⟩ : Ledger σ).Comes)
    (distinct : (∃ m₁, m.boot = .ok m₁) → Arrival.Distinct (arrived ++ m.nextArrivals)) :
    Outcomes (fun m₁ m₁' => Mirrors ⟨m₁, arrived ++ m.nextArrivals, dropped⟩
      ⟨m₁', arrived ++ m.nextArrivals, dropped'⟩) m.boot m'.boot := by
  have batch := h.requestBatch comes comes' fun ⟨a, asked⟩ => distinct (by
    rw [Machine.boot, asked]
    exact ⟨_, rfl⟩)
  refine batch.bind fun a b got => ?_
  obtain ⟨-, mirrors⟩ := got
  exact .ok (mirrors.parallel ⟨mirrors.surface, rfl, rfl⟩)

theorem resetPriorities (h : Mirrors ⟨m, arrived, dropped⟩ ⟨m', arrived, dropped'⟩)
    (comes : (⟨m, arrived, dropped⟩ : Ledger σ).Comes)
    (comes' : (⟨m', arrived, dropped'⟩ : Ledger σ).Comes)
    (distinct : (∃ m₁, m.resetPriorities = .ok m₁) →
      Arrival.Distinct (arrived ++ m.nextArrivals)) :
    Outcomes (fun m₁ m₁' => Mirrors ⟨m₁, arrived ++ m.nextArrivals, dropped⟩
      ⟨m₁', arrived ++ m.nextArrivals, dropped'⟩) m.resetPriorities m'.resetPriorities := by
  have raised : Mirrors
      ⟨{ m with
        ready := m.ready.resetPriorities
        running := m.running.map fun (p : Proc) => { p with priority := .highest }
        sinceReset := 0 }, arrived, dropped⟩
      ⟨{ m' with
        ready := m'.ready.resetPriorities
        running := m'.running.map fun (p : Proc) => { p with priority := .highest }
        sinceReset := 0 }, arrived, dropped'⟩ := by
    obtain ⟨d, hd⟩ := Machine.exists_atop_of_surface_eq h.surface
    obtain rfl : m' = m.atop d := hd
    exact h.parallel ⟨rfl, rfl, rfl⟩
  rw [Ledger.Comes, ← Scene.scene_raisePriorities] at comes comes'
  have batch := raised.requestBatch comes comes' fun ⟨a, asked⟩ => distinct (by
    rw [Machine.resetPriorities, asked]
    exact ⟨_, rfl⟩)
  refine batch.bind fun a b got => ?_
  obtain ⟨answer, mirrors⟩ := got
  obtain ⟨d, hd⟩ := Machine.exists_atop_of_surface_eq mirrors.surface
  obtain ⟨n, m₁⟩ := a
  obtain ⟨n', m₁'⟩ := b
  obtain rfl : m₁' = m₁.atop d := hd
  exact .ok (mirrors.parallel ⟨rfl, rfl, rfl⟩)

end

end Ledger.Mirrors
end Mlfq
