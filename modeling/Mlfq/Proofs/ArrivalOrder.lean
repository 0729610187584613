import Mlfq.Proofs.Journey.Passage
import Mlfq.Proofs.Line

/-! # Arrivals are served in order

Whoever has never been dispatched stands in line, at the highest priority, and in the order of
admission: behind it stand only those who came later, and those who were dispatched before. So the
processes are dispatched for the first time in the order in which they were admitted. -/

namespace Mlfq

/-! ## Out of line -/

namespace Story

variable {s s' : Story}

/-- Events are written down, and whoever is not in line was dispatched before. -/
structure Known (s : Story) : Prop where
  tracing : s.tracing = true
  known : ∀ x ∈ s.roll, x.1 ≠ .line → x.2.pid ∈ s.events.filterMap Event.dispatched?

/-- Only from where it is known can a process pass. -/
theorem Passes.station_ne_line {due due' : Option Pid} {x x' : Station × Proc} {e : Event}
    (h : Passes due x e x' due') : x.1 ≠ .line := by
  cases h <;> exact nofun

namespace Known

/-- With an event nobody becomes unknown, and whom it dispatches becomes known. -/
theorem tell {e : Event} (tracing : s.tracing = true)
    (known : ∀ x ∈ s.roll, x.1 ≠ .line →
      x.2.pid ∈ s.events.filterMap Event.dispatched? ∨ e.dispatched? = some x.2.pid) :
    (s.tell e).Known := by
  refine ⟨tracing, fun x hx away => ?_⟩
  rw [events_tell tracing, List.filterMap_append, List.mem_append]
  refine (known x hx away).imp (·) fun now => ?_
  exact List.mem_filterMap.2 ⟨e, List.mem_singleton_self e, now⟩

theorem act (h : s.Known) (act : Act s s') : s'.Known := by
  cases act with
  | note => exact tell h.tracing fun x hx away => .inl (h.known x hx away)
  | arrive =>
    refine tell h.tracing fun x hx away => .inl ?_
    rcases Multiset.mem_cons.1 hx with rfl | before
    · exact absurd rfl away
    · exact h.known x before away
  | @pass y y' e due rest here passes =>
    refine tell h.tracing fun x hx away => .inl ?_
    rcases Multiset.mem_cons.1 hx with rfl | before
    · rw [passes.pid_eq]
      exact h.known y (here ▸ Multiset.mem_cons_self y rest) passes.station_ne_line
    · exact h.known x (here ▸ Multiset.mem_cons_of_mem before) away
  | dispatch priority here =>
    refine tell h.tracing fun x hx away => ?_
    rcases Multiset.mem_cons.1 hx with rfl | before
    · exact .inr rfl
    · exact .inl (h.known x (here ▸ Multiset.mem_cons_of_mem before) away)
  | wake here =>
    refine ⟨h.tracing, fun x hx away => ?_⟩
    rcases Multiset.mem_cons.1 hx with rfl | before
    · exact absurd rfl away
    · exact h.known x (here ▸ Multiset.mem_cons_of_mem before) away
  | lose here =>
    exact ⟨h.tracing, fun x hx => h.known x (here ▸ Multiset.mem_cons_of_mem hx)⟩

theorem scanIfDue {s : Story} (h : s.Known) (pairs : MutexPairs) (locks : LockTable) :
    (s.scanIfDue pairs locks).Known := by
  obtain ⟨es, -, events⟩ := s.exists_events_scanIfDue pairs locks
  refine ⟨(tracing_scanIfDue ..).trans h.tracing, fun x hx away => ?_⟩
  rw [roll_scanIfDue] at hx
  rw [events, List.filterMap_append]
  exact List.mem_append_left _ (h.known x hx away)

theorem begins (h : s.Known) (begins : Begin s s') : s'.Known := by
  cases begins with
  | idle pairs locks =>
    apply scanIfDue
    exact ⟨h.tracing, h.known⟩
  | @tick p p' rest pairs locks here advances =>
    apply scanIfDue
    refine ⟨h.tracing, fun x hx away => ?_⟩
    rcases Multiset.mem_cons.1 hx with rfl | before
    · show p'.pid ∈ _
      rw [advances.pid_eq]
      exact h.known (.cpu, p) (here ▸ Multiset.mem_cons_self _ rest) nofun
    · exact h.known x (here ▸ Multiset.mem_cons_of_mem before) away

end Known
end Story

namespace Machine

variable {σ : Type}

/-- Whoever is out of line was dispatched before. -/
def Knows (m : Machine σ) : Prop := ∀ pid, m.Elsewhere pid → pid ∈ m.dispatchings

end Machine

theorem Moment.knows_of_reachable {σ : Type} [Workload σ] {config : Config} {workload : σ}
    {logLevel : Option Level} {mo : Moment σ}
    (reachable : Moment.Reachable (.start config workload logLevel) mo)
    (tracing : config.recordTrace = true) :
    mo.ledger.machine.journal.tracing = true ∧ mo.ledger.machine.Knows := by
  obtain ⟨cycles, chronicle⟩ := Chronicle.exists_reachable reachable
  have known := (Story.steps_of_reachable chronicle).keep (I := Story.Known)
    ⟨tracing, fun x hx => absurd hx (Multiset.notMem_zero x)⟩ (fun act h => h.act act)
    (fun _ h => ⟨h.tracing, h.known⟩) fun begins h => h.begins begins
  refine ⟨known.tracing, ?_⟩
  rintro pid ⟨place, p, held, away, rfl⟩
  have mem : p.pid ∈ (mo.ledger.machine.resumingAt place).map (·.pid) := by
    rw [Machine.map_pid_resumingAt]
    exact List.mem_map_of_mem held
  obtain ⟨r, hr, pid⟩ := List.mem_map.1 mem
  have onRoll := Ledger.mem_roll_of_mem_resumingAt (Story.tidy_of_reachable chronicle) hr
  exact pid ▸ known.known (place.station, r.core) onRoll away

/-! ## At the highest priority -/

/-- The record has the highest priority, and if it is ready it is at that level. -/
def Foremost (x : Place × Proc) : Prop :=
  x.2.priority = .highest ∧ ∀ level, x.1 = .ready level → level = .highest

theorem Moves.foremost {x y : Place × Proc} (h : Moves x y) (foremost : Foremost x) :
    Foremost y := by
  refine ⟨h.priority_eq.trans foremost.1, fun level ready => ?_⟩
  cases h with
  | queue waits p pc =>
    cases ready
    exact foremost.1
  | park parks =>
    obtain rfl := ready
    cases parks
  | run | dispatch | finish => cases ready

theorem Machine.foremost_afterReset {x : Place × Proc} (h : Foremost x) :
    Foremost (Machine.afterReset x) := by
  obtain ⟨place, p⟩ := x
  cases place with
  | ready level => exact ⟨rfl, fun _ same => (Place.ready.inj same).symm⟩
  | cpu => exact ⟨rfl, nofun⟩
  | _ => exact h

variable {σ : Type}

namespace Machine

/-- Whoever was never dispatched has the highest priority. -/
def Prefers (m : Machine σ) : Prop :=
  ∀ x, m.Holds x → x.2.pid ∈ m.dispatchings ∨ Foremost x

end Machine

namespace Moment

variable {mo mo' : Moment σ}

/-- Whoever is demoted was dispatched before. -/
theorem Passage.prefers (passage : Passage mo mo') (h : mo.ledger.machine.Prefers)
    (knows : mo.ledger.machine.Knows)
    (more : mo.ledger.machine.dispatchings ⊆ mo'.ledger.machine.dispatchings)
    (highest : ∀ a ∈ mo'.ledger.arrived, ∀ p ∈ a.procs, p.priority = .highest) :
    mo'.ledger.machine.Prefers := by
  have still : ∀ x, mo.ledger.machine.Holds x →
      x.2.pid ∈ mo'.ledger.machine.dispatchings ∨ Foremost x :=
    fun x hx => (h x hx).imp (more ·) (·)
  have running : ∀ p, mo.ledger.machine.running = some p →
      p.pid ∈ mo'.ledger.machine.dispatchings :=
    fun p hp => more (knows p.pid ⟨.cpu, p, Machine.holds_cpu.2 hp, nofun, rfl⟩)
  have enters : ∀ {as x}, mo'.ledger.arrived = mo.ledger.arrived ++ as → Machine.Enters as x →
      Foremost x := by
    rintro as x arrived ⟨a, ha, p, hp, plan, rfl⟩
    exact ⟨highest a (arrived ▸ List.mem_append_right _ ha) p hp, nofun⟩
  intro x hx
  cases passage with
  | move conveys =>
    obtain ⟨y, hy, path⟩ := conveys x hx
    rw [(Moves.eq_of_path path).1]
    refine (still y hy).imp (·) fun foremost => ?_
    clear hx
    induction path with
    | refl => exact foremost
    | tail _ moves ih => exact moves.foremost ih
  | stop holds =>
    rcases holds x hx with before | ⟨p, own, rfl⟩
    · exact still x before
    · exact .inl (running p own)
  | arrive holds _ arrived =>
    rcases holds x hx with before | enter
    · exact still x before
    · exact .inr (enters arrived enter)
  | reset holds _ _ arrived =>
    rcases holds x hx with ⟨y, hy, rfl⟩ | enter
    · rw [Machine.pid_afterReset]
      exact (still y hy).imp (·) Machine.foremost_afterReset
    · exact .inr (enters arrived enter)
  | @expire p m own holds =>
    rcases holds x hx with ⟨before, -⟩ | rfl
    · exact still x before
    · exact .inl (running p own)

end Moment

/-! ## What can happen to the line -/

/-- What can happen to those in line from a moment to the next. -/
inductive Ledger.Queuing (l l' : Ledger σ) : Prop
  | requeue (requeues : l.machine.Requeues l'.machine)
    (admissions : l'.machine.admissions = l.machine.admissions)
    (dispatchings : l'.machine.dispatchings = l.machine.dispatchings)
    (arrived : l'.arrived = l.arrived)
  /-- The newcomers join those who are ready. -/
  | settle (newcomers : l'.machine.newcomers = [])
    (ready : l'.machine.ready = l.machine.ready.enqueueAll l.machine.newcomers)
    (admissions : l'.machine.admissions = l.machine.admissions)
    (dispatchings : l'.machine.dispatchings = l.machine.dispatchings)
    (arrived : l'.arrived = l.arrived)
  | dispatch {p : Proc} (taken : l.machine.ready.dequeue = some (p, l'.machine.ready))
    (newcomers : l'.machine.newcomers = l.machine.newcomers)
    (admissions : l'.machine.admissions = l.machine.admissions)
    (dispatchings : l'.machine.dispatchings = l.machine.dispatchings ++ [p.pid])
    (arrived : l'.arrived = l.arrived)
  /-- A batch comes, perhaps with a reset. -/
  | arrive {as : List Arrival}
    (ready : l'.machine.ready = l.machine.ready ∨
      l'.machine.ready = l.machine.ready.resetPriorities)
    (newcomers : l'.machine.newcomers.map (·.pid) =
      l.machine.newcomers.map (·.pid) ++ (as.flatMap Arrival.procs).map (·.pid))
    (admissions : l'.machine.admissions =
      l.machine.admissions ++ (as.flatMap Arrival.procs).map (·.pid))
    (dispatchings : l'.machine.dispatchings = l.machine.dispatchings)
    (arrived : l'.arrived = l.arrived ++ as)

namespace Moment

variable {m m' : Machine σ} {arrived arrived' : List Arrival} {dropped dropped' : Queue}

/-- The line stays as it is. -/
theorem queuing_of_tells {topics : List Event.Topic} (tells : Machine.Tells topics m m')
    (quiet : .arrival ∉ topics ∧ .dispatch ∉ topics) (requeues : m.Requeues m')
    (same : arrived' = arrived) :
    Ledger.Queuing ⟨m, arrived, dropped⟩ ⟨m', arrived', dropped'⟩ :=
  .requeue requeues (tells.admissions_eq quiet.1) (tells.dispatchings_eq quiet.2) same

/-- With a dispatch the process that is served next leaves the line, if there is one. -/
theorem queuing_of_dispatch (tracing : m.journal.tracing = true) :
    Ledger.Queuing ⟨m, arrived, dropped⟩ ⟨m.dispatch, arrived, dropped⟩ := by
  have admissions := (Machine.tells_dispatch m).admissions_eq (by decide)
  cases taken : m.ready.dequeue with
  | none =>
    have idle : m.dispatch = m.emit .idle := by rw [Machine.dispatch, taken]
    have dispatchings : (m.emit .idle).dispatchings = m.dispatchings := by
      rw [Machine.dispatchings, Machine.events_emit tracing, List.filterMap_append]
      exact List.append_nil _
    rw [idle] at admissions ⊢
    exact .requeue (.of_eq rfl rfl) admissions dispatchings rfl
  | some taken' =>
    obtain ⟨p, rest⟩ := taken'
    have ready : m.dispatch.ready = rest := by rw [Machine.dispatch, taken]; rfl
    refine .dispatch (p := p) (taken.trans (by rw [ready])) (Machine.newcomers_dispatch m)
      admissions ?_ rfl
    have told : m.dispatch.events = m.events ++ [.dispatched p.pid p.priority p.pc] := by
      rw [Machine.dispatch, taken]
      show (Journal.log _ _).trace.events = _
      rw [Journal.trace_log]
      exact (Journal.events_event ..).trans (if_pos tracing)
    show m.dispatch.dispatchings = _
    rw [Machine.dispatchings, told, List.filterMap_append]
    rfl

variable [Workload σ]

/-- What a request does. Around it the levels may be reset, and something else may be told. -/
theorem queuing_of_request {m₀ m₁ : Machine σ} {n : Nat} {topics : List Event.Topic}
    (tracing : m.journal.tracing = true) (request : m₀.requestBatch = .ok (n, m₁))
    (before : m₀.nextArrivals = m.nextArrivals ∧ m₀.newcomers = m.newcomers ∧
      m₀.journal = m.journal)
    (ready : m₀.ready = m.ready ∨ m₀.ready = m.ready.resetPriorities)
    (after : m'.newcomers = m₁.newcomers ∧ m'.ready = m₁.ready)
    (tells : Machine.Tells topics m₁ m') (quiet : .arrival ∉ topics ∧ .dispatch ∉ topics) :
    Ledger.Queuing ⟨m, arrived, dropped⟩ ⟨m', arrived ++ m.nextArrivals, dropped⟩ := by
  obtain ⟨next, newcomers, journal⟩ := before
  have lets := Machine.lets_requestBatch request
  have told := (Machine.tells_requestBatch request).dispatchings_eq (by decide)
  have traced := (lets.admissions (journal ▸ tracing)).2
  have same : m₀.admissions = m.admissions ∧ m₀.dispatchings = m.dispatchings := by
    simp only [Machine.admissions, Machine.dispatchings, Machine.events, journal, and_self]
  rw [next] at lets traced
  refine .arrive ?_ ?_ ?_ ?_ rfl
  · rw [after.2, lets.ready]
    exact ready
  · show m'.newcomers.map (·.pid) = m.newcomers.map (·.pid) ++ _
    rw [after.1, lets.newcomers, newcomers]
  · show m'.admissions = m.admissions ++ _
    rw [tells.admissions_eq quiet.1, traced, same.1]
  · show m'.dispatchings = m.dispatchings
    rw [tells.dispatchings_eq quiet.2, told, same.2]

theorem queuing_of_phase {cause : Cause} {phase : Phase} (tracing : m.journal.tracing = true)
    (reaped : m.reap.ready = m.ready) (h : m.phase cause phase = .ok m') :
    Ledger.Queuing ⟨m, arrived, dropped⟩
      ⟨m', arrived ++ m.arrivalsOf phase, dropped ++ m.droppedBy phase⟩ := by
  have still : ∀ {dropped'}, Ledger.Queuing ⟨m, arrived, dropped⟩ ⟨m, arrived, dropped'⟩ :=
    queuing_of_tells (.refl [] m) (by decide) (.of_eq rfl rfl) rfl
  cases phase <;>
    simp only [Machine.phase, Machine.arrivalsOf, Machine.droppedBy, List.append_nil] at h ⊢
  case priorityReset =>
    split at h
    case isTrue due =>
      rw [if_pos due]
      obtain ⟨⟨n, m₁⟩, request, h⟩ := exists_of_bind_eq_ok h
      cases h
      refine queuing_of_request tracing request ⟨rfl, rfl, rfl⟩ (.inr rfl) ⟨rfl, rfl⟩
        (?_ : Machine.Tells [.reset] m₁ _) (by decide)
      exact ⟨.event (.measure (.refl _) _) (.head _) _, fun _ => rfl, fun _ => .refl _ _⟩
    case isFalse early =>
      cases h
      rw [if_neg early, List.append_nil]
      exact still
  case admission =>
    cases h
    exact .settle rfl rfl rfl rfl rfl
  all_goals
    cases h
    split
  · exact queuing_of_tells (Machine.tells_preempt m) (by decide) m.requeues_preempt rfl
  · exact still
  · exact queuing_of_dispatch tracing
  · exact still
  · have front := Prod.mk.inj (Machine.front_reap m)
    exact queuing_of_tells (Machine.tells_reap m) (by decide) (.of_eq front.2 reaped) rfl
  · exact still

theorem Next.queuing {mo mo' : Moment σ} (next : Next mo mo')
    (tracing : mo.ledger.machine.journal.tracing = true)
    (reaped : mo.ledger.machine.reap.ready = mo.ledger.machine.ready) :
    mo.ledger.Queuing mo'.ledger := by
  have still : ∀ l : Ledger σ, l.Queuing l :=
    fun l => .requeue (.of_eq rfl rfl) rfl rfl rfl
  cases next with
  | boot h =>
    obtain ⟨⟨n, m₁⟩, request, h⟩ := exists_of_bind_eq_ok h
    cases h
    exact queuing_of_request tracing request ⟨rfl, rfl, rfl⟩ (.inl rfl) ⟨rfl, rfl⟩
      (.log (.refl [] m₁) _) (by decide)
  | request h =>
    exact queuing_of_request tracing h ⟨rfl, rfl, rfl⟩ (.inl rfl) ⟨rfl, rfl⟩ (.refl [] _)
      (by decide)
  | schedule | done | goOn => exact still _
  | @idleCycle l =>
    let counted := l.machine.beginCycle.countIdle
    obtain ⟨sinceScan, monitor, journal, scan⟩ := Scene.scanIfDue_eq counted
    have requeues : l.machine.Requeues counted.scanIfDue := by
      rw [scan]
      exact .of_eq rfl rfl
    have before : Machine.Tells [.deadlock] l.machine counted := .of_eq rfl rfl rfl rfl
    exact queuing_of_tells (before.trans (Machine.tells_scanIfDue counted)) (by decide) requeues rfl
  | busyCycle running h =>
    exact queuing_of_tells (Machine.tells_stepRunning running h) (by decide)
      (Machine.requeues_stepRunning running h) rfl
  | timer => exact queuing_of_tells (Machine.tells_raiseTimer _) (by decide) (.of_eq rfl rfl) rfl
  | completion _ done =>
    exact queuing_of_tells (Machine.tells_completeIo done) (by decide)
      (Machine.requeues_completeIo done) rfl
  | phase h => exact queuing_of_phase tracing reaped h
  | @terminate l pid m pending h =>
    refine queuing_of_tells (Machine.tells_terminateIfDone h) (by decide) ?_ rfl
    obtain ⟨p, -, -, -, rfl⟩ := Machine.exists_of_terminateIfDone h
    exact .of_eq rfl rfl

end Moment

/-! ## The order of admission -/

/-- The first occurrences in a list, when an element is put behind it. -/
theorem eraseDups_concat {α : Type} [DecidableEq α] (as : List α) (a : α) :
    (as ++ [a]).eraseDups = as.eraseDups ++ [a].filter (· ∉ as) := by
  rw [List.eraseDups_append]
  congr 1
  by_cases mem : a ∈ as <;> simp [List.removeAll, List.eraseDups_cons, mem]

/-- An element that is not there twice, if it is new, is the first of the new ones. -/
theorem filter_cons_eq_append {α : Type} [DecidableEq α] {old : List α} {a : α} {as : List α}
    (once : a ∉ old → a ∉ as) : (a :: as).filter (· ∉ old) =
      [a].filter (· ∉ old) ++ as.filter (· ∉ old ++ [a]) := by
  have same : ∀ b ∈ as, decide (b ∉ old) = decide (b ∉ old ++ [a]) := by
    intro b hb
    by_cases mem : a ∈ old
    · grind
    · have apart := once mem
      grind
  show ([a] ++ as).filter _ = _
  rw [List.filter_append, List.filter_congr same]

namespace Machine

/-- Those in line who were never dispatched. -/
def waitingList (m : Machine σ) : List Pid :=
  ((m.ready.first ++ m.newcomers).map (·.pid)).filter (· ∉ m.dispatchings)

/-- The processes were admitted in the order in which they were first dispatched, and after them
those who wait for that, in the order in which they stand in line. -/
def KeepsOrder (m : Machine σ) : Prop := m.admissions = m.dispatchings.eraseDups ++ m.waitingList

variable {m m' : Machine σ}

theorem waitingList_eq (m : Machine σ) : m.waitingList =
    (m.ready.first.map (·.pid)).filter (· ∉ m.dispatchings) ++
      (m.newcomers.map (·.pid)).filter (· ∉ m.dispatchings) := by
  rw [waitingList, List.map_append, List.filter_append]

/-- Behind the first level there is nobody new. -/
theorem Prefers.mem_dispatchings (h : m.Prefers) {level : Priority} {p : Proc}
    (here : p ∈ m.ready.levels.get level) (behind : level ≠ .highest) :
    p.pid ∈ m.dispatchings :=
  (h (.ready level, p) here).resolve_right fun foremost => behind (foremost.2 level rfl)

/-- Those who are put back in line do not wait for their first dispatch. -/
theorem Requeues.waitingList_eq (h : m.Requeues m') (knows : m.Knows)
    (same : m'.dispatchings = m.dispatchings) : m'.waitingList = m.waitingList := by
  obtain ⟨newcomers, ws, ready, elsewhere⟩ := h
  have known : ((ws.filter (·.priority = .highest)).map (·.pid)).filter (· ∉ m.dispatchings) =
      [] := by
    rw [List.filter_eq_nil_iff]
    intro pid mem
    obtain ⟨w, hw, rfl⟩ := List.mem_map.1 mem
    have old := knows w.pid (elsewhere w (List.mem_of_mem_filter hw))
    simp [old]
  rw [m'.waitingList_eq, m.waitingList_eq, newcomers, ready, same,
    ReadyQueue.map_pid_first_enqueueAll, List.filter_append, known, List.append_nil]

/-- The newcomers who have never been dispatched are put at the first level. -/
theorem Prefers.filter_newcomers (h : m.Prefers) :
    ((m.newcomers.filter (·.priority = .highest)).map (·.pid)).filter (· ∉ m.dispatchings) =
      (m.newcomers.map (·.pid)).filter (· ∉ m.dispatchings) := by
  have each : ∀ p ∈ m.newcomers, p.pid ∈ m.dispatchings ∨ p.priority = .highest :=
    fun p hp => (h (.newcomers, p) hp).imp (·) (·.1)
  rw [List.filter_map, List.filter_map, List.filter_filter]
  congr 1
  refine List.filter_congr fun p hp => ?_
  rcases each p hp with old | highest
  · simp [old]
  · simp [highest]

/-- With a reset nobody new comes to the first level. -/
theorem Prefers.filter_resetPriorities (h : m.Prefers) :
    (m.ready.resetPriorities.first.map (·.pid)).filter (· ∉ m.dispatchings) =
      (m.ready.first.map (·.pid)).filter (· ∉ m.dispatchings) := by
  have known : (m.ready.others.map (·.pid)).filter (· ∉ m.dispatchings) = [] := by
    rw [List.filter_eq_nil_iff]
    intro pid mem
    obtain ⟨p, hp, rfl⟩ := List.mem_map.1 mem
    obtain ⟨level, behind, here⟩ := ReadyQueue.exists_level_of_mem_others hp
    have old := h.mem_dispatchings here behind
    simp [old]
  have same : m.ready.resetPriorities.first.map (·.pid) =
      m.ready.first.map (·.pid) ++ m.ready.others.map (·.pid) := by
    rw [ReadyQueue.first_resetPriorities, List.map_map, ReadyQueue.toList_eq_first_append,
      ← List.map_append]
    rfl
  rw [same, List.filter_append, known, List.append_nil]

/-- Who is dispatched is the first who waits for that, or has been dispatched before. -/
theorem KeepsOrder.dispatch {p : Proc} (h : m.KeepsOrder) (nodup : m.admissions.Nodup)
    (prefers : m.Prefers) (taken : m.ready.dequeue = some (p, m'.ready))
    (newcomers : m'.newcomers = m.newcomers)
    (dispatchings : m'.dispatchings = m.dispatchings ++ [p.pid]) :
    m.admissions = m'.dispatchings.eraseDups ++ m'.waitingList := by
  let others := (m'.ready.first ++ m.newcomers).map (·.pid)
  have waiting : m.waitingList = (p.pid :: others).filter (· ∉ m.dispatchings) := by
    rcases ReadyQueue.first_of_dequeue taken with head | ⟨none, none', level, behind, here⟩
    · rw [waitingList, head]
      rfl
    · have old := prefers.mem_dispatchings here behind
      rw [waitingList, none, List.filter_cons_of_neg (by simp [old])]
      simp only [others, none']
  rw [KeepsOrder, waiting] at h
  have once : p.pid ∉ m.dispatchings → p.pid ∉ others := by
    intro new again
    rw [h, List.filter_cons_of_pos (by simp [new])] at nodup
    refine (List.nodup_cons.1 (List.nodup_append.1 nodup).2.1).1 ?_
    exact List.mem_filter.2 ⟨again, by simp [new]⟩
  rw [h, filter_cons_eq_append once, dispatchings, eraseDups_concat, List.append_assoc, waitingList,
    newcomers, dispatchings]

/-- Those who arrive wait behind all others. -/
theorem KeepsOrder.arrive {pids : List Pid} (h : m.KeepsOrder) (prefers : m.Prefers)
    (nodup : m'.admissions.Nodup)
    (ready : m'.ready = m.ready ∨ m'.ready = m.ready.resetPriorities)
    (newcomers : m'.newcomers.map (·.pid) = m.newcomers.map (·.pid) ++ pids)
    (admissions : m'.admissions = m.admissions ++ pids)
    (dispatchings : m'.dispatchings = m.dispatchings) : m'.KeepsOrder := by
  have first : (m'.ready.first.map (·.pid)).filter (· ∉ m.dispatchings) =
      (m.ready.first.map (·.pid)).filter (· ∉ m.dispatchings) := by
    rcases ready with same | reset
    · rw [same]
    · rw [reset]
      exact prefers.filter_resetPriorities
  have new : pids.filter (· ∉ m.dispatchings) = pids := by
    rw [List.filter_eq_self]
    intro pid mem
    have apart := (List.nodup_append.1 (admissions ▸ nodup)).2.2
    have fresh : pid ∉ m.dispatchings := by
      intro before
      have admitted : pid ∈ m.admissions := by
        rw [h]
        exact List.mem_append_left _ (List.mem_eraseDups.2 before)
      exact apart pid admitted pid mem rfl
    simp [fresh]
  rw [KeepsOrder, admissions, h, m'.waitingList_eq, m.waitingList_eq, dispatchings, newcomers,
    first, List.filter_append, new, List.append_assoc, List.append_assoc]

end Machine

theorem Ledger.Queuing.keepsOrder {l l' : Ledger σ} (queuing : l.Queuing l')
    (h : l.machine.KeepsOrder) (nodup : l'.machine.admissions.Nodup) (knows : l.machine.Knows)
    (prefers : l.machine.Prefers) : l'.machine.KeepsOrder := by
  cases queuing with
  | requeue requeues admissions dispatchings =>
    rw [Machine.KeepsOrder, admissions, dispatchings, requeues.waitingList_eq knows dispatchings]
    exact h
  | settle newcomers ready admissions dispatchings =>
    rw [Machine.KeepsOrder, admissions, dispatchings, Machine.waitingList_eq, ready, newcomers,
      dispatchings, ReadyQueue.map_pid_first_enqueueAll, List.filter_append,
      prefers.filter_newcomers, List.map_nil, List.filter_nil, List.append_nil,
      ← Machine.waitingList_eq]
    exact h
  | dispatch taken newcomers admissions dispatchings =>
    rw [Machine.KeepsOrder, admissions]
    exact h.dispatch (admissions ▸ nodup) prefers taken newcomers dispatchings
  | arrive ready newcomers admissions dispatchings =>
    exact h.arrive prefers nodup ready newcomers admissions dispatchings

theorem Ledger.Queuing.dispatchings_subset {l l' : Ledger σ} (queuing : l.Queuing l') :
    l.machine.dispatchings ⊆ l'.machine.dispatchings := by
  cases queuing with
  | requeue _ _ same | settle _ _ _ same | arrive _ _ _ same =>
    exact same ▸ List.Subset.refl _
  | dispatch _ _ _ more =>
    rw [more]
    exact List.subset_append_left _ _

/-- The events tell the arrivals in order. -/
theorem Ledger.Queuing.admissions_eq {l l' : Ledger σ} (queuing : l.Queuing l')
    (h : l.machine.admissions = (l.arrived.flatMap Arrival.procs).map (·.pid)) :
    l'.machine.admissions = (l'.arrived.flatMap Arrival.procs).map (·.pid) := by
  cases queuing with
  | requeue _ same _ arrived | settle _ _ same _ arrived | dispatch _ _ same _ arrived =>
    rw [same, arrived, h]
  | arrive _ _ more _ arrived => rw [more, arrived, h, List.flatMap_append, List.map_append]

/-! ## Runs -/

theorem Moment.keepsOrder_of_reachable [Workload σ] {config : Config} {workload : σ}
    {logLevel : Option Level} {mo : Moment σ}
    (reachable : Moment.Reachable (.start config workload logLevel) mo)
    (tracing : config.recordTrace = true) (distinct : Arrival.Distinct mo.ledger.arrived)
    (highest : ∀ a ∈ mo.ledger.arrived, ∀ p ∈ a.procs, p.priority = .highest) :
    mo.ledger.machine.admissions = (mo.ledger.arrived.flatMap Arrival.procs).map (·.pid) ∧
      mo.ledger.machine.KeepsOrder ∧ mo.ledger.machine.Prefers := by
  induction reachable with
  | refl => exact ⟨rfl, rfl, fun x hx => absurd hx (Machine.not_holds_start x)⟩
  | @tail mo mo' path next ih =>
    have steps := Scene.steps_of_reachable path
    have fresh := Scene.fresh_start config workload logLevel
    have passage := next.passage (Scene.tidy_of_steps fresh steps).locks
    have earlier := passage.arrived_prefix
    have distinct₁ := Scene.distinct_of_prefix earlier distinct
    obtain ⟨told, keeps, prefers⟩ := ih distinct₁ fun a ha => highest a (earlier.subset ha)
    obtain ⟨traced, knows⟩ := knows_of_reachable path tracing
    have queuing := next.queuing traced (Scene.ready_reap fresh steps distinct₁)
    have told' := queuing.admissions_eq told
    exact ⟨told', queuing.keepsOrder keeps (told' ▸ distinct) knows prefers,
      passage.prefers prefers knows queuing.dispatchings_subset highest⟩

/-- The processes of the library come with the highest priority. -/
theorem Arrival.Library.priority_eq {a : Arrival} (h : a.Library) {p : Proc} (hp : p ∈ a.procs) :
    p.priority = .highest := by
  cases h with
  | compute | io =>
    rw [List.mem_singleton.1 hp]
    rfl
  | mutexPair | rendezvousPair => rcases List.mem_pair.1 hp with rfl | rfl <;> rfl

/-- In every run whose arrivals are different processes of the highest priority, as they are with
every workload of the library, the processes are dispatched for the first time in the order in which
they arrive and are admitted. -/
theorem keepsAdmissionOrder_of_reachable [Workload σ] {config : Config} {workload : σ}
    {logLevel : Option Level} {mo : Moment σ}
    (reachable : Moment.Reachable (.start config workload logLevel) mo)
    (tracing : config.recordTrace = true) :
    (Arrival.Distinct mo.ledger.arrived →
      (∀ a ∈ mo.ledger.arrived, ∀ p ∈ a.procs, p.priority = .highest) →
      mo.ledger.machine.journal.trace.dispatchOrder.eraseDups <+:
        mo.ledger.machine.journal.trace.admissionOrder ∧
      mo.ledger.machine.journal.trace.admissionOrder =
        (mo.ledger.arrived.flatMap Arrival.procs).map (·.pid)) ∧
    (Workload.Library σ → Arrival.Distinct mo.ledger.arrived ∧
      ∀ a ∈ mo.ledger.arrived, ∀ p ∈ a.procs, p.priority = .highest) := by
  refine ⟨fun distinct highest => ?_, fun _ => ?_⟩
  · obtain ⟨told, keeps, -⟩ :=
      Moment.keepsOrder_of_reachable reachable tracing distinct highest
    rw [← Machine.dispatchings_eq]
    exact ⟨⟨_, keeps.symm⟩, told⟩
  · obtain ⟨library, distinct⟩ := Moment.distinct_of_library reachable
    exact ⟨distinct, fun a ha p hp => (library a ha).priority_eq hp⟩

/-- Two processes that share locks and one that makes a request, and three more in the next
batch. -/
def ScriptedWorkload.relays : ScriptedWorkload :=
  ⟨[[.mutexPair 20 false, .io 9 0 [[1]]], [.compute 5 1, .rendezvousPair 20]]⟩

/-- Calls after which a process was parked on a lock and woken, and a request was made and finished,
before a reset brings the second batch. -/
def Command.relays : List Command :=
  .boot :: List.replicate 7 (.tick []) ++ .timerInterrupt [] :: List.replicate 6 (.tick []) ++
    .ioInterrupt ⟨0⟩ [] :: List.replicate 9 (.tick []) ++ .timerInterrupt [] ::
    List.replicate 2 (.tick []) ++ List.replicate 4 (.timerInterrupt [])

/-- A run with demotions, a wakeup, a finished request and a reset, in which the first process of
the second batch is dispatched after all of the first. -/
theorem keepsAdmissionOrder_of_reachable_relays : ∃ mo : Moment ScriptedWorkload,
    Moment.Reachable (.start { baseQuantum := 4, quantumStep := 0, resetMultiple := 6 }
      .relays none) mo ∧
    mo.ledger.machine.journal.trace.dispatchOrder =
      [⟨0⟩, ⟨1⟩, ⟨2⟩, ⟨0⟩, ⟨2⟩, ⟨1⟩, ⟨0⟩, ⟨3⟩, ⟨4⟩] ∧
    mo.ledger.machine.journal.trace.dispatchOrder.eraseDups <+:
      mo.ledger.machine.journal.trace.admissionOrder ∧
    mo.ledger.machine.priorityResets = 1 ∧ mo.ledger.machine.ioCompletions = 1 ∧
    mo.ledger.machine.journal.trace.admissionOrder.length = 6 := by
  have run : ((Machine.start { baseQuantum := 4, quantumStep := 0, resetMultiple := 6 }
      ScriptedWorkload.relays none).performAll Command.relays).toOption.any (fun m =>
        m.journal.trace.dispatchOrder == [⟨0⟩, ⟨1⟩, ⟨2⟩, ⟨0⟩, ⟨2⟩, ⟨1⟩, ⟨0⟩, ⟨3⟩, ⟨4⟩] &&
          (m.priorityResets == 1 && (m.ioCompletions == 1 &&
            m.journal.trace.admissionOrder.length == 6))) = true := by decide +kernel
  obtain ⟨mo, reachable, -, test⟩ := Moment.exists_reachable_of_performAll run
  simp only [Bool.and_eq_true, beq_iff_eq] at test
  obtain ⟨order, rest⟩ := test
  obtain ⟨inOrder, library⟩ := keepsAdmissionOrder_of_reachable reachable rfl
  obtain ⟨distinct, highest⟩ := library inferInstance
  exact ⟨mo, reachable, order, (inOrder distinct highest).1, rest⟩

end Mlfq
