import Mlfq.Proofs.Channel.Rendezvous
import Mlfq.Proofs.Isolation
import Mlfq.Proofs.Journey.Passage

/-! # The state of a record tells where it is

The state of a record is written when the record is moved, sometimes by the queue that takes it and
sometimes by whoever puts it there. At rest it always agrees with the place of the record. Between
two calls the only exception is the running process that the timer has stopped and that is not
demoted yet. -/

namespace Mlfq

/-- A record is as records in this place are while the machine is at rest. -/
structure Place.Fits (place : Place) (p : Proc) : Prop where
  state : p.state = place.state
  level : ∀ level, place = .ready level → p.priority = level
  stopped : p.stopped = true ↔ place = .zombies
  ended : place = .zombies → p.shouldTerminate = true

namespace Place.Fits

variable {place : Place} {p : Proc}

theorem alive (h : place.Fits p) (away : place ≠ .zombies) : p.stopped = false :=
  Bool.eq_false_iff.2 fun stopped => away (h.stopped.1 stopped)

theorem of_alive (away : place ≠ .zombies) (alive : p.stopped = false)
    (state : p.state = place.state) (level : ∀ level, place = .ready level → p.priority = level) :
    place.Fits p where
  state := state
  level := level
  stopped := iff_of_false (by simp [alive]) away
  ended here := absurd here away

end Place.Fits

/-- A record is as records in its place are but for its state, and it has the state of the place
unless it runs and is about to be demoted. -/
structure Tagged (expires : Prop) (x : Place × Proc) : Prop where
  fits : x.1.Fits { x.2 with state := x.1.state }
  state : x.2.state = x.1.state ∨ x.1 = .cpu ∧ expires

namespace Tagged

variable {expires expires' : Prop} {x y : Place × Proc}

theorem of_fits (h : x.1.Fits x.2) : Tagged expires x := by
  obtain ⟨place, p⟩ := x
  have same : p.state = place.state := h.state
  refine ⟨?_, .inl same⟩
  simp only [← same]
  exact h

theorem settled (h : Tagged expires x) (settled : x.1 = .cpu → ¬ expires) : x.1.Fits x.2 :=
  ⟨h.state.resolve_right fun running => settled running.1 running.2, h.fits.level, h.fits.stopped,
    h.fits.ended⟩

theorem mono (h : Tagged expires x) (later : x.1 = .cpu → expires → expires') :
    Tagged expires' x :=
  ⟨h.fits, h.state.imp (·) fun running => ⟨running.1, later running.1 running.2⟩⟩

/-- A move gives a record the state of its place, and only in the zombie queue is it stopped. -/
theorem moves (h : Tagged expires y) (moves : Moves y x) : Tagged expires x := by
  cases moves with
  | run p pc wraps =>
    have alive : p.stopped = false := h.fits.alive nofun
    exact ⟨.of_alive nofun alive rfl nofun, h.state⟩
  | dispatch level p =>
    have alive : p.stopped = false := h.fits.alive nofun
    exact .of_fits (.of_alive nofun alive rfl nofun)
  | @park place parks p pc =>
    have alive : p.stopped = false := h.fits.alive nofun
    refine .of_fits (.of_alive ?_ alive parks.symm ?_)
    · rintro rfl
      cases parks
    · rintro level rfl
      cases parks
  | @queue place waits p pc =>
    have away : place ≠ .zombies := by
      rintro rfl
      rcases waits with waits | waits <;> cases waits
    have alive : p.stopped = false := h.fits.alive away
    refine .of_fits (.of_alive nofun alive rfl ?_)
    rintro level ⟨⟩
    rfl
  | finish p pc done => exact .of_fits ⟨rfl, nofun, iff_of_true rfl rfl, fun _ => done⟩

theorem conveyed (h : Tagged expires y) (path : Relation.ReflTransGen Moves y x) :
    Tagged expires x := by
  induction path with
  | refl => exact h
  | tail _ moves ih => exact ih.moves moves

/-- A new record that was not stopped before it came. -/
theorem enters {as : List Arrival} (fresh : ∀ a ∈ as, ∀ p ∈ a.procs, p.stopped = false)
    (h : Machine.Enters as x) : Tagged expires x := by
  obtain ⟨a, ha, p, hp, plan, rfl⟩ := h
  exact .of_fits (.of_alive nofun (fresh a ha p hp) rfl nofun)

theorem afterReset (h : Tagged expires y) : Tagged expires (Machine.afterReset y) := by
  obtain ⟨place, p⟩ := y
  cases place with
  | ready level =>
    have alive : p.stopped = false := h.fits.alive nofun
    have state : p.state = .ready := h.state.resolve_right nofun
    refine .of_fits (.of_alive nofun alive state ?_)
    rintro _ ⟨⟩
    rfl
  | cpu =>
    have alive : p.stopped = false := h.fits.alive nofun
    exact ⟨.of_alive nofun alive rfl nofun, h.state⟩
  | _ => exact h

end Tagged

namespace Moment

variable {σ : Type} [Workload σ] {mo mo' : Moment σ}

/-- Every record is tagged. -/
def AllTagged (mo : Moment σ) : Prop :=
  ∀ x, mo.ledger.machine.Holds x → Tagged (Duty.Expires mo.pending) x

theorem AllTagged.next (h : mo.AllTagged) (next : Next mo mo')
    (tidy : mo.ledger.machine.locks.Tidy)
    (fresh : ∀ a ∈ mo'.ledger.arrived, ∀ p ∈ a.procs, p.stopped = false) : mo'.AllTagged := by
  intro x hx
  cases next.passage tidy with
  | move conveys _ _ _ expires =>
    obtain ⟨y, hy, path⟩ := conveys x hx
    refine ((h y hy).conveyed path).mono fun cpu due => ?_
    obtain ⟨place, p⟩ := x
    obtain rfl : place = .cpu := cpu
    refine (expires due).resolve_right fun idle => ?_
    rw [Machine.holds_cpu.1 hx] at idle
    cases idle
  | stop holds _ _ expires =>
    rcases holds x hx with before | ⟨p, running, rfl⟩
    · exact (h x before).mono fun _ _ => expires
    · have fits := (h (.cpu, p) (Machine.holds_cpu.2 running)).fits
      have alive : p.stopped = false := fits.alive nofun
      exact ⟨.of_alive nofun alive rfl nofun, .inr ⟨rfl, expires⟩⟩
  | arrive holds _ arrived expires =>
    rcases holds x hx with before | enters
    · exact (h x before).mono fun _ due => absurd due expires
    · refine .enters (fun a ha => fresh a ?_) enters
      exact arrived ▸ List.mem_append_right _ ha
  | reset holds _ _ arrived expires =>
    rcases holds x hx with ⟨y, hy, rfl⟩ | enters
    · exact (h y hy).afterReset.mono fun _ => expires
    · refine .enters (fun a ha => fresh a ?_) enters
      exact arrived ▸ List.mem_append_right _ ha
  | expire running holds =>
    rcases holds x hx with ⟨before, away⟩ | rfl
    · exact (h x before).mono fun cpu => absurd cpu away
    · have alive := (h (.cpu, _) (Machine.holds_cpu.2 running)).fits.alive nofun
      refine .of_fits (.of_alive nofun alive rfl ?_)
      rintro _ ⟨⟩
      rfl

theorem AllTagged.of_reachable {config : Config} {workload : σ} {logLevel : Option Level}
    (reachable : Reachable (.start config workload logLevel) mo)
    (fresh : ∀ a ∈ mo.ledger.arrived, ∀ p ∈ a.procs, p.stopped = false) : mo.AllTagged := by
  induction reachable with
  | refl => exact fun x hx => absurd hx (Machine.not_holds_start x)
  | @tail mo mo' path next ih =>
    have tidy := (tidy_of_reachable path).locks
    have earlier := Passage.arrived_prefix (next.passage tidy)
    exact (ih fun a ha => fresh a (earlier.subset ha)).next next tidy fresh

end Moment

/-- At rest every record has the state of its place, the priority of its level if it is in the ready
queue, and the marks of its end just if it is among the ended processes. -/
theorem fits_of_reachable {σ : Type} [Workload σ] {config : Config} {workload : σ}
    {logLevel : Option Level} {mo : Moment σ}
    (reachable : Moment.Reachable (.start config workload logLevel) mo)
    (fresh : ∀ a ∈ mo.ledger.arrived, ∀ p ∈ a.procs, p.stopped = false)
    (rest : mo.pending = []) :
    ∀ place, ∀ p ∈ mo.ledger.machine.recordsAt place, place.Fits p := by
  intro place p hp
  refine (Moment.AllTagged.of_reachable reachable fresh (place, p) hp).settled fun _ expires => ?_
  obtain ⟨phases, mem, -⟩ := expires
  rw [rest] at mem
  cases mem

/-- Processes that come to rest in many places. The last one has a tag and a level of its own when
it arrives. -/
def Arrival.assembly : List Arrival :=
  let none : TriggerSet := .ofList []
  let program : MutexProgram := ⟨.ofList [1], .ofList [2], none, none, none, none, none, none⟩
  let user (pid : Pid) : Proc :=
    { pid, kind := .mutexUser, maxPc := 9, terminateAfter := 0, plan := .mutex program }
  let side (pid : Pid) (kind : Proc.Kind) : Proc :=
    { pid, kind, maxPc := 9, terminateAfter := 0, plan := .rendezvous (.ofList [2]) ⟨0⟩ }
  [.single (.computeBound ⟨0⟩ 1 1), .single (.ioBound ⟨1⟩ 9 0 [.ofList [1]]),
    .mutexPair (user ⟨2⟩) (user ⟨3⟩) true,
    .rendezvousPair (side ⟨4⟩ .producer) (side ⟨5⟩ .consumer),
    .single { Proc.computeBound ⟨6⟩ 9 0 with state := .halted, priority := .clamped 9 }]

/-- A run after which somebody is in nearly every sort of place. -/
theorem fits_of_reachable_assembly : ∃ mo : Moment GivenArrivals,
    Moment.Reachable (.start { ioDevices := 1 } ⟨Arrival.assembly⟩ none) mo ∧
    (∀ place, ∀ p ∈ mo.ledger.machine.recordsAt place, place.Fits p) ∧
    ∀ place ∈ [Place.ready (.clamped 1), .ready (.clamped 9), .cpu, .device ⟨0⟩, .tableLock ⟨0⟩,
      .fill ⟨0⟩, .zombies], mo.ledger.machine.recordsAt place ≠ [] := by
  have run : ((Machine.start { ioDevices := 1 } (⟨Arrival.assembly⟩ : GivenArrivals)
      none).performAll (.boot :: List.replicate 5 (.tick []) ++ [.timerInterrupt [], .tick [],
        .tick [], .timerInterrupt [], .tick [], .tick []])).toOption.any (fun m =>
      [Place.ready (.clamped 1), .ready (.clamped 9), .cpu, .device ⟨0⟩, .tableLock ⟨0⟩, .fill ⟨0⟩,
        .zombies].all fun place => !(m.recordsAt place).isEmpty) = true := by decide +kernel
  obtain ⟨mo, reachable, rest, occupied⟩ := Moment.exists_reachable_of_performAll run
  have fresh : ∀ a ∈ mo.ledger.arrived, ∀ p ∈ a.procs, p.stopped = false := by
    rcases Moment.arrived_of_given reachable with nobody | everybody
    · rw [nobody]
      simp
    · rw [everybody]
      decide
  refine ⟨mo, reachable, fits_of_reachable reachable fresh rest, fun place mem => ?_⟩
  have somebody := List.all_eq_true.1 occupied place mem
  simpa using somebody

end Mlfq
