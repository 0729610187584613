import Mlfq.Proofs.Story.Life

/-! # Rules for records

A rule is a property of a record at its station that survives whatever can happen to one record.
It then holds of all records at every moment of a run, and of whoever is dispatched: a cycle is
begun by one process, which has stepped when its trap is handled. -/

namespace Mlfq.Story

variable {s s' : Story}

/-- In a cycle that is to be closed, whoever runs has stepped. -/
def Stepped (s : Story) : Prop := s.due ≠ none → ∀ p, (.cpu, p) ∈ s.roll → p.pc ≤ p.maxPc

/-- `P n` survives whatever can happen to a record in or after the `n`th cycle, and `new` is known
of everybody who arrives. -/
structure Rule (new : Proc → Prop) (P : Nat → Station × Proc → Prop) : Prop where
  later : ∀ {n x}, P n x → P (n + 1) x
  arrive : ∀ {n} {p q : Proc}, new p → q.outline = p.outline → q.pc = p.pc → q.wraps = p.wraps →
    P n (.line, q.core)
  /-- What is told of a process in its cycle comes after its step. -/
  pass : ∀ {n due due' x x' e}, Passes due x e x' due' →
    (due ≠ none → x.1 = .cpu → x.2.pc ≤ x.2.maxPc) → P n x → P n x'
  finish : ∀ {n p}, P n (.cpu, p) → P n (.ended, p)
  dispatch : ∀ {n p}, P n (.line, p) → P n (.cpu, p)
  wake : ∀ {n p}, P n (.lock, p) → P n (.line, p)
  tick : ∀ {n} {p p' : Proc}, p.Advances p' → P n (.cpu, p) → P (n + 1) (.cpu, p')

/-- A dispatch is of a record that waited for it. -/
def FromLine (P : Nat → Station × Proc → Prop) (e : Event) : Prop :=
  ∀ pid priority pc, e = .dispatched pid priority pc →
    ∃ n p, P n (.line, p) ∧ p.pid = pid ∧ p.pc = pc

/-- Every record has the property, and so had everybody who was dispatched since `s`. -/
structure Obeys (P : Nat → Station × Proc → Prop) (s s' : Story) : Prop where
  records : ∀ x ∈ s'.roll, P s'.iteration x
  told : ∀ e ∈ s'.events, e ∈ s.events ∨ FromLine P e

variable {P : Nat → Station × Proc → Prop} {new : Proc → Prop}

/-- An event is about a dispatch only if it says so. -/
theorem FromLine.of_mark {e : Event} (h : ∀ pid, e.mark? ≠ some (pid, .dispatched)) :
    FromLine P e := by
  rintro pid priority pc rfl
  exact absurd rfl (h pid)

theorem Passes.fromLine {due due' : Option Pid} {x x' : Station × Proc} {e : Event}
    (h : Passes due x e x' due') : FromLine P e := by
  refine .of_mark fun pid => ?_
  cases h <;> simp [Event.mark?]

theorem mem_events_tell {e x : Event} (h : x ∈ (s.tell e).events) : x ∈ s.events ∨ x = e := by
  simp only [tell, tellAll] at h
  split at h
  · simpa using h
  · exact .inl h

/-- What a run has shown so far stays when something goes on without a dispatch. -/
theorem fromLine_tell {s₀ : Story} {e : Event}
    (before : ∀ x ∈ s.events, x ∈ s₀.events ∨ FromLine P x) (own : FromLine P e) :
    ∀ x ∈ (s.tell e).events, x ∈ s₀.events ∨ FromLine P x := by
  intro x hx
  rcases mem_events_tell hx with old | rfl
  · exact before x old
  · exact .inr own

namespace Rule

theorem act {s₀ : Story} (rule : Rule new P) (h : Obeys P s₀ s) (stepped : s.Stepped)
    (known : ∀ p ∈ s'.arrived, new p) (act : Act s s') : Obeys P s₀ s' ∧ s'.Stepped := by
  obtain ⟨records, told⟩ := h
  cases act with
  | note mark => exact ⟨⟨records, fromLine_tell told (.of_mark fun _ => mark ▸ nofun)⟩, stepped⟩
  | @arrive p q outline pc wraps =>
    have arrived : p ∈ s.arrived ++ [p] := List.mem_append_right _ (List.mem_singleton_self p)
    refine ⟨⟨fun x hx => ?_, fromLine_tell told nofun⟩, fun due r hr => ?_⟩
    · rcases Multiset.mem_cons.1 hx with rfl | before
      · exact rule.arrive (known p arrived) outline pc wraps
      · exact records x before
    · exact stepped due r ((Multiset.mem_cons.1 hr).resolve_left nofun)
  | @pass x x' e due rest here passes =>
    have own : x ∈ s.roll := here ▸ Multiset.mem_cons_self x rest
    have others : ∀ {y}, y ∈ rest → y ∈ s.roll := fun hy => here ▸ Multiset.mem_cons_of_mem hy
    refine ⟨⟨fun y hy => ?_, fromLine_tell told passes.fromLine⟩, fun open' p hp => ?_⟩
    · rcases Multiset.mem_cons.1 hy with rfl | before
      · refine rule.pass passes (fun due cpu => ?_) (records x own)
        obtain ⟨st, r⟩ := x
        obtain rfl : st = .cpu := cpu
        exact stepped due r own
      · exact records y (others before)
    · have still : s.due ≠ none := by
        rcases passes.due_eq with same | own
        · exact same ▸ open'
        · rw [own]
          exact nofun
      have elsewhere := passes.station_ne_cpu
      rcases Multiset.mem_cons.1 hp with same | before
      · exact absurd (congrArg Prod.fst same).symm elsewhere
      · exact stepped still p (others before)
  | @dispatch p rest priority here idle due =>
    have own := records (.line, p) (here ▸ Multiset.mem_cons_self _ rest)
    refine ⟨⟨fun x hx => ?_, fromLine_tell told ?_⟩, fun open' => absurd due open'⟩
    · rcases Multiset.mem_cons.1 hx with rfl | before
      · exact rule.dispatch own
      · exact records x (here ▸ Multiset.mem_cons_of_mem before)
    · rintro pid _ pc ⟨⟩
      exact ⟨_, p, own, rfl, rfl⟩
  | @wake p rest here =>
    have others : ∀ {y}, y ∈ rest → y ∈ s.roll := fun hy => here ▸ Multiset.mem_cons_of_mem hy
    refine ⟨⟨fun x hx => ?_, told⟩, fun due q hq => ?_⟩
    · rcases Multiset.mem_cons.1 hx with rfl | before
      · exact rule.wake (records (.lock, p) (here ▸ Multiset.mem_cons_self _ rest))
      · exact records x (others before)
    · exact stepped due q (others ((Multiset.mem_cons.1 hq).resolve_left nofun))
  | @lose x rest here =>
    have others : ∀ {y}, y ∈ rest → y ∈ s.roll := fun hy => here ▸ Multiset.mem_cons_of_mem hy
    exact ⟨⟨fun x hx => records x (others hx), told⟩, fun due p hp => stepped due p (others hp)⟩

theorem acts {s₀ : Story} (rule : Rule new P) (h : Obeys P s₀ s) (stepped : s.Stepped)
    (known : ∀ p ∈ s'.arrived, new p) (acts : Acts s s') : Obeys P s₀ s' ∧ s'.Stepped := by
  induction acts with
  | refl => exact ⟨h, stepped⟩
  | tail _ act ih =>
    obtain ⟨obeys, stepped⟩ := ih fun p hp => known p (act.arrived_prefix.subset hp)
    exact rule.act obeys stepped known act

/-- With a cycle whoever runs steps. -/
theorem begins (rule : Rule new P) (h : ∀ x ∈ s.roll, P s.iteration x)
    (alone : s.onCpu.card ≤ 1) (begins : Begin s s') : Obeys P s s' ∧ s'.Stepped := by
  have told : ∀ (s₁ : Story) pairs locks, s₁.events = s.events →
      ∀ e ∈ (s₁.scanIfDue pairs locks).events, e ∈ s.events ∨ FromLine P e := by
    intro s₁ pairs locks same e he
    obtain ⟨es, silent, events⟩ := exists_events_scanIfDue s₁ pairs locks
    rw [events, List.mem_append, same] at he
    exact he.imp_right fun new => .of_mark fun _ => silent e new ▸ nofun
  cases begins with
  | idle pairs locks idle due =>
    refine ⟨⟨fun x hx => ?_, told _ _ _ rfl⟩, fun open' => ?_⟩
    · rw [roll_scanIfDue] at hx
      rw [iteration_scanIfDue]
      exact rule.later (h x hx)
    · rw [due_scanIfDue] at open'
      exact absurd due open'
  | @tick p p' rest pairs locks here advances due =>
    have nobody : rest.filter (·.1 = .cpu) = 0 := by
      rw [onCpu_cons here, if_pos rfl, Multiset.card_add, Multiset.card_map,
        Multiset.card_singleton] at alone
      exact Multiset.card_eq_zero.1 (by omega)
    refine ⟨⟨fun x hx => ?_, told _ _ _ rfl⟩, fun _ q hq => ?_⟩
    · rw [roll_scanIfDue] at hx
      rw [iteration_scanIfDue]
      rcases Multiset.mem_cons.1 hx with rfl | before
      · exact rule.tick advances (h (.cpu, p) (here ▸ Multiset.mem_cons_self _ rest))
      · exact rule.later (h x (here ▸ Multiset.mem_cons_of_mem before))
    · rw [roll_scanIfDue] at hq
      rcases Multiset.mem_cons.1 hq with same | before
      · cases same
        exact advances.pc_le
      · exact absurd rfl (Multiset.filter_eq_nil.1 nobody (.cpu, q) before)

/-- What is kept of single records is kept in a story. -/
theorem next (rule : Rule new P) (h : ∀ x ∈ s.roll, P s.iteration x) (alone : s.onCpu.card ≤ 1)
    (known : ∀ p ∈ s'.arrived, new p) (next : Next s s') : Obeys P s s' := by
  have start : Obeys P s s := ⟨h, fun _ he => .inl he⟩
  cases next with
  | between due acts => exact (rule.acts start (fun open' => absurd due open') known acts).1
  | settled settles =>
    induction settles with
    | refl => exact start
    | tail _ settle ih =>
      obtain ⟨due, rfl⟩ := settle.exists_due
      exact ⟨(ih known).records, (ih known).told⟩
  | @ended p rest here due done =>
    refine ⟨fun x hx => ?_, fromLine_tell (fun _ he => .inl he) nofun⟩
    rcases Multiset.mem_cons.1 hx with rfl | before
    · exact rule.finish (h (.cpu, p) (here ▸ Multiset.mem_cons_self _ rest))
    · exact h x (here ▸ Multiset.mem_cons_of_mem before)
  | cycle begins acts =>
    obtain ⟨obeys, stepped⟩ := rule.begins h alone begins
    exact (rule.acts obeys stepped known acts).1

/-- What is kept of single records holds at every moment of a run, and held of everybody when he was
dispatched. -/
theorem of_reachable {σ : Type} [Workload σ] {config : Config} {workload : σ}
    {logLevel : Option Level} {c : Chronicle σ} (rule : Rule new P)
    (reachable : Chronicle.Reachable (.start config workload logLevel) c)
    (known : ∀ p ∈ c.story.arrived, new p) :
    (∀ x ∈ c.story.roll, P c.story.iteration x) ∧ ∀ e ∈ c.story.events, FromLine P e := by
  induction reachable with
  | refl =>
    refine ⟨fun x hx => ?_, fun e he => absurd he List.not_mem_nil⟩
    have nobody : x ∈ (0 : Multiset (Station × Proc)) := roll_start config workload logLevel ▸ hx
    exact absurd nobody (Multiset.notMem_zero x)
  | @tail c c' path step ih =>
    have next := next_of_next (tidy_of_reachable path) step
    obtain ⟨records, told⟩ := ih fun p hp => known p (next.steps.arrived_prefix.subset hp)
    have alone : c.story.onCpu.card ≤ 1 := by
      rw [Chronicle.story, onCpu_story]
      cases c.machine.runningPid? <;> simp
    have obeys := rule.next records alone known next
    exact ⟨obeys.records, fun e he => (obeys.told e he).elim (told e) id⟩

end Rule
end Mlfq.Story
