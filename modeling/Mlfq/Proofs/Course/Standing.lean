import Mlfq.Proofs.Course.Walk
import Mlfq.Proofs.Story.Accounts

/-! # Where its cycles have led a process

What happens to a process between its own cycles takes it along the way that its cycles have led
it: it goes from station to station as it is, and the end of a request is a step. It stays alive
past its last wrap only while each of its cycles ends on a device. -/

namespace Mlfq

namespace Beat

/-- In each of its cycles from wrap number `limit` on the process was parked on a device. A process
with limit 0 never has to end. -/
def HeldUp (limit : Nat) (bs : List Beat) : Prop :=
  ∀ as b, as ++ [b] <+: bs → 0 < limit → limit ≤ wraps (as ++ [b]) → b.request.isSome = true

variable {limit : Nat} {as bs : List Beat}

theorem wraps_mono (h : as <+: bs) : wraps as ≤ wraps bs := h.sublist.countP_le

theorem heldUp_nil : HeldUp limit [] := fun as b h => by simp at h

theorem HeldUp.of_prefix (h : HeldUp limit bs) (before : as <+: bs) : HeldUp limit as :=
  fun as' b first => h as' b (first.trans before)

theorem heldUp_of_wraps_lt (h : 0 < limit → wraps bs < limit) : HeldUp limit bs :=
  fun _ _ first ends late =>
    absurd (late.trans (wraps_mono first)) (Nat.not_le.2 (h ends))

theorem HeldUp.snoc (h : HeldUp limit bs) {b : Beat} (parked : b.request.isSome = true) :
    HeldUp limit (bs ++ [b]) := by
  intro as b' first ends late
  rcases List.prefix_concat_iff.1 first with whole | before
  · obtain ⟨-, same⟩ := List.append_inj' whole rfl
    rwa [List.singleton_inj.1 same]
  · exact h as b' before ends late

/-- A process that makes no request when it wraps is not held up. -/
theorem HeldUp.wraps_lt (h : HeldUp limit bs) (ends : 0 < limit)
    (free : ∀ b ∈ bs, b.pc = 0 → b.request = none) : wraps bs < limit := by
  induction bs using List.reverseRecOn with
  | nil => exact ends
  | append_singleton bs b ih =>
    have before := ih (h.of_prefix (List.prefix_append ..))
      fun x hx => free x (List.mem_append_left _ hx)
    rw [wraps_append, wraps_singleton]
    split
    case isFalse => exact before
    case isTrue zero =>
      refine Nat.lt_of_le_of_ne before fun last => ?_
      have late : limit ≤ wraps (bs ++ [b]) := by
        rw [wraps_append, wraps_singleton, if_pos zero]
        exact last.ge
      have parked := h bs b List.prefix_rfl ends late
      rw [free b (List.mem_append_right _ List.mem_cons_self) zero] at parked
      cases parked

end Beat

/-- A process with its station and record `x` stands where its cycles `bs` have led it, if the cycle
of process `due` is to be closed now. -/
structure Stands (devices : Nat) (bs : List Beat) (due : Option Pid) (x : Station × Proc) :
    Prop where
  /-- A request is one step short of its end. -/
  walks : x.2.Walks devices bs (if x.1 = .device then x.2.pc + 1 else x.2.pc)
  wraps : x.2.wraps = Beat.wraps bs
  before : Beat.HeldUp x.2.terminateAfter bs.dropLast
  ended : x.1 = .ended → x.2.shouldTerminate = true
  alive : x.1 ≠ .ended →
    Beat.HeldUp x.2.terminateAfter bs ∨ x.1 = .cpu ∧ due = some x.2.pid

namespace Stands

variable {devices : Nat} {bs : List Beat} {due due' : Option Pid} {x : Station × Proc} {p : Proc}

theorem start {st : Station} (pc : p.pc = 0) (wraps : p.wraps = 0) (here : st = .line) :
    Stands devices [] due (st, p) := by
  subst here
  refine ⟨?_, wraps, Beat.heldUp_nil, nofun, fun _ => .inl Beat.heldUp_nil⟩
  rw [if_neg nofun, pc]
  exact .nil

/-- A process that has not ended, and whose cycle is not to be closed, is held up. -/
theorem heldUp (h : Stands devices bs due x) (alive : x.1 ≠ .ended) (apart : due ≠ some x.2.pid) :
    Beat.HeldUp x.2.terminateAfter bs :=
  (h.alive alive).resolve_right fun closing => apart closing.2

theorem of_apart (h : Stands devices bs due x) (apart : due ≠ some x.2.pid) :
    Stands devices bs due' x :=
  ⟨h.walks, h.wraps, h.before, h.ended, fun alive => .inl (h.heldUp alive apart)⟩

/-- A process that goes from one station to another is held up as before. -/
theorem move {st st' : Station} (h : Stands devices bs due (st, p)) (apart : due ≠ some p.pid)
    (leaves : st ≠ .device ∧ st ≠ .ended) (comes : st' ≠ .device ∧ st' ≠ .ended) :
    Stands devices bs due' (st', p) := by
  have walks := h.walks
  rw [if_neg leaves.1] at walks
  refine ⟨?_, h.wraps, h.before, fun ended => absurd ended comes.2,
    fun _ => .inl (h.heldUp leaves.2 apart)⟩
  rwa [if_neg comes.1]

theorem complete (h : Stands devices bs due (.device, p)) :
    Stands devices bs due' (.line, { p with pc := p.pc + 1 }) := by
  refine ⟨(if_pos rfl ▸ h.walks).congr rfl rfl, h.wraps, h.before, nofun, fun _ => .inl ?_⟩
  exact (h.alive nofun).resolve_right fun closing => nomatch closing.1

theorem terminate (h : Stands devices bs due (.cpu, p)) (done : p.shouldTerminate = true) :
    Stands devices bs due' (.ended, p) :=
  ⟨h.walks, h.wraps, h.before, fun _ => done, fun alive => absurd rfl alive⟩

end Stands

namespace Story

variable {s s' : Story} {devices : Nat} {pid : Pid} {bs : List Beat}

/-- Process `pid`, if it shares nothing, stands where its cycles `bs` have led it. -/
structure Follows (s : Story) (devices : Nat) (pid : Pid) (bs : List Beat) : Prop where
  stands : ∀ x ∈ s.roll, x.2.pid = pid → x.2.plan.Solitary → Stands devices bs s.due x
  unknown : pid ∉ s.arrived.map (·.pid) → bs = []

/-- No act makes it the turn of a cycle to be closed. -/
theorem Act.apart (act : Act s s') (h : s.due ≠ some pid) : s'.due ≠ some pid := by
  cases act with
  | @pass x x' e due rest here passes =>
    show due ≠ some pid
    generalize s.due = before at passes h
    cases passes with
    | signal => exact h
    | _ => exact nofun
  | _ => exact h

namespace Follows

/-- What happens to a process whose cycle is not to be closed. -/
theorem stands_of_fate (h : s.Follows devices pid bs) (new : s'.AllNew) (apart : s.due ≠ some pid)
    (apart' : s'.due ≠ some pid) {x : Station × Proc} (fate : Fate s s' x) (own : x.2.pid = pid)
    (solitary : x.2.plan.Solitary) : Stands devices bs s'.due x := by
  cases fate with
  | stay mem gains unclosed => exact (h.stands x mem own solitary).of_apart (own ▸ apart)
  | @arrive p q mem outline pc wraps unknown gains =>
    obtain ⟨pc₀, wraps₀, -⟩ := new.start mem pc wraps
    obtain rfl : q.pid = pid := own
    obtain rfl : bs = [] := h.unknown unknown
    exact .start pc₀ wraps₀ rfl
  | @pass y _ e mark mem passes tells gains =>
    have free : s.due ≠ some y.2.pid := by rwa [← passes.pid_eq, own]
    generalize before : s.due = due at passes free
    generalize s'.due = due' at passes
    cases passes with
    | expire p priority =>
      exact (h.stands _ mem own solitary).move (before ▸ free) (by decide) (by decide)
    | complete p d => exact (h.stands _ mem own solitary).complete
    | signal p signaler id =>
      exact (h.stands _ mem own solitary).move (before ▸ free) (by decide) (by decide)
    | request | block | wait | terminate => exact absurd rfl free
  | @dispatch p mem gains =>
    exact (h.stands _ mem own solitary).move (own ▸ apart) (by decide) (by decide)
  | @wake p mem gains =>
    exact (h.stands _ mem own solitary).move (own ▸ apart) (by decide) (by decide)
  | @tick p p' mem advances idle due gains =>
    rw [due, ← own, advances.pid_eq] at apart'
    exact absurd rfl apart'

theorem of_change (h : s.Follows devices pid bs) (change : Change s s') (new : s'.AllNew)
    (apart : s.due ≠ some pid) (apart' : s'.due ≠ some pid) : s'.Follows devices pid bs :=
  ⟨fun x hx own solitary => h.stands_of_fate new apart apart' (change.fate x hx) own solitary,
    fun unknown => h.unknown fun known => unknown ((change.arrived.map _).subset known)⟩

theorem acts (acts : Acts s s') (h : s.Follows devices pid bs) (apart : s.due ≠ some pid)
    (proper : s.Proper) (distinct : s'.Distinct) (new : s'.AllNew) :
    s'.Follows devices pid bs := by
  suffices s'.Follows devices pid bs ∧ s'.due ≠ some pid from this.1
  induction acts with
  | refl => exact ⟨h, apart⟩
  | tail path act ih =>
    obtain ⟨follows, apart₁⟩ := ih (distinct.of_act act) (new.of_prefix act.arrived_prefix)
    have apart₂ := act.apart apart₁
    have change := act.change (proper.steps (Acts.steps path)) distinct
    exact ⟨follows.of_change change new apart₁ apart₂, apart₂⟩

/-- Whose cycle is closed and goes on has not wrapped often enough. -/
theorem settle (h : s.Follows devices pid bs) (settle : Settle s s') :
    s'.Follows devices pid bs := by
  refine ⟨fun x hx own solitary => ?_, ?_⟩
  · cases settle with
    | resume other due =>
      exact (h.stands x hx own solitary).of_apart (by rw [due]; exact nofun)
    | goOn unfinished =>
      have stands := h.stands x hx own solitary
      refine ⟨stands.walks, stands.wraps, stands.before, stands.ended, fun alive => .inl ?_⟩
      rcases stands.alive alive with heldUp | ⟨cpu, due⟩
      · exact heldUp
      · obtain ⟨st, p⟩ := x
        obtain rfl : st = .cpu := cpu
        have goesOn := unfinished p hx due
        refine Beat.heldUp_of_wraps_lt fun ends => ?_
        rw [← stands.wraps]
        by_contra late
        rw [(Proc.shouldTerminate_iff p).2 ⟨ends, Nat.not_lt.1 late⟩] at goesOn
        cases goesOn
  · obtain ⟨due, rfl⟩ := settle.exists_due
    exact h.unknown

theorem ended (h : s.Follows devices pid bs) {p : Proc} {rest : Multiset (Station × Proc)}
    (here : s.roll = (.cpu, p) ::ₘ rest) (due : s.due = some p.pid)
    (done : p.shouldTerminate = true) (proper : s.Proper) (distinct : s.Distinct) :
    Follows ({ s with roll := (.ended, p) ::ₘ rest, due := none }.tell
      (.terminated p.pid p.kind)) devices pid bs := by
  refine ⟨fun x hx own solitary => ?_, h.unknown⟩
  rcases Multiset.mem_cons.1 hx with rfl | hx
  · exact (h.stands (.cpu, p) (here ▸ Multiset.mem_cons_self ..) own solitary).terminate done
  · have ne := proper.pid_ne distinct here hx
    refine (h.stands x (here ▸ Multiset.mem_cons_of_mem hx) own solitary).of_apart ?_
    rw [due, Ne, Option.some.injEq]
    exact ne.symm

/-- A cycle of nobody or of somebody else begins. -/
theorem begins (h : s.Follows devices pid bs) (begins : Begin s s')
    (others : s'.cycles.count (some pid) = s.cycles.count (some pid)) :
    s'.Follows devices pid bs ∧ s'.due ≠ some pid := by
  cases begins with
  | idle pairs locks idle due =>
    rw [due_scanIfDue]
    refine ⟨⟨fun x hx own solitary => ?_, ?_⟩, by rw [due]; exact nofun⟩
    · rw [roll_scanIfDue] at hx
      rw [due_scanIfDue]
      exact h.stands x hx own solitary
    · rw [arrived_scanIfDue]
      exact h.unknown
  | @tick p p' rest pairs locks here advances due =>
    rw [cycles_scanIfDue, List.count_append, List.count_singleton] at others
    have other : p.pid ≠ pid := by
      rintro rfl
      simp at others
    rw [due_scanIfDue]
    refine ⟨⟨fun x hx own solitary => ?_, ?_⟩, by simpa using other⟩
    · rw [roll_scanIfDue] at hx
      rcases Multiset.mem_cons.1 hx with rfl | hx
      · exact absurd (advances.pid_eq.symm.trans own) other
      · refine (h.stands x (here ▸ Multiset.mem_cons_of_mem hx) own solitary).of_apart ?_
        rw [due]
        exact nofun
    · rw [arrived_scanIfDue]
      exact h.unknown

/-- Whatever happens but a cycle of its own takes a process along its way. -/
theorem next (h : s.Follows devices pid bs) (next : Next s s') (proper : s.Proper)
    (distinct : s'.Distinct) (new : s'.AllNew)
    (others : s'.cycles.count (some pid) = s.cycles.count (some pid)) :
    s'.Follows devices pid bs := by
  cases next with
  | between due acts => exact h.acts acts (by rw [due]; exact nofun) proper distinct new
  | settled settles =>
    clear distinct new others
    induction settles with
    | refl => exact h
    | tail _ settle ih => exact ih.settle settle
  | ended here due done => exact h.ended here due done proper distinct
  | cycle begins acts dispatches =>
    rw [acts.frame.cycles] at others
    obtain ⟨follows, apart⟩ := h.begins begins others
    exact follows.acts acts apart (proper.begins begins) distinct new

end Follows
end Story
end Mlfq
