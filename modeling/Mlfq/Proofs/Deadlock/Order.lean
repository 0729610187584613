import Mlfq.Proofs.Deadlock.Exact
import Mlfq.Proofs.Deadlock.Program
import Mlfq.Proofs.Device

/-! # Pairs that take their locks in the same order

When both members of a pair run the standard program and take the locks in the same order, the
holder of the second lock is never parked on the first. So there is no cycle. -/

namespace Mlfq

open Queue (cores)
open MutexProgram (InSecond)

/-- A process that runs the standard program and never wraps while it may hold a lock. -/
structure Proc.Standard (p : Proc) : Prop where
  plan : p.plan = .mutex .standard
  spares : MutexProgram.standard.Spares p.maxPc

/-- Mutex pairs arrive with members that take their locks in the same order. -/
def Arrival.SameOrder : Arrival → Prop
  | .mutexPair first second reversed => reversed = false ∧ first.Standard ∧ second.Standard
  | _ => True

theorem Proc.Standard.of_outline_eq {p q : Proc} (h : p.Standard) (same : p.outline = q.outline) :
    q.Standard := by
  have maxPc := congrArg Proc.maxPc same
  rw [maxPc_outline, maxPc_outline] at maxPc
  constructor
  · rw [← h.plan]
    apply plan_eq_of_outline_eq same.symm
    intro triggers id
    rw [h.plan]
    exact TrapPlan.noConfusion
  · exact maxPc ▸ h.spares

namespace Scene

/-- The scene is one of a run in which all processes have different numbers and the members of all
mutex pairs take their locks in the same order. -/
structure Aligned (s : Scene) : Prop where
  tidy : s.Tidy
  paired : s.Paired
  lawful : s.Lawful
  sameOrder : ∀ a ∈ s.arrived, a.SameOrder

/-- Who holds the second lock of a pair is where the program holds it, and who is parked on the
first is not. -/
structure Ordered (s : Scene) : Prop where
  holder : ∀ q ∈ s.pairs.pairs, ∀ l, s.locks.get? q.left.second = some l →
    ∀ p ∈ s.population, l.holder = some p.pid → InSecond p.pc ∧ p.pc ≤ p.maxPc
  waiters : ∀ q ∈ s.pairs.pairs, ∀ l, s.locks.get? q.left.first = some l →
    ∀ w ∈ l.waiters, ¬InSecond w.pc

variable {s s' : Scene} {q : MutexPair} {p p' : Proc}

namespace Aligned

theorem same_order (h : s.Aligned) (hq : q ∈ s.pairs.pairs) :
    q.right.first = q.left.first ∧ q.right.second = q.left.second := by
  obtain ⟨first, second, reversed, come, made⟩ := h.paired.origin q hq
  obtain ⟨rfl, -⟩ := h.sameOrder _ come
  exact ⟨congrArg (·.right.first) made, congrArg (·.right.second) made⟩

/-- A member of a pair runs the standard program. -/
theorem standard (h : s.Aligned) (hq : q ∈ s.pairs.pairs) (hp : p ∈ s.population)
    (member : p.pid ∈ q.pids) : p.Standard := by
  obtain ⟨first, second, reversed, come, made⟩ := h.paired.origin q hq
  have guest : ∀ g ∈ [first, second], g ∈ s.arrived.flatMap Arrival.procs := fun g hg =>
    List.mem_flatMap.2 ⟨_, come, hg⟩
  obtain ⟨-, standard₁, standard₂⟩ := h.sameOrder _ come
  have known := profile_mem_books hp
  rw [made.pids_eq] at member
  rcases List.mem_cons.1 member with own | own
  · exact standard₁.of_outline_eq (h.lawful.outline_eq known (guest first (by simp)) own.symm)
  · have own := List.mem_singleton.1 own
    exact standard₂.of_outline_eq (h.lawful.outline_eq known (guest second (by simp)) own.symm)

/-- The traps of a member of a pair. -/
theorem trapAt_eq (h : s.Aligned) (hq : q ∈ s.pairs.pairs) (member : p.pid ∈ q.pids)
    (plan : p.plan = .mutex .standard) (pc : Nat) :
    p.trapAt pc s.pairs =
      .ok (MutexProgram.standard.trapAt pc q.left.first q.left.second) := by
  have found : ∃ mem, s.pairs.find? p.pid = some mem ∧ mem.first = q.left.first ∧
      mem.second = q.left.second := by
    cases hfind : s.pairs.find? p.pid with
    | none =>
      obtain ⟨mem, hmem⟩ := q.exists_member? member
      rw [List.findSome?_eq_none_iff.1 hfind q hq] at hmem
      cases hmem
    | some mem =>
      obtain ⟨q', hq', hmem⟩ := List.exists_of_findSome?_eq_some hfind
      have own : q' = q := h.paired.pair_unique h.lawful.distinct hq' hq
        (MutexPair.pid_mem_of_member? hmem) member
      refine ⟨mem, rfl, ?_⟩
      rcases MutexPair.eq_of_member? hmem with rfl | rfl
      · rw [own]
        exact ⟨rfl, rfl⟩
      · rw [own]
        exact h.same_order hq
  obtain ⟨mem, found, first, second⟩ := found
  simp only [Proc.trapAt, plan, found, Option.bind_some, first, second]

/-- Who makes a request of the table makes it of a lock of its pair, as the standard program has
it. -/
theorem exists_pair_of_request (h : s.Aligned) {rest : Multiset Proc} {t : Trap} {id : LockId}
    {r : Lock.Request} (runs : s.Runs p p' rest (some t))
    (request : t.tableRequest? = some (id, r)) : ∃ q ∈ s.pairs.pairs, id ∈ q.locks ∧
      MutexProgram.standard.trapAt p'.pc q.left.first q.left.second = some t := by
  obtain ⟨q, hq, hid, user⟩ := h.paired.exists_owner_of_trap runs.trap request
  have here : p ∈ s.population := runs.population_eq ▸ Multiset.mem_cons_self p _
  have standard := h.standard hq here (runs.advances.pid_eq ▸ user)
  have trap := h.trapAt_eq hq user (runs.advances.plan_eq.trans standard.plan) p'.pc
  rw [runs.trap] at trap
  exact ⟨q, hq, hid, (Except.ok.inj trap).symm⟩

/-- Only a member holds the second lock of a pair. -/
theorem holder_mem (h : s.Aligned) (hq : q ∈ s.pairs.pairs) {l : Lock}
    (found : s.locks.get? q.left.second = some l) {x : Pid} (held : l.holder = some x) :
    x ∈ q.pids :=
  (h.paired.within q hq _ (List.mem_cons_of_mem _ List.mem_cons_self) l found).holder x held

/-- A process with another plan is not a member of a pair. -/
theorem pid_notMem_of_plan (h : s.Aligned) (hp : p ∈ s.population)
    (other : p.plan ≠ .mutex .standard) : ∀ q ∈ s.pairs.pairs, p.pid ∉ q.pids :=
  fun _ hq member => other (h.standard hq hp member).plan

/-- A newcomer is not a member of a pair that is there. -/
theorem pid_notMem_of_arrival (h : s.Aligned) {a : Arrival}
    (distinct : Arrival.Distinct (s.arrived ++ [a])) (hp : p ∈ cores (s.enrolled a)) :
    ∀ q ∈ s.pairs.pairs, p.pid ∉ q.pids := h.paired.pid_notMem_of_arrival distinct hp

/-- The pair in which a process of an arrival is a member was made for that arrival. -/
theorem pids_of_arrival (h : s.Aligned) (hq : q ∈ s.pairs.pairs) {first second : Proc}
    {reversed : Bool} (come : .mutexPair first second reversed ∈ s.arrived)
    (member : first.pid ∈ q.pids) : q.left.pid = first.pid ∧ q.right.pid = second.pid := by
  obtain ⟨first', second', reversed', come', made⟩ := h.paired.origin q hq
  rw [made.pids_eq] at member
  have own : Arrival.mutexPair first second reversed = .mutexPair first' second' reversed' :=
    h.lawful.distinct.arrival_unique come come' List.mem_cons_self member
  cases own
  have pids := made.pids_eq
  exact ⟨(List.cons.inj pids).1, (List.cons.inj (List.cons.inj pids).2).1⟩

end Aligned

namespace Ordered

/-- A member of a pair that holds its second lock goes on in the program or releases the lock. -/
theorem runs (h : s.Ordered) (aligned : s.Aligned) {rest : Multiset Proc} {t : Option Trap}
    (runs : s.Runs p p' rest t) (hq : q ∈ s.pairs.pairs) (member : p.pid ∈ q.pids) {l : Lock}
    (found : s.locks.get? q.left.second = some l) (held : l.holder = some p.pid) :
    InSecond p'.pc ∧ t = none ∨
      ∃ t', t = some t' ∧ t'.tableRequest? = some (q.left.second, .release) := by
  have here : p ∈ s.population := runs.population_eq ▸ Multiset.mem_cons_self p _
  have standard := aligned.standard hq here member
  obtain ⟨inside, le⟩ := h.holder q hq l found p here held
  have trap : p'.trapAt p'.pc s.pairs = .ok (MutexProgram.standard.trapAt p'.pc q.left.first
      q.left.second) :=
    aligned.trapAt_eq hq (runs.advances.pid_eq ▸ member)
      (runs.advances.plan_eq.trans standard.plan) p'.pc
  rw [runs.trap] at trap
  cases trap
  exact inside.step le standard.spares runs.advances

/-- Nothing changes as long as no member of a pair moves. -/
theorem frame (h : s.Ordered) (aligned : s.Aligned)
    (pairs : ∀ q' ∈ s'.pairs.pairs, ∃ q ∈ s.pairs.pairs, q'.unmarked = q.unmarked)
    (locks : ∀ id l, s'.locks.get? id = some l → s.locks.get? id = some l)
    (population : ∀ p ∈ s'.population, p ∈ s.population ∨ ∀ q ∈ s.pairs.pairs, p.pid ∉ q.pids) :
    s'.Ordered := by
  constructor
  · intro q' hq' l found p hp held
    obtain ⟨q, hq, alike⟩ := pairs q' hq'
    have found := locks _ l found
    rw [(MutexPair.locks_of_unmarked_eq alike).2] at found
    rcases population p hp with old | other
    · exact h.holder q hq l found p old held
    · exact absurd (aligned.holder_mem hq found held) (other q hq)
  · intro q' hq' l found w hw
    obtain ⟨q, hq, alike⟩ := pairs q' hq'
    have found := locks _ l found
    rw [(MutexPair.locks_of_unmarked_eq alike).1] at found
    exact h.waiters q hq l found w hw

/-- A process goes on. If it holds the second lock of its pair, it does not release it yet. -/
theorem goOn (h : s.Ordered) (aligned : s.Aligned) {rest : Multiset Proc} {t : Option Trap}
    (runs : s.Runs p p' rest t) (ignored : ∀ t' ∈ t, s.Ignores p' t') :
    { s with free := p' ::ₘ rest }.Ordered := by
  obtain ⟨others, before, after⟩ := exists_population_goOn runs
  refine ⟨fun q hq l found w hw held => ?_, h.waiters⟩
  rcases mem_or_eq_of_move before after hw with rfl | ⟨-, old⟩
  · have same := runs.advances.pid_eq
    have member : p.pid ∈ q.pids := same ▸ aligned.holder_mem hq found held
    obtain ⟨inside, -⟩ | ⟨t', rfl, request⟩ :=
      h.runs aligned runs hq member found (same ▸ held)
    · exact ⟨inside, runs.advances.pc_le⟩
    · -- A release by the holder is not ignored.
      have ignored := ignored t' rfl
      cases t' <;> cases request <;> exact absurd held (ignored l found)
  · exact h.holder q hq l found w old held

/-- A process is served by a lock of its pair. -/
theorem serve (h : s.Ordered) (aligned : s.Aligned) {rest : Multiset Proc} {t : Trap}
    {id : LockId} {r : Lock.Request} {l l' : Lock} {out : Multiset Proc}
    (runs : s.Runs p p' rest (some t)) (request : t.tableRequest? = some (id, r))
    (found : s.locks.get? id = some l) (serves : Lock.Serves p' r l l' out) :
    { s with free := out + rest, locks := s.locks.set l' }.Ordered := by
  have ⟨tidy, paired, lawful, _⟩ := aligned
  obtain ⟨q₀, hq₀, hid₀, trap⟩ := aligned.exists_pair_of_request runs request
  have ne := paired.first_ne_second tidy hq₀
  have same := runs.advances.pid_eq
  have get? := tidy.locks.get?_set found serves.id_eq
  obtain ⟨others, q', before, after, resumes⟩ := exists_population_table tidy runs found serves
  have moved_pid : q'.pid = p.pid := (congrArg (·.pid) resumes.profile_eq).trans same
  refine ⟨?_, ?_⟩
  · intro q hq m hm w hw held
    rw [after] at hw
    rw [get?] at hm
    split at hm
    case isTrue served =>
      cases hm
      have own : q = q₀ := paired.owner_unique tidy hq hq₀
        (List.mem_cons_of_mem _ List.mem_cons_self) (served ▸ hid₀)
      subst own
      rcases Multiset.mem_cons.1 hw with rfl | hw
      · rcases serves.holder_cases held with ⟨other, -⟩ | ⟨-, hr⟩
        · exact absurd (moved_pid.trans same.symm) other
        · cases resumes with
          | on =>
            have inside := MutexProgram.inSecond_of_request ne hr trap (served ▸ request)
            exact ⟨inside, runs.advances.pc_le⟩
          | back _ kept taken => exact absurd (kept ▸ held) taken
      · rcases serves.holder_cases held with ⟨-, old⟩ | ⟨twice, -⟩
        · exact h.holder q hq l (served ▸ found) w (before ▸ Multiset.mem_cons_of_mem hw) old
        · exact absurd (twice.trans same) (lawful.pid_ne before hw)
    case isFalse aside =>
      rcases Multiset.mem_cons.1 hw with rfl | hw
      · rw [moved_pid] at held
        obtain ⟨-, none⟩ | ⟨t', some, release⟩ :=
          h.runs aligned runs hq (aligned.holder_mem hq hm held) hm held
        · cases none
        · cases some
          rw [request] at release
          cases release
          exact absurd rfl aside
      · exact h.holder q hq m hm w (before ▸ Multiset.mem_cons_of_mem hw) held
  · intro q hq m hm w hw
    rw [get?] at hm
    split at hm
    case isTrue served =>
      cases hm
      have own : q = q₀ := paired.owner_unique tidy hq hq₀ List.mem_cons_self (served ▸ hid₀)
      subst own
      rcases serves.mem_waiters hw with old | ⟨rfl, core⟩
      · exact h.waiters q hq l (served ▸ found) w old
      · have outside := MutexProgram.not_inSecond_of_acquire ne trap (served ▸ request)
        rwa [← w.pc_core, core]
    case isFalse => exact h.waiters q hq m hm w hw

/-- A pair arrives with two new locks. -/
theorem arrive (h : s.Ordered) (aligned : s.Aligned) {first second : Proc} {reversed : Bool}
    (distinct : Arrival.Distinct (s.arrived ++ [Arrival.mutexPair first second reversed]))
    {pairs : MutexPairs} (hpairs : pairs = s.pairs.add (.sharing first.pid second.pid
      s.locks.create.1 s.locks.create.2.create.1 reversed)) :
    { s with
      free := first.core ::ₘ second.core ::ₘ s.free
      locks := s.locks.create.2.create.2
      pairs
      arrived := s.arrived ++ [Arrival.mutexPair first second reversed] }.Ordered := by
  have old_or_new : ∀ q ∈ pairs.pairs, q ∈ s.pairs.pairs ∨ q = .sharing first.pid second.pid
      s.locks.create.1 s.locks.create.2.create.1 reversed := by
    intro q hq
    rw [hpairs] at hq
    exact (List.mem_append.1 hq).imp_right List.mem_singleton.1
  refine ⟨?_, ?_⟩
  · intro q hq l found w hw held
    rcases aligned.tidy.locks.new_or_old found with ⟨id, rfl⟩ | ⟨found, ne_first, ne_second⟩
    · cases held
    · rcases old_or_new q hq with hq | rfl
      · rw [population_mutexPair, Multiset.mem_add] at hw
        rcases hw with new | old
        · have other := aligned.pid_notMem_of_arrival distinct new q hq
          exact absurd (aligned.holder_mem hq found held) other
        · exact h.holder q hq l found w old held
      · exact absurd rfl ne_second
  · intro q hq l found w hw
    rcases aligned.tidy.locks.new_or_old found with ⟨id, rfl⟩ | ⟨found, ne_first, ne_second⟩
    · cases hw
    · rcases old_or_new q hq with hq | rfl
      · exact h.waiters q hq l found w hw
      · exact absurd rfl ne_first

/-- After an arrival everybody was there before or is in none of the pairs that were there. -/
theorem old_or_apart_of_arrival (aligned : s.Aligned) {a : Arrival}
    (distinct : Arrival.Distinct (s.arrived ++ [a]))
    (after : s'.population = cores (s.enrolled a) + s.population) :
    ∀ w ∈ s'.population, w ∈ s.population ∨ ∀ q ∈ s.pairs.pairs, w.pid ∉ q.pids := by
  intro w hw
  rw [after, Multiset.mem_add] at hw
  exact hw.symm.imp_right (aligned.pid_notMem_of_arrival distinct)

/-- After a process with another plan has moved, everybody was there before or is in no pair. -/
theorem old_or_apart_of_move (aligned : s.Aligned) {q : Proc} {others : Multiset Proc}
    (before : s.population = p ::ₘ others) (after : s'.population = q ::ₘ others)
    (profile : q.profile = p.profile) (other : p.plan ≠ .mutex .standard) :
    ∀ w ∈ s'.population, w ∈ s.population ∨ ∀ q ∈ s.pairs.pairs, w.pid ∉ q.pids := by
  intro w hw
  rcases mem_or_eq_of_move before after hw with rfl | ⟨-, old⟩
  · right
    have pid := congrArg Proc.pid profile
    rw [Proc.pid_profile, Proc.pid_profile] at pid
    rw [pid]
    exact aligned.pid_notMem_of_plan (before ▸ Multiset.mem_cons_self p _) other
  · exact .inl old

theorem step (h : s.Ordered) (aligned : s.Aligned) (io : s.ServesIo)
    (distinct : Arrival.Distinct s'.arrived) (step : Step s s') : s'.Ordered := by
  have tidy := aligned.tidy
  have same : ∀ q' ∈ s.pairs.pairs, ∃ q ∈ s.pairs.pairs, q'.unmarked = q.unmarked :=
    fun q hq => ⟨q, hq, rfl⟩
  have kept : ∀ id l, s.locks.get? id = some l → s.locks.get? id = some l := fun _ _ => id
  have stays : ∀ p ∈ s.population, p ∈ s.population ∨ ∀ q ∈ s.pairs.pairs, p.pid ∉ q.pids :=
    fun p hp => .inl hp
  cases step with
  | scan => exact h.frame aligned same kept stays
  | single p =>
    exact h.frame aligned same kept
      (old_or_apart_of_arrival aligned distinct (population_single s p _))
  | mutexPair first second reversed => exact h.arrive aligned distinct rfl
  | rendezvousPair producer consumer =>
    exact h.frame aligned same kept
      (old_or_apart_of_arrival aligned distinct (population_rendezvousPair s producer consumer _ _))
  | goOn runs ignored => exact h.goOn aligned runs ignored
  | request runs found core =>
    obtain ⟨others, before, after⟩ := exists_population_request runs found core
    refine h.frame aligned same kept (old_or_apart_of_move aligned before after
      runs.advances.profile_eq ?_)
    obtain ⟨sets, plan⟩ := Proc.plan_of_trapAt_io runs.trap
    rw [← runs.advances.plan_eq, plan]
    exact fun same => by cases same
  | table runs request found serves => exact h.serve aligned runs request found serves
  | channel runs request found serves =>
    obtain ⟨others, q, before, after, profile⟩ := exists_population_channel tidy runs found serves
    refine h.frame aligned same kept (old_or_apart_of_move aligned before after
      (profile.trans runs.advances.profile_eq) fun plan => ?_)
    have bound := Proc.channel?_of_trapAt runs.trap request
    rw [Proc.channel?, runs.advances.plan_eq, plan] at bound
    cases bound
  | complete found =>
    obtain ⟨others, before, after⟩ := exists_population_complete found
    refine h.frame aligned same kept (old_or_apart_of_move aligned before after rfl
      fun plan => ?_)
    obtain ⟨sets, plan'⟩ := io _ (List.mem_of_getElem? found) _ List.mem_cons_self
    rw [Proc.plan_core, plan'] at plan
    cases plan
  | terminate running done core =>
    refine h.frame aligned same kept ?_
    rw [population_terminate running core]
    exact stays
  | retire zombie hr =>
    refine h.frame aligned (fun q hq => ?_) kept stays
    obtain ⟨q', hq', alike⟩ := MutexPairs.exists_unmarked_of_retire_none hr hq
    exact ⟨q', hq', alike.symm⟩
  | @dissolve p rest pairs a b zombie hr =>
    refine h.frame aligned (fun q hq => ?_) (fun k l found => ?_) ?_
    · rw [pairs_dropLock, pairs_dropLock] at hq
      exact ⟨q, MutexPairs.mem_of_retire_some hr hq, rfl⟩
    · have found := get?_of_dropLock (get?_of_dropLock found)
      exact found
    · rw [population_dissolve tidy]
      exact stays
  | drop zombie =>
    exact h.frame aligned same kept fun w hw => .inl (mem_of_drop zombie hw)
  | leave zombie bound found stays =>
    exact h.frame aligned same kept fun w hw => .inl (mem_of_leave tidy zombie found hw)
  | close zombie bound found goes =>
    exact h.frame aligned same kept fun w hw => .inl (mem_of_close tidy zombie found hw)

end Ordered

theorem Fresh.ordered (fresh : s.Fresh) : s.Ordered := by
  refine ⟨?_, ?_⟩ <;> rw [fresh.pairs] <;> exact fun q hq => absurd hq List.not_mem_nil

theorem aligned_of_steps (fresh : s.Fresh) (steps : Steps s s')
    (distinct : Arrival.Distinct s'.arrived) (sameOrder : ∀ a ∈ s'.arrived, a.SameOrder) :
    s'.Aligned :=
  ⟨tidy_of_steps fresh steps, paired_of_steps fresh steps, fresh.lawful steps distinct, sameOrder⟩

theorem ordered_of_steps (fresh : s.Fresh) (steps : Steps s s')
    (distinct : Arrival.Distinct s'.arrived) (sameOrder : ∀ a ∈ s'.arrived, a.SameOrder) :
    s'.Ordered := by
  induction steps with
  | refl => exact fresh.ordered
  | tail steps step ih =>
    have arrived := arrived_prefix_of_step step
    have before := distinct_of_prefix arrived distinct
    have sameOrder := fun a ha => sameOrder a (arrived.subset ha)
    exact (ih before sameOrder).step (aligned_of_steps fresh steps before sameOrder)
      (servesIo_of_steps fresh steps) distinct step

end Scene
end Mlfq
