import Mlfq.Proofs.Channel.Binding
import Mlfq.Proofs.Lock.Invariant

/-! # The two sides take turns

A side waits on its condition only while it is not its turn, and the two sides of a channel are
never both parked on it. -/

namespace Mlfq

open Queue (cores)

/-- Processes that use a channel arrive only as the producer or the consumer of a rendezvous
pair. -/
def Arrival.Sided : Arrival → Prop
  | .single p => p.channel? = none
  | .mutexPair first second _ => first.channel? = none ∧ second.channel? = none
  | .rendezvousPair producer consumer =>
    (producer.channel? ≠ none → producer.kind = .producer) ∧
      (consumer.channel? ≠ none → consumer.kind = .consumer)

theorem Arrival.Sided.coupled {a : Arrival} (h : a.Sided) : a.Coupled := by
  cases a with
  | single | mutexPair => exact h
  | rendezvousPair => trivial

theorem Arrival.Library.sided {a : Arrival} (h : a.Library) : a.Sided := by
  cases h with
  | compute | io => rfl
  | mutexPair => exact ⟨rfl, rfl⟩
  | rendezvousPair => exact ⟨fun _ => rfl, fun _ => rfl⟩

/-- Of processes that have one number and all different ones there is at most one. -/
theorem Queue.tail_eq_nil_of_pid_eq {q : Queue} {pid : Pid} (nodup : (q.map (·.pid)).Nodup)
    (same : ∀ w ∈ q, w.pid = pid) : q.tail = [] := by
  match q with
  | [] | [_] => rfl
  | v :: w :: q =>
    have first := same v List.mem_cons_self
    have second := same w (List.mem_cons_of_mem _ List.mem_cons_self)
    rw [List.map_cons, List.map_cons, List.nodup_cons] at nodup
    exact absurd (first.trans second.symm ▸ List.mem_cons_self) nodup.1

namespace Channel

theorem Role.eq_or_eq_other (role r : Role) : r = role ∨ r = role.other := by
  cases role <;> cases r <;> simp [Role.other]

variable {p : Proc} {t : Trap} {c c' : Channel} {out : Multiset Proc} {role : Role}

/-! ## What the services do -/

@[simp] theorem waiting_parking (c : Channel) (p : Proc) (role : Role) :
    (c.parking p role).waiting role = (c.waiting role).enqueue p := by cases role <;> rfl

@[simp] theorem waiting_other_parking (c : Channel) (p : Proc) (role : Role) :
    (c.parking p role).waiting role.other = c.waiting role.other := by cases role <;> rfl

@[simp] theorem mustWait_parking (c : Channel) (p : Proc) (role r : Role) :
    (c.parking p role).mustWait r = c.mustWait r := by cases role <;> cases r <;> rfl

@[simp] theorem lock_parking (c : Channel) (p : Proc) (role : Role) :
    (c.parking p role).lock = c.lock.freed := by cases role <;> rfl

@[simp] theorem waiting_taking (c : Channel) (pid : Pid) (role : Role) :
    (c.taking pid role).waiting role = c.waiting role := by cases role <;> rfl

@[simp] theorem waiting_other_taking (c : Channel) (pid : Pid) (role : Role) :
    (c.taking pid role).waiting role.other = (c.waiting role.other).tail := by cases role <;> rfl

@[simp] theorem lock_taking (c : Channel) (pid : Pid) (role : Role) :
    (c.taking pid role).lock = c.signalled pid (c.waiting role.other) := by cases role <;> rfl

/-- A signal leaves the lock alone or tries to take it. -/
theorem signalled_cases (c : Channel) (p : Proc) (q : Queue) :
    c.signalled p.pid q = c.lock ∨
      Lock.Serves p .attempt c.lock (c.signalled p.pid q) {p} := by
  cases q with
  | nil => exact .inl rfl
  | cons w q =>
    right
    rw [signalled]
    rcases c.lock.open_or_taken p.pid with free | ⟨h, held, other⟩
    · rw [Lock.tryAcquire_open free]
      exact .take (by decide) free
    · rw [Lock.tryAcquire_taken held other]
      exact .fail held other

theorem isAwaitedBy_iff {c : Channel} {pid : Pid} :
    c.isAwaitedBy pid = true ↔ ∃ w ∈ c.parked, w.pid = pid := by
  rw [isAwaitedBy, Lock.isAwaitedBy, Bool.or_comm, Bool.or_eq_true, Bool.or_eq_true,
    Queue.holds_iff, Queue.holds_iff, Queue.holds_iff]
  simp only [parked, List.mem_append, or_and_right, exists_or]

/-! ## Turns -/

/-- A side that waits on its condition is the process of that side, it is not its turn, and it does
not hold the lock. -/
structure Alternates (c : Channel) : Prop where
  turn : ∀ role, c.waiting role ≠ [] → c.mustWait role = true
  side : ∀ role, ∀ w ∈ c.waiting role, w.pid = c.partner role
  apart : ∀ role, ∀ w ∈ c.waiting role, c.lock.holder ≠ some w.pid
  sound : c.lock.Sound
  within : c.lock.Within [c.producer, c.consumer]

theorem alternates_between (lock : LockId) (producer consumer : Pid) :
    (between lock producer consumer).Alternates := by
  have nobody : ∀ role, (between lock producer consumer).waiting role = [] := by
    intro role
    cases role <;> rfl
  refine ⟨?_, ?_, ?_, Lock.sound_new lock, Lock.within_new lock _⟩
  · intro role parked
    exact absurd (nobody role) parked
  · intro role w hw
    rw [nobody] at hw
    cases hw
  · intro role w hw
    rw [nobody] at hw
    cases hw

namespace Alternates

theorem partner_mem (c : Channel) (role : Role) : c.partner role ∈ [c.producer, c.consumer] := by
  cases role with
  | producer => exact List.mem_cons_self
  | consumer => exact List.mem_cons_of_mem _ List.mem_cons_self

theorem retire (h : c.Alternates) (pid : Pid) : (c.retire pid).Alternates := by
  unfold Channel.retire
  split
  · exact ⟨h.turn, h.side, h.apart, h.sound, h.within⟩
  · split
    · exact ⟨h.turn, h.side, h.apart, h.sound, h.within⟩
    · exact h

/-- The lock serves a process that is not parked on the channel. -/
theorem serveLock (h : c.Alternates) {r : Lock.Request} {l : Lock}
    (serves : Lock.Serves p r c.lock l out) (user : p.pid ∈ [c.producer, c.consumer])
    (alone : ∀ w ∈ c.parked, w.pid ≠ p.pid) : { c with lock := l }.Alternates := by
  refine ⟨h.turn, h.side, fun role w hw held => ?_, serves.sound h.sound,
    serves.within h.within user⟩
  rcases serves.holder_cases held with ⟨-, old⟩ | ⟨own, -⟩
  · exact h.apart role w hw old
  · refine alone w (List.mem_append_right _ ?_) own
    cases role with
    | producer => exact List.mem_append_right _ hw
    | consumer => exact List.mem_append_left _ hw

/-- A side waits. -/
theorem park (h : c.Alternates) {q : Proc} (turn : c.mustWait role = true)
    (own : q.pid = c.partner role) : (c.parking q role).Alternates := by
  have partner : (c.parking q role).partner = c.partner := by cases role <;> rfl
  have sides : [(c.parking q role).producer, (c.parking q role).consumer] =
      [c.producer, c.consumer] := by cases role <;> rfl
  have freed : Lock.Serves q .release c.lock c.lock.freed _ := .release
  refine ⟨?_, ?_, ?_, ?_, ?_⟩
  · intro r parked
    rw [mustWait_parking]
    rcases role.eq_or_eq_other r with rfl | rfl
    · exact turn
    · rw [waiting_other_parking] at parked
      exact h.turn _ parked
  · intro r w hw
    rw [partner]
    rcases role.eq_or_eq_other r with rfl | rfl
    · rw [waiting_parking] at hw
      rcases Queue.mem_enqueue.1 hw with old | rfl
      · exact h.side _ w old
      · exact own
    · rw [waiting_other_parking] at hw
      exact h.side _ w hw
  · intro r w hw held
    rw [lock_parking, Lock.holder_freed] at held
    cases held
  · rw [lock_parking]
    exact freed.sound h.sound
  · rw [lock_parking, sides]
    exact freed.within h.within (own ▸ partner_mem c role)

/-- A side takes its turn. Then nobody waits on a condition. -/
theorem take (h : c.Alternates) (turn : c.mustWait role = false)
    (user : p.pid ∈ [c.producer, c.consumer]) (nodup : (c.parked.map (·.pid)).Nodup) :
    (c.taking p.pid role).Alternates := by
  have sides : [(c.taking p.pid role).producer, (c.taking p.pid role).consumer] =
      [c.producer, c.consumer] := by cases role <;> rfl
  have own : c.waiting role = [] := by
    by_contra parked
    rw [h.turn role parked] at turn
    cases turn
  have other : (c.waiting role.other).tail = [] := by
    refine Queue.tail_eq_nil_of_pid_eq ?_ (h.side role.other)
    refine nodup.sublist (.map _ ?_)
    refine .trans ?_ (List.sublist_append_right _ _)
    cases role with
    | producer => exact List.sublist_append_left _ _
    | consumer => exact List.sublist_append_right _ _
  have nobody : ∀ r, (c.taking p.pid role).waiting r = [] := by
    intro r
    rcases role.eq_or_eq_other r with rfl | rfl
    · rw [waiting_taking, own]
    · rw [waiting_other_taking, other]
  refine ⟨fun r parked => absurd (nobody r) parked, ?_, ?_, ?_, ?_⟩
  · intro r w hw
    rw [nobody] at hw
    cases hw
  · intro r w hw
    rw [nobody] at hw
    cases hw
  · rw [lock_taking]
    rcases c.signalled_cases p (c.waiting role.other) with same | serves
    · exact same ▸ h.sound
    · exact serves.sound h.sound
  · rw [lock_taking, sides]
    rcases c.signalled_cases p (c.waiting role.other) with same | serves
    · exact same ▸ h.within
    · exact serves.within h.within user

/-- No service of a side breaks the alternation. -/
theorem serves (h : c.Alternates) (serves : Serves p t c c' out) {role : Role}
    (kind : Role.ofKind? p.kind = some role) (own : c.partner role = p.pid)
    (nodup : (p.pid :: c.parked.map (·.pid)).Nodup) : c'.Alternates := by
  obtain ⟨absent, nodup⟩ := List.nodup_cons.1 nodup
  have user : p.pid ∈ [c.producer, c.consumer] := own ▸ partner_mem c role
  cases serves with
  | lock request serves =>
    refine h.serveLock serves user fun w hw same => absent ?_
    exact same ▸ List.mem_map_of_mem hw
  | wait kind' turn core =>
    rw [kind] at kind'
    cases kind'
    exact h.park turn ((Proc.pid_eq_of_core_eq core).trans own.symm)
  | turn kind' turn => exact h.take turn user nodup

/-- Only the two sides are parked. -/
theorem mem_sides (h : c.Alternates) {pid : Pid} (parked : c.isAwaitedBy pid = true) :
    pid ∈ [c.producer, c.consumer] := by
  rw [isAwaitedBy, Bool.or_eq_true, Bool.or_eq_true] at parked
  rcases parked with (fill | empty) | lock
  · obtain ⟨w, hw, rfl⟩ := Queue.holds_iff.1 fill
    exact h.side .consumer w hw ▸ partner_mem c .consumer
  · obtain ⟨w, hw, rfl⟩ := Queue.holds_iff.1 empty
    exact h.side .producer w hw ▸ partner_mem c .producer
  · obtain ⟨w, hw, rfl⟩ := Queue.holds_iff.1 lock
    exact h.within.waiters w hw

/-- A side that is parked on the lock waits for the other side. -/
theorem holder_of_awaited (h : c.Alternates)
    (parked : c.lock.isAwaitedBy (c.partner role) = true) :
    c.lock.holder = some (c.partner role.other) := by
  obtain ⟨w, hw, own⟩ := Queue.holds_iff.1 parked
  obtain ⟨x, held, other⟩ := h.sound.exists_holder hw
  rw [held]
  have side := h.within.holder x held
  rw [own] at other
  simp only [List.mem_cons, List.not_mem_nil, or_false] at side
  cases role with
  | producer => exact congrArg some (side.resolve_left other)
  | consumer => exact congrArg some (side.resolve_right other)

/-- Where a side can be parked. -/
theorem awaited_cases (h : c.Alternates) (role : Role) (ne : c.producer ≠ c.consumer)
    (parked : c.isAwaitedBy (c.partner role) = true) :
    (c.mustWait role = true ∧ c.lock.holder ≠ some (c.partner role)) ∨
      c.lock.holder = some (c.partner role.other) := by
  have condition : ∀ r, (c.waiting r).holds (c.partner role) = true →
      c.mustWait role = true ∧ c.lock.holder ≠ some (c.partner role) := by
    intro r holds
    obtain ⟨w, hw, same⟩ := Queue.holds_iff.1 holds
    have own : r = role := by
      have side := (h.side r w hw).symm.trans same
      cases r <;> cases role
      · rfl
      · exact absurd side ne
      · exact absurd side.symm ne
      · rfl
    subst own
    exact ⟨h.turn r (List.ne_nil_of_mem hw), same ▸ h.apart r w hw⟩
  rw [isAwaitedBy, Bool.or_eq_true, Bool.or_eq_true] at parked
  rcases parked with (fill | empty) | lock
  · exact .inl (condition .consumer fill)
  · exact .inl (condition .producer empty)
  · exact .inr (h.holder_of_awaited lock)

/-- The two sides are never both parked. -/
theorem not_both_awaited (h : c.Alternates) (ne : c.producer ≠ c.consumer) :
    ¬(c.isAwaitedBy c.producer = true ∧ c.isAwaitedBy c.consumer = true) := by
  rintro ⟨producer, consumer⟩
  rcases h.awaited_cases .producer ne producer with ⟨full, apart⟩ | held
  · rcases h.awaited_cases .consumer ne consumer with ⟨drained, -⟩ | held
    · -- Only one of them finds that it is not its turn.
      have full : c.full = true := full
      have drained : (!c.full) = true := drained
      rw [full] at drained
      cases drained
    · exact apart held
  · rcases h.awaited_cases .consumer ne consumer with ⟨-, apart⟩ | held'
    · exact apart held
    · rw [held] at held'
      exact ne (Option.some.inj held').symm

end Alternates
end Channel
end Mlfq
