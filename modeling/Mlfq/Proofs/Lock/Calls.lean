import Mathlib.Logic.Function.Basic
import Mlfq.Proofs.Backlog
import Mlfq.Proofs.Lock.Invariant

/-! # A lock under any calls

A lock, the condition variables that use it and a ready queue, called in any order by anybody: the
caller of a release need not hold the lock, and two records may have one process number. A release
of a free lock does not look at the parked processes. Nobody is stranded by that: a process is only
parked on a lock that somebody else holds, and only a release frees the lock. -/

namespace Mlfq.Lock

/-- A call that concerns a lock. Condition variables go by number. -/
inductive Call where
  | acquire (p : Proc)
  | tryAcquire (pid : Pid)
  | release
  | wait (condition : Nat) (p : Proc)
  | signal (condition : Nat) (signaler : Pid)

/-- Whether the call releases the lock. -/
def Call.releases : Call → Bool
  | .release | .wait .. => true
  | _ => false

/-- What a call returns. -/
inductive Reply where
  | acquisition (a : Acquisition)
  | attempt (holds : Bool)
  | release (r : Release)
  | signal (s : Signal)

/-- What a call that is no release does with the lock and with those parked on it: nothing, or it
takes the lock for somebody who may have it, or it parks somebody who may not. -/
inductive Grip (l : Lock) : Lock → Queue → Prop
  | leave : Grip l l []
  | take {pid : Pid} (free : l.holder = none ∨ l.holder = some pid) :
    Grip l { l with holder := some pid } []
  | park {p : Proc} {x : Pid} (held : l.holder = some x) (other : x ≠ p.pid)
    (blocked : p.state = .blocked) : Grip l { l with waiters := l.waiters.enqueue p } [p]

namespace Grip

variable {l l' : Lock} {parked : Queue}

theorem waiters (grip : Grip l l' parked) : l'.waiters = l.waiters ++ parked := by
  cases grip with
  | leave | take => exact (List.append_nil _).symm
  | park => rfl

/-- Who holds the lock keeps it. -/
theorem holder (grip : Grip l l' parked) {x : Pid} (held : l.holder = some x) :
    l'.holder = some x := by
  cases grip with
  | leave | park => exact held
  | take free =>
    rcases free with free | own
    · rw [free] at held
      cases held
    · exact own.symm.trans held

theorem sound (grip : Grip l l' parked) (h : l.Sound) : l'.Sound := by
  cases grip with
  | leave => exact h
  | take free => exact h.take free
  | park held other => exact h.park held other

theorem blocked (grip : Grip l l' parked) : ∀ p ∈ parked, p.state = .blocked := by
  cases grip with
  | leave | take => exact fun p hp => absurd hp List.not_mem_nil
  | park _ _ blocked =>
    rintro p hp
    cases List.mem_singleton.1 hp
    exact blocked

end Grip

theorem grip_tryAcquire (l : Lock) (pid : Pid) : Grip l (l.tryAcquire pid).2 [] := by
  rcases l.open_or_taken pid with free | ⟨x, held, other⟩
  · rw [tryAcquire_open free]
    exact .take free
  · rw [tryAcquire_taken held other]
    exact .leave

/-- A lock, the condition variables that use it, and the ready queue. -/
structure Site where
  lock : Lock
  conditions : Nat → Condition
  ready : ReadyQueue

namespace Site

/-- A new lock with new condition variables. -/
def start (id : LockId) (ready : ReadyQueue) : Site := ⟨{ id }, fun _ => [], ready⟩

/-- The reply to a call, and the site after it. -/
def call (s : Site) : Call → Reply × Site
  | .acquire p =>
    let (a, lock) := s.lock.acquire p
    (.acquisition a, { s with lock })
  | .tryAcquire pid =>
    let (holds, lock) := s.lock.tryAcquire pid
    (.attempt holds, { s with lock })
  | .release =>
    let (r, lock, ready) := s.lock.release s.ready
    (.release r, { s with lock, ready })
  | .wait n p =>
    let (r, condition, lock, ready) := (s.conditions n).wait s.lock p s.ready
    (.release r, ⟨lock, Function.update s.conditions n condition, ready⟩)
  | .signal n pid =>
    let (signal, condition, lock, ready) := (s.conditions n).signal pid s.lock s.ready
    (.signal signal, ⟨lock, Function.update s.conditions n condition, ready⟩)

/-- The site after calls made one after the other. -/
def calls (s : Site) : List Call → Site
  | [] => s
  | c :: cs => (s.call c).2.calls cs

/-- The records that a call parks on the lock. -/
def parked (s : Site) (c : Call) : Queue :=
  match c, (s.call c).1 with
  | .acquire p, .acquisition .blocked => [{ p with state := .blocked }]
  | _, _ => []

/-- The records that a call sends from the lock to the ready queue: as many as it reports, the
oldest first. -/
def woken (s : Site) (c : Call) : Queue :=
  match (s.call c).1 with
  | .release r => s.lock.waiters.take r.woken
  | _ => []

/-- The records parked on the lock by calls made one after the other. -/
def allParked (s : Site) : List Call → Queue
  | [] => []
  | c :: cs => s.parked c ++ (s.call c).2.allParked cs

/-- The records sent to the ready queue by calls made one after the other. -/
def allWoken (s : Site) : List Call → Queue
  | [] => []
  | c :: cs => s.woken c ++ (s.call c).2.allWoken cs

/-- Who is parked waits for another process and is blocked. -/
structure Sound (s : Site) : Prop where
  lock : s.lock.Sound
  blocked : ∀ w ∈ s.lock.waiters, w.state = .blocked

variable {s : Site} {c : Call} {p : Proc} {x : Pid}

theorem sound_start (id : LockId) (ready : ReadyQueue) : (start id ready).Sound :=
  ⟨sound_new id, fun _ parked => absurd parked List.not_mem_nil⟩

/-- A releasing call releases the lock as it is. -/
theorem call_of_releases (h : c.releases = true) :
    (s.call c).1 = .release ⟨s.lock.holder, s.lock.woken.length⟩ ∧
    (s.call c).2.lock = s.lock.freed ∧
    (s.call c).2.ready = s.ready.enqueueAll s.lock.woken := by
  cases c with
  | release => simp only [call, release_eq, and_self]
  | wait n p => simp only [call, Condition.wait, release_eq, and_self]
  | acquire | tryAcquire | signal => cases h

theorem grip_of_not_releases (h : c.releases = false) :
    Grip s.lock (s.call c).2.lock (s.parked c) := by
  cases c with
  | acquire p =>
    rcases s.lock.open_or_taken p.pid with free | ⟨x, held, other⟩
    · simp only [call, parked, acquire_open free]
      exact .take free
    · simp only [call, parked, acquire_taken held other]
      exact .park held other rfl
  | tryAcquire pid => exact grip_tryAcquire s.lock pid
  | signal n pid =>
    simp only [call, parked, Condition.signal]
    cases s.conditions n with
    | nil => exact .leave
    | cons p rest => exact grip_tryAcquire s.lock pid
  | release | wait => cases h

theorem woken_of_releases (h : c.releases = true) : s.woken c = s.lock.woken := by
  simp only [woken, (call_of_releases h).1]
  unfold Lock.woken
  cases s.lock.holder with
  | none => rfl
  | some x => exact List.take_length

theorem woken_of_not_releases (h : c.releases = false) : s.woken c = [] := by
  cases c with
  | acquire | tryAcquire | signal => rfl
  | release | wait => cases h

theorem parked_of_releases (h : c.releases = true) : s.parked c = [] := by
  cases c with
  | acquire | tryAcquire | signal => cases h
  | release | wait => rfl

/-- Nobody parked is left behind when the lock is released. -/
theorem Sound.woken_eq (h : s.Sound) : s.lock.woken = s.lock.waiters := by
  rw [← s.lock.waiters_freed_append, h.lock.waiters_freed, List.nil_append]

theorem Sound.call (h : s.Sound) (c : Call) : (s.call c).2.Sound := by
  cases kind : c.releases with
  | true =>
    obtain ⟨-, lock, -⟩ := call_of_releases (s := s) kind
    have nobody := h.lock.waiters_freed
    constructor
    · rw [lock]
      exact sound_of_waiters_nil nobody
    · rw [lock, nobody]
      exact fun w parked => absurd parked List.not_mem_nil
  | false =>
    have grip := grip_of_not_releases (s := s) kind
    refine ⟨grip.sound h.lock, fun w parked => ?_⟩
    rw [grip.waiters, List.mem_append] at parked
    exact parked.elim (h.blocked w) (grip.blocked w)

theorem Sound.calls (h : s.Sound) (cs : List Call) : (s.calls cs).Sound := by
  induction cs generalizing s with
  | nil => exact h
  | cons c cs ih => exact ih (h.call c)

/-- Without a release the holder stays. -/
theorem holder_calls (held : s.lock.holder = some x) (cs : List Call)
    (kept : ∀ c ∈ cs, c.releases = false) : (s.calls cs).lock.holder = some x := by
  induction cs generalizing s with
  | nil => exact held
  | cons c cs ih =>
    refine ih ((grip_of_not_releases (kept c List.mem_cons_self)).holder held) fun d hd => ?_
    exact kept d (List.mem_cons_of_mem _ hd)

/-- Who was parked or is parked by a call is woken by it or parked after it, the oldest first. -/
theorem Sound.waiters_call (h : s.Sound) (c : Call) :
    s.lock.waiters ++ s.parked c = s.woken c ++ (s.call c).2.lock.waiters := by
  cases kind : c.releases with
  | true =>
    obtain ⟨-, lock, -⟩ := call_of_releases (s := s) kind
    rw [parked_of_releases kind, woken_of_releases kind, h.woken_eq, lock, h.lock.waiters_freed]
  | false =>
    rw [woken_of_not_releases kind, (grip_of_not_releases kind).waiters, List.nil_append]

theorem Sound.waiters_calls (h : s.Sound) (cs : List Call) :
    s.lock.waiters ++ s.allParked cs = s.allWoken cs ++ (s.calls cs).lock.waiters := by
  induction cs generalizing s with
  | nil => exact List.append_nil _
  | cons c cs ih =>
    rw [allParked, allWoken, ← List.append_assoc, h.waiters_call, List.append_assoc,
      ih (h.call c), ← List.append_assoc]
    rfl

/-- What a release of a held lock does: it reports the holder and the number of those parked, and
sends all of them to the ready queue, where they stay in their order. -/
structure Frees (s : Site) (c : Call) (x : Pid) : Prop where
  reply : (s.call c).1 = .release ⟨some x, s.lock.waiters.length⟩
  holder : (s.call c).2.lock.holder = none
  waiters : (s.call c).2.lock.waiters = []
  ready : ∀ level : Priority, (s.call c).2.ready.levels.get level =
    s.ready.levels.get level ++
      (Backlog.onLevel s.lock.waiters level).map fun p => { p with state := .ready }

theorem Sound.frees (h : s.Sound) (hc : c.releases = true) (held : s.lock.holder = some x) :
    s.Frees c x := by
  obtain ⟨reply, lock, ready⟩ := call_of_releases (s := s) hc
  rw [h.woken_eq] at reply ready
  constructor
  · rw [reply, held]
  · rw [lock, holder_freed]
  · rw [lock, h.lock.waiters_freed]
  · intro level
    rw [ready]
    exact s.ready.levels_enqueueAll s.lock.waiters level

/-- Nobody is stranded on the lock. -/
structure StrandsNobody (s : Site) : Prop where
  /-- Somebody holds a lock on which somebody is parked. -/
  held : s.lock.waiters ≠ [] → s.lock.holder.isSome = true
  /-- The holder is not parked. -/
  apart : ∀ x, s.lock.holder = some x → s.lock.isAwaitedBy x = false
  blocked : ∀ w ∈ s.lock.waiters, w.state = .blocked
  /-- A holder stays until a call releases the lock. -/
  keeps : ∀ x, s.lock.holder = some x → ∀ later : List Call,
    (∀ c ∈ later, c.releases = false) → (s.calls later).lock.holder = some x
  /-- A release of the held lock wakes all. -/
  frees : ∀ x, s.lock.holder = some x → ∀ c, c.releases = true → s.Frees c x

theorem Sound.strandsNobody (sound : s.Sound) : s.StrandsNobody := by
  constructor
  · intro parked
    obtain ⟨x, held, -⟩ := sound.lock parked
    exact Option.isSome_iff_exists.2 ⟨x, held⟩
  · intro x held
    by_contra awaits
    obtain ⟨w, parked, same⟩ := Queue.holds_iff.1 (Bool.not_eq_false _ ▸ awaits)
    obtain ⟨y, held', other⟩ := sound.lock.exists_holder parked
    rw [held] at held'
    cases held'
    exact other same.symm
  · exact sound.blocked
  · exact fun x held later kept => holder_calls held later kept
  · exact fun x held c hc => sound.frees hc held

/-- Whatever is called of a new lock, nobody is stranded on it: who was parked was woken once, in
order, or is still parked. -/
theorem strandsNobody_of_calls (id : LockId) (ready : ReadyQueue) (cs : List Call) :
    ((start id ready).calls cs).StrandsNobody ∧
      (start id ready).allParked cs =
        (start id ready).allWoken cs ++ ((start id ready).calls cs).lock.waiters :=
  ⟨((sound_start id ready).calls cs).strandsNobody, (sound_start id ready).waiters_calls cs⟩

end Site

end Mlfq.Lock
