import Mlfq.Proofs.Deadlock.Pairs
import Mlfq.Proofs.Device
import Mlfq.Proofs.Mutex.Program

/-! # Who holds a lock of the table

A step of the scene is seen here from one process with a two-lock program: it has just arrived, or
others act while it stays where it is, or it takes a step and is perhaps served by a lock. Others
never get it a lock, and they take one from it only where they may release locks that they do not
hold. -/

namespace Mlfq

open Queue (cores)

/-- The lock is in the table and process `pid` holds it. -/
def LockTable.HeldBy (t : LockTable) (id : LockId) (pid : Pid) : Prop :=
  ∃ l, t.get? id = some l ∧ l.holder = some pid

namespace LockTable

variable {t : LockTable} {id k : LockId} {l l' : Lock} {pid : Pid}

theorem heldBy_iff (found : t.get? id = some l) : t.HeldBy id pid ↔ l.holder = some pid := by
  constructor
  · rintro ⟨l', found', held⟩
    rw [found] at found'
    cases found'
    exact held
  · intro held
    exact ⟨l, found, held⟩

/-- A lock has one holder. -/
theorem HeldBy.unique {x : Pid} (h : t.HeldBy id pid) (h' : t.HeldBy id x) : pid = x := by
  obtain ⟨l, found, held⟩ := h
  exact Option.some.inj (held.symm.trans ((heldBy_iff found).1 h'))

theorem heldBy_congr {t' : LockTable} (same : t'.get? id = t.get? id) :
    t'.HeldBy id pid ↔ t.HeldBy id pid := by
  rw [HeldBy, HeldBy, same]

/-- Who holds the lock that is put in the place of another. -/
theorem Tidy.heldBy_set (tidy : t.Tidy) (found : t.get? id = some l) (same : l'.id = l.id) :
    (t.set l').HeldBy id pid ↔ l'.holder = some pid := by
  apply heldBy_iff
  rw [tidy.get?_set found same, if_pos rfl]

theorem Tidy.heldBy_set_of_ne (tidy : t.Tidy) (found : t.get? id = some l) (same : l'.id = l.id)
    (other : k ≠ id) : (t.set l').HeldBy k pid ↔ t.HeldBy k pid := by
  apply heldBy_congr
  rw [tidy.get?_set found same, if_neg other]

end LockTable

theorem MutexPair.exists_member?_of_unmarked_eq {q q' : MutexPair}
    (alike : q.unmarked = q'.unmarked) {pid : Pid} {mem' : PairMember}
    (member : q'.member? pid = some mem') :
    ∃ mem, q.member? pid = some mem ∧ mem.lock = mem'.lock := by
  obtain ⟨left, right⟩ := MutexPair.mk.inj alike
  have left' := PairMember.mk.inj left
  have right' := PairMember.mk.inj right
  have same : ∀ mem mem' : PairMember, mem.first = mem'.first → mem.second = mem'.second →
      mem.lock = mem'.lock := by
    intro mem mem' first second
    funext which
    cases which
    · exact first
    · exact second
  unfold member? at member ⊢
  rw [left'.1, right'.1]
  split at member
  · cases member
    rw [if_pos ‹_›]
    exact ⟨q.left, rfl, same _ _ left'.2.1 left'.2.2.1⟩
  · rw [if_neg ‹_›]
    split at member
    · cases member
      rw [if_pos ‹_›]
      exact ⟨q.right, rfl, same _ _ right'.2.1 right'.2.2.1⟩
    · cases member

namespace Scene

/-- What a step comes to for a process with a two-lock program. -/
inductive Fares (s s' : Scene) (p' : Proc) : Prop
  /-- It has just arrived and holds nothing. -/
  | arrives {a : Arrival} (arrived : s'.arrived = s.arrived ++ [a])
    (enrolled : p' ∈ cores (s.enrolled a)) (none : ∀ id, ¬s'.locks.HeldBy id p'.pid)
  /-- Others act. -/
  | stays (here : p' ∈ s.population)
    (member : ∀ mem', s'.pairs.find? p'.pid = some mem' →
      ∃ mem, s.pairs.find? p'.pid = some mem ∧ mem.lock = mem'.lock)
    (gained : ∀ id, s'.locks.HeldBy id p'.pid → s.locks.HeldBy id p'.pid)
    (kept : s.strict = true → ∀ id l', s'.locks.get? id = some l' →
      s.locks.HeldBy id p'.pid → s'.locks.HeldBy id p'.pid)
  /-- It takes a step and goes on. -/
  | goesOn {p : Proc} {rest : Multiset Proc} {t : Option Trap} (runs : s.Runs p p' rest t)
    (ignored : ∀ t' ∈ t, s.Ignores p' t') (pairs : s'.pairs = s.pairs) (locks : s'.locks = s.locks)
  /-- It takes a step and is served by a lock of the table. -/
  | served {p p₁ : Proc} {rest : Multiset Proc} {t : Trap} {id : LockId} {r : Lock.Request}
    {l l' : Lock} {out : Multiset Proc} (runs : s.Runs p p₁ rest (some t))
    (request : t.tableRequest? = some (id, r)) (found : s.locks.get? id = some l)
    (serves : Lock.Serves p₁ r l l' out) (resumes : Lock.Resumes p₁ r l l' p')
    (pairs : s'.pairs = s.pairs) (locks : s'.locks = s.locks.set l')

variable {s s' : Scene} {p p' : Proc}

/-- Nothing changes for a process while the pairs and the locks stay as they are. -/
theorem Fares.of_eq (here : p' ∈ s.population) (pairs : s'.pairs = s.pairs)
    (locks : ∀ id, s'.locks.get? id = s.locks.get? id) : Fares s s' p' := by
  refine .stays here (fun mem found => ⟨mem, pairs ▸ found, rfl⟩) (fun id held => ?_)
    fun _ id l' _ held => ?_
  · exact (LockTable.heldBy_congr (locks id)).1 held
  · exact (LockTable.heldBy_congr (locks id)).2 held

/-! ## Members -/

namespace Paired

/-- The pair of a process is found under its number. -/
theorem find?_eq (h : s.Paired) (distinct : Arrival.Distinct s.arrived) {q : MutexPair} {pid : Pid}
    {mem : PairMember} (hq : q ∈ s.pairs.pairs) (member : q.member? pid = some mem) :
    s.pairs.find? pid = some mem := by
  cases found : s.pairs.find? pid with
  | none =>
    rw [List.findSome?_eq_none_iff.1 found q hq] at member
    cases member
  | some mem' =>
    obtain ⟨q', hq', member'⟩ := List.exists_of_findSome?_eq_some found
    have own : q' = q := h.pair_unique distinct hq' hq (MutexPair.pid_mem_of_member? member')
      (MutexPair.pid_mem_of_member? member)
    rw [← member', own, member]

/-- A member takes its locks from its pair. -/
theorem exists_pair (h : s.Paired) {pid : Pid} {mem : PairMember}
    (found : s.pairs.find? pid = some mem) :
    ∃ q ∈ s.pairs.pairs, q.member? pid = some mem ∧ q.Shares := by
  obtain ⟨q, hq, member⟩ := List.exists_of_findSome?_eq_some found
  obtain ⟨first, second, reversed, -, made⟩ := h.origin q hq
  exact ⟨q, hq, member, made.shares⟩

/-- The locks of a member are in the table. -/
theorem exists_lock (h : s.Paired) {pid : Pid} {mem : PairMember}
    (found : s.pairs.find? pid = some mem) (which : WhichLock) :
    ∃ l, s.locks.get? (mem.lock which) = some l := by
  obtain ⟨q, hq, member, shares⟩ := h.exists_pair found
  have own : mem.lock which ∈ q.locks := by
    apply shares.mem_locks member
    cases which
    · exact .inl rfl
    · exact .inr rfl
  apply Registry.exists_get?_of_mem_keys
  rw [h.keys]
  exact List.mem_flatMap.2 ⟨q, hq, own⟩

/-- The locks of a member are two locks. -/
theorem lock_injective (h : s.Paired) (tidy : s.Tidy) {pid : Pid} {mem : PairMember}
    (found : s.pairs.find? pid = some mem) {which which' : WhichLock}
    (same : mem.lock which = mem.lock which') : which = which' := by
  obtain ⟨q, hq, member, shares⟩ := h.exists_pair found
  have ne : mem.first ≠ mem.second := by
    have ne := h.first_ne_second tidy hq
    rcases MutexPair.eq_of_member? member with rfl | rfl
    · exact ne
    · rcases shares with ⟨first, second⟩ | ⟨first, second⟩
      · rw [first, second]
        exact ne
      · rw [first, second]
        exact ne.symm
  cases which <;> cases which'
  · rfl
  · exact absurd same ne
  · exact absurd same.symm ne
  · rfl

/-- Whoever holds a lock of the table is a member of a pair, and the lock is one of its two. -/
theorem exists_member_of_heldBy (h : s.Paired) (distinct : Arrival.Distinct s.arrived)
    {id : LockId} {pid : Pid} (held : s.locks.HeldBy id pid) :
    ∃ mem which, s.pairs.find? pid = some mem ∧ id = mem.lock which := by
  obtain ⟨l, found, holder⟩ := held
  obtain ⟨q, hq, hid⟩ := h.exists_owner found
  have user := (h.within q hq id hid l found).holder pid holder
  obtain ⟨mem, member⟩ := MutexPair.exists_member? user
  have own := h.find?_eq distinct hq member
  obtain ⟨first, second, reversed, -, made⟩ := h.origin q hq
  have shared : id = mem.first ∨ id = mem.second := by
    rcases MutexPair.eq_of_member? member with rfl | rfl
    · exact List.mem_pair.1 hid
    · rcases made.shares with ⟨first, second⟩ | ⟨first, second⟩
      · rw [first, second]
        exact List.mem_pair.1 hid
      · rw [first, second]
        exact (List.mem_pair.1 hid).symm
  rcases shared with rfl | rfl
  · exact ⟨mem, .first, own, rfl⟩
  · exact ⟨mem, .second, own, rfl⟩

/-- A member keeps its locks while its pair stays but for the marks. -/
theorem exists_member_of_unmarked (h : s.Paired) (distinct : Arrival.Distinct s.arrived)
    {pid : Pid} {mem' : PairMember} (found : s'.pairs.find? pid = some mem')
    (pairs : ∀ q' ∈ s'.pairs.pairs, pid ∈ q'.pids → ∃ q ∈ s.pairs.pairs, q.unmarked = q'.unmarked) :
    ∃ mem, s.pairs.find? pid = some mem ∧ mem.lock = mem'.lock := by
  obtain ⟨q', hq', member'⟩ := List.exists_of_findSome?_eq_some found
  obtain ⟨q, hq, alike⟩ := pairs q' hq' (MutexPair.pid_mem_of_member? member')
  obtain ⟨mem, member, same⟩ := MutexPair.exists_member?_of_unmarked_eq alike member'
  exact ⟨mem, h.find?_eq distinct hq member, same⟩

end Paired

/-- The traps of a member are those of its program. -/
theorem trapAt_of_member {program : MutexProgram} (plan : p.plan = .mutex program)
    {mem : PairMember} (found : s.pairs.find? p.pid = some mem) (pc : Nat) :
    p.trapAt pc s.pairs = .ok (program.trapAt pc mem.first mem.second) := by
  simp only [Proc.trapAt, plan, found, Option.bind_some]

/-- A member that asks for a lock is at a point of its program. -/
theorem Runs.exists_action {rest : Multiset Proc} {t : Trap} (runs : s.Runs p p' rest (some t))
    {program : MutexProgram} (plan : p'.plan = .mutex program) {mem : PairMember}
    (found : s.pairs.find? p'.pid = some mem) {id : LockId} {r : Lock.Request}
    (request : t.tableRequest? = some (id, r)) :
    ∃ action which, id = mem.lock which ∧ r = action.request ∧
      p'.pc ∈ (program.set action which).points := by
  have trap := runs.trap
  rw [trapAt_of_member plan found] at trap
  obtain ⟨action, which, rfl, here⟩ := MutexProgram.exists_action (Except.ok.inj trap)
  rw [MutexProgram.Action.tableRequest?_trap] at request
  cases request
  exact ⟨action, which, rfl, rfl, here⟩

/-! ## Steps -/

/-- A service does not concern the locks of another process, unless that process may release what
it does not hold. -/
theorem heldBy_set_of_serves (tidy : s.Tidy) {r : Lock.Request} {id : LockId} {l l' : Lock}
    {out : Multiset Proc} (found : s.locks.get? id = some l) (serves : Lock.Serves p r l l' out)
    {x : Pid} (other : x ≠ p.pid) :
    (∀ k, (s.locks.set l').HeldBy k x → s.locks.HeldBy k x) ∧
      ((r = .release → l.holder = some p.pid) →
        ∀ k, s.locks.HeldBy k x → (s.locks.set l').HeldBy k x) := by
  have same := serves.id_eq
  refine ⟨fun k held => ?_, fun owned k held => ?_⟩
  · rcases eq_or_ne k id with rfl | aside
    · rw [tidy.locks.heldBy_set found same] at held
      rcases serves.holder_cases held with ⟨-, before⟩ | ⟨own, -⟩
      · exact (LockTable.heldBy_iff found).2 before
      · exact absurd own other
    · exact (tidy.locks.heldBy_set_of_ne found same aside).1 held
  · rcases eq_or_ne k id with rfl | aside
    · rw [LockTable.heldBy_iff found] at held
      rw [tidy.locks.heldBy_set found same]
      cases serves with
      | take _ free =>
        rcases free with none | own
        · rw [none] at held
          cases held
        · exact absurd (Option.some.inj (held.symm.trans own)) other
      | park | fail => exact held
      | release => exact absurd (Option.some.inj (held.symm.trans (owned rfl))) other
    · exact (tidy.locks.heldBy_set_of_ne found same aside).2 held

/-- A process keeps through a service what it holds, unless it releases it. -/
theorem heldBy_set_of_own (tidy : s.Tidy) {r : Lock.Request} {id : LockId} {l l' : Lock}
    {out : Multiset Proc} (found : s.locks.get? id = some l) (serves : Lock.Serves p r l l' out)
    {k : LockId} (held : s.locks.HeldBy k p.pid) (keeps : k = id → r ≠ .release) :
    (s.locks.set l').HeldBy k p.pid := by
  rcases eq_or_ne k id with rfl | aside
  · rw [LockTable.heldBy_iff found] at held
    rw [tidy.locks.heldBy_set found serves.id_eq]
    cases serves with
    | take => rfl
    | park | fail => exact held
    | release => exact absurd rfl (keeps rfl)
  · exact (tidy.locks.heldBy_set_of_ne found serves.id_eq aside).2 held

/-! ### Arrivals -/

/-- A process that has just arrived holds nothing. -/
theorem fares_of_arrival (paired : s.Paired) {a : Arrival}
    (arrived : s'.arrived = s.arrived ++ [a]) (distinct : Arrival.Distinct s'.arrived)
    (hp : p ∈ cores (s.enrolled a))
    (old : ∀ id, s'.locks.HeldBy id p.pid → s.locks.HeldBy id p.pid) : Fares s s' p := by
  refine .arrives arrived hp fun id held => ?_
  have distinct : Arrival.Distinct (s.arrived ++ [a]) := arrived ▸ distinct
  have earlier := distinct_of_prefix (List.prefix_append s.arrived [a]) distinct
  obtain ⟨mem, which, found, -⟩ := paired.exists_member_of_heldBy earlier (old id held)
  obtain ⟨q, hq, member, -⟩ := paired.exists_pair found
  exact paired.pid_notMem_of_arrival distinct hp q hq (MutexPair.pid_mem_of_member? member)

/-- Processes come without a new pair. -/
theorem fares_of_newcomers (paired : s.Paired) {a : Arrival}
    (arrived : s'.arrived = s.arrived ++ [a]) (distinct : Arrival.Distinct s'.arrived)
    (after : s'.population = cores (s.enrolled a) + s.population) (pairs : s'.pairs = s.pairs)
    (locks : ∀ id, s'.locks.get? id = s.locks.get? id) (hp : p ∈ s'.population) :
    Fares s s' p := by
  rw [after, Multiset.mem_add] at hp
  rcases hp with new | old
  · refine fares_of_arrival paired arrived distinct new fun id held => ?_
    exact (LockTable.heldBy_congr (locks id)).1 held
  · exact .of_eq old pairs locks

/-- Two new locks are held by nobody. -/
theorem heldBy_of_create (tidy : s.Tidy) {id : LockId} {x : Pid}
    (held : s.locks.create.2.create.2.HeldBy id x) : s.locks.HeldBy id x := by
  obtain ⟨l, found, holder⟩ := held
  rcases tidy.locks.new_or_old found with ⟨id', rfl⟩ | ⟨found, -, -⟩
  · cases holder
  · exact ⟨l, found, holder⟩

/-- Nobody who was there before is a member of a new pair. -/
theorem exists_member_of_add (paired : s.Paired) (lawful : s.Lawful) {first second : Proc}
    {reversed : Bool} {a b : LockId}
    (distinct : Arrival.Distinct (s.arrived ++ [.mutexPair first second reversed]))
    (old : p ∈ s.population) {mem : PairMember}
    (found : (s.pairs.add (.sharing first.pid second.pid a b reversed)).find? p.pid = some mem) :
    ∃ mem', s.pairs.find? p.pid = some mem' ∧ mem'.lock = mem.lock := by
  let added : Scene := { s with pairs := s.pairs.add (.sharing first.pid second.pid a b reversed) }
  have here : added.pairs.find? p.pid = some mem := found
  refine paired.exists_member_of_unmarked lawful.distinct here fun q hq member => ?_
  rcases List.mem_append.1 hq with hq | new
  · exact ⟨q, hq, rfl⟩
  · have early : p.pid ∈ (s.arrived.flatMap Arrival.procs).map (·.pid) :=
      lawful.pid_mem_arrived (profile_mem_books old)
    rw [List.mem_singleton.1 new] at member
    have late : p.pid ∈ [first, second].map (·.pid) := by cases reversed <;> exact member
    exact absurd rfl (Arrival.Distinct.pid_ne distinct early late)

/-- A pair comes with its locks. -/
theorem fares_of_mutexPair (tidy : s.Tidy) (paired : s.Paired) (lawful : s.Lawful)
    {first second : Proc} {reversed : Bool}
    (arrived : s'.arrived = s.arrived ++ [.mutexPair first second reversed])
    (distinct : Arrival.Distinct s'.arrived)
    (after : s'.population = cores (s.enrolled (.mutexPair first second reversed)) + s.population)
    (pairs : s'.pairs = s.pairs.add (.sharing first.pid second.pid s.locks.create.1
      s.locks.create.2.create.1 reversed))
    (locks : s'.locks = s.locks.create.2.create.2) (hp : p ∈ s'.population) : Fares s s' p := by
  have before : ∀ id, s'.locks.HeldBy id p.pid → s.locks.HeldBy id p.pid :=
    fun _ held => heldBy_of_create tidy (locks ▸ held)
  rw [after, Multiset.mem_add] at hp
  rcases hp with new | old
  · exact fares_of_arrival paired arrived distinct new before
  · refine .stays old (fun mem found => ?_) before ?_
    · exact exists_member_of_add paired lawful (arrived ▸ distinct) old (pairs ▸ found)
    · rintro - id l' - ⟨l, found, holder⟩
      exact ⟨l, locks ▸ tidy.locks.get?_of_old found, holder⟩

/-! ### Steps of one process -/

/-- A step that leaves pairs and locks as they are concerns only the process that moves. -/
theorem fares_of_move {q : Proc} {others : Multiset Proc} (before : s.population = p ::ₘ others)
    (after : s'.population = q ::ₘ others) (pairs : s'.pairs = s.pairs)
    (locks : ∀ id, s'.locks.get? id = s.locks.get? id) (moved : p' = q → Fares s s' p')
    (hp : p' ∈ s'.population) : Fares s s' p' := by
  rcases mem_or_eq_of_move before after hp with here | ⟨-, old⟩
  · exact moved here
  · exact .of_eq old pairs locks

section Moves

variable {p₁ : Proc} {rest : Multiset Proc} {program : MutexProgram}

theorem fares_of_goOn {t : Option Trap} (runs : s.Runs p p₁ rest t)
    (ignored : ∀ t' ∈ t, s.Ignores p₁ t')
    (hp : p' ∈ { s with free := p₁ ::ₘ rest }.population) :
    Fares s { s with free := p₁ ::ₘ rest } p' := by
  obtain ⟨others, before, after⟩ := exists_population_goOn runs
  refine fares_of_move before after rfl (fun _ => rfl) ?_ hp
  rintro rfl
  exact .goesOn runs ignored rfl rfl

/-- A process with a two-lock program asks no device. -/
theorem fares_of_request {r : Proc} {d : DeviceId} {q : Queue}
    (runs : s.Runs p p₁ rest (some (.io d))) (found : s.devices[d.num]? = some q)
    (core : r.core = p₁) (plan : p'.plan = .mutex program)
    (hp : p' ∈ { s with free := rest, devices := s.devices.set d.num (q.enqueue r) }.population) :
    Fares s { s with free := rest, devices := s.devices.set d.num (q.enqueue r) } p' := by
  obtain ⟨others, before, after⟩ := exists_population_request runs found core
  refine fares_of_move before after rfl (fun _ => rfl) ?_ hp
  rintro rfl
  obtain ⟨sets, plan'⟩ := Proc.plan_of_trapAt_io runs.trap
  rw [plan] at plan'
  cases plan'

/-- A process is served by a lock, and what another holds stays. -/
theorem fares_of_table (tidy : s.Tidy) (lawful : s.Lawful) {t : Trap} {id : LockId}
    {r : Lock.Request} {l l' : Lock} {out : Multiset Proc} (runs : s.Runs p p₁ rest (some t))
    (request : t.tableRequest? = some (id, r)) (found : s.locks.get? id = some l)
    (serves : Lock.Serves p₁ r l l' out)
    (owned : s.strict = true → r = .release → l.holder = some p₁.pid)
    (hp : p' ∈ { s with free := out + rest, locks := s.locks.set l' }.population) :
    Fares s { s with free := out + rest, locks := s.locks.set l' } p' := by
  obtain ⟨others, q, before, after, resumes⟩ := exists_population_table tidy runs found serves
  rcases mem_or_eq_of_move before after hp with rfl | ⟨aside, old⟩
  · exact .served runs request found serves resumes rfl rfl
  · have other : p'.pid ≠ p₁.pid := runs.advances.pid_eq ▸ lawful.pid_ne before aside
    obtain ⟨gained, kept⟩ := heldBy_set_of_serves tidy found serves other
    exact .stays old (fun mem found => ⟨mem, found, rfl⟩) gained
      fun strict id _ _ => kept (owned strict) id

/-- A process with a two-lock program uses no channel. -/
theorem fares_of_channel (tidy : s.Tidy) {t : Trap} {id : ChannelId} {c c' : Channel}
    {out : Multiset Proc} (runs : s.Runs p p₁ rest (some t)) (request : t.channel? = some id)
    (found : s.channels.get? id = some c) (serves : Channel.Serves p₁ t c c' out)
    (plan : p'.plan = .mutex program)
    (hp : p' ∈ { s with free := out + rest, channels := s.channels.set id c' }.population) :
    Fares s { s with free := out + rest, channels := s.channels.set id c' } p' := by
  obtain ⟨others, q, before, after, profile⟩ := exists_population_channel tidy runs found serves
  refine fares_of_move before after rfl (fun _ => rfl) ?_ hp
  rintro rfl
  have uses := Proc.channel?_of_trapAt runs.trap request
  rw [← Proc.channel?_profile, ← profile, Proc.channel?_profile, Proc.channel?, plan] at uses
  cases uses

/-- A device serves no process with a two-lock program. -/
theorem fares_of_complete (io : s.ServesIo) {d : DeviceId} {q : Queue}
    (found : s.devices[d.num]? = some (p :: q)) (plan : p'.plan = .mutex program)
    (hp : p' ∈ { s with
      free := { p with pc := p.pc + 1 }.core ::ₘ s.free
      devices := s.devices.set d.num q }.population) :
    Fares s { s with
      free := { p with pc := p.pc + 1 }.core ::ₘ s.free, devices := s.devices.set d.num q } p' := by
  obtain ⟨others, before, after⟩ := exists_population_complete found
  refine fares_of_move before after rfl (fun _ => rfl) ?_ hp
  rintro rfl
  obtain ⟨sets, plan'⟩ := io _ (List.mem_of_getElem? found) _ List.mem_cons_self
  rw [Proc.plan_core, plan'] at plan
  cases plan

end Moves

/-! ### Departures -/

/-- The first member of a pair goes, and its pair keeps its locks. -/
theorem fares_of_retire (paired : s.Paired) (lawful : s.Lawful) {pid : Pid} {pairs : List MutexPair}
    (hr : MutexPairs.retire pid s.pairs.pairs = (none, pairs)) (here : p' ∈ s.population) :
    Fares s { s with pairs := ⟨pairs⟩ } p' := by
  refine .stays here (fun mem found => ?_) (fun _ held => held) fun _ _ _ _ held => held
  exact paired.exists_member_of_unmarked lawful.distinct found
    fun q hq _ => MutexPairs.exists_unmarked_of_retire_none hr hq

/-- A pair that goes with its locks concerns no member of another pair. -/
theorem fares_of_dissolve (paired : s.Paired) (lawful : s.Lawful) {pid : Pid}
    {pairs : List MutexPair} {a b : LockId}
    (hr : MutexPairs.retire pid s.pairs.pairs = (some (a, b), pairs)) (here : p' ∈ s.population) :
    Fares s (({ s with pairs := ⟨pairs⟩ }.dropLock a).dropLock b) p' := by
  refine .stays here (fun mem found => ?_) (fun id held => ?_) fun _ id l' found held => ?_
  · refine paired.exists_member_of_unmarked lawful.distinct found fun q hq _ => ?_
    rw [pairs_dropLock, pairs_dropLock] at hq
    exact ⟨q, MutexPairs.mem_of_retire_some hr hq, rfl⟩
  · obtain ⟨l, found, holder⟩ := held
    have before := get?_of_dropLock (get?_of_dropLock found)
    exact ⟨l, before, holder⟩
  · have before := get?_of_dropLock (get?_of_dropLock found)
    exact ⟨l', found, (LockTable.heldBy_iff before).1 held⟩

/-- What a step comes to for a process with a two-lock program is one of these. -/
theorem Step.fares (step : Step s s') (tidy : s.Tidy) (paired : s.Paired) (lawful : s.Lawful)
    (io : s.ServesIo) (distinct : Arrival.Distinct s'.arrived) (hp : p' ∈ s'.population)
    {program : MutexProgram} (plan : p'.plan = .mutex program) : Fares s s' p' := by
  have same : ∀ id, s.locks.get? id = s.locks.get? id := fun _ => rfl
  cases step with
  | scan => exact .of_eq hp rfl same
  | single p =>
    exact fares_of_newcomers paired rfl distinct (population_single s p _) rfl same hp
  | mutexPair first second reversed =>
    exact fares_of_mutexPair tidy paired lawful rfl distinct
      (population_mutexPair s first second reversed _ _) rfl rfl hp
  | rendezvousPair producer consumer =>
    exact fares_of_newcomers paired rfl distinct
      (population_rendezvousPair s producer consumer s.locks.reserve.1 _) rfl same hp
  | goOn runs ignored => exact fares_of_goOn runs ignored hp
  | request runs found core => exact fares_of_request runs found core plan hp
  | table runs request found serves owned =>
    exact fares_of_table tidy lawful runs request found serves owned hp
  | channel runs request found serves =>
    exact fares_of_channel tidy runs request found serves plan hp
  | complete found => exact fares_of_complete io found plan hp
  | terminate running done core =>
    rw [population_terminate running core] at hp
    exact .of_eq hp rfl same
  | retire zombie hr => exact fares_of_retire paired lawful hr hp
  | dissolve zombie hr =>
    rw [population_dissolve tidy] at hp
    exact fares_of_dissolve paired lawful hr hp
  | drop zombie =>
    exact .of_eq (mem_of_drop zombie hp) rfl same
  | leave zombie bound found stays =>
    exact .of_eq (mem_of_leave tidy zombie found hp) rfl same
  | close zombie bound found goes =>
    exact .of_eq (mem_of_close tidy zombie found hp) rfl same

end Scene
end Mlfq
