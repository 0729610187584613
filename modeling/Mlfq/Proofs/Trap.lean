import Mlfq.Proofs.Run.Basic
import Mlfq.Proofs.Scene.Service

/-! # Who raises which trap

The plan of a process decides what its traps are about: the locks of its pair, its channel, or the
devices. -/

namespace Mlfq

/-- A mutex program asks for one of its two locks. -/
theorem MutexProgram.exists_request_of_trapAt {program : MutexProgram} {pc : Nat}
    {first second : LockId} {t : Trap} (h : program.trapAt pc first second = some t) :
    ∃ id r, t.tableRequest? = some (id, r) ∧ (id = first ∨ id = second) := by
  unfold trapAt at h
  obtain ⟨⟨set, t'⟩, hfind, rfl⟩ := Option.map_eq_some_iff.1 h
  have mem := List.mem_of_find?_eq_some hfind
  simp only [List.mem_cons, Prod.mk.injEq, List.not_mem_nil, or_false] at mem
  rcases mem with ⟨-, rfl⟩ | ⟨-, rfl⟩ | ⟨-, rfl⟩ | ⟨-, rfl⟩ | ⟨-, rfl⟩ | ⟨-, rfl⟩ | ⟨-, rfl⟩ |
    ⟨-, rfl⟩ <;> exact ⟨_, _, rfl, by simp⟩

theorem TriggerSet.channel?_of_rendezvousTrapAt {triggers : TriggerSet} {channel : ChannelId}
    {pc : Nat} {t : Trap} (h : triggers.rendezvousTrapAt channel pc = .ok (some t)) :
    t.channel? = some channel := by
  obtain ⟨next, -, h⟩ := exists_of_bind_eq_ok h
  split at h
  · cases h
    rfl
  · split at h
    · cases h
      rfl
    · split at h <;> cases h
      rfl

/-- What the trap of a process is about. -/
theorem Proc.trapAt_cases {p : Proc} {pc : Nat} {pairs : MutexPairs} {t : Trap}
    (h : p.trapAt pc pairs = .ok (some t)) :
    (∃ program q mem, p.plan = .mutex program ∧ q ∈ pairs.pairs ∧ q.member? p.pid = some mem ∧
      program.trapAt pc mem.first mem.second = some t) ∨
    (∃ triggers id, p.plan = .rendezvous triggers id ∧ t.channel? = some id) ∨
    ∃ devices d, p.plan = .io devices ∧ t = .io d := by
  unfold trapAt at h
  cases plan : p.plan with
  | none =>
    rw [plan] at h
    cases h
  | mutex program =>
    simp only [plan, Except.ok.injEq, Option.bind_eq_some_iff] at h
    obtain ⟨mem, found, h⟩ := h
    obtain ⟨q, hq, member⟩ := List.exists_of_findSome?_eq_some found
    exact .inl ⟨program, q, mem, rfl, hq, member, h⟩
  | rendezvous triggers channel =>
    rw [plan] at h
    exact .inr (.inl ⟨triggers, channel, rfl, TriggerSet.channel?_of_rendezvousTrapAt h⟩)
  | io devices =>
    simp only [plan, Except.ok.injEq, Option.map_eq_some_iff] at h
    obtain ⟨d, -, rfl⟩ := h
    exact .inr (.inr ⟨devices, _, rfl, rfl⟩)

/-- The channel that a trap is about is that of the process. -/
theorem Proc.channel?_of_trapAt {p : Proc} {pc : Nat} {pairs : MutexPairs} {t : Trap}
    {id : ChannelId} (h : p.trapAt pc pairs = .ok (some t)) (ht : t.channel? = some id) :
    p.channel? = some id := by
  rcases trapAt_cases h with ⟨_, _, _, -, -, -, trap⟩ | ⟨triggers, id', plan, trap⟩ |
    ⟨_, _, -, rfl⟩
  · obtain ⟨_, _, request, -⟩ := MutexProgram.exists_request_of_trapAt trap
    cases t <;> cases request <;> cases ht
  · rw [trap] at ht
    rw [channel?, plan, ← ht]
  · cases ht

/-- A process that asks for a lock of the table has no channel. -/
theorem Proc.channel?_of_tableRequest {p : Proc} {pc : Nat} {pairs : MutexPairs} {t : Trap}
    {id : LockId} {r : Lock.Request} (h : p.trapAt pc pairs = .ok (some t))
    (ht : t.tableRequest? = some (id, r)) : p.channel? = none := by
  rcases trapAt_cases h with ⟨_, _, _, plan, -⟩ | ⟨_, _, -, trap⟩ | ⟨_, _, plan, -⟩
  · rw [channel?, plan]
  · cases t <;> cases ht <;> cases trap
  · rw [channel?, plan]

/-- A process that asks a device has an I/O plan. -/
theorem Proc.plan_of_trapAt_io {p : Proc} {pc : Nat} {pairs : MutexPairs} {d : DeviceId}
    (h : p.trapAt pc pairs = .ok (some (.io d))) : ∃ devices, p.plan = .io devices := by
  rcases trapAt_cases h with ⟨_, _, _, -, -, -, trap⟩ | ⟨_, _, -, trap⟩ | ⟨devices, _, plan, -⟩
  · obtain ⟨_, _, request, -⟩ := MutexProgram.exists_request_of_trapAt trap
    cases request
  · cases trap
  · exact ⟨devices, plan⟩

end Mlfq
