import Mlfq.Ident
import Mlfq.Proc.TriggerSet

/-! # Trap plans

Which traps a process raises is fixed by its plan. An I/O plan has one trigger set per device; a
mutex plan follows a two-lock program; a rendezvous plan marks the points at which a producer or
consumer meets its partner. -/

namespace Mlfq

/-- The trigger points of the two-lock program. `First` and `Second` are the locks in the order
in which the process itself takes them. -/
structure MutexProgram where
  lockFirst : TriggerSet
  lockSecond : TriggerSet
  unlockFirst : TriggerSet
  unlockSecond : TriggerSet
  tryFirst : TriggerSet
  trySecond : TriggerSet
  tryUnlockFirst : TriggerSet
  tryUnlockSecond : TriggerSet

namespace MutexProgram

/-- The program every generated mutex user runs: four blocking rounds and four try rounds. -/
def standard : MutexProgram where
  lockFirst := .ofList [5, 18, 200, 500]
  lockSecond := .ofList [6, 19, 201, 501]
  unlockSecond := .ofList [14, 30, 250, 570]
  unlockFirst := .ofList [15, 31, 251, 571]
  tryFirst := .ofList [33, 50, 280, 300]
  trySecond := .ofList [34, 51, 281, 301]
  tryUnlockSecond := .ofList [35, 52, 282, 302]
  tryUnlockFirst := .ofList [36, 54, 283, 303]

/-- The two intervals of round `i` in which a lock may be held: from the earlier of the two
acquisition points to the later of the two release points, for the blocking round and for the
try round. -/
def roundWindows (program : MutexProgram) (i : Nat) : Except Fault (List (Nat × Nat)) := do
  let lo := min (← program.lockFirst.point i) (← program.lockSecond.point i)
  let hi := max (← program.unlockFirst.point i) (← program.unlockSecond.point i)
  let tryLo := min (← program.tryFirst.point i) (← program.trySecond.point i)
  let tryHi := max (← program.tryUnlockFirst.point i) (← program.tryUnlockSecond.point i)
  return [(lo, hi), (tryLo, tryHi)]

/-- The intervals of all four rounds. A counter that wraps inside one of them would skip the
release that ends it. -/
def holdWindows (program : MutexProgram) : Except Fault (List (Nat × Nat)) := do
  let rounds ← [0, 1, 2, 3].mapM program.roundWindows
  return rounds.flatten

end MutexProgram

/-- The rendezvous points of every generated producer and consumer. -/
def TriggerSet.rendezvous : TriggerSet := .ofList [69, 160, 251, 299]

/-- The traps a process raises. -/
inductive TrapPlan where
  /-- No traps. -/
  | none
  /-- I/O requests: one trigger set per device. -/
  | io (devices : List TriggerSet)
  /-- The two-lock program. -/
  | mutex (program : MutexProgram)
  /-- Meetings on a channel. -/
  | rendezvous (triggers : TriggerSet) (channel : ChannelId)

end Mlfq
