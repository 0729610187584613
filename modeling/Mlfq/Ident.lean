/-! # Identifiers

Processes, locks, rendezvous channels and devices are numbered. Each kind of number has a type
of its own, so that a lock cannot be named where a process is meant. -/

namespace Mlfq

/-- The number of a process. -/
structure Pid where
  num : Nat
  deriving DecidableEq

/-- The number of a lock. -/
structure LockId where
  num : Nat
  deriving DecidableEq

/-- The number of a rendezvous channel. -/
structure ChannelId where
  num : Nat
  deriving DecidableEq

/-- The number of an I/O device. -/
structure DeviceId where
  num : Nat
  deriving DecidableEq

instance : ToString Pid := ⟨fun id => toString id.num⟩
instance : ToString LockId := ⟨fun id => toString id.num⟩
instance : ToString ChannelId := ⟨fun id => toString id.num⟩
instance : ToString DeviceId := ⟨fun id => toString id.num⟩

/-- Hands out process ids in strictly increasing order. -/
structure PidAllocator where
  /-- The number of ids handed out so far, which is also the next id. -/
  allocated : Nat := 0
  deriving DecidableEq

/-- The next process id. -/
def PidAllocator.next (pids : PidAllocator) : Pid × PidAllocator :=
  (⟨pids.allocated⟩, ⟨pids.allocated + 1⟩)

end Mlfq
