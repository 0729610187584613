import Mlfq.Registry
import Mlfq.Lock.Basic

/-! # The lock table

The table holds the locks of the mutex pairs. It also hands out the ids of locks that live
elsewhere, so that no two locks share an id. -/

namespace Mlfq

/-- Locks by id, and the next id. -/
structure LockTable where
  locks : Registry LockId Lock := {}
  nextId : Nat := 0

namespace LockTable

/-- Takes an id for a lock that is kept outside the table. -/
def reserve (t : LockTable) : LockId × LockTable :=
  (⟨t.nextId⟩, { t with nextId := t.nextId + 1 })

/-- Adds a free lock under a new id. -/
def create (t : LockTable) : LockId × LockTable :=
  (⟨t.nextId⟩, { locks := t.locks.add ⟨t.nextId⟩ { id := ⟨t.nextId⟩ }, nextId := t.nextId + 1 })

/-- The lock of this id. -/
def get? (t : LockTable) (id : LockId) : Option Lock := t.locks.get? id

/-- Replaces the lock that has the id of `l`. -/
def set (t : LockTable) (l : Lock) : LockTable := { t with locks := t.locks.set l.id l }

/-- Removes the lock of this id. -/
def erase (t : LockTable) (id : LockId) : LockTable := { t with locks := t.locks.erase id }

/-- The locks in order of their ids. -/
def toList (t : LockTable) : List Lock := t.locks.values

end LockTable
end Mlfq
