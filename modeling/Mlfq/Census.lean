import Mlfq.Proc.Basic

/-! # Census and summary

How many processes of each kind were created and have ended, and the figures a finished run is
reported with. -/

namespace Mlfq

/-- Created and ended processes of one kind. -/
structure Tally where
  created : Nat := 0
  terminated : Nat := 0
  deriving DecidableEq

/-- The processes that have not ended. -/
def Tally.live (t : Tally) : Nat := t.created - t.terminated

/-- A tally for every kind. -/
structure Census where
  ioBound : Tally := {}
  computeBound : Tally := {}
  mutexUser : Tally := {}
  producer : Tally := {}
  consumer : Tally := {}
  deriving DecidableEq

namespace Census

/-- The tally of a kind. -/
def tally (c : Census) : Proc.Kind → Tally
  | .ioBound => c.ioBound
  | .computeBound => c.computeBound
  | .mutexUser => c.mutexUser
  | .producer => c.producer
  | .consumer => c.consumer

/-- Changes the tally of a kind. -/
def modify (c : Census) (kind : Proc.Kind) (f : Tally → Tally) : Census :=
  match kind with
  | .ioBound => { c with ioBound := f c.ioBound }
  | .computeBound => { c with computeBound := f c.computeBound }
  | .mutexUser => { c with mutexUser := f c.mutexUser }
  | .producer => { c with producer := f c.producer }
  | .consumer => { c with consumer := f c.consumer }

/-- Counts a process of this kind as created. -/
def noteCreated (c : Census) (kind : Proc.Kind) : Census :=
  c.modify kind fun t => { t with created := t.created + 1 }

/-- Counts a process of this kind as ended. -/
def noteTerminated (c : Census) (kind : Proc.Kind) : Census :=
  c.modify kind fun t => { t with terminated := t.terminated + 1 }

/-- The processes created, of all kinds. -/
def totalCreated (c : Census) : Nat :=
  Proc.Kind.all.foldl (fun total k => total + (c.tally k).created) 0

/-- The processes ended, of all kinds. -/
def totalTerminated (c : Census) : Nat :=
  Proc.Kind.all.foldl (fun total k => total + (c.tally k).terminated) 0

/-- A name and two counts in columns. -/
def renderRow (name : String) (t : Tally) : String :=
  let column (width : Nat) (s : String) := Text.padRight width ' ' s
  "  " ++ column 9 name ++ " created=" ++ column 6 (toString t.created) ++
    " terminated=" ++ column 6 (toString t.terminated)

/-- A line for every kind and one for the total. -/
def render (c : Census) : String :=
  let kinds := Proc.Kind.all.map fun k =>
    s!"{renderRow k.name (c.tally k)} live={(c.tally k).live}" ++ "\n"
  String.join kinds ++ renderRow "total" ⟨c.totalCreated, c.totalTerminated⟩ ++ "\n"

theorem tally_modify (c : Census) (kind other : Proc.Kind) (f : Tally → Tally) :
    (c.modify kind f).tally other = if other = kind then f (c.tally other) else c.tally other := by
  cases kind <;> cases other <;> rfl

end Census

/-- The figures of a run. -/
structure Summary where
  iterations : Nat := 0
  dispatches : Nat := 0
  quantumExpiries : Nat := 0
  ioCompletions : Nat := 0
  priorityResets : Nat := 0
  /-- Whether a deadlock was ever found. -/
  deadlock : Bool := false
  /-- The number of pairs found in deadlock. -/
  deadlockedPairs : Nat := 0
  /-- Whether the run was stopped before its end. -/
  interrupted : Bool := false
  census : Census := {}

/-- The report of a run. -/
def Summary.render (s : Summary) : String :=
  let outcome := if s.interrupted then "interrupted" else "finished"
  let deadlock :=
    if s.deadlock then s!"Deadlock occurred at least once ({s.deadlockedPairs} pair(s)).\n"
    else "No deadlock occurred during run.\n"
  s!"Run {outcome} after {s.iterations} iterations.\n" ++ deadlock ++
    s!"dispatches={s.dispatches} expiries={s.quantumExpiries} " ++
    s!"io_done={s.ioCompletions} resets={s.priorityResets}\n" ++ s.census.render

end Mlfq
