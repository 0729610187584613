import Mlfq.Workload.Basic

/-! # Scripted workloads

A scripted workload replays a fixed list of batches, one a request, and has no arrivals after the
last. -/

namespace Mlfq

/-- What arrives, in outline. -/
inductive Outline where
  | compute (maxPc terminateAfter : Nat)
  /-- An I/O-bound process with a list of trigger points for every device. -/
  | io (maxPc terminateAfter : Nat) (points : List (List Nat))
  /-- Two mutex users that run the standard program. -/
  | mutexPair (maxPc : Nat) (reversed : Bool)
  /-- A producer and a consumer with the standard points. -/
  | rendezvousPair (maxPc : Nat)

/-- An endless process that runs the standard two-lock program. -/
def Proc.mutexUser (pid : Pid) (maxPc : Nat) : Proc :=
  { pid, kind := .mutexUser, maxPc, terminateAfter := 0, plan := .mutex .standard }

/-- An endless producer or consumer with the standard points. Its channel is set on admission. -/
def Proc.partner (kind : Proc.Kind) (pid : Pid) (maxPc : Nat) : Proc :=
  { pid, kind, maxPc, terminateAfter := 0, plan := .rendezvous .rendezvous ⟨0⟩ }

/-- An I/O-bound process. -/
def Proc.ioBound (pid : Pid) (maxPc terminateAfter : Nat) (devices : List TriggerSet) : Proc :=
  { pid, kind := .ioBound, maxPc, terminateAfter, plan := .io devices }

/-- A compute-bound process. -/
def Proc.computeBound (pid : Pid) (maxPc terminateAfter : Nat) : Proc :=
  { pid, kind := .computeBound, maxPc, terminateAfter }

/-- The arrival of an outline, with the next ids. -/
def Outline.arrival (pids : PidAllocator) : Outline → Arrival × PidAllocator
  | .compute maxPc terminateAfter =>
    let (pid, pids) := pids.next
    (.single (.computeBound pid maxPc terminateAfter), pids)
  | .io maxPc terminateAfter points =>
    let (pid, pids) := pids.next
    (.single (.ioBound pid maxPc terminateAfter (points.map .ofList)), pids)
  | .mutexPair maxPc reversed =>
    let (first, pids) := pids.next
    let (second, pids) := pids.next
    (.mutexPair (.mutexUser first maxPc) (.mutexUser second maxPc) reversed, pids)
  | .rendezvousPair maxPc =>
    let (producer, pids) := pids.next
    let (consumer, pids) := pids.next
    (.rendezvousPair (.partner .producer producer maxPc) (.partner .consumer consumer maxPc), pids)

/-- The arrivals of outlines, in order. -/
def Outline.arrivals (pids : PidAllocator) : List Outline → List Arrival × PidAllocator
  | [] => ([], pids)
  | o :: rest =>
    let (a, pids) := o.arrival pids
    let (as, pids) := arrivals pids rest
    (a :: as, pids)

/-- The batches still to come. -/
structure ScriptedWorkload where
  batches : List (List Outline)

instance : Workload ScriptedWorkload where
  batch w pids _ :=
    match w.batches with
    | [] => .ok ⟨[], pids, w⟩
    | outlines :: rest =>
      let (arrivals, pids) := Outline.arrivals pids outlines
      .ok ⟨arrivals, pids, ⟨rest⟩⟩

end Mlfq
