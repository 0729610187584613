import Mlfq.Queue

/-! # The multilevel ready queue

One queue per priority level. Service is by level first and by order of arrival inside a level.
`ReadyQueue.toList` is the view of the whole structure: the records in order of service. -/

namespace Mlfq

/-- The processes that can run, by priority level. -/
structure ReadyQueue where
  levels : Vector Queue 16

namespace ReadyQueue

/-- The queue without records. -/
def empty : ReadyQueue := ⟨Vector.replicate 16 []⟩

/-- The records in order of service. -/
def toList (ready : ReadyQueue) : Queue := ready.levels.toList.flatten

/-- Marks the record as ready and adds it behind the others of its level. -/
def enqueue (ready : ReadyQueue) (p : Proc) : ReadyQueue :=
  ⟨ready.levels.set p.priority.val
    (ready.levels[p.priority.val].enqueue { p with state := .ready })⟩

/-- Adds the records one after the other. -/
def enqueueAll (ready : ReadyQueue) (ps : Queue) : ReadyQueue := ps.foldl enqueue ready

/-- Takes the oldest record of one level. -/
def dequeueLevel (ready : ReadyQueue) (level : Priority) : Option (Proc × ReadyQueue) :=
  ready.levels[level.val].dequeue.map fun (p, rest) => (p, ⟨ready.levels.set level.val rest⟩)

/-- Takes the oldest record of the first level that has one. -/
def dequeue (ready : ReadyQueue) : Option (Proc × ReadyQueue) :=
  (List.finRange 16).findSome? ready.dequeueLevel

/-- The record that is served next. -/
def peek (ready : ReadyQueue) : Option Proc := ready.toList.head?

/-- The number of records. -/
def length (ready : ReadyQueue) : Nat := ready.toList.length

/-- Whether there is no record. -/
def isEmpty (ready : ReadyQueue) : Bool := ready.levels.all List.isEmpty

/-- The number of records at a level; a level that does not exist has none. -/
def levelLength (ready : ReadyQueue) (level : Nat) : Nat :=
  (ready.levels[level]?.map List.length).getD 0

/-- Moves all records to the highest priority, in order of service. -/
def resetPriorities (ready : ReadyQueue) : ReadyQueue :=
  ⟨(Vector.replicate 16 []).set Priority.highest.val
    (ready.toList.map fun p => { p with priority := .highest }) Priority.highest.isLt⟩

/-- The queues of all levels, one a line. -/
def render (ready : ReadyQueue) : String :=
  "\n".intercalate (ready.levels.toList.zipIdx.map fun (q, level) =>
    "Q" ++ Text.padLeft 2 ' ' (toString level) ++ ": " ++ q.render)

@[simp] theorem toList_empty : empty.toList = [] := by decide

theorem isEmpty_iff (ready : ReadyQueue) : ready.isEmpty = true ↔ ready.toList = [] := by
  rcases ready with ⟨⟨⟨levels⟩, h⟩⟩
  simp [isEmpty, toList]

@[simp] theorem toList_resetPriorities (ready : ReadyQueue) :
    ready.resetPriorities.toList = ready.toList.map fun p => { p with priority := .highest } := by
  simp only [resetPriorities, toList]
  rw [show ∀ q : Queue, ((Vector.replicate 16 ([] : Queue)).set Priority.highest.val q
    Priority.highest.isLt).toList = q :: List.replicate 15 [] from fun _ => rfl]
  simp

/-- The records in order of service, level by level. -/
theorem toList_eq_flatMap (ready : ReadyQueue) :
    ready.toList = (List.finRange 16).flatMap fun level => ready.levels[level.val] := by
  rw [toList, List.flatMap_def]
  congr 1
  apply List.ext_getElem <;> simp

/-- A level occurs once among all levels. -/
theorem ne_of_finRange_eq {before after : List Priority} {level : Priority}
    (h : List.finRange 16 = before ++ level :: after) :
    (∀ l ∈ before, l ≠ level) ∧ ∀ l ∈ after, l ≠ level := by
  have nodup := List.nodup_finRange 16
  rw [h, List.nodup_append, List.nodup_cons] at nodup
  refine ⟨fun l hl => nodup.2.2 l hl level List.mem_cons_self, ?_⟩
  rintro l hl rfl
  exact nodup.2.1.1 hl

/-- A change at one level does not show at others. -/
theorem flatMap_set_of_ne {ready : ReadyQueue} {level : Priority} {q : Queue}
    {ls : List Priority} (h : ∀ l ∈ ls, l ≠ level) :
    (ls.flatMap fun l => (ready.levels.set level.val q)[l.val]) =
      ls.flatMap fun l => ready.levels[l.val] := by
  rw [List.flatMap_def, List.flatMap_def]
  congr 1
  apply List.map_congr_left
  intro l hl
  rw [Vector.getElem_set, if_neg fun e => h l hl (Fin.ext e.symm)]

/-- A record that is queued is added to those that were there. -/
theorem toList_enqueue_perm (ready : ReadyQueue) (p : Proc) :
    (ready.enqueue p).toList.Perm (ready.toList ++ [{ p with state := .ready }]) := by
  obtain ⟨before, after, h⟩ := List.append_of_mem (List.mem_finRange p.priority)
  obtain ⟨hbefore, hafter⟩ := ne_of_finRange_eq h
  simp only [toList_eq_flatMap, h, enqueue, List.flatMap_append, List.flatMap_cons,
    flatMap_set_of_ne hbefore, flatMap_set_of_ne hafter, Vector.getElem_set_self, Queue.enqueue,
    List.append_assoc]
  exact .append_left _ (.append_left _ List.perm_append_comm)

/-- What is taken is the first record in order of service. -/
theorem toList_of_dequeue {ready rest : ReadyQueue} {p : Proc}
    (h : ready.dequeue = some (p, rest)) : ready.toList = p :: rest.toList := by
  obtain ⟨before, level, after, hsplit, hlevel, hnone⟩ := List.findSome?_eq_some_iff.1 h
  obtain ⟨hbefore, hafter⟩ := ne_of_finRange_eq hsplit
  have hempty : (before.flatMap fun l => ready.levels[l.val]) = [] := by
    rw [List.flatMap_eq_nil_iff]
    intro l hl
    have := hnone l hl
    unfold dequeueLevel at this
    cases hq : ready.levels[l.val] with
    | nil => rfl
    | cons x q => simp [hq, Queue.dequeue] at this
  unfold dequeueLevel at hlevel
  cases hq : ready.levels[level.val] with
  | nil => simp [hq, Queue.dequeue] at hlevel
  | cons x q =>
    simp only [hq, Queue.dequeue, Option.map_some, Option.some.injEq, Prod.mk.injEq] at hlevel
    obtain ⟨rfl, rfl⟩ := hlevel
    simp only [toList_eq_flatMap, hsplit, List.flatMap_append, List.flatMap_cons, hempty, hq,
      flatMap_set_of_ne hbefore, flatMap_set_of_ne hafter, Vector.getElem_set_self,
      List.nil_append, List.cons_append]

theorem dequeue_eq_none_iff (ready : ReadyQueue) :
    ready.dequeue = none ↔ ready.toList = [] := by
  simp only [dequeue, List.findSome?_eq_none_iff, toList_eq_flatMap, List.flatMap_eq_nil_iff]
  refine forall_congr' fun level => imp_congr_right fun _ => ?_
  unfold dequeueLevel
  cases ready.levels[level.val] <;> simp [Queue.dequeue]

end ReadyQueue
end Mlfq
