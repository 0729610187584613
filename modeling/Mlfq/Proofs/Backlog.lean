import Mathlib.Data.List.Sort
import Mlfq.ReadyQueue

/-! # The ready queue as one list

A backlog is the list of the records that wait, in the order in which they were queued. It says
what is served next without any levels: the oldest record of the numerically lowest level present.
The multilevel queue answers every call as the backlog does, whatever calls came before. -/

namespace Mlfq

/-- Whether the level of `p` is not served after that of `q`. -/
def Proc.notAfter (p q : Proc) : Bool := p.priority ≤ q.priority

theorem Proc.notAfter_trans (p q r : Proc) (h : p.notAfter q) (h' : q.notAfter r) :
    p.notAfter r :=
  decide_eq_true (le_trans (of_decide_eq_true h) (of_decide_eq_true h'))

theorem Proc.notAfter_total (p q : Proc) : p.notAfter q || q.notAfter p := by
  simpa [notAfter] using le_total p.priority q.priority

/-- The records that wait, in the order in which they were queued. -/
abbrev Backlog := List Proc

namespace Backlog

/-- Marks the record as ready and adds it behind all others. -/
def enqueue (b : Backlog) (p : Proc) : Backlog := b ++ [{ p with state := .ready }]

/-- Whether the level of `p` is the numerically lowest one of the backlog. -/
def isDue (b : Backlog) (p : Proc) : Bool := b.all p.notAfter

/-- The oldest record of the numerically lowest level present. -/
def next? (b : Backlog) : Option Proc := b.find? b.isDue

/-- The backlog without that record. -/
def served (b : Backlog) : Backlog := b.eraseP b.isDue

/-- The stable sort of the backlog by level. -/
def sorted (b : Backlog) : List Proc := b.mergeSort Proc.notAfter

/-- The stable sort of the backlog, with all records moved to the highest priority. -/
def raised (b : Backlog) : Backlog := b.sorted.map fun p => { p with priority := .highest }

end Backlog

namespace ReadyQueue

/-- A call of a ready queue. -/
inductive Call where
  | enqueue (p : Proc)
  | dequeue
  | peek
  | length
  | isEmpty
  | toList
  | resetPriorities

/-- What a call returns. -/
inductive Answer where
  | done
  | record (p? : Option Proc)
  | number (n : Nat)
  | verdict (holds : Bool)
  | records (ps : List Proc)

/-- The answer of the queue to a call, and the queue after it. -/
def call (ready : ReadyQueue) : Call → Answer × ReadyQueue
  | .enqueue p => (.done, ready.enqueue p)
  | .dequeue =>
    match ready.dequeue with
    | none => (.record none, ready)
    | some (p, rest) => (.record (some p), rest)
  | .peek => (.record ready.peek, ready)
  | .length => (.number ready.length, ready)
  | .isEmpty => (.verdict ready.isEmpty, ready)
  | .toList => (.records ready.toList, ready)
  | .resetPriorities => (.done, ready.resetPriorities)

/-- The answers of the queue to calls made one after the other, and the queue after them. -/
def calls (ready : ReadyQueue) : List Call → List Answer × ReadyQueue
  | [] => ([], ready)
  | c :: cs =>
    let (answer, next) := ready.call c
    let (answers, last) := next.calls cs
    (answer :: answers, last)

end ReadyQueue

namespace Backlog

open ReadyQueue (Call Answer)

/-- The answer of the backlog to a call, and the backlog after it. -/
def call (b : Backlog) : Call → Answer × Backlog
  | .enqueue p => (.done, b.enqueue p)
  | .dequeue => (.record b.next?, b.served)
  | .peek => (.record b.next?, b)
  | .length => (.number (List.length b), b)
  | .isEmpty => (.verdict (List.isEmpty b), b)
  | .toList => (.records b.sorted, b)
  | .resetPriorities => (.done, b.raised)

/-- The answers of the backlog to calls made one after the other, and the backlog after them. -/
def calls (b : Backlog) : List Call → List Answer × Backlog
  | [] => ([], b)
  | c :: cs =>
    let (answer, next) := b.call c
    let (answers, last) := calls next cs
    (answer :: answers, last)

/-- The records of one level, oldest first. -/
def onLevel (b : Backlog) (level : Priority) : List Proc := b.filter (·.priority = level)

variable {b c : Backlog} {p : Proc} {level : Priority}

theorem mem_onLevel : p ∈ b.onLevel level ↔ p ∈ b ∧ p.priority = level := by
  simp [onLevel]

theorem onLevel_eq_nil (h : ∀ p ∈ b, p.priority ≠ level) : b.onLevel level = [] :=
  List.filter_eq_nil_iff.2 fun p hp => by simpa using h p hp

theorem pairwise_onLevel (b : Backlog) (level : Priority) :
    (b.onLevel level).Pairwise (·.notAfter ·) :=
  List.pairwise_of_forall_mem_list fun p hp q hq => decide_eq_true <| by
    rw [(mem_onLevel.1 hp).2, (mem_onLevel.1 hq).2]

theorem onLevel_append (b c : Backlog) (level : Priority) :
    onLevel (b ++ c) level = b.onLevel level ++ c.onLevel level :=
  List.filter_append b c

theorem onLevel_cons (p : Proc) (b : Backlog) (level : Priority) :
    onLevel (p :: b) level =
      if p.priority = level then p :: b.onLevel level else b.onLevel level := by
  simp [onLevel, List.filter_cons]

/-- The records of a level among those of `other`. -/
theorem onLevel_onLevel (b : Backlog) (level other : Priority) :
    onLevel (b.onLevel other) level = if other = level then b.onLevel level else [] := by
  split
  · next same => simp [onLevel, same]
  · next differs => exact onLevel_eq_nil fun p hp => (mem_onLevel.1 hp).2 ▸ differs

/-- The records of all levels, level by level. -/
theorem onLevel_levels (b : Backlog) (level : Priority) :
    onLevel ((List.finRange 16).flatMap b.onLevel) level = b.onLevel level := by
  obtain ⟨before, after, split⟩ := List.append_of_mem (List.mem_finRange level)
  obtain ⟨hbefore, hafter⟩ := ReadyQueue.ne_of_finRange_eq split
  have others : ∀ levels : List Priority, (∀ l ∈ levels, l ≠ level) →
      onLevel (levels.flatMap b.onLevel) level = [] := by
    intro levels ne
    refine onLevel_eq_nil fun p hp => ?_
    obtain ⟨l, hl, hp⟩ := List.mem_flatMap.1 hp
    exact (mem_onLevel.1 hp).2 ▸ ne l hl
  rw [split, List.flatMap_append, List.flatMap_cons, onLevel_append, onLevel_append,
    others before hbefore, others after hafter, onLevel_onLevel, if_pos rfl, List.nil_append,
    List.append_nil]

/-- The records of all levels are in order of level. -/
theorem pairwise_levels (b : Backlog) :
    ((List.finRange 16).flatMap b.onLevel).Pairwise (·.notAfter ·) := by
  refine List.pairwise_flatMap.2 ⟨fun level _ => b.pairwise_onLevel level, ?_⟩
  refine (List.pairwise_lt_finRange 16).imp fun lt p hp q hq => decide_eq_true ?_
  rw [(mem_onLevel.1 hp).2, (mem_onLevel.1 hq).2]
  exact lt.le

/-! ## Sorting by level -/

theorem mem_iff_of_onLevel_eq (h : ∀ level, b.onLevel level = c.onLevel level) (p : Proc) :
    p ∈ b ↔ p ∈ c := by
  simpa [mem_onLevel] using congrArg (p ∈ ·) (h p.priority)

/-- In a list in order of level no record has a lower level than the head. -/
theorem head_notAfter (h : (p :: b).Pairwise (·.notAfter ·)) {q : Proc} (hq : q ∈ p :: b) :
    p.priority ≤ q.priority := by
  rcases List.mem_cons.1 hq with rfl | hq
  · exact le_rfl
  · exact of_decide_eq_true ((List.pairwise_cons.1 h).1 q hq)

/-- Two lists in order of level are equal if they are so level by level. -/
theorem eq_of_onLevel_eq (hb : b.Pairwise (·.notAfter ·)) (hc : c.Pairwise (·.notAfter ·))
    (h : ∀ level, b.onLevel level = c.onLevel level) : b = c := by
  have mem := mem_iff_of_onLevel_eq h
  induction b generalizing c with
  | nil => exact (List.eq_nil_iff_forall_not_mem.2 fun q hq => by simpa using (mem q).2 hq).symm
  | cons p b ih =>
    cases c with
    | nil => simpa using (mem p).1 List.mem_cons_self
    | cons q c =>
      have level : p.priority = q.priority :=
        le_antisymm (head_notAfter hb ((mem q).2 List.mem_cons_self))
          (head_notAfter hc ((mem p).1 List.mem_cons_self))
      -- each head is the oldest record of this level
      have heads := h q.priority
      simp only [onLevel_cons, level, if_pos, List.cons.injEq] at heads
      obtain ⟨rfl, -⟩ := heads
      have tails : ∀ level, onLevel b level = onLevel c level := by
        intro l
        have lists := h l
        simp only [onLevel_cons] at lists
        split at lists
        · exact (List.cons.inj lists).2
        · exact lists
      rw [ih hb.of_cons hc.of_cons tails (mem_iff_of_onLevel_eq tails)]

theorem sorted_perm (b : Backlog) : b.sorted.Perm b := List.mergeSort_perm b _

theorem sorted_eq_nil : b.sorted = [] ↔ b = [] := by
  rw [← List.length_eq_zero_iff, b.sorted_perm.length_eq, List.length_eq_zero_iff]

theorem pairwise_sorted (b : Backlog) : b.sorted.Pairwise (·.notAfter ·) :=
  List.pairwise_mergeSort Proc.notAfter_trans Proc.notAfter_total b

/-- The sort keeps the order inside each level. -/
theorem onLevel_sorted (b : Backlog) (level : Priority) :
    onLevel b.sorted level = b.onLevel level := by
  have kept : (b.onLevel level).Sublist b.sorted :=
    List.sublist_mergeSort Proc.notAfter_trans Proc.notAfter_total (b.pairwise_onLevel level)
      List.filter_sublist
  have sub := kept.filter (·.priority = level)
  simp only [onLevel, List.filter_filter, Bool.and_self] at sub
  exact (sub.eq_of_length (b.sorted_perm.filter _).length_eq.symm).symm

/-! ## What is served next -/

theorem isDue_iff : b.isDue p = true ↔ ∀ q ∈ b, p.priority ≤ q.priority := by
  simp [isDue, Proc.notAfter]

/-- In a backlog with records some level is the lowest. -/
theorem exists_isDue (waiting : b ≠ []) : ∃ p ∈ b, b.isDue p = true := by
  cases order : b.sorted with
  | nil => exact absurd (sorted_eq_nil.1 order) waiting
  | cons p rest =>
    have mem : ∀ q, q ∈ p :: rest ↔ q ∈ b := fun q => order ▸ b.sorted_perm.mem_iff
    refine ⟨p, (mem p).1 List.mem_cons_self, isDue_iff.2 fun q hq => ?_⟩
    exact head_notAfter (order ▸ b.pairwise_sorted) ((mem q).2 hq)

/-- The record that is served next: those queued before it have a higher level, and those queued
after it do not have a lower one. -/
theorem exists_split (waiting : b ≠ []) : ∃ before p after, b = before ++ p :: after ∧
    b.next? = some p ∧ b.served = before ++ after ∧
    (∀ q ∈ before, p.priority < q.priority) ∧ ∀ q ∈ after, p.priority ≤ q.priority := by
  obtain ⟨x, hx, hdue⟩ := exists_isDue waiting
  obtain ⟨p, before, after, passed, due, split, rest⟩ := List.exists_of_eraseP hx hdue
  have first : b.next? = some p := by
    rw [next?, List.find?_eq_some_iff_append]
    exact ⟨due, before, after, split, fun q hq => by simpa using passed q hq⟩
  rw [isDue_iff] at due
  refine ⟨before, p, after, split, first, rest, fun q hq => ?_, fun q hq => ?_⟩
  · by_contra level
    refine passed q hq (isDue_iff.2 fun r hr => ?_)
    exact (not_lt.1 level).trans (due r hr)
  · exact due q (split ▸ List.mem_append_right _ (List.mem_cons_of_mem _ hq))

/-- What the operations of a backlog stand for. -/
structure Lawful (b : Backlog) : Prop where
  /-- Nothing is served next exactly if nothing waits. -/
  next_none : b.next? = none ↔ b = []
  /-- The record served next is the oldest of the lowest level, and no other record goes with
  it. -/
  next_some : ∀ p, b.next? = some p → ∃ before after, b = before ++ p :: after ∧
    b.served = before ++ after ∧
    (∀ q ∈ before, p.priority < q.priority) ∧ ∀ q ∈ after, p.priority ≤ q.priority
  /-- The sort is by level. -/
  sorted : b.sorted.Pairwise (·.priority ≤ ·.priority)
  /-- The sort is stable. -/
  stable : ∀ level, onLevel b.sorted level = b.onLevel level
  /-- A reset changes the priorities alone; no record is lost or doubled. -/
  raised : b.raised.Perm (b.map fun p => { p with priority := .highest })

theorem lawful (b : Backlog) : b.Lawful := by
  have nothing : next? [] = none := rfl
  constructor
  · constructor
    · intro none
      by_contra waiting
      obtain ⟨-, p, -, -, some, -⟩ := exists_split waiting
      rw [some] at none
      cases none
    · rintro rfl
      exact nothing
  · intro p first
    have waiting : b ≠ [] := by
      rintro rfl
      rw [nothing] at first
      cases first
    obtain ⟨before, q, after, split, first', rest⟩ := exists_split waiting
    rw [first'] at first
    cases first
    exact ⟨before, after, split, rest⟩
  · exact b.pairwise_sorted.imp of_decide_eq_true
  · exact b.onLevel_sorted
  · exact b.sorted_perm.map _

/-! ## What is stored -/

/-- The record is one of those that the calls queued, marked as ready. Only its priority may have
been reset since. -/
def Stored (cs : List Call) (p : Proc) : Prop :=
  ∃ q, Call.enqueue q ∈ cs ∧
    (p = { q with state := .ready } ∨ p = { q with state := .ready, priority := .highest })

theorem stored_call {cs : List Call} {c : Call} (h : ∀ p ∈ b, Stored cs p) (mem : c ∈ cs) :
    ∀ p ∈ (b.call c).2, Stored cs p := by
  intro p hp
  cases c with
  | enqueue q =>
    rcases List.mem_append.1 hp with old | new
    · exact h p old
    · exact ⟨q, mem, .inl (List.mem_singleton.1 new)⟩
  | dequeue => exact h p (List.mem_of_mem_eraseP hp)
  | peek | length | isEmpty | toList => exact h p hp
  | resetPriorities =>
    obtain ⟨x, hx, rfl⟩ := List.mem_map.1 hp
    obtain ⟨q, queued, rfl | rfl⟩ := h x (b.sorted_perm.mem_iff.1 hx) <;>
      exact ⟨q, queued, .inr rfl⟩

theorem stored_calls {cs : List Call} (h : ∀ p ∈ b, Stored cs p) (later : List Call)
    (sub : ∀ c ∈ later, c ∈ cs) : ∀ p ∈ (b.calls later).2, Stored cs p := by
  induction later generalizing b with
  | nil => exact h
  | cons c later ih =>
    exact ih (stored_call h (sub c List.mem_cons_self)) fun x hx =>
      sub x (List.mem_cons_of_mem _ hx)

end Backlog

namespace ReadyQueue

open Backlog

/-- The queue holds the records of the backlog, each level in its order. -/
def Realizes (ready : ReadyQueue) (b : Backlog) : Prop :=
  ∀ level : Priority, ready.levels.get level = b.onLevel level

variable {ready rest : ReadyQueue} {b : Backlog} {p : Proc}

theorem realizes_empty : empty.Realizes [] := by
  intro level
  show (Vector.replicate 16 [])[level.val] = _
  simp [onLevel]

/-- The first level with a record is served, and the others stay. -/
theorem dequeue_of_level {level : Priority} {q : Queue}
    (found : ready.levels.get level = p :: q)
    (lower : ∀ l < level, ready.levels.get l = []) :
    ∃ rest, ready.dequeue = some (p, rest) ∧
      ∀ l, rest.levels.get l = if level = l then q else ready.levels.get l := by
  have found : ready.levels[level.val] = p :: q := found
  have lower : ∀ l < level, ready.levels[l.val] = [] := lower
  obtain ⟨before, after, split⟩ := List.append_of_mem (List.mem_finRange level)
  have sorted := List.pairwise_lt_finRange 16
  rw [split, List.pairwise_append] at sorted
  refine ⟨⟨ready.levels.set level.val q⟩, ?_, fun l => ?_⟩
  · refine List.findSome?_eq_some_iff.2 ⟨before, level, after, split, ?_, fun l hl => ?_⟩
    · simp [dequeueLevel, found, Queue.dequeue]
    · simp [dequeueLevel, lower l (sorted.2.2 l hl level List.mem_cons_self), Queue.dequeue]
  · show (ready.levels.set level.val q)[l.val] = _
    rw [Vector.getElem_set]
    exact if_congr Fin.val_inj rfl rfl

/-- A record is queued behind the others of its level. -/
theorem levels_enqueue (ready : ReadyQueue) (p : Proc) (level : Priority) :
    (ready.enqueue p).levels.get level =
      ready.levels.get level ++ onLevel [{ p with state := .ready }] level := by
  show (ready.levels.set p.priority.val _)[level.val] = ready.levels[level.val] ++ _
  simp only [Vector.getElem_set, Fin.val_inj, onLevel_cons]
  split
  · next same => simp [Queue.enqueue, same, onLevel]
  · simp [onLevel]

/-- Records queued one after the other keep their order in each level. -/
theorem levels_enqueueAll (ready : ReadyQueue) (ps : Queue) (level : Priority) :
    (ready.enqueueAll ps).levels.get level = ready.levels.get level ++
      (onLevel ps level).map fun p => { p with state := .ready } := by
  unfold enqueueAll
  induction ps generalizing ready with
  | nil => simp [onLevel]
  | cons p ps ih =>
    rw [List.foldl_cons, ih, levels_enqueue, List.append_assoc, onLevel_cons, onLevel_cons]
    split <;> rfl

namespace Realizes

theorem enqueue (h : ready.Realizes b) (p : Proc) : (ready.enqueue p).Realizes (b.enqueue p) := by
  intro level
  rw [levels_enqueue, h level, Backlog.enqueue, onLevel_append]

/-- In order of service the records are in the stable order by level. -/
theorem toList_eq (h : ready.Realizes b) : ready.toList = b.sorted := by
  have levels : ready.toList = (List.finRange 16).flatMap b.onLevel := by
    rw [toList_eq_flatMap]
    exact congrArg (List.flatMap · _) (funext h)
  rw [levels]
  refine eq_of_onLevel_eq b.pairwise_levels b.pairwise_sorted fun level => ?_
  rw [onLevel_levels, onLevel_sorted]

theorem resetPriorities (h : ready.Realizes b) : ready.resetPriorities.Realizes b.raised := by
  intro level
  have priority : ∀ q ∈ b.raised, q.priority = .highest := by
    intro q hq
    obtain ⟨p, -, rfl⟩ := List.mem_map.1 hq
    rfl
  show ((Vector.replicate 16 []).set Priority.highest.val _)[level.val] = _
  simp only [Vector.getElem_set, Vector.getElem_replicate, h.toList_eq, Fin.val_inj]
  split
  · next same =>
    subst same
    exact (List.filter_eq_self.2 fun q hq => decide_eq_true (priority q hq)).symm
  · next differs => exact (onLevel_eq_nil fun q hq => priority q hq ▸ differs).symm

/-- The oldest record of the numerically lowest level present is taken. -/
theorem dequeue (h : ready.Realizes b) (waiting : b ≠ []) :
    ∃ p rest, ready.dequeue = some (p, rest) ∧ b.next? = some p ∧ rest.Realizes b.served := by
  obtain ⟨before, p, after, rfl, first, served, higher, notLower⟩ := exists_split waiting
  have passed : onLevel before p.priority = [] := onLevel_eq_nil fun q hq => (higher q hq).ne'
  have found : ready.levels.get p.priority = p :: onLevel after p.priority := by
    rw [h, onLevel_append, onLevel_cons, passed, if_pos rfl, List.nil_append]
  have lower : ∀ l < p.priority, ready.levels.get l = [] := by
    intro l hl
    rw [h]
    refine onLevel_eq_nil fun q hq => ?_
    rcases List.mem_append.1 hq with hq | hq
    · exact (hl.trans (higher q hq)).ne'
    · rcases List.mem_cons.1 hq with rfl | hq
      · exact hl.ne'
      · exact (hl.trans_le (notLower q hq)).ne'
  obtain ⟨rest, taken, levels⟩ := dequeue_of_level found lower
  refine ⟨p, rest, taken, first, fun level => ?_⟩
  rw [levels, served, onLevel_append]
  split
  · next same => rw [← same, passed, List.nil_append]
  · next differs => rw [h, onLevel_append, onLevel_cons, if_neg differs]

theorem dequeue_nil (h : ready.Realizes []) : ready.dequeue = none := by
  rw [dequeue_eq_none_iff, h.toList_eq, sorted_eq_nil]

theorem peek (h : ready.Realizes b) : ready.peek = b.next? := by
  by_cases waiting : b = []
  · subst waiting
    rw [ReadyQueue.peek, h.toList_eq, sorted_eq_nil.2 rfl]
    rfl
  · obtain ⟨p, rest, taken, first, -⟩ := h.dequeue waiting
    rw [ReadyQueue.peek, toList_of_dequeue taken, first, List.head?_cons]

theorem length (h : ready.Realizes b) : ready.length = List.length b := by
  rw [ReadyQueue.length, h.toList_eq]
  exact b.sorted_perm.length_eq

theorem isEmpty (h : ready.Realizes b) : ready.isEmpty = List.isEmpty b := by
  rw [Bool.eq_iff_iff, isEmpty_iff, h.toList_eq, sorted_eq_nil, List.isEmpty_iff]

/-- A call is answered as the backlog answers it. -/
theorem call (h : ready.Realizes b) (c : Call) :
    (ready.call c).1 = (b.call c).1 ∧ (ready.call c).2.Realizes (b.call c).2 := by
  cases c with
  | enqueue p => exact ⟨rfl, h.enqueue p⟩
  | dequeue =>
    by_cases waiting : b = []
    · subst waiting
      simp only [ReadyQueue.call, h.dequeue_nil]
      exact ⟨rfl, h⟩
    · obtain ⟨p, rest, taken, first, kept⟩ := h.dequeue waiting
      simp only [ReadyQueue.call, taken, Backlog.call, first]
      exact ⟨trivial, kept⟩
  | peek => exact ⟨congrArg Answer.record h.peek, h⟩
  | length => exact ⟨congrArg Answer.number h.length, h⟩
  | isEmpty => exact ⟨congrArg Answer.verdict h.isEmpty, h⟩
  | toList => exact ⟨congrArg Answer.records h.toList_eq, h⟩
  | resetPriorities => exact ⟨rfl, h.resetPriorities⟩

/-- Calls made one after the other are answered as the backlog answers them. -/
theorem calls (h : ready.Realizes b) (cs : List Call) :
    (ready.calls cs).1 = (b.calls cs).1 ∧ (ready.calls cs).2.Realizes (b.calls cs).2 := by
  induction cs generalizing ready b with
  | nil => exact ⟨rfl, h⟩
  | cons c cs ih =>
    obtain ⟨answer, kept⟩ := h.call c
    obtain ⟨answers, kept⟩ := ih kept
    exact ⟨congrArg₂ List.cons answer answers, kept⟩

end Realizes

/-- What calls of a new queue show. -/
structure RefinesBacklog (cs : List Call) : Prop where
  /-- All answers are those of the backlog. -/
  answers : (empty.calls cs).1 = (Backlog.calls [] cs).1
  /-- In the end each level holds the records of the backlog that have it, oldest first. -/
  levels : (empty.calls cs).2.Realizes (Backlog.calls [] cs).2
  /-- The backlog serves and sorts its records as it should. -/
  lawful : (Backlog.calls [] cs).2.Lawful
  /-- A record lies in the level of its priority and is ready, and otherwise it is as it was when
  it was queued. -/
  records : ∀ level : Priority, ∀ p ∈ (empty.calls cs).2.levels.get level,
    p.priority = level ∧ p.state = .ready ∧ Stored cs p

/-- A multilevel queue is a list that is served by level and then by age. -/
theorem refinesBacklog_of_calls (cs : List Call) : RefinesBacklog cs := by
  obtain ⟨answers, levels⟩ := realizes_empty.calls cs
  refine ⟨answers, levels, lawful _, fun level p hp => ?_⟩
  rw [levels level] at hp
  obtain ⟨mem, priority⟩ := mem_onLevel.1 hp
  have stored := stored_calls (b := []) (fun _ none => absurd none List.not_mem_nil) cs
    (fun _ hc => hc) p mem
  refine ⟨priority, ?_, stored⟩
  obtain ⟨q, -, rfl | rfl⟩ := stored <;> rfl

end ReadyQueue
end Mlfq
