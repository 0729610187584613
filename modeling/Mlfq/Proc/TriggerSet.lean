import Mlfq.Fault

/-! # Trigger sets

A trigger set holds the program-counter values at which a process raises a trap. It is kept in
ascending order without repetition, so that its `i`-th point is well defined. -/

namespace Mlfq

/-- Program-counter values in ascending order. -/
structure TriggerSet where
  points : List Nat
  ascending : points.Pairwise (· < ·)

namespace TriggerSet

/-- Adds a point to an ascending list, unless it is there already. -/
def insertPoint (p : Nat) : List Nat → List Nat
  | [] => [p]
  | q :: qs => if p < q then p :: q :: qs else if p = q then q :: qs else q :: insertPoint p qs

theorem mem_insertPoint {p x : Nat} {qs : List Nat} :
    x ∈ insertPoint p qs ↔ x = p ∨ x ∈ qs := by
  induction qs with
  | nil => simp [insertPoint]
  | cons q qs ih =>
    unfold insertPoint
    split
    · simp
    · split
      · simp_all
      · rw [List.mem_cons, List.mem_cons, ih, or_left_comm]

theorem pairwise_insertPoint {p : Nat} {qs : List Nat} (h : qs.Pairwise (· < ·)) :
    (insertPoint p qs).Pairwise (· < ·) := by
  induction qs with
  | nil => simp [insertPoint]
  | cons q qs ih =>
    rw [List.pairwise_cons] at h
    unfold insertPoint
    split
    · refine List.pairwise_cons.2 ⟨fun x hx => ?_, List.pairwise_cons.2 h⟩
      rcases List.mem_cons.1 hx with rfl | hx
      · assumption
      · have := h.1 x hx; omega
    · split
      · exact List.pairwise_cons.2 h
      · refine List.pairwise_cons.2 ⟨fun x hx => ?_, ih h.2⟩
        rcases mem_insertPoint.1 hx with rfl | hx
        · omega
        · exact h.1 x hx

theorem pairwise_foldr_insertPoint (points : List Nat) :
    (points.foldr insertPoint []).Pairwise (· < ·) := by
  induction points with
  | nil => exact .nil
  | cons _ _ ih => exact pairwise_insertPoint ih

/-- The set of the given points. -/
def ofList (points : List Nat) : TriggerSet :=
  ⟨points.foldr insertPoint [], pairwise_foldr_insertPoint points⟩

/-- Whether `pc` is one of the points. -/
def contains (set : TriggerSet) (pc : Nat) : Bool := set.points.contains pc

/-- Whether there is no point. -/
def isEmpty (set : TriggerSet) : Bool := set.points.isEmpty

/-- Point number `i` in ascending order. Asking past the last point is a fault. -/
def point (set : TriggerSet) (i : Nat) : Except Fault Nat :=
  match set.points[i]? with
  | some p => .ok p
  | none => .error (.indexOutOfBounds set.points.length i)

@[simp] theorem contains_ofList {points : List Nat} {pc : Nat} :
    (ofList points).contains pc = true ↔ pc ∈ points := by
  simp only [contains, ofList, List.contains_iff_mem]
  induction points with
  | nil => simp
  | cons p ps ih => simp [mem_insertPoint, ih]

end TriggerSet
end Mlfq
