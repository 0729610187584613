/-! # Registries

A registry keeps values under keys, in the order in which the keys were added. Its users hand out
keys in increasing order, so that a listing is also in order of the keys. -/

namespace Mlfq

/-- Values under keys, oldest first. -/
structure Registry (κ : Type) (α : Type) where
  entries : List (κ × α) := []

namespace Registry

variable {κ α : Type} [DecidableEq κ]

/-- The value under a key. -/
def get? (r : Registry κ α) (k : κ) : Option α := r.entries.lookup k

/-- Adds a value under a key behind the others. -/
def add (r : Registry κ α) (k : κ) (a : α) : Registry κ α := ⟨r.entries ++ [(k, a)]⟩

/-- Replaces the value under a key; a key that is not there stays so. -/
def set (r : Registry κ α) (k : κ) (a : α) : Registry κ α :=
  ⟨r.entries.map fun e => if e.1 = k then (k, a) else e⟩

/-- Removes a key and its value. -/
def erase (r : Registry κ α) (k : κ) : Registry κ α := ⟨r.entries.filter fun e => e.1 ≠ k⟩

/-- The keys, oldest first. -/
def keys (r : Registry κ α) : List κ := r.entries.map (·.1)

/-- The values, oldest first. -/
def values (r : Registry κ α) : List α := r.entries.map (·.2)

/-- The number of keys. -/
def size (r : Registry κ α) : Nat := r.entries.length

omit [DecidableEq κ] in
@[simp] theorem keys_add (r : Registry κ α) (k : κ) (a : α) : (r.add k a).keys = r.keys ++ [k] := by
  simp [keys, add]

@[simp] theorem keys_set (r : Registry κ α) (k : κ) (a : α) : (r.set k a).keys = r.keys := by
  simp only [keys, set, List.map_map]
  apply List.map_congr_left
  intro e _
  simp only [Function.comp]
  split <;> simp_all

@[simp] theorem keys_erase (r : Registry κ α) (k : κ) :
    (r.erase k).keys = r.keys.filter (· ≠ k) := by
  simp [keys, erase, List.filter_map, Function.comp_def]

/-- The first entry of a list of entries decides on its own key. -/
theorem lookup_cons (e : κ × α) (es : List (κ × α)) (k : κ) :
    (e :: es).lookup k = if k = e.1 then some e.2 else es.lookup k := by
  obtain ⟨l, a⟩ := e
  rw [List.lookup_cons]
  by_cases h : k = l
  · simp [h]
  · rw [beq_eq_false_iff_ne.2 h, if_neg h]

theorem get?_eq_none_iff {r : Registry κ α} {k : κ} : r.get? k = none ↔ k ∉ r.keys := by
  obtain ⟨es⟩ := r
  simp only [get?, keys]
  induction es with
  | nil => simp
  | cons e es ih =>
    rw [lookup_cons, List.map_cons, List.mem_cons, not_or, ← ih]
    split <;> simp_all

/-- A new key gets its value, and the others keep theirs. -/
theorem get?_add {r : Registry κ α} {k : κ} (h : k ∉ r.keys) (a : α) (l : κ) :
    (r.add k a).get? l = if l = k then some a else r.get? l := by
  obtain ⟨es⟩ := r
  simp only [get?, add, keys] at *
  induction es with
  | nil => rw [List.nil_append, lookup_cons]
  | cons e es ih =>
    rw [List.map_cons, List.mem_cons, not_or] at h
    rw [List.cons_append, lookup_cons, lookup_cons, ih h.2]
    split
    · rw [if_neg fun e' : l = k => h.1 (e'.symm.trans ‹l = e.1›)]
    · rfl

/-- A key that is there gets the new value, and the others keep theirs. -/
theorem get?_set {r : Registry κ α} {k : κ} (h : k ∈ r.keys) (a : α) (l : κ) :
    (r.set k a).get? l = if l = k then some a else r.get? l := by
  obtain ⟨es⟩ := r
  have hother : l ≠ k →
      (es.map fun e => if e.1 = k then (k, a) else e).lookup l = es.lookup l := by
    intro hl
    clear h
    induction es with
    | nil => rfl
    | cons e es ih =>
      rw [List.map_cons, lookup_cons, lookup_cons, ih]
      by_cases he : e.1 = k
      · simp [he, hl]
      · simp [he]
  have hself : (es.map fun e => if e.1 = k then (k, a) else e).lookup k = some a := by
    simp only [keys] at h
    clear hother
    induction es with
    | nil => simp at h
    | cons e es ih =>
      rw [List.map_cons, lookup_cons]
      by_cases he : e.1 = k
      · simp [he]
      · rw [List.map_cons, List.mem_cons] at h
        simp [he, Ne.symm he, ih (h.resolve_left (Ne.symm he))]
  simp only [get?, set]
  split
  · rwa [‹l = k›]
  · exact hother ‹_›

/-- An erased key has no value, and the others keep theirs. -/
theorem get?_erase (r : Registry κ α) (k l : κ) :
    (r.erase k).get? l = if l = k then none else r.get? l := by
  obtain ⟨es⟩ := r
  simp only [get?, erase]
  induction es with
  | nil => simp
  | cons e es ih =>
    by_cases he : e.1 = k
    · rw [List.filter_cons_of_neg (by simp [he]), ih, lookup_cons, he]
      split <;> simp_all
    · rw [List.filter_cons_of_pos (by simp [he]), lookup_cons, lookup_cons, ih]
      split
      · rw [if_neg fun e' => he (by rw [← e', ‹l = e.1›])]
      · rfl

end Registry
end Mlfq
