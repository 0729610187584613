import Mlfq.Fault

/-! # Machine words

Program counters, quanta and wrap counts are 32-bit words, kept here as natural numbers below
`Word.limit`. Arithmetic that has to stay in range is of two kinds: `Word.succ` faults at the
end of the range, `Word.satAdd` and `Word.satMul` stay at its largest element. -/

namespace Mlfq.Word

/-- Words are the natural numbers below this bound. -/
def limit : Nat := 4294967296

/-- The largest word. -/
def max : Nat := 4294967295

/-- The next word. The largest word has none. -/
def succ (n : Nat) : Except Fault Nat :=
  if n < max then .ok (n + 1) else .error .addOverflow

/-- Addition that stops at the largest word. -/
def satAdd (a b : Nat) : Nat := min (a + b) max

/-- Multiplication that stops at the largest word. -/
def satMul (a b : Nat) : Nat := min (a * b) max

theorem succ_eq_ok_iff {n k : Nat} : succ n = .ok k ↔ n < max ∧ k = n + 1 := by
  unfold succ; split
  · simp_all [eq_comm]
  · simp; omega

theorem succ_of_lt {n : Nat} (h : n < max) : succ n = .ok (n + 1) := by simp [succ, h]

theorem satAdd_of_le {a b : Nat} (h : a + b ≤ max) : satAdd a b = a + b := Nat.min_eq_left h

end Mlfq.Word
