import Mlfq.Machine.Traps

/-! # Quanta without a limit

The arithmetic of quanta stops at the largest word, and so does the check that no quantum is too
long. A quantum that has stopped there is too long all the same, so that the check refuses the
configurations whose longest quantum is too long without a limit, and no others. In a configuration
that is not refused nothing stops at the largest word. -/

namespace Mlfq

/-- A product and a sum that stop at the largest word stop there once. -/
theorem Word.satAdd_satMul (a b k : Nat) :
    Word.satAdd (Word.satMul a k) b = min (a * k + b) Word.max := by
  rw [satAdd, satMul]
  omega

namespace Config

variable {c : Config}

/-- The quantum of a level if there were no largest word. -/
def unboundedQuantum (c : Config) (level : Nat) : Nat := c.baseQuantum + c.quantumStep * level

/-- A quantum is the unbounded one, or the largest word. -/
theorem quantum_eq_min (c : Config) (level : Priority) :
    c.quantum level.val = min (c.unboundedQuantum level.val) Word.max := by
  have word : level.val % Word.limit = level.val :=
    Nat.mod_eq_of_lt (Nat.lt_trans level.isLt (by decide))
  rw [quantum, word, Word.satAdd_satMul, unboundedQuantum, Nat.add_comm]

/-- Whether a quantum is too long does not depend on where it stops. -/
theorem maxQuantum_lt_quantum_iff (c : Config) (level : Priority) :
    maxQuantum < c.quantum level.val ↔ maxQuantum < c.unboundedQuantum level.val := by
  have short : maxQuantum < Word.max := by decide
  rw [quantum_eq_min]
  omega

/-! ## Configurations without a defect -/

section

variable (valid : c.defect? = none)

include valid

/-- The quanta of a configuration without a defect are short even without a limit. -/
theorem unboundedQuantum_le (level : Priority) : c.unboundedQuantum level.val ≤ maxQuantum := by
  have short : ¬maxQuantum < c.quantum 15 := of_decide_eq_false (check_eq_false valid 4 rfl)
  have longest : c.unboundedQuantum 15 ≤ maxQuantum :=
    Nat.le_of_not_lt fun long => short ((maxQuantum_lt_quantum_iff c .lowest).2 long)
  refine Nat.le_trans (Nat.add_le_add_left (Nat.mul_le_mul_left _ ?_) _) longest
  exact Nat.le_of_lt_succ level.isLt

/-- No quantum of a configuration without a defect stops at the largest word. -/
theorem quantum_eq (level : Priority) : c.quantum level.val = c.unboundedQuantum level.val := by
  have fits : maxQuantum ≤ Word.max := by decide
  rw [quantum_eq_min, Nat.min_eq_left (Nat.le_trans (unboundedQuantum_le valid level) fits)]

theorem quantum_le_maxQuantum (level : Priority) : c.quantum level.val ≤ maxQuantum := by
  rw [quantum_eq valid]
  exact unboundedQuantum_le valid level

/-- A quantum leaves room for any time that can be drawn. -/
theorem satAdd_quantum (level : Priority) {n : Nat} (below : n < 100) :
    Word.satAdd (c.quantum level.val) (10 + n) = c.quantum level.val + 10 + n := by
  have short := quantum_le_maxQuantum valid level
  have fits : maxQuantum + 109 ≤ Word.max := by decide
  rw [Word.satAdd_of_le (by omega), Nat.add_assoc]

/-- A configuration without a defect has a quantum at its highest level. -/
theorem baseQuantum_pos : 1 ≤ c.baseQuantum :=
  Nat.pos_of_ne_zero (beq_eq_false_iff_ne.1 (check_eq_false valid 3 rfl))

theorem resetMultiple_pos : 1 ≤ c.resetMultiple :=
  Nat.pos_of_ne_zero (beq_eq_false_iff_ne.1 (check_eq_false valid 6 rfl))

theorem resetInterval_lt (word : c.resetMultiple < Word.limit) :
    c.resetInterval < 18446744073709551616 := by
  have short : c.quantum 8 ≤ maxQuantum := quantum_le_maxQuantum valid 8
  calc c.resetInterval ≤ maxQuantum * Word.limit := Nat.mul_le_mul short (Nat.le_of_lt word)
    _ < 18446744073709551616 := by decide

end

/-! ## The check -/

/-- Nothing but the quantum of the lowest level can be wrong with the configuration. -/
def OnlyQuantum (c : Config) : Prop :=
  ∀ check ∈ c.checks, check.1 = true → check.2 = .quantumTooLong c.baseQuantum c.quantumStep

instance (c : Config) : Decidable c.OnlyQuantum :=
  inferInstanceAs (Decidable (∀ check ∈ c.checks, _))

/-- The check that can find this defect is the fifth. -/
theorem long_of_mem_checks {found : Bool} {base step : Nat}
    (h : (found, .quantumTooLong base step) ∈ c.checks) :
    found = decide (maxQuantum < c.quantum 15) := by
  simp only [checks, List.mem_cons, Prod.mk.injEq, reduceCtorEq, and_false, false_or,
    List.not_mem_nil, or_false] at h
  exact h.1

/-- If nothing else can be wrong, a configuration is refused if and only if its longest quantum is
too long. -/
theorem defect?_of_onlyQuantum (only : c.OnlyQuantum) :
    c.defect? = if maxQuantum < c.unboundedQuantum 15 then
      some (.quantumTooLong c.baseQuantum c.quantumStep) else none := by
  have too_long : maxQuantum < c.quantum 15 ↔ maxQuantum < c.unboundedQuantum 15 :=
    maxQuantum_lt_quantum_iff c .lowest
  cases first : c.checks.find? (·.1) with
  | none =>
    have valid : c.defect? = none := by rw [defect?, first]; rfl
    have short : ¬maxQuantum < c.quantum 15 := of_decide_eq_false (check_eq_false valid 4 rfl)
    rw [if_neg fun long => short (too_long.2 long), valid]
  | some check =>
    obtain ⟨found, defect⟩ := check
    have failed : found = true := List.find?_some first
    have mem := List.mem_of_find?_eq_some first
    obtain rfl : defect = _ := only _ mem failed
    have long : maxQuantum < c.quantum 15 :=
      of_decide_eq_true ((long_of_mem_checks mem).symm.trans failed)
    rw [if_pos (too_long.1 long), defect?, first]
    rfl

/-! ## What is computed from quanta -/

/-- Quanta, the time between two resets and the times of requests are what they would be if there
were no largest word. -/
structure IsExact (c : Config) : Prop where
  quantum_eq : ∀ level : Priority, c.quantum level.val = c.baseQuantum + c.quantumStep * level.val
  quantum_pos : ∀ level : Priority, 1 ≤ c.quantum level.val
  quantum_le : ∀ level : Priority, c.quantum level.val ≤ maxQuantum
  quantum_mono : ∀ low high : Priority, low ≤ high → c.quantum low.val ≤ c.quantum high.val
  resetInterval_eq : c.resetInterval = (c.baseQuantum + c.quantumStep * 8) * c.resetMultiple
  resetInterval_pos : 1 ≤ c.resetInterval
  resetInterval_lt : c.resetInterval < 18446744073709551616
  /-- The product of the two factors as 64-bit words. -/
  resetInterval_word :
    (UInt64.ofNat (c.quantum 8) * UInt64.ofNat c.resetMultiple).toNat = c.resetInterval
  /-- The sum of a quantum and of any number that can be drawn. -/
  time_eq : ∀ (level : Priority) (n : Nat), n < 100 →
    Word.satAdd (c.quantum level.val) (10 + n) = c.quantum level.val + 10 + n
  /-- The time that a machine draws for a request. -/
  drawCountdown_eq : ∀ {σ : Type} (m : Machine σ), m.config = c → ∀ level : Priority,
    ∃ n < 100, (m.gen.below 100).1 = n ∧
      (m.drawCountdown level).1 = c.baseQuantum + c.quantumStep * level.val + 10 + n

theorem isExact (valid : c.defect? = none) (word : c.resetMultiple < Word.limit) : c.IsExact := by
  have exact : ∀ level : Priority, c.quantum level.val = c.unboundedQuantum level.val :=
    quantum_eq valid
  have base := baseQuantum_pos valid
  have positive : ∀ level : Priority, 1 ≤ c.quantum level.val := by
    intro level
    rw [exact]
    exact Nat.le_trans base (Nat.le_add_right ..)
  have interval := resetInterval_lt valid word
  constructor
  case quantum_eq => exact exact
  case quantum_pos => exact positive
  case quantum_le => exact quantum_le_maxQuantum valid
  case quantum_mono =>
    intro low high le
    rw [exact, exact]
    exact Nat.add_le_add_left (Nat.mul_le_mul_left _ le) _
  case resetInterval_eq => exact congrArg (· * c.resetMultiple) (exact 8)
  case resetInterval_pos => exact Nat.mul_pos (positive 8) (resetMultiple_pos valid)
  case resetInterval_lt => exact interval
  case resetInterval_word =>
    rw [UInt64.toNat_mul, UInt64.toNat_ofNat', UInt64.toNat_ofNat', ← Nat.mul_mod]
    exact Nat.mod_eq_of_lt interval
  case time_eq => exact fun level n below => satAdd_quantum valid level below
  case drawCountdown_eq =>
    rintro σ m rfl level
    have below := Xoshiro.below_lt (n := 100) (by decide) m.gen
    refine ⟨_, below, rfl, ?_⟩
    exact (satAdd_quantum valid level below).trans (by rw [exact, unboundedQuantum])

end Config

/-- In a configuration without a defect the arithmetic of quanta is exact; and if nothing else can
be wrong with a configuration, it is refused if and only if its longest quantum, computed without a
limit, is too long. -/
theorem Config.exact_of_valid (c : Config) (word : c.resetMultiple < Word.limit) :
    (c.defect? = none → c.IsExact) ∧
      (c.OnlyQuantum → c.defect? =
        if maxQuantum < c.baseQuantum + 15 * c.quantumStep then
          some (.quantumTooLong c.baseQuantum c.quantumStep) else none) := by
  refine ⟨fun valid => isExact valid word, fun only => ?_⟩
  rw [Nat.mul_comm 15]
  exact defect?_of_onlyQuantum only

/-- The largest step that is not too long for the default quantum, and one with which the quantum of
the lowest level stops at the largest word. -/
theorem Config.exact_of_valid_steps :
    Config.IsExact { quantumStep := 66666 } ∧
    ({ quantumStep := 2147483647 } : Config).quantum 15 = Word.max ∧
    ({ quantumStep := 2147483647 } : Config).defect? = some (.quantumTooLong 5 2147483647) := by
  have longest := (exact_of_valid { quantumStep := 66666 } (by decide)).1 (by decide)
  have refused := (exact_of_valid { quantumStep := 2147483647 } (by decide)).2 (by decide)
  exact ⟨longest, by decide, refused⟩

end Mlfq
