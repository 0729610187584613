/-! # The state of the generator

The generator is xoshiro256++. Its state, four 64-bit words, changes by shifts, rotations and
exclusive ors, so that a step of an exclusive or of two states is the exclusive or of the steps. -/

namespace Mlfq
namespace Xoshiro

/-- The words of the generator. -/
structure State where
  s0 : UInt64
  s1 : UInt64
  s2 : UInt64
  s3 : UInt64
  deriving DecidableEq

/-- Rotation of a word to the left by `k` bits, for `0 < k < 64`. -/
def rotateLeft (x k : UInt64) : UInt64 := (x <<< k) ||| (x >>> (64 - k))

namespace State

/-- The word that is drawn in a state. -/
def output (s : State) : UInt64 := rotateLeft (s.s0 + s.s3) 23 + s.s0

/-- The next state. -/
def step (s : State) : State :=
  let t := s.s1 <<< 17
  let s2 := s.s2 ^^^ s.s0
  let s3 := s.s3 ^^^ s.s1
  { s0 := s.s0 ^^^ s3, s1 := s.s1 ^^^ s2, s2 := s2 ^^^ t, s3 := rotateLeft s3 45 }

/-- The state that never changes and always draws 0. -/
def zero : State := ⟨0, 0, 0, 0⟩

/-- The exclusive or of two states, word by word. -/
def xor (s t : State) : State := ⟨s.s0 ^^^ t.s0, s.s1 ^^^ t.s1, s.s2 ^^^ t.s2, s.s3 ^^^ t.s3⟩

instance : OfNat State 0 := ⟨zero⟩

instance : XorOp State := ⟨xor⟩

theorem xor_def (s t : State) :
    s ^^^ t = ⟨s.s0 ^^^ t.s0, s.s1 ^^^ t.s1, s.s2 ^^^ t.s2, s.s3 ^^^ t.s3⟩ := rfl

theorem zero_def : (0 : State) = ⟨0, 0, 0, 0⟩ := rfl

theorem xor_assoc (s t u : State) : s ^^^ t ^^^ u = s ^^^ (t ^^^ u) := by
  simp only [xor_def, UInt64.xor_assoc]

theorem xor_comm (s t : State) : s ^^^ t = t ^^^ s := by
  simp only [xor_def, UInt64.xor_comm]

@[simp] theorem xor_zero (s : State) : s ^^^ 0 = s := by
  simp only [xor_def, zero_def, UInt64.xor_zero]

@[simp] theorem zero_xor (s : State) : 0 ^^^ s = s := by
  rw [xor_comm, xor_zero]

@[simp] theorem xor_self (s : State) : s ^^^ s = 0 := by
  simp only [xor_def, zero_def, UInt64.xor_self]

instance : Std.Associative (α := State) (· ^^^ ·) := ⟨xor_assoc⟩

instance : Std.Commutative (α := State) (· ^^^ ·) := ⟨xor_comm⟩

theorem xor_xor_xor_cancel_left (s t u : State) : s ^^^ t ^^^ (s ^^^ u) = t ^^^ u := by
  calc s ^^^ t ^^^ (s ^^^ u) = s ^^^ s ^^^ (t ^^^ u) := by ac_rfl
    _ = t ^^^ u := by rw [xor_self, zero_xor]

theorem rotateLeft_xor (x y : UInt64) :
    rotateLeft (x ^^^ y) 45 = rotateLeft x 45 ^^^ rotateLeft y 45 := by
  refine UInt64.toBitVec_inj.1 (BitVec.eq_of_getLsbD_eq fun i hi => ?_)
  simp only [rotateLeft, UInt64.toBitVec_or, UInt64.toBitVec_xor, UInt64.toBitVec_shiftLeft,
    UInt64.toBitVec_shiftRight]
  -- A bit of the rotated word comes from one of the two shifts only.
  by_cases h : i < 45
  · simp [h]
  · have : ¬ 19 + i < 64 := by omega
    simp [h, hi, BitVec.getLsbD_of_ge _ _ (Nat.le_of_not_lt this)]

theorem step_xor (s t : State) : (s ^^^ t).step = s.step ^^^ t.step := by
  obtain ⟨a0, a1, a2, a3⟩ := s
  obtain ⟨b0, b1, b2, b3⟩ := t
  have shift : (a1 ^^^ b1) <<< 17 = (a1 <<< 17) ^^^ (b1 <<< 17) := UInt64.shiftLeft_xor
  have rotate : rotateLeft (a3 ^^^ b3 ^^^ (a1 ^^^ b1)) 45 =
      rotateLeft (a3 ^^^ a1) 45 ^^^ rotateLeft (b3 ^^^ b1) 45 := by
    rw [← rotateLeft_xor]
    exact congrArg (rotateLeft · 45) (by ac_rfl)
  simp only [step, xor_def, shift, rotate, State.mk.injEq]
  generalize a1 <<< 17 = a, b1 <<< 17 = b
  exact ⟨by ac_rfl, by ac_rfl, by ac_rfl, trivial⟩

@[simp] theorem step_zero : (0 : State).step = 0 := rfl

/-- The words of a state as the digits of one number. -/
def code (s : State) : Nat :=
  s.s0.toNat + ((s.s1.toNat + ((s.s2.toNat + (s.s3.toNat <<< 64)) <<< 64)) <<< 64)

theorem code_injective (s t : State) (h : s.code = t.code) : s = t := by
  have (u : State) : u.s0.toNat < 2 ^ 64 ∧ u.s1.toNat < 2 ^ 64 ∧ u.s2.toNat < 2 ^ 64 ∧
      u.s3.toNat < 2 ^ 64 := ⟨u.s0.toNat_lt, u.s1.toNat_lt, u.s2.toNat_lt, u.s3.toNat_lt⟩
  have hs := this s
  have ht := this t
  unfold code at h
  obtain ⟨h0, h1, h2, h3⟩ : s.s0.toNat = t.s0.toNat ∧ s.s1.toNat = t.s1.toNat ∧
      s.s2.toNat = t.s2.toNat ∧ s.s3.toNat = t.s3.toNat := by omega
  cases s
  cases t
  simp only [State.mk.injEq]
  exact ⟨UInt64.toNat_inj.1 h0, UInt64.toNat_inj.1 h1, UInt64.toNat_inj.1 h2,
    UInt64.toNat_inj.1 h3⟩

theorem code_pos {s : State} (h : s ≠ 0) : 0 < s.code :=
  Nat.pos_of_ne_zero fun hzero => h (code_injective s 0 hzero)

theorem code_lt (s : State) : s.code < 1 <<< 256 := by
  have := s.s0.toNat_lt
  have := s.s1.toNat_lt
  have := s.s2.toNat_lt
  have := s.s3.toNat_lt
  unfold code
  omega

end State
end Xoshiro
end Mlfq
