import Mlfq.Random.Certificate
import Mlfq.Random.State

/-! # The period of the generator

From any state but zero, the generator passes through all states but zero before it comes back. A
polynomial over the field with two elements, the bits of a number its coefficients, stands for a sum
of numbers of steps; the polynomials modulo the one that leads from `start` to zero multiply as
steps add up. -/

namespace Mlfq
namespace Xoshiro
namespace State

/-- How many states there are but zero. -/
def period : Nat := (1 <<< 256) - 1

/-- The state in which the period is counted from. -/
def start : State := ⟨1, 0, 0, 0⟩

/-- The sum of the states after `i` steps from `s`, for the bits `i < n` that are set in `p`. -/
def sum : Nat → Nat → State → State
  | 0, _, _ => 0
  | n + 1, p, s => (if p % 2 = 1 then s else 0) ^^^ sum n (p / 2) s.step

theorem sum_step (n p : Nat) (s : State) : sum n p s.step = (sum n p s).step := by
  induction n generalizing p s with
  | zero => exact step_zero.symm
  | succ n ih =>
    simp only [sum, step_xor, ih]
    split <;> simp

theorem sum_repeat (n p k : Nat) (s : State) :
    sum n p (Nat.repeat step k s) = Nat.repeat step k (sum n p s) := by
  induction k with
  | zero => rfl
  | succ k ih => exact (sum_step n p _).trans (congrArg step ih)

theorem sum_xor_left (n p q : Nat) (s : State) : sum n (p ^^^ q) s = sum n p s ^^^ sum n q s := by
  induction n generalizing p q s with
  | zero => exact (xor_self 0).symm
  | succ n ih =>
    simp only [sum, Nat.xor_div_two, ih, Nat.xor_mod_two_eq_one]
    by_cases hp : p % 2 = 1 <;> by_cases hq : q % 2 = 1 <;> simp [hp, hq, xor_xor_xor_cancel_left]
      <;> ac_rfl

@[simp] theorem sum_zero (n : Nat) (s : State) : sum n 0 s = 0 := by
  induction n generalizing s with
  | zero => rfl
  | succ n ih => simp [sum, ih]

theorem sum_two_mul (n p : Nat) (s : State) : sum (n + 1) (2 * p) s = sum n p s.step := by
  simp [sum]

/-- A bit that is not set adds nothing. -/
theorem sum_succ_of_shiftRight {n p : Nat} (hp : p >>> n = 0) (s : State) :
    sum (n + 1) p s = sum n p s := by
  induction n generalizing p s with
  | zero =>
    obtain rfl : p = 0 := hp
    simp
  | succ n ih =>
    rw [Nat.shiftRight_succ_inside] at hp
    rw [sum, ih hp, sum]

/-- The polynomial of degree 256 that leads from `start` to zero. -/
def modulus : Nat := 0x10003c03c3f3ecb1904b4edcf26259f850280002bcefd1a5e9d116f2bb0f0f001

theorem sum_modulus : sum 257 modulus start = 0 := by decide +kernel

/-- A polynomial for one step more: twice `p`, and the modulus if the degree is 256 then. It is
written with the functions that the kernel evaluates at once. -/
def shift (p : Nat) : Nat := Nat.xor (Nat.mul 2 p) (Nat.mul (Nat.shiftRight p 255) modulus)

theorem shift_eq (p : Nat) : shift p = 2 * p ^^^ (p >>> 255) * modulus := rfl

/-- The coefficient of the highest degree is a bit. -/
theorem top_eq_zero_or_one {p : Nat} (hp : p >>> 256 = 0) : p >>> 255 = 0 ∨ p >>> 255 = 1 := by
  omega

theorem shiftRight_shift {p : Nat} (hp : p >>> 256 = 0) : shift p >>> 256 = 0 := by
  have double : (2 * p) >>> 256 = p >>> 255 := by omega
  rw [shift_eq, Nat.shiftRight_xor_distrib, double]
  rcases top_eq_zero_or_one hp with top | top <;> rw [top]
  · rfl
  · decide +kernel

theorem sum_shift {p : Nat} (hp : p >>> 256 = 0) :
    sum 256 (shift p) start = (sum 256 p start).step := by
  have reduced : sum 257 ((p >>> 255) * modulus) start = 0 := by
    rcases top_eq_zero_or_one hp with top | top <;> rw [top]
    · rw [Nat.zero_mul, sum_zero]
    · rw [Nat.one_mul, sum_modulus]
  rw [← sum_succ_of_shiftRight (shiftRight_shift hp), shift_eq, sum_xor_left, reduced, xor_zero,
    sum_two_mul, sum_step]

/-- The product of two polynomials, by the lowest `n` bits of the second. The recursor is written
out because the kernel evaluates it faster than equations. -/
def mulBits (p : Nat) (n : Nat) : Nat → Nat :=
  Nat.rec (fun _ => 0)
    (fun _ rest q => Nat.xor (shift (rest (Nat.div q 2))) (Nat.mul (Nat.mod q 2) p)) n

theorem mulBits_succ (p n q : Nat) :
    mulBits p (n + 1) q = shift (mulBits p n (q / 2)) ^^^ q % 2 * p := rfl

theorem shiftRight_mulBits {p : Nat} (hp : p >>> 256 = 0) (n q : Nat) :
    mulBits p n q >>> 256 = 0 := by
  induction n generalizing q with
  | zero => exact Nat.zero_shiftRight 256
  | succ n ih =>
    rw [mulBits_succ, Nat.shiftRight_xor_distrib, shiftRight_shift (ih (q / 2)), Nat.zero_xor]
    obtain h | h : q % 2 = 0 ∨ q % 2 = 1 := by omega
    · rw [h, Nat.zero_mul, Nat.zero_shiftRight]
    · rwa [h, Nat.one_mul]

theorem sum_mulBits {p : Nat} (hp : p >>> 256 = 0) (n q : Nat) :
    sum 256 (mulBits p n q) start = sum n q (sum 256 p start) := by
  induction n generalizing q with
  | zero => exact sum_zero 256 start
  | succ n ih =>
    rw [mulBits_succ, sum_xor_left, sum_shift (shiftRight_mulBits hp n (q / 2)), ih, ← sum_step,
      xor_comm]
    obtain h | h : q % 2 = 0 ∨ q % 2 = 1 := by omega
    · rw [h, Nat.zero_mul, sum_zero]
      generalize sum 256 p start = s
      simp [sum, h]
    · rw [h, Nat.one_mul]
      generalize sum 256 p start = s
      simp [sum, h]

/-- Polynomials as numbers of steps from `start`. -/
def polynomials : Orbit.Clock step start Nat where
  Stands p n := p >>> 256 = 0 ∧ sum 256 p start = Nat.repeat step n start
  none := 1
  add p q := mulBits p 256 q
  isBack p := sum 256 p start == start
  stands_none := by decide +kernel
  stands_add := by
    rintro p q m n ⟨hp, stands⟩ ⟨_, stands'⟩
    refine ⟨shiftRight_mulBits hp 256 q, ?_⟩
    rw [sum_mulBits hp, stands, sum_repeat, stands', Orbit.repeat_add]
  isBack_iff := by
    rintro p n ⟨_, stands⟩
    rw [beq_iff_eq, stands, Orbit.Returns]

/-- The prime factors of the period. -/
def factors : List Nat :=
  [5704689200685129054721, 59649589127497217, 67280421310721, 274177, 6700417, 641, 65537, 257, 17,
    5, 3]

/-- The factors are prime. Every entry is a prime, a number of the largest order below it, and the
prime factors of the number before it. -/
def certificate : List Orbit.Entry := [
  ⟨2, 1, []⟩, ⟨3, 2, [2]⟩, ⟨5, 2, [2, 2]⟩, ⟨7, 3, [3, 2]⟩, ⟨11, 2, [5, 2]⟩,
  ⟨17, 3, [2, 2, 2, 2]⟩, ⟨23, 5, [11, 2]⟩, ⟨31, 3, [5, 3, 2]⟩, ⟨43, 3, [7, 3, 2]⟩,
  ⟨47, 5, [23, 2]⟩, ⟨61, 2, [5, 3, 2, 2]⟩, ⟨71, 7, [7, 5, 2]⟩, ⟨137, 3, [17, 2, 2, 2]⟩,
  ⟨139, 2, [23, 3, 2]⟩, ⟨173, 2, [43, 2, 2]⟩, ⟨181, 2, [5, 3, 3, 2, 2]⟩,
  ⟨257, 3, .replicate 8 2⟩, ⟨347, 2, [173, 2]⟩, ⟨367, 6, [61, 3, 2]⟩, ⟨373, 2, [31, 3, 2, 2]⟩,
  ⟨449, 3, 7 :: .replicate 6 2⟩, ⟨641, 3, 5 :: .replicate 7 2⟩, ⟨727, 5, [11, 11, 3, 2]⟩,
  ⟨823, 3, [137, 3, 2]⟩, ⟨1783, 10, [11, 3, 3, 3, 3, 2]⟩, ⟨2203, 5, [367, 3, 2]⟩,
  ⟨12497, 3, [71, 11, 2, 2, 2, 2]⟩, ⟨16657, 5, [347, 3, 2, 2, 2, 2]⟩,
  ⟨17449, 14, [727, 3, 2, 2, 2]⟩, ⟨52673, 3, 823 :: .replicate 6 2⟩,
  ⟨65537, 3, .replicate 16 2⟩, ⟨166571, 2, [16657, 5, 2]⟩,
  ⟨274177, 5, 17 :: 7 :: 3 :: 3 :: .replicate 8 2⟩, ⟨1896229, 2, [52673, 3, 3, 2, 2]⟩,
  ⟨2998279, 3, [166571, 3, 3, 2]⟩, ⟨6700417, 5, 17449 :: 3 :: .replicate 7 2⟩,
  ⟨6939437, 2, [1783, 139, 7, 2, 2]⟩, ⟨55515497, 3, [6939437, 2, 2, 2]⟩,
  ⟨18533742247, 6, [1896229, 181, 3, 3, 3, 2]⟩, ⟨733803839347, 2, [55515497, 2203, 3, 2]⟩,
  ⟨67280421310721, 3, 2998279 :: 373 :: 47 :: 5 :: .replicate 8 2⟩,
  ⟨116503103764643, 2, [18533742247, 449, 7, 2]⟩,
  ⟨59649589127497217, 3, 116503103764643 :: .replicate 9 2⟩,
  ⟨5704689200685129054721, 21,
    733803839347 :: 12497 :: 5 :: 3 :: 3 :: 3 :: 3 :: 3 :: .replicate 9 2⟩]

theorem check_certificate : Orbit.check [] certificate = true := by decide +kernel

theorem isPrime_factors : ∀ p ∈ factors, Orbit.IsPrime p := by
  have prime := Orbit.isPrime_of_check (fun p hp => absurd hp List.not_mem_nil) check_certificate
  intro p hp
  have entry : ∃ e ∈ certificate, e.number = p := by
    revert p
    decide +kernel
  obtain ⟨e, he, rfl⟩ := entry
  exact prime e he

theorem product_factors : Orbit.product factors = period := by decide +kernel

theorem hasOrder_step : Orbit.HasOrder step start factors := by
  have one : polynomials.Stands 2 1 := ⟨by decide, by decide +kernel⟩
  exact polynomials.hasOrder_sound isPrime_factors one (by decide +kernel)

theorem repeat_start_ne_zero (i : Nat) : Nat.repeat step i start ≠ 0 := by
  intro hzero
  have stays (n : Nat) : Nat.repeat step n 0 = 0 := by
    induction n with
    | zero => rfl
    | succ n ih => exact congrArg step ih
  -- After some whole periods, at least `i` steps, `start` is back.
  have back : Nat.repeat step (i * Orbit.product factors - i) (Nat.repeat step i start) = start := by
    have : 1 ≤ Orbit.product factors := by rw [product_factors]; decide
    rw [← Orbit.repeat_add, Nat.sub_add_cancel (Nat.le_mul_of_pos_right i this)]
    exact hasOrder_step.returns.mul i
  rw [hzero, stays] at back
  exact absurd back (by decide)

/-- Every state but zero is met from `start`. -/
theorem exists_repeat_start_eq {s : State} (h : s ≠ 0) :
    ∃ i, i < Orbit.product factors ∧ Nat.repeat step i start = s := by
  have bounded (t : State) : t.code ≤ Orbit.product factors := by
    rw [product_factors]
    exact Nat.le_pred_of_lt t.code_lt
  exact hasOrder_step.exists_repeat_eq code_injective
    (fun i => ⟨code_pos (repeat_start_ne_zero i), bounded _⟩) (code_pos h) (bounded s)

/-- The generator passes through every state but zero within a period, whichever it starts from. -/
theorem exists_repeat_eq {s t : State} (hs : s ≠ 0) (ht : t ≠ 0) :
    ∃ k, k < period ∧ Nat.repeat step k s = t := by
  obtain ⟨i, hi, rfl⟩ := exists_repeat_start_eq hs
  obtain ⟨j, hj, rfl⟩ := exists_repeat_start_eq ht
  rw [← product_factors]
  exact hasOrder_step.exists_repeat_eq_of_repeat hi hj

theorem step_ne_zero {s : State} (h : s ≠ 0) : s.step ≠ 0 := by
  obtain ⟨i, _, rfl⟩ := exists_repeat_start_eq h
  exact repeat_start_ne_zero (i + 1)

end State
end Xoshiro
end Mlfq
