import Mlfq.Random.Orbit

/-! # Certificates of orders and of primes

Whether a point comes back after a large number of steps is computed by repeated squaring, where
numbers of steps can be added up without taking the steps. With the order of 1 under multiplication
by a number modulo `q`, a list of factors certifies that `q` is prime. -/

namespace Mlfq
namespace Orbit

variable {α β : Type} {f : α → α} {x : α}

/-- Elements that stand for numbers of steps from `x`, of which every one tells whether `x` is back
after so many. -/
structure Clock (f : α → α) (x : α) (β : Type) where
  /-- The element stands for so many steps. -/
  Stands : β → Nat → Prop
  none : β
  add : β → β → β
  isBack : β → Bool
  stands_none : Stands none 0
  stands_add : ∀ a b m n, Stands a m → Stands b n → Stands (add a b) (m + n)
  isBack_iff : ∀ a n, Stands a n → (isBack a = true ↔ Returns f x n)

namespace Clock

/-- The steps of `a` taken `k` times, by the lowest `bits` bits of `k`. -/
def timesBits (clock : Clock f x β) : Nat → β → Nat → β
  | 0, _, _ => clock.none
  | bits + 1, a, k =>
    let rest := clock.timesBits bits (clock.add a a) (k / 2)
    if k % 2 = 1 then clock.add rest a else rest

/-- The steps of `a` taken `k` times. -/
def times (clock : Clock f x β) (a : β) (k : Nat) : β := clock.timesBits (k.log2 + 1) a k

theorem stands_timesBits (clock : Clock f x β) {bits k : Nat} (hk : k >>> bits = 0) {a : β} {n : Nat}
    (h : clock.Stands a n) : clock.Stands (clock.timesBits bits a k) (k * n) := by
  induction bits generalizing a k n with
  | zero =>
    obtain rfl : k = 0 := hk
    rw [Nat.zero_mul]
    exact clock.stands_none
  | succ bits ih =>
    rw [Nat.shiftRight_succ_inside] at hk
    have rest := ih hk (clock.stands_add a a n n h h)
    have double : k / 2 * (n + n) = 2 * (k / 2) * n := by
      rw [← Nat.two_mul, Nat.mul_left_comm, Nat.mul_assoc]
    rw [double] at rest
    simp only [timesBits]
    split
    case isTrue odd =>
      have := clock.stands_add _ _ _ _ rest h
      rwa [← Nat.succ_mul, show (2 * (k / 2)).succ = k by omega] at this
    case isFalse even =>
      rwa [show 2 * (k / 2) = k by omega] at rest

theorem stands_times (clock : Clock f x β) {a : β} {n : Nat} (h : clock.Stands a n) (k : Nat) :
    clock.Stands (clock.times a k) (k * n) :=
  clock.stands_timesBits (Nat.shiftRight_eq_zero k _ Nat.lt_log2_self) h

/-- Whether `x` comes back when the steps of `a` are taken as often as the product of `ps` says, and
does not when one of `ps` is left out. -/
def hasOrder (clock : Clock f x β) : β → List Nat → Bool
  | a, [] => clock.isBack a
  | a, p :: ps => !clock.isBack (clock.times a (product ps)) && clock.hasOrder (clock.times a p) ps

theorem of_hasOrder (clock : Clock f x β) {ps : List Nat} (prime : ∀ p ∈ ps, IsPrime p) {a : β}
    {n : Nat} (stands : clock.Stands a n) (h : clock.hasOrder a ps = true) :
    Returns f x (product ps * n) ∧ ∀ p ∈ ps, ¬ Returns f x (product ps * n / p) := by
  induction ps generalizing a n with
  | nil =>
    rw [product_nil, Nat.one_mul]
    exact ⟨(clock.isBack_iff a n stands).1 h, fun p hp => absurd hp List.not_mem_nil⟩
  | cons p ps ih =>
    simp only [hasOrder, Bool.and_eq_true, Bool.not_eq_true'] at h
    obtain ⟨away, h⟩ := h
    have positive : 0 < p := Nat.zero_lt_of_lt (prime p List.mem_cons_self).1
    obtain ⟨back, proper⟩ :=
      ih (fun q hq => prime q (List.mem_cons_of_mem p hq)) (clock.stands_times stands p) h
    have regroup : product (p :: ps) * n = product ps * (p * n) := by
      rw [product_cons, Nat.mul_right_comm, Nat.mul_comm]
    rw [regroup]
    refine ⟨back, fun q hq => ?_⟩
    rcases List.mem_cons.1 hq with rfl | hq
    · rw [Nat.mul_left_comm, Nat.mul_div_cancel_left _ positive,
        ← clock.isBack_iff _ _ (clock.stands_times stands (product ps)), away]
      exact Bool.false_ne_true
    · exact proper q hq

/-- An order that was computed is the order. -/
theorem hasOrder_sound (clock : Clock f x β) {ps : List Nat} (prime : ∀ p ∈ ps, IsPrime p) {a : β}
    (stands : clock.Stands a 1) (h : clock.hasOrder a ps = true) : HasOrder f x ps := by
  have := clock.of_hasOrder prime stands h
  rw [Nat.mul_one] at this
  exact ⟨prime, this.1, this.2⟩

end Clock

/-! ## Primes -/

/-- `a` to the power of `n`, modulo `q`. -/
def power (q a n : Nat) : Nat := Nat.repeat (a * · % q) n 1

theorem power_succ (q a n : Nat) : power q a (n + 1) = a * power q a n % q := rfl

theorem power_lt {q : Nat} (hq : 1 < q) (a n : Nat) : power q a n < q := by
  cases n with
  | zero => exact hq
  | succ n => exact Nat.mod_lt _ (by omega)

theorem power_add {q : Nat} (hq : 1 < q) (a m n : Nat) :
    power q a (m + n) = power q a m * power q a n % q := by
  induction m with
  | zero =>
    show power q a (0 + n) = 1 * power q a n % q
    rw [Nat.zero_add, Nat.one_mul, Nat.mod_eq_of_lt (power_lt hq a n)]
  | succ m ih =>
    rw [Nat.succ_add, power_succ, power_succ, ih, Nat.mul_mod_mod, Nat.mod_mul_mod, Nat.mul_assoc]

theorem coprime_power {q a : Nat} (unit : Nat.Coprime a q) (n : Nat) :
    Nat.Coprime (power q a n) q := by
  induction n with
  | zero => exact Nat.coprime_one_left q
  | succ n ih =>
    rw [power_succ, Nat.Coprime, ← Nat.gcd_rec]
    exact (unit.mul_left ih).symm

/-- What has a power that is 1 modulo `q` is coprime to `q`. -/
theorem coprime_of_power_eq_one {q a n : Nat} (back : power q a (n + 1) = 1) : Nat.Coprime a q := by
  have : Nat.Coprime (a * power q a n) q := by
    rw [power_succ] at back
    rw [Nat.Coprime, Nat.gcd_comm, Nat.gcd_rec, back, Nat.gcd_one_left]
  exact this.coprime_dvd_left (Nat.dvd_mul_right a _)

/-- Powers of `a` modulo `q`. -/
def powers {q : Nat} (hq : 1 < q) (a : Nat) : Clock (a * · % q) 1 Nat where
  Stands b n := b = power q a n
  none := 1
  add b c := b * c % q
  isBack b := b == 1
  stands_none := rfl
  stands_add := by
    rintro _ _ m n rfl rfl
    exact (power_add hq a m n).symm
  isBack_iff := by
    rintro _ n rfl
    exact beq_iff_eq

/-- A number has a prime factorization of the number before it, and another one that takes all its
powers to come back to 1. Then all numbers below it are powers of that one. -/
theorem isPrime_of_hasOrder {q a : Nat} {ps : List Nat} (hq : 1 < q) (factored : product ps = q - 1)
    (order : HasOrder (a * · % q) 1 ps) : IsPrime q := by
  obtain ⟨n, hn⟩ : ∃ n, product ps = n + 1 := ⟨q - 2, by omega⟩
  have back : power q a (n + 1) = 1 := hn ▸ order.returns
  have coprime := coprime_power (coprime_of_power_eq_one back)
  have range : ∀ n, 0 < power q a n ∧ power q a n ≤ product ps := by
    intro n
    have below := power_lt hq a n
    have positive : power q a n ≠ 0 := by
      intro hzero
      have := coprime n
      rw [hzero, Nat.coprime_zero_left] at this
      omega
    omega
  refine ⟨hq, fun d hd hdq => ?_⟩
  have bounded : d ≤ product ps := factored ▸ Nat.le_pred_of_lt hdq
  obtain ⟨n, _, rfl⟩ := order.exists_repeat_eq (f := (a * · % q)) (fun _ _ => id) range hd bounded
  exact coprime n

/-- A number to be certified prime, a number of the largest order below it, and the primes with the
product one less. -/
structure Entry where
  number : Nat
  generator : Nat
  factors : List Nat

/-- Whether an entry certifies its number, once the numbers in `primes` are certified. -/
def Entry.check (primes : List Nat) (e : Entry) : Bool :=
  if hq : 1 < e.number then
    e.factors.all (primes.contains ·) && product e.factors == e.number - 1 &&
      (powers hq e.generator).hasOrder (e.generator % e.number) e.factors
  else false

theorem Entry.isPrime {primes : List Nat} (prime : ∀ p ∈ primes, IsPrime p) {e : Entry}
    (h : e.check primes = true) : IsPrime e.number := by
  unfold check at h
  split at h
  case isFalse => cases h
  case isTrue hq =>
    simp only [Bool.and_eq_true, List.all_eq_true, List.contains_iff_mem, beq_iff_eq] at h
    obtain ⟨⟨factors, product⟩, order⟩ := h
    refine isPrime_of_hasOrder hq product
      ((powers hq e.generator).hasOrder_sound (fun p hp => prime p (factors p hp)) ?_ order)
    show e.generator % e.number = e.generator * 1 % e.number
    rw [Nat.mul_one]

/-- Whether every entry certifies its number by the numbers certified before it. -/
def check : List Nat → List Entry → Bool
  | _, [] => true
  | primes, e :: es => e.check primes && check (e.number :: primes) es

/-- Every number of a certificate that passes the check is prime. -/
theorem isPrime_of_check {primes : List Nat} (prime : ∀ p ∈ primes, IsPrime p) {es : List Entry}
    (h : check primes es = true) : ∀ e ∈ es, IsPrime e.number := by
  induction es generalizing primes with
  | nil => exact fun e he => absurd he List.not_mem_nil
  | cons e es ih =>
    simp only [check, Bool.and_eq_true] at h
    have first : IsPrime e.number := Entry.isPrime prime h.1
    have primes' : ∀ p ∈ e.number :: primes, IsPrime p := List.forall_mem_cons.2 ⟨first, prime⟩
    exact List.forall_mem_cons.2 ⟨first, ih primes' h.2⟩

end Orbit
end Mlfq
