/-! # Orbits

A function applied again and again leads from a point through its orbit. A point that comes back
after a product of primes, and never comes back when one of the primes is left out, meets that many
different points before it is back; if there are no more points than that, it meets all of them. -/

namespace Mlfq
namespace Orbit

/-- A number above 1 that is coprime to every smaller positive one. -/
def IsPrime (p : Nat) : Prop := 1 < p ∧ ∀ d, 0 < d → d < p → Nat.Coprime d p

theorem IsPrime.coprime {p n : Nat} (prime : IsPrime p) (h : ¬ p ∣ n) : Nat.Coprime p n := by
  have positive : 0 < n % p := Nat.pos_of_ne_zero fun hzero => h (Nat.dvd_of_mod_eq_zero hzero)
  have below : n % p < p := Nat.mod_lt n (Nat.zero_lt_of_lt prime.1)
  show Nat.gcd p n = 1
  rw [Nat.gcd_rec]
  exact prime.2 (n % p) positive below

/-- The product of a list of factors. -/
def product (ps : List Nat) : Nat := ps.foldr (· * ·) 1

@[simp] theorem product_nil : product [] = 1 := rfl

@[simp] theorem product_cons (p : Nat) (ps : List Nat) : product (p :: ps) = p * product ps := rfl

theorem coprime_product {ps : List Nat} {m : Nat} (h : ∀ p ∈ ps, Nat.Coprime p m) :
    Nat.Coprime (product ps) m := by
  induction ps with
  | nil => exact Nat.coprime_one_left m
  | cons p ps ih =>
    rw [product_cons]
    exact (h p List.mem_cons_self).mul_left (ih fun q hq => h q (List.mem_cons_of_mem p hq))

/-- A divisor of a product of primes that does not divide the product when one of the primes is left
out is the whole product. -/
theorem eq_product_of_dvd {ps : List Nat} (prime : ∀ p ∈ ps, IsPrime p) {d : Nat} (h : d ∣ product ps)
    (proper : ∀ p ∈ ps, ¬ d ∣ product ps / p) : d = product ps := by
  obtain ⟨m, hm⟩ := h
  have coprime : ∀ p ∈ ps, Nat.Coprime p m := by
    intro p hp
    refine (prime p hp).coprime fun ⟨c, hc⟩ => proper p hp ⟨c, ?_⟩
    have positive : 0 < p := Nat.zero_lt_of_lt (prime p hp).1
    rw [hm, hc, Nat.mul_left_comm, Nat.mul_div_cancel_left _ positive]
  have one : m = 1 :=
    (coprime_product coprime).symm.eq_one_of_dvd ⟨d, by rw [hm, Nat.mul_comm]⟩
  rw [hm, one, Nat.mul_one]

variable {α : Type} {f : α → α} {x : α} {m n : Nat}

theorem repeat_add (f : α → α) (m n : Nat) (x : α) :
    Nat.repeat f (m + n) x = Nat.repeat f m (Nat.repeat f n x) := by
  induction m with
  | zero => rw [Nat.zero_add]; rfl
  | succ m ih => rw [Nat.succ_add]; exact congrArg f ih

/-- `x` is back after `n` steps. -/
def Returns (f : α → α) (x : α) (n : Nat) : Prop := Nat.repeat f n x = x

theorem Returns.add (hm : Returns f x m) (hn : Returns f x n) : Returns f x (m + n) := by
  unfold Returns at *
  rw [repeat_add, hn, hm]

theorem Returns.mul (h : Returns f x n) (k : Nat) : Returns f x (k * n) := by
  induction k with
  | zero => rw [Nat.zero_mul]; rfl
  | succ k ih => rw [Nat.succ_mul]; exact ih.add h

theorem Returns.mod (hm : Returns f x m) (hn : Returns f x n) : Returns f x (n % m) := by
  unfold Returns
  calc Nat.repeat f (n % m) x
      = Nat.repeat f (n % m) (Nat.repeat f (n / m * m) x) := by rw [hm.mul (n / m)]
    _ = Nat.repeat f n x := by rw [← repeat_add, Nat.mul_comm, Nat.mod_add_div]
    _ = x := hn

theorem Returns.gcd (hm : Returns f x m) (hn : Returns f x n) : Returns f x (Nat.gcd m n) := by
  induction m, n using Nat.gcd.induction with
  | H0 n => rw [Nat.gcd_zero_left]; exact hn
  | H1 m n _ ih => rw [Nat.gcd_rec]; exact ih (hm.mod hn) hm

/-- `x` comes back under `f` after the product of the primes `ps`, and not when one of them is left
out. -/
structure HasOrder (f : α → α) (x : α) (ps : List Nat) : Prop where
  prime : ∀ p ∈ ps, IsPrime p
  returns : Returns f x (product ps)
  proper : ∀ p ∈ ps, ¬ Returns f x (product ps / p)

namespace HasOrder

variable {ps : List Nat}

/-- `x` does not come back before its order. -/
theorem le_of_returns (order : HasOrder f x ps) (h : Returns f x n) (hn : 0 < n) :
    product ps ≤ n := by
  have first : Nat.gcd n (product ps) = product ps := by
    refine eq_product_of_dvd order.prime (Nat.gcd_dvd_right _ _) fun p hp ⟨c, hc⟩ => ?_
    refine order.proper p hp ?_
    rw [hc, Nat.mul_comm]
    exact (h.gcd order.returns).mul c
  exact first ▸ Nat.gcd_le_left _ hn

/-- Before `x` is back, every step leads to a point not met before. -/
theorem repeat_ne (order : HasOrder f x ps) {i j : Nat} (hij : i < j) (hj : j < product ps) :
    Nat.repeat f i x ≠ Nat.repeat f j x := by
  intro heq
  -- Both points are led back to `x` by the same number of steps.
  have back : Returns f x (product ps - i + j) := by
    unfold Returns
    rw [repeat_add, ← heq, ← repeat_add, Nat.sub_add_cancel (by omega)]
    exact order.returns
  have early : Returns f x (j - i) := by
    have := order.returns.mod back
    rwa [show product ps - i + j = j - i + product ps by omega, Nat.add_mod_right,
      Nat.mod_eq_of_lt (by omega)] at this
  have := order.le_of_returns early (by omega)
  omega

/-- If no more numbers are left for the points met from `x` on than `x` takes to come back, `x`
meets every point with such a number. -/
theorem exists_repeat_eq (order : HasOrder f x ps) {code : α → Nat}
    (injective : ∀ y z, code y = code z → y = z)
    (range : ∀ i, 0 < code (Nat.repeat f i x) ∧ code (Nat.repeat f i x) ≤ product ps) {y : α}
    (positive : 0 < code y) (bounded : code y ≤ product ps) :
    ∃ i, i < product ps ∧ Nat.repeat f i x = y := by
  refine Classical.byContradiction fun missed => ?_
  let met := (List.range (product ps)).map fun i => code (Nat.repeat f i x)
  have unmet : code y ∉ met := by
    intro hmem
    obtain ⟨i, hi, heq⟩ := List.mem_map.1 hmem
    exact missed ⟨i, List.mem_range.1 hi, injective _ _ heq⟩
  have nodup : met.Nodup := by
    refine List.pairwise_map.2 (List.Pairwise.imp_of_mem ?_ List.pairwise_lt_range)
    intro i j _ hj hij heq
    exact order.repeat_ne hij (List.mem_range.1 hj) (injective _ _ heq)
  have subset : code y :: met ⊆ List.range' 1 (product ps) := by
    intro c hc
    rw [List.mem_range'_1]
    rcases List.mem_cons.1 hc with rfl | hc
    · omega
    · obtain ⟨i, _, rfl⟩ := List.mem_map.1 hc
      have := range i
      omega
  have := (List.nodup_cons.2 ⟨unmet, nodup⟩).length_le_of_subset subset
  simp only [met, List.length_cons, List.length_map, List.length_range, List.length_range'] at this
  omega

/-- Where `x` meets every point, so does every point that it meets. -/
theorem exists_repeat_eq_of_repeat (order : HasOrder f x ps) {i j : Nat} (hi : i < product ps)
    (hj : j < product ps) :
    ∃ k, k < product ps ∧ Nat.repeat f k (Nat.repeat f i x) = Nat.repeat f j x := by
  by_cases hij : i ≤ j
  · refine ⟨j - i, by omega, ?_⟩
    rw [← repeat_add, Nat.sub_add_cancel hij]
  · refine ⟨j + (product ps - i), by omega, ?_⟩
    rw [← repeat_add, Nat.add_assoc, Nat.sub_add_cancel (by omega), repeat_add, order.returns]

end HasOrder
end Orbit
end Mlfq
