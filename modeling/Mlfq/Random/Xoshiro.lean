import Mlfq.Random.Period
import Mlfq.Word

/-! # The pseudorandom generator

The generator draws one 64-bit word in every state. A draw below a bound multiplies the upper half
of a word by the bound and keeps the upper half of the product; words for which the lower half of
the product lies past the largest multiple of the bound are rejected, so that every number is
equally likely. Every word is met within a period, so that a draw always ends. -/

namespace Mlfq

/-- The generator, in a state that is not zero. -/
structure Xoshiro where
  state : Xoshiro.State
  nonzero : state ≠ 0
  deriving DecidableEq

namespace Xoshiro

/-- One step of the generator that spreads a seed over the state: a linear congruence, and 32 bits
of the state rotated by its own uppermost bits. -/
def spread (x : UInt64) : UInt64 × UInt32 :=
  let x := x * 6364136223846793005 + 11634580027462260723
  let word := (((x >>> 18) ^^^ x) >>> 27).toUInt32
  let k := (x >>> 59).toUInt32
  (x, (word >>> k) ||| (word <<< ((32 - k) % 32)))

/-- Two spread words as one, the first in the lower half. -/
def spreadPair (x : UInt64) : UInt64 × UInt64 :=
  let (x, low) := spread x
  let (x, high) := spread x
  (x, low.toUInt64 ||| (high.toUInt64 <<< 32))

/-- The generator in this state. The zero state, in which it would stay, is replaced. -/
def ofState (s : State) : Xoshiro :=
  if h : s = 0 then
    ⟨⟨0xe220a8397b1dcdaf, 0x6e789e6aa1b965f4, 0x06c45d188009454f, 0xf88bb8a8724c81ec⟩, by decide⟩
  else ⟨s, h⟩

/-- The generator with this seed. -/
def ofSeed (seed : UInt64) : Xoshiro :=
  let (x, s0) := spreadPair seed
  let (x, s1) := spreadPair x
  let (x, s2) := spreadPair x
  let (_, s3) := spreadPair x
  ofState { s0, s1, s2, s3 }

/-- The next 64-bit word. -/
def next (g : Xoshiro) : UInt64 × Xoshiro :=
  (g.state.output, ⟨g.state.step, State.step_ne_zero g.nonzero⟩)

/-- The next 32-bit word: the upper half of a 64-bit one. -/
def nextWord (g : Xoshiro) : Nat × Xoshiro :=
  let (x, g) := g.next
  (x.toNat / Word.limit, g)

/-- The largest lower half that a draw below `n` accepts: one less than the largest product of `n`
and a power of two that is a word. -/
def zone (n : Nat) : Nat := (n <<< (31 - n.log2)) - 1

/-- Whether a draw below `n` accepts a word. -/
def accepts (n word : Nat) : Bool := word * n % Word.limit ≤ zone n

/-- The first of at most `fuel` draws that is accepted. -/
@[specialize] def search {α : Type} (draw : Xoshiro → α × Xoshiro) (accept : α → Bool) :
    Nat → Xoshiro → Option (α × Xoshiro)
  | 0, _ => none
  | fuel + 1, g =>
    let (a, g) := draw g
    if accept a then some (a, g) else search draw accept fuel g

section
variable {α : Type} {draw : Xoshiro → α × Xoshiro} {accept : α → Bool}

theorem search_succ (fuel : Nat) (g : Xoshiro) :
    search draw accept (fuel + 1) g =
      if accept (draw g).1 then some (draw g) else search draw accept fuel (draw g).2 := rfl

/-- What a search finds was drawn and is accepted. -/
theorem of_search_eq_some {fuel : Nat} {g : Xoshiro} {found : α × Xoshiro}
    (h : search draw accept fuel g = some found) :
    accept found.1 = true ∧ ∃ g', draw g' = found := by
  induction fuel generalizing g with
  | zero => cases h
  | succ fuel ih =>
    rw [search_succ] at h
    split at h
    case isTrue accepted =>
      obtain rfl := Option.some.inj h
      exact ⟨accepted, g, rfl⟩
    case isFalse => exact ih h

/-- A search that ends finds the same with more fuel. -/
theorem search_mono {fuel more : Nat} (hle : fuel ≤ more) {g : Xoshiro} {found : α × Xoshiro}
    (h : search draw accept fuel g = some found) : search draw accept more g = some found := by
  induction fuel generalizing more g with
  | zero => cases h
  | succ fuel ih =>
    obtain ⟨more, rfl⟩ : ∃ n, more = n + 1 := ⟨more - 1, by omega⟩
    rw [search_succ] at h ⊢
    split at h
    case isTrue accepted => rwa [if_pos accepted]
    case isFalse rejected =>
      rw [if_neg rejected]
      exact ih (Nat.le_of_succ_le_succ hle) h

end

/-- The generator after `k` words. -/
def after (g : Xoshiro) (k : Nat) : Xoshiro := Nat.repeat (fun g => g.next.2) k g

theorem after_succ (g : Xoshiro) (k : Nat) : g.after (k + 1) = g.next.2.after k :=
  Orbit.repeat_add (fun g : Xoshiro => g.next.2) k 1 g

/-- Every state but zero is met within a period. -/
theorem exists_after_state_eq (g : Xoshiro) {s : State} (h : s ≠ 0) :
    ∃ k, k < State.period ∧ (g.after k).state = s := by
  have state (k : Nat) : (g.after k).state = Nat.repeat State.step k g.state := by
    induction k with
    | zero => rfl
    | succ k ih => exact congrArg State.step ih
  obtain ⟨k, hk, heq⟩ := State.exists_repeat_eq g.nonzero h
  exact ⟨k, hk, (state k).trans heq⟩

theorem search_nextWord_isSome_of_accept {accept : Nat → Bool} {g : Xoshiro} {k fuel : Nat}
    (hk : k < fuel) (h : accept (g.after k).nextWord.1 = true) :
    (search nextWord accept fuel g).isSome = true := by
  induction k generalizing g fuel with
  | zero =>
    obtain ⟨fuel, rfl⟩ : ∃ n, fuel = n + 1 := ⟨fuel - 1, by omega⟩
    have accepted : accept g.nextWord.1 = true := h
    rw [search_succ, if_pos accepted]
    rfl
  | succ k ih =>
    obtain ⟨fuel, rfl⟩ : ∃ n, fuel = n + 1 := ⟨fuel - 1, by omega⟩
    rw [search_succ]
    split
    · rfl
    · rw [after_succ] at h
      exact ih (by omega) h

/-- Some word within a period is accepted: the word 0 always is. -/
theorem search_nextWord_isSome (n : Nat) (g : Xoshiro) :
    (search nextWord (accepts n) State.period g).isSome = true := by
  obtain ⟨k, hk, heq⟩ := g.exists_after_state_eq (s := ⟨0, 1, 0, 0⟩) (by decide)
  refine search_nextWord_isSome_of_accept hk ?_
  have word : (g.after k).nextWord.1 = 0 := by
    simp only [nextWord, next, heq]
    decide
  rw [word, accepts, Nat.zero_mul, Nat.zero_mod]
  exact decide_eq_true (Nat.zero_le _)

/-- A number below `n`, each equally likely. -/
@[irreducible] def below (n : Nat) (g : Xoshiro) : Nat × Xoshiro :=
  let (word, g) := (search nextWord (accepts n) State.period g).get (search_nextWord_isSome n g)
  (word * n / Word.limit, g)

theorem nextWord_lt (g : Xoshiro) : g.nextWord.1 < Word.limit := by
  have : g.next.1.toNat < 18446744073709551616 := g.next.1.toNat_lt
  show g.next.1.toNat / Word.limit < Word.limit
  unfold Word.limit; omega

theorem scaled_lt {word n : Nat} (hw : word < Word.limit) (hn : 0 < n) :
    word * n / Word.limit < n := by
  rw [Nat.div_lt_iff_lt_mul (by decide), Nat.mul_comm]
  exact Nat.mul_lt_mul_of_pos_left hw hn

/-- A draw below a positive bound is below it, from every state. -/
theorem below_lt {n : Nat} (hn : 0 < n) (g : Xoshiro) : (g.below n).1 < n := by
  obtain ⟨found, h⟩ := Option.isSome_iff_exists.1 (search_nextWord_isSome n g)
  obtain ⟨_, g', hdraw⟩ := of_search_eq_some h
  unfold below
  rw [Option.get_of_eq_some _ h, ← hdraw]
  exact scaled_lt (nextWord_lt g') hn

/-- A draw keeps the first word if it is accepted. -/
theorem below_of_accepts {n : Nat} {g : Xoshiro} (h : accepts n g.nextWord.1 = true) :
    g.below n = (g.nextWord.1 * n / Word.limit, g.nextWord.2) := by
  have found : search nextWord (accepts n) State.period g = some g.nextWord := by
    show search nextWord (accepts n) (State.period - 1 + 1) g = _
    rw [search_succ, if_pos h]
  simp only [below, Option.get_of_eq_some _ found]

/-- A draw that rejects the first word goes on with the next. -/
theorem below_of_not_accepts {n : Nat} {g : Xoshiro} (h : ¬ accepts n g.nextWord.1 = true) :
    g.below n = g.nextWord.2.below n := by
  obtain ⟨found, hfound⟩ := Option.isSome_iff_exists.1 (search_nextWord_isSome n g)
  have rest : search nextWord (accepts n) (State.period - 1) g.nextWord.2 = some found := by
    rw [← hfound]
    show _ = search nextWord (accepts n) (State.period - 1 + 1) g
    rw [search_succ, if_neg h]
  simp only [below, Option.get_of_eq_some _ hfound,
    Option.get_of_eq_some _ (search_mono (Nat.sub_le _ 1) rest)]

end Xoshiro
end Mlfq
