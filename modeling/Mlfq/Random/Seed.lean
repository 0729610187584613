import Mlfq.Random.Xoshiro

/-! # Seeds

Two generators are at work in a run: one draws the processes of a random workload, the other the
countdowns of the devices. -/

namespace Mlfq

/-- What the generators of a run start from. -/
inductive Seed where
  /-- The generators are derived from a number. -/
  | number (n : UInt64)
  /-- No number is given: the system has put each generator into a state. -/
  | entropy (workload countdowns : Xoshiro)

namespace Seed

/-- A number as a seed, modulo `2 ^ 64`. -/
def ofNat (n : Nat) : Seed := .number (.ofNat n)

instance {n : Nat} : OfNat Seed n := ⟨ofNat n⟩

/-- The generator of a random workload. -/
def workload : Seed → Xoshiro
  | .number n => .ofSeed n
  | .entropy workload _ => workload

/-- The generator of the countdowns. A number is taken one further for it, so that it differs from
the one of the workload. -/
def countdowns : Seed → Xoshiro
  | .number n => .ofSeed (n + 1)
  | .entropy _ countdowns => countdowns

end Seed
end Mlfq
