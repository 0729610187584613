/-! # Durations -/

namespace Mlfq

/-- A span of time in nanoseconds. -/
structure Duration where
  nanos : Nat
  deriving DecidableEq

namespace Duration

/-- So many seconds and nanoseconds. -/
def ofParts (seconds nanos : Nat) : Duration := ⟨seconds * 1000000000 + nanos⟩

/-- So many milliseconds. -/
def ofMillis (n : Nat) : Duration := ⟨n * 1000000⟩

/-- So many microseconds. -/
def ofMicros (n : Nat) : Duration := ⟨n * 1000⟩

/-- The digits of `fraction`, read as `places` decimal places, without the zeros at the end. -/
def decimals : Nat → Nat → List Char
  | 0, _ => []
  | places + 1, fraction =>
    if fraction = 0 then []
    else Nat.digitChar (fraction / 10 ^ places) :: decimals places (fraction % 10 ^ places)

/-- The duration in seconds, with as many decimals as it needs. -/
def render (d : Duration) : String :=
  let whole := d.nanos / 1000000000
  match decimals 9 (d.nanos % 1000000000) with
  | [] => s!"{whole}s"
  | digits => s!"{whole}.{String.ofList digits}s"

end Duration
end Mlfq
