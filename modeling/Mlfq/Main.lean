import Mlfq.CommandLine.Run

/-! # The program -/

open Mlfq CommandLine

/-- A generator in a state from the system. -/
def entropy : IO Xoshiro := do
  let bytes ← IO.getRandomBytes 32
  let word (i : Nat) := (bytes.extract (8 * i) (8 * i + 8)).toUInt64LE!
  return .ofState ⟨word 0, word 1, word 2, word 3⟩

/-- Runs the command line, reports on standard output, and writes the trace, the log and failures
to standard error. -/
def main (words : List String) : IO UInt32 := do
  let outcome := execute words (.entropy (← entropy) (← entropy))
  match outcome with
  | .help => IO.print Options.helpText
  | .usage => IO.eprintln "The options could not be read; --help lists them."
  | _ =>
    for line in outcome.logLines ++ outcome.traceLines do
      IO.eprintln line
    IO.print outcome.report
    match outcome.failure? with
    | none => pure ()
    | some text => IO.eprintln text
  return outcome.exitCode.toUInt32
