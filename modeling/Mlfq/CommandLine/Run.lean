import Mlfq.CommandLine.Options
import Mlfq.Simulation
import Mlfq.Workload.Random

/-! # Runs from the command line

A command line is read, and the random workload of its configuration is run to the end. -/

namespace Mlfq.CommandLine

/-- How a command line ends. -/
inductive Outcome where
  | help
  /-- The options could not be read. -/
  | usage
  /-- The configuration was refused. -/
  | refused (d : Config.Defect)
  | crashed (c : Crash)
  | finished (s : Simulation RandomWorkload) (options : Options)

namespace Outcome

/-- The exit code. -/
def exitCode : Outcome → Nat
  | .help => 0
  | .usage => 2
  | .refused _ => 1
  | .crashed _ => 101
  | .finished s _ => if s.interrupted then 1 else 0

/-- The report of the run. -/
def report : Outcome → String
  | .finished s _ => (s.machine.summary s.interrupted).render
  | _ => ""

/-- The listing of the trace, if it was asked for. -/
def traceLines : Outcome → List String
  | .finished s options =>
    if options.trace then s.machine.journal.trace.entries.map (·.render) else []
  | _ => []

/-- The lines of the log. -/
def logLines : Outcome → List String
  | .finished s _ => (s.machine.journal.logSince 0).map (·.line)
  | _ => []

/-- Why there was no run. -/
def failure? : Outcome → Option String
  | .refused d => some s!"Error: invalid simulation config\n\nCaused by:\n    {d.message}"
  | .crashed c => some c.fault.message
  | _ => none

end Outcome

/-- Runs a command line. The seed is `entropy` unless one is given. -/
def execute (words : List String) (entropy : Seed) : Outcome :=
  match Options.read words with
  | .help => .help
  | .mistake => .usage
  | .options options =>
    let config := { options.config with seed := (options.seed.map .number).getD entropy }
    match Simulation.run config (RandomWorkload.ofConfig config) false (some options.logLevel) with
    | .error (.defect d) => .refused d
    | .error (.crash c) => .crashed c
    | .ok s => .finished s options

end Mlfq.CommandLine
