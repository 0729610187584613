import Mlfq.Config
import Mlfq.Journal.Event

/-! # Command-line options

The options of the program, and how a list of words is read as options. A word that starts with
`-` names options: `--long`, or a cluster of short ones. The value of an option stands behind it in
the same word or is the next word. Options that count may be repeated; all others are given once at
most. -/

namespace Mlfq.CommandLine

/-- What the command line asks for. -/
structure Options where
  /-- The configuration, but for the seed. -/
  config : Config := { recordTrace := false }
  seed : Option UInt64 := none
  /-- Whether the trace is listed at the end. -/
  trace : Bool := false
  /-- How often more output was asked for. -/
  verbosity : Nat := 0
  /-- Whether metrics are to be served. -/
  serveMetrics : Bool := false

/-- What giving an option does. -/
inductive Switch.Action where
  /-- Changes the options; given once at most. -/
  | flag (set : Options → Options)
  /-- Changes the options each time it is given. -/
  | counted (set : Options → Options)
  /-- Takes a value; given once at most. -/
  | value (read : List Char → Option Nat) (set : Nat → Options → Options)
  /-- Asks for the help text. -/
  | help

/-- An option: its names, what it does, and what the help text says of it. -/
structure Switch where
  long : String
  short : Option Char := none
  action : Switch.Action
  purpose : String

namespace Options

/-- The number that decimal digits denote. There has to be a digit. -/
def readDigits (cs : List Char) : Option Nat :=
  if cs.isEmpty || !cs.all Char.isDigit then none
  else some (cs.foldl (fun n c => 10 * n + (c.toNat - '0'.toNat)) 0)

/-- A number below a bound, with or without a plus sign. -/
def readBelow (bound : Nat) (cs : List Char) : Option Nat :=
  let digits :=
    match cs with
    | '+' :: rest => rest
    | _ => cs
  (readDigits digits).filter (· < bound)

/-- A 64-bit number. -/
def readLong (cs : List Char) : Option Nat := readBelow 18446744073709551616 cs

/-- A 32-bit number. Zero may have a minus sign. -/
def readWord (cs : List Char) : Option Nat :=
  match cs with
  | '-' :: rest => (readDigits rest).filter (· = 0)
  | _ => readBelow Word.limit cs

/-- Changes the configuration. -/
def setConfig (o : Options) (f : Config → Config) : Options := { o with config := f o.config }

/-- Changes the caps of the configuration. -/
def setCaps (o : Options) (f : Caps → Caps) : Options :=
  o.setConfig fun c => { c with caps := f c.caps }

/-- All options. -/
def switches : List Switch := [
  { long := "iterations", short := 'n', purpose := "CPU cycles to run"
    action := .value readLong fun n o => o.setConfig ({ · with iterations := n }) },
  { long := "timer-interval-ms", short := 't', purpose := "milliseconds between timer interrupts"
    action := .value readLong fun n o => o.setConfig ({ · with timerInterval := .ofMillis n }) },
  { long := "io-tick-us", purpose := "microseconds per unit of a device countdown"
    action := .value readLong fun n o => o.setConfig ({ · with ioTick := .ofMicros n }) },
  { long := "io-devices", short := 'd', purpose := "I/O devices, at least 2"
    action := .value readLong fun n o => o.setConfig ({ · with ioDevices := n }) },
  { long := "quantum-base", purpose := "quantum of level 0 in cycles"
    action := .value readWord fun n o => o.setConfig ({ · with baseQuantum := n }) },
  { long := "quantum-step", purpose := "quantum increase per level in cycles"
    action := .value readWord fun n o => o.setConfig ({ · with quantumStep := n }) },
  { long := "reset-multiple", purpose := "middle quanta between priority resets"
    action := .value readWord fun n o => o.setConfig ({ · with resetMultiple := n }) },
  { long := "deadlock-interval", short := 'D', purpose := "dispatches between deadlock scans"
    action := .value readLong fun n o => o.setConfig ({ · with scanInterval := n }) },
  { long := "zombie-threshold", short := 'z', purpose := "ended processes dropped at a time"
    action := .value readLong fun n o => o.setConfig ({ · with zombieThreshold := n }) },
  { long := "no-deadlock", purpose := "one lock order for both members of a mutex pair"
    action := .flag fun o => o.setConfig ({ · with reversePairs := false }) },
  { long := "strict-unlock", purpose := "ignore releases of locks that are not held"
    action := .flag fun o => o.setConfig ({ · with strictUnlock := true }) },
  { long := "max-batch", short := 'b', purpose := "bound on the candidates of a batch"
    action := .value readWord fun n o => o.setConfig ({ · with maxBatch := n }) },
  { long := "max-io", purpose := "most I/O-bound processes alive"
    action := .value readLong fun n o => o.setCaps ({ · with ioLive := n }) },
  { long := "max-compute", purpose := "most compute-bound processes alive"
    action := .value readLong fun n o => o.setCaps ({ · with computeLive := n }) },
  { long := "max-mutex", purpose := "most mutex users created"
    action := .value readLong fun n o => o.setCaps ({ · with mutexCreated := n }) },
  { long := "max-pairs", purpose := "most producer and consumer pairs created"
    action := .value readLong fun n o => o.setCaps ({ · with rendezvousPairs := n }) },
  { long := "seed", short := 's', purpose := "seed of the random numbers"
    action := .value readLong fun n o => { o with seed := some (.ofNat n) } },
  { long := "trace", purpose := "list the trace at the end"
    action := .flag fun o =>
      { o.setConfig ({ · with recordTrace := true }) with trace := true } },
  { long := "verbose", short := 'v', purpose := "log more; may be repeated"
    action := .counted fun o => { o with verbosity := o.verbosity + 1 } },
  { long := "enable-prometheus", purpose := "serve metrics"
    action := .flag fun o => { o with serveMetrics := true } },
  { long := "help", short := 'h', purpose := "print this text", action := .help }]

/-- The line of the help text for an option. -/
def helpLine (s : Switch) : String :=
  let short := (s.short.map fun c => "-" ++ c.toString ++ ", ").getD "    "
  "  " ++ short ++ Text.padRight 22 ' ' ("--" ++ s.long) ++ s.purpose ++ "\n"

/-- The help text. -/
def helpText : String := "Options:\n" ++ String.join (switches.map helpLine)

/-- The level from which on messages are logged. -/
def logLevel (o : Options) : Level :=
  match o.verbosity with
  | 0 => .info
  | 1 => .debug
  | _ => .trace

/-! ## Reading -/

/-- How a list of words is taken. -/
inductive Reading where
  /-- As options. -/
  | options (o : Options)
  /-- As a request for help. -/
  | help
  /-- As a mistake. -/
  | mistake

/-- The options read so far and the long names of those given. -/
structure Gathered where
  options : Options := {}
  given : List String := []

/-- How far a word takes the reading. -/
inductive Progress where
  | next (p : Gathered)
  /-- The value of this option is the next word. -/
  | awaiting (s : Switch) (p : Gathered)
  | help
  | mistake

/-- An option with its value. -/
def give (p : Gathered) (s : Switch) (value : List Char) : Progress :=
  match s.action with
  | .value read set =>
    if p.given.contains s.long then .mistake
    else
      match read value with
      | none => .mistake
      | some n => .next { options := set n p.options, given := s.long :: p.given }
  | _ => .mistake

/-- An option without a value. -/
def mention (p : Gathered) (s : Switch) : Progress :=
  match s.action with
  | .flag set =>
    if p.given.contains s.long then .mistake
    else .next { options := set p.options, given := s.long :: p.given }
  | .counted set => .next { p with options := set p.options }
  | .value _ _ => .awaiting s p
  | .help => .help

/-- A long option; a value may follow an equals sign. -/
def readLongName (p : Gathered) (cs : List Char) : Progress :=
  let name := String.ofList (cs.takeWhile (· != '='))
  match switches.find? (·.long == name), cs.dropWhile (· != '=') with
  | none, _ => .mistake
  | some s, [] => mention p s
  | some s, _ :: value => give p s value

/-- A cluster of short options. What follows an option that takes a value is its value, and an
equals sign between the two is skipped. -/
def readCluster (p : Gathered) : List Char → Progress
  | [] => .next p
  | c :: rest =>
    match switches.find? (·.short == some c) with
    | none => .mistake
    | some s =>
      match s.action, rest with
      | .value _ _, '=' :: value => give p s value
      | .value _ _, _ :: _ => give p s rest
      | _, _ =>
        match mention p s with
        | .next p => readCluster p rest
        | progress => progress

/-- Reads words after those of `p`. If an option awaits its value, the next word has to be one: a
word that starts with `-` is not, unless it is `-` alone. Two dashes end the options. -/
def readFrom (p : Gathered) (awaiting : Option Switch) : List String → Reading
  | [] => if awaiting.isSome then .mistake else .options p.options
  | word :: rest =>
    let progress :=
      match word.toList, awaiting with
      | ['-'], some s => give p s ['-']
      | ['-', '-'], none => if rest.isEmpty then .next p else .mistake
      | '-' :: _, some _ => .mistake
      | value, some s => give p s value
      | '-' :: '-' :: name, none => readLongName p name
      | '-' :: c :: cluster, none => readCluster p (c :: cluster)
      | _, none => .mistake
    match progress with
    | .next p => readFrom p none rest
    | .awaiting s p => readFrom p (some s) rest
    | .help => .help
    | .mistake => .mistake

/-- Reads the words of a command line. -/
def read (words : List String) : Reading := readFrom {} none words

end Options
end Mlfq.CommandLine
