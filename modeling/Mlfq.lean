import Mlfq.Main
import Mlfq.Proofs.Run.Command
import Mlfq.Proofs.Scene.Basic
import Mlfq.Proofs.Scene.Trap
import Mlfq.Proofs.Scene.Simulation
import Mlfq.Proofs.Scene.Population
import Mlfq.Proofs.Scene.Books
import Mlfq.Proofs.Scene.Identity
import Mlfq.Proofs.Lock.Invariant
import Mlfq.Proofs.Deadlock.Pairs
import Mlfq.Proofs.Trap
import Mlfq.Proofs.Deadlock.Exact
import Mlfq.Proofs.Run.Source
import Mlfq.Proofs.Workload.Library
import Mlfq.Proofs.Channel.Binding
import Mlfq.Proofs.Scene.Places
import Mlfq.Proofs.Conservation
import Mlfq.Proofs.Headcount
import Mlfq.Proofs.Workload.Caps
import Mlfq.Proofs.Reconciliation
import Mlfq.Proofs.Agreement
import Mlfq.Proofs.Deadlock.Program
import Mlfq.Proofs.Device
import Mlfq.Proofs.Deadlock.Order
import Mlfq.Proofs.Deadlock.Freedom
import Mlfq.Proofs.Channel.Alternation
import Mlfq.Proofs.Channel.Sides
import Mlfq.Proofs.Channel.Rendezvous
import Mlfq.Proofs.Run.Chronicle
import Mlfq.Proofs.Story.Basic
import Mlfq.Proofs.Story.Machine
import Mlfq.Proofs.Story.Cycle
import Mlfq.Proofs.Story.Roll
import Mlfq.Proofs.Story.Fate
import Mlfq.Proofs.Story.Life
import Mlfq.Proofs.Story.Accounts
import Mlfq.Proofs.Accounting
import Mlfq.Proofs.Channel.Points
import Mlfq.Proofs.Channel.Section
import Mlfq.Proofs.Exclusion
import Mlfq.Proofs.Deadlock.Monitor
import Mlfq.Proofs.Deadlock.Standstill
import Mlfq.Proofs.Story.Watch
import Mlfq.Proofs.Permanence
import Mlfq.Proofs.Deadlock.Dissolution
import Mlfq.Proofs.WorkConservation
import Mlfq.Proofs.Line
import Mlfq.Proofs.Story.Topics
import Mlfq.Proofs.Story.Growth
import Mlfq.Proofs.Transfers
import Mlfq.Proofs.Mutex.Holding
import Mlfq.Proofs.Mutex.Program
import Mlfq.Proofs.MutualExclusion
import Mlfq.Proofs.Wrap
import Mlfq.Proofs.Shared.Basic
import Mlfq.Proofs.Shared.Frame
import Mlfq.Proofs.Shared.Pairs
import Mlfq.Proofs.Channel.Closing
import Mlfq.Proofs.Bookkeeping
import Mlfq.Proofs.Isolation
import Mlfq.Proofs.Run.Diary
import Mlfq.Proofs.Course.Walk
import Mlfq.Proofs.Course.Standing
import Mlfq.Proofs.Course.Run
import Mlfq.Proofs.Passes
import Mlfq.Proofs.Promptness
import Mlfq.Proofs.Journey.Basic
import Mlfq.Proofs.Journey.Machine
import Mlfq.Proofs.Journey.Passage
import Mlfq.Proofs.ArrivalOrder
import Mlfq.Proofs.Story.Range
import Mlfq.Proofs.Workload.Supply
import Mlfq.Proofs.Run.Success
import Mlfq.Proofs.Members
import Mlfq.Proofs.Workload.Ranges
import Mlfq.Proofs.Run.Arithmetic
import Mlfq.Proofs.NoFault
import Mlfq.Proofs.StateTags
import Mlfq.Proofs.Run.ResetLog
import Mlfq.Proofs.Levels
import Mlfq.Proofs.DeviceOrder
import Mlfq.Proofs.Twin.Surface
import Mlfq.Proofs.Twin.Trap
import Mlfq.Proofs.Twin.Mirror
import Mlfq.Proofs.Twin.Step
import Mlfq.Proofs.Twin.Run
import Mlfq.Proofs.Twin.Calls
import Mlfq.Proofs.Observation
import Mlfq.Proofs.Story.Rule
import Mlfq.Proofs.Boundary
import Mlfq.Proofs.Retry.Rest
import Mlfq.Proofs.Retry.Listing
import Mlfq.Proofs.Retry.Attempt
import Mlfq.Proofs.Retry.Refusal
import Mlfq.Proofs.Reacquisition
import Mlfq.Proofs.Backlog
import Mlfq.Proofs.Lock.Calls
import Mlfq.Proofs.PairTable
import Mlfq.Proofs.Run.Extent
import Mlfq.Proofs.Run.Calendar
import Mlfq.Proofs.Cadence
import Mlfq.Proofs.Flushing
import Mlfq.Proofs.Countdown
import Mlfq.Proofs.Quanta
import Mlfq.Proofs.Workload.Parameters
import Mlfq.Proofs.Draining
