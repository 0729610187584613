import Mlfq.Proofs.Channel.Rendezvous
import Mlfq.Proofs.Journey.Machine
import Mlfq.Proofs.Story.Topics

/-! # Devices finish requests in order

A device finishes the requests that are made of it one by one, in the order in which they were made,
whatever happens on other devices: the requests told in the trace are those that were finished,
followed by those in its queue. -/

namespace Mlfq

/-- The process that makes a request of device `d` in an event. -/
def Event.requester? (d : DeviceId) : Event → Option Pid
  | .ioTrap pid device _ => if device = d then some pid else none
  | _ => none

/-- The process whose request of device `d` is finished in an event. -/
def Event.finisher? (d : DeviceId) : Event → Option Pid
  | .ioCompleted pid device => if device = d then some pid else none
  | _ => none

/-- The processes that made a request of device `d` in these events, in order. -/
def requests (d : DeviceId) (es : List Event) : List Pid := es.filterMap (Event.requester? d)

/-- The processes whose request of device `d` was finished in these events, in order. -/
def completions (d : DeviceId) (es : List Event) : List Pid := es.filterMap (Event.finisher? d)

theorem requests_append (d : DeviceId) (es es' : List Event) :
    requests d (es ++ es') = requests d es ++ requests d es' := List.filterMap_append

theorem completions_append (d : DeviceId) (es es' : List Event) :
    completions d (es ++ es') = completions d es ++ completions d es' := List.filterMap_append

/-- What is on other topics is not about requests. -/
theorem requests_completions_eq_nil {es : List Event} (other : ∀ e ∈ es, e.topic ≠ .device)
    (d : DeviceId) : requests d es = [] ∧ completions d es = [] := by
  refine ⟨List.filterMap_eq_nil_iff.2 fun e he => ?_, List.filterMap_eq_nil_iff.2 fun e he => ?_⟩
  · cases e with
    | ioTrap => exact absurd rfl (other _ he)
    | _ => rfl
  · cases e with
    | ioCompleted => exact absurd rfl (other _ he)
    | _ => rfl

/-- What becomes of the queue of device `d` while these events are told. -/
inductive Attends (d : DeviceId) (es : List Event) : Queue → Queue → Prop
  | rest {q : Queue} (told : requests d es = [] ∧ completions d es = []) : Attends d es q q
  | request {q : Queue} {p : Proc} (told : requests d es = [p.pid] ∧ completions d es = []) :
    Attends d es q (q.enqueue p)
  | complete {q rest : Queue} {p : Proc} (first : q.dequeue = some (p, rest))
    (told : requests d es = [] ∧ completions d es = [p.pid]) : Attends d es q rest

namespace Attends

variable {d : DeviceId} {es es' : List Event} {q q' : Queue}

/-- What was told before of other things makes no difference. -/
theorem after (quiet : requests d es = [] ∧ completions d es = []) (h : Attends d es' q q') :
    Attends d (es ++ es') q q' := by
  have same : requests d (es ++ es') = requests d es' ∧
      completions d (es ++ es') = completions d es' := by
    rw [requests_append, completions_append, quiet.1, quiet.2, List.nil_append, List.nil_append]
    exact ⟨rfl, rfl⟩
  cases h with
  | rest told => exact .rest (by rwa [same.1, same.2])
  | request told => exact .request (by rwa [same.1, same.2])
  | complete first told => exact .complete first (by rwa [same.1, same.2])

/-- The requests stay those that were finished and those in the queue. -/
theorem order (h : Attends d es' q q')
    (order : requests d es = completions d es ++ q.map (·.pid)) :
    requests d (es ++ es') = completions d (es ++ es') ++ q'.map (·.pid) := by
  rw [requests_append, completions_append, order]
  cases h with
  | rest told => rw [told.1, told.2, List.append_nil, List.append_nil]
  | request told =>
    rw [told.1, told.2, List.append_nil, Queue.enqueue, List.map_append, List.append_assoc]
    rfl
  | complete first told =>
    rw [told.1, told.2, Queue.eq_cons_of_dequeue first, List.append_nil, List.append_assoc]
    rfl

end Attends

variable {σ : Type}

namespace Machine

variable {m m' : Machine σ} {d : DeviceId}

/-- More is told, and meanwhile the queue of device `d` is attended to. -/
def AttendsTo (m m' : Machine σ) (d : DeviceId) : Prop :=
  ∃ es, m'.events = m.events ++ es ∧
    Attends d es (m.recordsAt (.device d)) (m'.recordsAt (.device d))

/-- What is told of other topics is not about requests, and the queues stay. -/
theorem Tells.quiet {topics : List Event.Topic} (h : m.Tells topics m') (other : .device ∉ topics)
    (d : DeviceId) : ∃ es, m'.events = m.events ++ es ∧
      (requests d es = [] ∧ completions d es = []) ∧
      m'.recordsAt (.device d) = m.recordsAt (.device d) := by
  obtain ⟨-, es, topic, events⟩ := h.journal
  have quiet : ∀ e ∈ es, e.topic ≠ .device := fun e he about => other (about ▸ topic e he)
  refine ⟨es, events, requests_completions_eq_nil quiet d, ?_⟩
  rw [recordsAt, h.devices other, recordsAt]

theorem Tells.attendsTo {topics : List Event.Topic} (h : m.Tells topics m')
    (other : .device ∉ topics) (d : DeviceId) : m.AttendsTo m' d := by
  obtain ⟨es, events, quiet, same⟩ := h.quiet other d
  exact ⟨es, events, same.symm ▸ .rest quiet⟩

/-- Before the queue is attended to, other things can happen. -/
theorem Tells.attendsTo_of {topics : List Event.Topic} {m₁ : Machine σ} (h : m.Tells topics m₁)
    (other : .device ∉ topics) (later : m₁.AttendsTo m' d) : m.AttendsTo m' d := by
  obtain ⟨es, events, quiet, same⟩ := h.quiet other d
  obtain ⟨es', events', attends⟩ := later
  exact ⟨es ++ es', by rw [events', events, List.append_assoc], same ▸ attends.after quiet⟩

/-- When one device is replaced, only its own queue is attended to. -/
theorem attendsTo_of_set_device {device : DeviceId} {old new : Device} (e : Event)
    (found : m.devices[device.num]? = some old) (set : m'.devices = m.devices.set device.num new)
    (events : m'.events = m.events ++ [e]) (here : Attends device [e] old.queue new.queue)
    (other : ∀ k, k ≠ device → requests k [e] = [] ∧ completions k [e] = []) (d : DeviceId) :
    m.AttendsTo m' d := by
  refine ⟨[e], events, ?_⟩
  rw [recordsAt_of_set_device set (List.getElem?_eq_some_iff.1 found).1]
  by_cases same : device = d
  · obtain rfl := same
    rw [if_pos rfl, recordsAt, found]
    exact here
  · rw [if_neg same]
    exact .rest (other d (Ne.symm same))

/-- A new request is the last in the queue of its device. -/
theorem attendsTo_startIo (tracing : m.journal.tracing = true) (device d : DeviceId) :
    m.AttendsTo (m.startIo device).2 d := by
  unfold startIo
  split
  · rename_i b p found running
    refine attendsTo_of_set_device (.ioTrap p.pid device (m.drawCountdown p.priority).1) found rfl
      ?_ ?_ (fun k ne => ?_) d
    · exact events_emit tracing _
    · exact .request ⟨List.filterMap_cons_some (if_pos rfl), rfl⟩
    · exact ⟨List.filterMap_cons_none (if_neg (Ne.symm ne)), rfl⟩
  · exact ⟨[], (List.append_nil _).symm, .rest ⟨rfl, rfl⟩⟩

/-- The request that is finished is the first in the queue of its device. -/
theorem attendsTo_completeIo (tracing : m.journal.tracing = true) {device : DeviceId}
    (h : m.completeIo device = .ok (some m')) (d : DeviceId) : m.AttendsTo m' d := by
  obtain ⟨b, p, rest, countdown, gen, found, first, rfl⟩ := exists_of_completeIo h
  refine attendsTo_of_set_device (.ioCompleted p.pid device) found rfl ?_ ?_ (fun k ne => ?_) d
  · exact (Journal.events_event ..).trans (if_pos tracing)
  · exact .complete (first ▸ rfl) ⟨rfl, List.filterMap_cons_some (if_pos rfl)⟩
  · exact ⟨rfl, List.filterMap_cons_none (if_neg (Ne.symm ne))⟩

theorem attendsTo_handleTrap (tracing : m.journal.tracing = true) (t : Trap) (d : DeviceId) :
    m.AttendsTo (m.handleTrap t).2 d := by
  cases t with
  | io device =>
    let m₀ := m.measure fun c => { c with traps := c.traps.increment (Trap.io device).label }
    have counted : Tells [] m m₀ := .measure (.refl _ m) _
    exact counted.attendsTo_of (by decide) (attendsTo_startIo (m := m₀) tracing device d)
  | _ => exact (tells_handleTrap m _).attendsTo (by simp [Trap.topics]) d

/-- A device without requests, or one that does not exist, has nothing to finish. -/
theorem completeIo_of_no_request (h : m.recordsAt (.device d) = []) :
    m.completeIo d = .ok none := by
  unfold completeIo
  split
  · rfl
  · rename_i b found
    rw [recordsAt, found] at h
    change b.queue = [] at h
    rw [h]
    rfl

/-- At every device the requests so far are those that were finished, followed by those in its
queue, and an interrupt of a device that has none does nothing. -/
structure ServesInOrder [Workload σ] (m : Machine σ) : Prop where
  order : ∀ d, requests d m.events =
    completions d m.events ++ (m.recordsAt (.device d)).map (·.pid)
  idle : ∀ d, m.recordsAt (.device d) = [] →
    (∀ timers, m.ioInterrupt d timers = .ok m) ∧
      ∀ upcoming, m.perform (.ioInterrupt d upcoming) = .ok m

end Machine

namespace Moment

variable [Workload σ] {mo mo' : Moment σ}

/-- Between a moment and the next a device takes a request, finishes one, or neither. -/
theorem Next.attendsTo (next : Next mo mo')
    (tracing : mo.ledger.machine.journal.tracing = true) (d : DeviceId) :
    mo.ledger.machine.AttendsTo mo'.ledger.machine d := by
  rcases next.tells_or_serves with tells | ⟨p, t, m₁, raises, handled⟩ | ⟨device, done⟩
  · exact tells.attendsTo (by decide) d
  · have tracing₁ : m₁.journal.tracing = true := raises.tells.journal.1.trans tracing
    rw [handled]
    exact raises.tells.attendsTo_of (by decide) (Machine.attendsTo_handleTrap tracing₁ t d)
  · exact Machine.attendsTo_completeIo tracing done d

/-- The trace tells the order of requests at every moment. -/
theorem order_of_reachable {config : Config} {workload : σ} {logLevel : Option Level}
    (reachable : Reachable (.start config workload logLevel) mo)
    (tracing : config.recordTrace = true) :
    mo.ledger.machine.journal.tracing = true ∧ ∀ d,
      requests d mo.ledger.machine.events = completions d mo.ledger.machine.events ++
        (mo.ledger.machine.recordsAt (.device d)).map (·.pid) := by
  induction reachable with
  | refl =>
    refine ⟨tracing, fun d => ?_⟩
    have none : (Machine.start config workload logLevel).recordsAt (.device d) = [] :=
      List.eq_nil_iff_forall_not_mem.2 fun p => Machine.not_holds_start (.device d, p)
    rw [none]
    rfl
  | tail _ next ih =>
    refine ⟨next.tracing_eq.trans ih.1, fun d => ?_⟩
    obtain ⟨es, events, attends⟩ := next.attendsTo ih.1 d
    rw [events]
    exact attends.order (ih.2 d)

end Moment

/-- At every moment of every run each device has finished the first of its requests, in the order in
which they were made, and the others wait in its queue in that order; and from this moment to the
next the queue of a device changes only with a request made of it or finished by it. -/
theorem servesInOrder_of_reachable [Workload σ] {config : Config} {workload : σ}
    {logLevel : Option Level} {mo : Moment σ}
    (reachable : Moment.Reachable (.start config workload logLevel) mo)
    (tracing : config.recordTrace = true) :
    mo.ledger.machine.ServesInOrder ∧ ∀ mo', Moment.Next mo mo' → ∀ d,
      Attends d (mo.told mo') (mo.ledger.machine.recordsAt (.device d))
        (mo'.ledger.machine.recordsAt (.device d)) := by
  obtain ⟨traced, order⟩ := Moment.order_of_reachable reachable tracing
  refine ⟨⟨order, fun d none => ?_⟩, fun mo' next d => ?_⟩
  · have idle := Machine.completeIo_of_no_request none
    constructor
    · intro timers
      rw [Machine.ioInterrupt, idle]
      rfl
    · intro upcoming
      rw [Machine.perform, Episode.ioInterrupt, idle]
      rfl
  · obtain ⟨es, events, attends⟩ := next.attendsTo traced d
    exact Moment.told_eq events ▸ attends

/-- Two processes that make requests of one device, and one that makes them of another. -/
def Arrival.askers : List Arrival :=
  [.single (.ioBound ⟨0⟩ 2 0 [.ofList [1]]), .single (.ioBound ⟨1⟩ 2 0 [.ofList [1]]),
    .single (.ioBound ⟨2⟩ 2 0 [.ofList [], .ofList [1]])]

/-- A run in which a process is back in the queue of a device that has finished its request, behind
another one. -/
theorem servesInOrder_of_reachable_askers : ∃ mo : Moment GivenArrivals,
    Moment.Reachable (.start {} ⟨Arrival.askers⟩ none) mo ∧ mo.ledger.machine.ServesInOrder ∧
    requests ⟨0⟩ mo.ledger.machine.events = [⟨0⟩, ⟨1⟩, ⟨0⟩] ∧
    completions ⟨0⟩ mo.ledger.machine.events = [⟨0⟩] ∧
    requests ⟨1⟩ mo.ledger.machine.events = [⟨2⟩] ∧
    mo.ledger.machine.recordsAt (.device ⟨2⟩) = [] := by
  have run : ((Machine.start {} (⟨Arrival.askers⟩ : GivenArrivals) none).performAll
      (.boot :: List.replicate 4 (.tick []) ++ [.ioInterrupt ⟨0⟩ [], .tick [], .tick [], .tick [],
        .tick []])).toOption.any (fun m =>
      requests ⟨0⟩ m.events == [⟨0⟩, ⟨1⟩, ⟨0⟩] && (completions ⟨0⟩ m.events == [⟨0⟩] &&
        (requests ⟨1⟩ m.events == [⟨2⟩] && (m.recordsAt (.device ⟨2⟩)).isEmpty))) = true := by
    decide +kernel
  obtain ⟨mo, reachable, -, test⟩ := Moment.exists_reachable_of_performAll run
  simp only [Bool.and_eq_true, beq_iff_eq, List.isEmpty_iff] at test
  exact ⟨mo, reachable, (servesInOrder_of_reachable reachable rfl).1, test⟩

end Mlfq
