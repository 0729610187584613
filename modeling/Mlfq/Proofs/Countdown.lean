import Mlfq.Proofs.DeviceOrder
import Mlfq.Proofs.Quanta
import Mlfq.Proofs.Run.Calendar

/-! # The countdowns of the devices

A device counts down for the request at the head of its queue. The countdown is set when a request
comes to an idle device, and again whenever a request is finished. In between the level of the
process at the head stays what it was, as no reset and no quantum reaches a parked process. -/

namespace Mlfq

/-! ## Devices -/

/-- The time of a request made at a level: its quantum and 10 to 109 more. -/
def Config.Takes (c : Config) (level : Priority) (time : Nat) : Prop :=
  c.quantum level.val + 10 ≤ time ∧ time ≤ c.quantum level.val + 109

/-- The countdown is that of the request at the head of the queue. -/
structure Device.Timed (c : Config) (d : Device) : Prop where
  idle : d.queue = [] → d.countdown = 0
  busy : ∀ p rest, d.queue = p :: rest → c.Takes p.priority d.countdown

theorem Device.timed_empty (c : Config) : Device.Timed c {} := by
  refine ⟨fun _ => rfl, fun p rest queue => ?_⟩
  cases queue

/-- A request sets the countdown only if it is the first. -/
theorem Device.Timed.enqueue {c : Config} {d : Device} (h : d.Timed c) {p : Proc} {time : Nat}
    (takes : c.Takes p.priority time) :
    Device.Timed c { queue := d.queue.enqueue p
                     countdown := if d.queue.isEmpty then time else d.countdown } := by
  constructor
  · intro empty
    cases (List.append_eq_nil_iff.1 empty).2
  · intro q rest queue
    cases waiting : d.queue with
    | nil =>
      rw [waiting] at queue
      cases queue
      exact takes
    | cons first others =>
      rw [waiting] at queue
      cases queue
      exact h.busy q others waiting

variable {σ : Type}

namespace Machine

variable {m m' : Machine σ}

/-- A time that is drawn does not stop at the largest word. -/
theorem takes_drawCountdown (valid : m.config.defect? = none) (priority : Priority) :
    m.config.Takes priority (m.drawCountdown priority).1 := by
  have below := Xoshiro.below_lt (n := 100) (by decide) m.gen
  have time : (m.drawCountdown priority).1 =
      Word.satAdd (m.config.quantum priority.val) (10 + (m.gen.below 100).1) := rfl
  generalize (m.gen.below 100).1 = n at below time
  rw [Config.Takes, time, Config.satAdd_quantum valid priority below]
  omega

/-- All devices are timed, and there are so many of them. -/
structure Timed (m : Machine σ) : Prop where
  count : m.devices.length = m.config.ioDevices
  devices : ∀ d ∈ m.devices, d.Timed m.config

namespace Timed

theorem of_eq (h : m.Timed) (config : m'.config = m.config) (devices : m'.devices = m.devices) :
    m'.Timed := by
  constructor
  · rw [config, devices, h.count]
  · rw [config, devices]
    exact h.devices

/-- A device is replaced by one that is timed. -/
theorem set (h : m.Timed) {n : Nat} {d : Device} (config : m'.config = m.config)
    (devices : m'.devices = m.devices.set n d) (timed : d.Timed m.config) : m'.Timed := by
  constructor
  · rw [config, devices, List.length_set, h.count]
  · intro d' hd'
    rw [devices] at hd'
    rw [config]
    rcases List.mem_or_eq_of_mem_set hd' with old | rfl
    · exact h.devices d' old
    · exact timed

theorem startIo (h : m.Timed) (valid : m.config.defect? = none) (device : DeviceId) :
    (m.startIo device).2.Timed := by
  unfold Machine.startIo
  split
  · rename_i d p found running
    have old := h.devices d (List.mem_of_getElem? found)
    exact h.set rfl rfl (old.enqueue (p := { p with pc := m.cpuPc, state := .blocked })
      (takes_drawCountdown valid p.priority))
  · exact h

theorem completeIo (h : m.Timed) (valid : m.config.defect? = none) {device : DeviceId}
    (done : m.completeIo device = .ok (some m')) : m'.Timed := by
  unfold Machine.completeIo at done
  split at done
  · cases done
  · rename_i d found
    split at done
    · cases done
    · rename_i p queue first
      obtain ⟨pc, -, done⟩ := exists_of_bind_eq_ok done
      cases queue with
      | nil =>
        cases done
        refine h.set rfl rfl ⟨fun _ => rfl, fun q others queue => ?_⟩
        cases queue
      | cons next rest =>
        cases done
        refine h.set rfl rfl ⟨nofun, fun q others queue => ?_⟩
        cases queue
        exact takes_drawCountdown (m := { m with ready := m.ready.enqueue { p with pc } }) valid
          next.priority

theorem handleTrap (h : m.Timed) (valid : m.config.defect? = none) (t : Trap) :
    (m.handleTrap t).2.Timed := by
  cases t with
  | io device =>
    let counted := m.measure fun c => { c with traps := c.traps.increment (Trap.io device).label }
    have timed : counted.Timed := h.of_eq rfl rfl
    exact timed.startIo valid device
  | _ =>
    obtain ⟨config, -⟩ := of_clock (m.reseats_handleTrap _).clock_eq
    exact h.of_eq config ((tells_handleTrap m _).devices (by simp [Trap.topics]))

end Timed
end Machine

/-! ## Runs -/

namespace Moment

variable [Workload σ] {mo mo' : Moment σ}

theorem timed_of_next (h : mo.ledger.machine.Timed)
    (valid : mo.ledger.machine.config.defect? = none) (next : Next mo mo') :
    mo'.ledger.machine.Timed := by
  have config := next.config_eq
  rcases next.tells_or_serves with tells | ⟨p, t, m, raises, handled⟩ | ⟨device, done⟩
  · exact h.of_eq config (tells.devices (by decide))
  · -- The configuration is the same after the handler, and so it was before.
    obtain ⟨same, -⟩ := Machine.of_clock (m.reseats_handleTrap t).clock_eq
    rw [← handled] at same
    have before : m.config = mo.ledger.machine.config := same.symm.trans config
    have timed : m.Timed := h.of_eq before (raises.tells.devices (by decide))
    rw [handled]
    exact timed.handleTrap (before ▸ valid) t
  · exact h.completeIo valid done

theorem timed_of_reachable {config : Config} {workload : σ} {logLevel : Option Level}
    (reachable : Reachable (.start config workload logLevel) mo) (valid : config.defect? = none) :
    mo.ledger.machine.config = config ∧ mo.ledger.machine.Timed := by
  induction reachable with
  | refl =>
    refine ⟨rfl, List.length_replicate, fun d hd => ?_⟩
    rw [List.eq_of_mem_replicate hd]
    exact Device.timed_empty config
  | tail _ next ih =>
    obtain ⟨rfl, timed⟩ := ih
    exact ⟨next.config_eq, timed_of_next timed valid next⟩

end Moment

/-- At every moment of every run of a configuration without a defect, the countdown of each of its
devices is 0 if nobody waits there, and otherwise it is 10 to 109 more than the quantum of the level
of the process at the head of the queue. -/
theorem countdown_of_reachable [Workload σ] {config : Config} {workload : σ}
    {logLevel : Option Level} {mo : Moment σ}
    (reachable : Moment.Reachable (.start config workload logLevel) mo)
    (valid : config.defect? = none) :
    mo.ledger.machine.devices.length = config.ioDevices ∧
      ∀ d ∈ mo.ledger.machine.devices, d.Timed config := by
  obtain ⟨rfl, timed⟩ := Moment.timed_of_reachable reachable valid
  exact ⟨timed.count, timed.devices⟩

/-- A run in which a process is demoted and waits at a device behind another one. When the request
of that one is finished, the countdown is set for level 1. -/
theorem countdown_of_reachable_askers : ∃ mo : Moment GivenArrivals,
    Moment.Reachable (.start {} ⟨Arrival.askers⟩ none) mo ∧
    (∀ d ∈ mo.ledger.machine.devices, d.Timed {}) ∧
    ∃ d ∈ mo.ledger.machine.devices,
      d.queue.map (fun p => (p.pid, p.priority)) = [(⟨0⟩, .clamped 1)] := by
  have run : ((Machine.start {} (⟨Arrival.askers⟩ : GivenArrivals) none).performAll
      [.boot, .schedule .idle [], .timerInterrupt [], .tick [], .tick [], .tick [],
        .ioInterrupt ⟨0⟩ []]).toOption.any (fun m => m.devices.any fun d =>
      d.queue.map (fun p => (p.pid, p.priority)) == [(⟨0⟩, .clamped 1)]) = true := by
    decide +kernel
  obtain ⟨mo, reachable, -, test⟩ := Moment.exists_reachable_of_performAll run
  simp only [List.any_eq_true, beq_iff_eq] at test
  exact ⟨mo, reachable, (countdown_of_reachable reachable (by decide)).2, test⟩

end Mlfq
