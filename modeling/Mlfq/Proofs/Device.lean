import Mlfq.Proofs.Scene.Books
import Mlfq.Proofs.Trap

/-! # Who is parked on a device

Only processes with an I/O plan make requests of a device. -/

namespace Mlfq.Scene

open Queue (cores)

variable {s s' : Scene}

/-- Everybody on a device has an I/O plan. -/
def ServesIo (s : Scene) : Prop := ∀ q ∈ s.devices, ∀ p ∈ q, ∃ sets, p.plan = .io sets

namespace ServesIo

theorem step (h : s.ServesIo) (step : Step s s') : s'.ServesIo := by
  cases step with
  | @request p p' r rest d q runs found core =>
    intro q' hq' w hw
    rcases List.mem_or_eq_of_mem_set hq' with old | rfl
    · exact h q' old w hw
    · rcases Queue.mem_enqueue.1 hw with hw | rfl
      · exact h q (List.mem_of_getElem? found) w hw
      · obtain ⟨sets, plan⟩ := Proc.plan_of_trapAt_io runs.trap
        exact ⟨sets, by rw [← w.plan_core, core, plan]⟩
  | @complete p d q found =>
    intro q' hq' w hw
    rcases List.mem_or_eq_of_mem_set hq' with old | rfl
    · exact h q' old w hw
    · exact h _ (List.mem_of_getElem? found) w (List.mem_cons_of_mem p hw)
  | dissolve =>
    rw [ServesIo, devices_dropLock, devices_dropLock]
    exact h
  | _ => exact h

end ServesIo

theorem Fresh.servesIo (fresh : s.Fresh) : s.ServesIo := by
  intro q hq p hp
  obtain ⟨i, found⟩ := List.mem_iff_getElem?.1 hq
  have mem := core_mem_of_device found hp
  exact absurd mem (fresh.notMem_population _)

theorem servesIo_of_steps (fresh : s.Fresh) (steps : Steps s s') : s'.ServesIo := by
  induction steps with
  | refl => exact fresh.servesIo
  | tail _ step ih => exact ih.step step

end Mlfq.Scene
