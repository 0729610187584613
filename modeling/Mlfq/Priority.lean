/-! # Priorities

There are sixteen priority levels. Level 0 is served first. -/

namespace Mlfq

/-- A priority level. -/
abbrev Priority := Fin 16

namespace Priority

/-- The level that is served first. -/
def highest : Priority := ⟨0, by decide⟩

/-- The level that is served last. -/
def lowest : Priority := ⟨15, by decide⟩

/-- The level of this number; numbers past the last level mean the last level. -/
def clamped (level : Nat) : Priority := ⟨min level 15, by omega⟩

/-- One level lower in service; the lowest level stays. -/
def demoted (priority : Priority) : Priority := clamped (priority.val + 1)

@[simp] theorem val_clamped (level : Nat) : (clamped level).val = min level 15 := rfl

@[simp] theorem val_demoted (priority : Priority) :
    (demoted priority).val = min (priority.val + 1) 15 := rfl

theorem clamped_val (priority : Priority) : clamped priority.val = priority := by
  apply Fin.ext; rw [val_clamped]; omega

end Priority
end Mlfq
