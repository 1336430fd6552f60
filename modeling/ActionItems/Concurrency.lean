import ActionItems.Fault

/-! # Bounds on jobs at once

At most so many jobs run at once, and at least one does. What a job returns does not depend on the
bound. -/

namespace ActionItems

/-- A bound on the number of jobs that run at once. -/
structure Concurrency where
  limit : UInt64
  positive : limit ≠ 0

namespace Concurrency

/-- The bound with a limit. -/
def ofLimit (limit : UInt64) : Except SettingsFault Concurrency :=
  if h : limit = 0 then .error .noConcurrency else .ok ⟨limit, h⟩

/-- Runs a job under a bound. -/
def run {α : Type} (_ : Concurrency) (job : Unit → α) : α := job ()

end Concurrency

end ActionItems
