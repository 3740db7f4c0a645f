import MeetingLedger.ErrorCode
import MeetingLedger.Migration.CommitteeManagement
import MeetingLedger.Migration.ColorNormalization
import MeetingLedger.Migration.FileInheritance

/-!
# Chains of migration steps

The steps of a chain lead from one migration index to the next without a gap.
-/

namespace MeetingLedger.Migration

/-- The migration index of a dataset that no step has touched. -/
def firstIndex : UInt64 := 1

def Gapless (index : UInt64) : List UInt64 → Prop
  | [] => True
  | target :: rest => target = index + 1 ∧ Gapless target rest

theorem Gapless.append {index target : UInt64} {targets : List UInt64}
    (h : Gapless index targets) (next : target = targets.getLast?.getD index + 1) :
    Gapless index (targets ++ [target]) := by
  induction targets generalizing index with
  | nil => exact ⟨next, trivial⟩
  | cons first rest ih =>
    refine ⟨h.1, ih h.2 ?_⟩
    cases rest <;> simp_all [List.getLast?_cons]

/-- Steps in the order of their targets. -/
structure Chain where
  steps : List Step
  gapless : Gapless firstIndex (steps.map Step.target)

/-- Why a step does not extend a chain. -/
inductive ChainError where
  | duplicateTarget (target : UInt64)
  | gap (expected found : UInt64)

namespace ChainError

def message : ChainError → String
  | duplicateTarget target => s!"a migration to index {target.toNat} is already registered"
  | gap expected found =>
    s!"migration to index {found.toNat} leaves a gap, expected target {expected.toNat}"

def code : ChainError → ErrorCode := fun _ => .migrationChainBroken

end ChainError

namespace Chain

def empty : Chain := ⟨[], trivial⟩

def latest (c : Chain) : UInt64 := (c.steps.map Step.target).getLast?.getD firstIndex

/-- The chain with one more step, which has to lead one further. -/
def register (c : Chain) (s : Step) : Except ChainError Chain :=
  if c.steps.any (·.target == s.target) then .error (.duplicateTarget s.target)
  else if next : s.target = c.latest + 1 then
    .ok ⟨c.steps ++ [s], by simpa using c.gapless.append next⟩
  else .error (.gap (c.latest + 1) s.target)

def ofSteps (steps : List Step) : Except ChainError Chain := steps.foldlM register empty

def standardSteps : List Step :=
  [.event CommitteeManagement.step, .event ColorNormalization.step, .model FileInheritance.step]

/-- The chain to the latest migration index. -/
def standard : Chain := ⟨standardSteps, ⟨rfl, rfl, rfl, trivial⟩⟩

end Chain

end MeetingLedger.Migration
