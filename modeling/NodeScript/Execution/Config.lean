import NodeScript.Json.Value

/-!
Tuning of execution, as hosts set it: how much storage instances get, how many triggers may wait
and how long a script may run in one turn.
-/
namespace NodeScript

structure Config where
  /-- Multiplies the stack size of a script; used within `1 ≤ factor ≤ 16`. -/
  stackSafetyFactor : UInt16
  maxPendingTriggers : Nat
  maxStepsPerResume : Nat
  deriving DecidableEq, Repr

namespace Config

def standard : Config := ⟨2, 4, 10000⟩

/-- The factor within the range that is honoured. -/
def effectiveFactor (c : Config) : UInt16 := min (max c.stackSafetyFactor 1) 16

open Json (Tree)

def wordField? (bound : Nat) (default : Nat) : Option Tree → Option Nat
  | none => some default
  | some tree => tree.natBelow? bound

def ofTree? (tree : Tree) : Option Config := do
  match ← tree.record? ["stack_safety_factor", "max_pending_triggers", "max_steps_per_resume"] with
  | [factor, pending, steps] =>
    let factor ← wordField? UInt16.size standard.stackSafetyFactor.toNat factor
    let pending ← wordField? UInt64.size standard.maxPendingTriggers pending
    let steps ← wordField? UInt64.size standard.maxStepsPerResume steps
    pure ⟨factor.toUInt16, pending, steps⟩
  | _ => none

/-- Reads a configuration. Missing fields have their standard values. -/
def ofJson? (text : String) : Option Config := (Tree.parse? text).bind ofTree?

end Config

end NodeScript
