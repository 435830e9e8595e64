import NodeScript.Binary.Basic

/-!
Time that a paused execution has spent waiting. Execution asks two things of it, so it is stated
for any type that answers them; hosts measure it in binary64 milliseconds, where every sum is
rounded.
-/
namespace NodeScript

/-- Amounts of time that add up and are compared with whole milliseconds. -/
class Elapsed (τ : Type) where
  /-- The time after one more frame. -/
  add : τ → τ → τ
  /-- Whether a waiting time has passed. -/
  reaches : τ → Int64 → Bool

/-- Milliseconds as the magnitude of a binary64 number. -/
structure Millis where
  magnitude : Nat
  deriving DecidableEq, Repr

namespace Millis

/-- The length of a frame given in seconds. A negative length and no number are no time. -/
def ofFrame (seconds : Binary32) : Millis :=
  ⟨Format.double.mul (Format.single.convert .double seconds.clampedMagnitude)
    (Format.double.ofNat 1000)⟩

instance : Elapsed Millis where
  add a b := ⟨Format.double.add a.magnitude b.magnitude⟩
  reaches a duration :=
    decide (duration.toInt ≤ 0 ∨ Format.double.ofNat duration.toInt.toNat ≤ a.magnitude)

end Millis

end NodeScript
