/-!
What an execution shows the outside: the phase of an instance and the commands it issues.
-/
namespace NodeScript

abbrev ObjectId := UInt16

/-- Where an instance stands. -/
inductive Phase
  /-- Nothing has been loaded. -/
  | unloaded
  /-- An entry has been chosen and runs at the next update. -/
  | running
  /-- An execution waits for time to pass or for its next turn. -/
  | suspended
  /-- The last execution has ended and no trigger waits. -/
  | finished
  deriving DecidableEq, Repr

def Phase.name : Phase → String
  | .unloaded => "Unloaded"
  | .running => "Running"
  | .suspended => "Suspended"
  | .finished => "Finished"

/-- A side effect that a script requests, for whoever drives the instances to apply. -/
inductive Command
  | deleteObject (object : ObjectId)
  | sendEvent (target : ObjectId) (sender : ObjectId) (eventType : UInt16) (value : UInt32)
  deriving DecidableEq, Repr

def Command.describe : Command → String
  | .deleteObject object => "DeleteObject \x7b object: " ++ toString object.toNat ++ " \x7d"
  | .sendEvent target sender eventType value =>
    "SendEvent \x7b target: " ++ toString target.toNat ++ ", sender: " ++ toString sender.toNat
      ++ ", event_type: " ++ toString eventType.toNat ++ ", value: " ++ toString value.toNat
      ++ " \x7d"

end NodeScript
