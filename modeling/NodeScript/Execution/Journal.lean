import NodeScript.Diagnostic
import NodeScript.Execution.Registry

/-!
The journal of a run: calls of user functions, commands and diagnostics in the order in which they
happen. What a user function has been called with before is read off the journal.
-/
namespace NodeScript

inductive Entry
  | call (function : Nat) (hash : UInt32) (argument : UInt32)
  | command (command : Command)
  | event (event : Event)
  deriving DecidableEq, Repr

/-- The argument of a call of the function. -/
def Entry.argument? (function : Nat) : Entry → Option UInt32
  | .call id _ argument => if id = function then some argument else none
  | _ => none

structure Journal where
  entries : Array Entry
  deriving DecidableEq, Repr

namespace Journal

def empty : Journal := ⟨#[]⟩

def add (j : Journal) (entry : Entry) : Journal := ⟨j.entries.push entry⟩

def report (j : Journal) (event : Event) : Journal := j.add (.event event)

def reportAll (j : Journal) (events : List Event) : Journal := events.foldl report j

/-- The arguments of the calls of a function so far. -/
def history (j : Journal) (function : Nat) : List UInt32 :=
  j.entries.toList.filterMap (Entry.argument? function)

/-- Calls a function, and gives its result. -/
def call (j : Journal) (function : UserFunction) (argument : UInt32) : Journal × Int32 :=
  (j.add (.call function.id function.hash argument),
    function.result (j.history function.id) argument)

end Journal

end NodeScript
