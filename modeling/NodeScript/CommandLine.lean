import NodeScript.Execution.Scene
import NodeScript.Packed.Reader
import NodeScript.Program.Listing
import NodeScript.Table.Source

/-!
The command line without its effects: what arguments ask for, and the lines that are printed for
it.
-/
namespace NodeScript.CommandLine

inductive Action
  /-- Compile all graphs of a manifest into a table. -/
  | build (manifest : String) (output : String) (source : Option String)
  /-- Run one script of a table for a number of ticks. -/
  | run (table : String) (asset : UInt16) (ticks : Nat) (frame : Binary32)
    (config : Option String)
  /-- Print all programs and sources of a table. -/
  | dump (table : String)
  /-- Pack a single graph. -/
  | pack (graph : String) (output : String) (uuid : Uuid)
  /-- List the records of a packed graph. -/
  | unpack (blob : String)
  deriving DecidableEq, Repr

/-- Arguments that stand for themselves, and options with their values. -/
structure Arguments where
  plain : List String
  options : List (String × String)
  deriving DecidableEq, Repr

namespace Arguments

/-- The long names of one-letter options. -/
def longName : String → String
  | "-o" => "--output"
  | "-a" => "--asset"
  | "-t" => "--ticks"
  | name => name

/-- Splits arguments; an option takes the argument behind it as its value. -/
def ofList : List String → Except String Arguments
  | [] => .ok ⟨[], []⟩
  | first :: rest =>
    if first.startsWith "-" then
      match rest with
      | [] => .error ("a value is required for '" ++ first ++ "'")
      | value :: rest => do
        let others ← ofList rest
        pure ⟨others.plain, (longName first, value) :: others.options⟩
    else do
      let others ← ofList rest
      pure ⟨first :: others.plain, others.options⟩

def option? (arguments : Arguments) (name : String) : Option String :=
  (arguments.options.find? fun option => option.1 == name).map (·.2)

/-- A number below a bound. -/
def number (arguments : Arguments) (name : String) (default bound : Nat) : Except String Nat :=
  match arguments.option? name with
  | none => .ok default
  | some text =>
    match text.toNat? with
    | some n => if n < bound then .ok n else .error ("invalid value for '" ++ name ++ "'")
    | none => .error ("invalid value for '" ++ name ++ "'")

/-- The seconds of one tick, a sixtieth unless told otherwise. -/
def frame (arguments : Arguments) : Except String Binary32 :=
  match arguments.option? "--dt" with
  | none => .ok ⟨false, Format.single.round 1 60⟩
  | some text =>
    match (Json.Tree.parse? text).bind Json.Tree.single? with
    | some seconds => .ok seconds
    | none => .error "invalid value for '--dt'"

end Arguments

/-- Options that an action knows. -/
def knownOptions : String → List String
  | "build" => ["--output", "--source"]
  | "run" => ["--asset", "--ticks", "--dt", "--config"]
  | "pack" => ["--output", "--uuid"]
  | _ => []

def actionOf (name : String) (arguments : Arguments) : Except String Action :=
  match name, arguments.plain with
  | "build", [manifest] =>
    .ok (.build manifest ((arguments.option? "--output").getD "scripts.bin")
      (arguments.option? "--source"))
  | "run", [table] => do
    let asset ← arguments.number "--asset" 0 UInt16.size
    let ticks ← arguments.number "--ticks" 60 UInt32.size
    let frame ← arguments.frame
    pure (.run table asset.toUInt16 ticks frame (arguments.option? "--config"))
  | "dump", [table] => .ok (.dump table)
  | "pack", [graph] => do
    let uuid ← arguments.number "--uuid" 0 UInt64.size
    match arguments.option? "--output" with
    | some output => pure (.pack graph output uuid.toUInt64)
    | none => throw "the option '--output' is required"
  | "unpack", [blob] => .ok (.unpack blob)
  | _, _ => .error ("unexpected arguments for '" ++ name ++ "'")

/-- What the arguments ask for. -/
def parse : List String → Except String Action
  | [] => .error "an action is required: build, run, dump, pack or unpack"
  | name :: rest => do
    let arguments ← Arguments.ofList rest
    match arguments.options.find? fun option => !(knownOptions name).contains option.1 with
    | some option => throw ("unexpected option '" ++ option.1 ++ "'")
    | none => actionOf name arguments

/-- The mark before what happens in a tick. -/
def tickMark (tick : Nat) : String := "[tick " ++ padLeft 4 (toString tick) ++ "] "

/-- Runs a scene with one object until the object is gone, its script has finished or the ticks
have been used up; gives the lines to print. -/
def simulate (stage : Stage) (frame : Millis) (object : ObjectId) :
    (left : Nat) → (tick : Nat) → Scene Millis → Journal → List String × Journal
  | 0, tick, scene, j =>
    match scene.actor? object with
    | some actor =>
      (["Stopped after " ++ toString tick ++ " ticks in state " ++ actor.script.phase.name], j)
    | none => ([], j)
  | left + 1, tick, scene, j =>
    let (scene, commands, j) := scene.tick frame j
    let lines := commands.map fun command => tickMark tick ++ command.describe
    match scene.actor? object with
    | none => (lines ++ [tickMark tick ++ "object removed"], j)
    | some actor =>
      if actor.script.phase = .finished then (lines ++ [tickMark tick ++ "finished"], j)
      else
        let (others, j) := simulate stage frame object left (tick + 1) scene j
        (lines ++ others, j)

/-- The lines for a run of the script at an index. -/
def runLines (stage : Stage) (asset : UInt16) (ticks : Nat) (frame : Binary32) :
    List String × Journal :=
  let (scene, j) := Scene.empty.spawn stage 1 ⟨asset, true, false⟩ .empty
  simulate stage (.ofFrame frame) 1 ticks 0 scene j

def dumpLines (table : Table) : List String :=
  (table.scripts.zipIdx.flatMap fun (script, index) =>
    ["=== [" ++ toString index ++ "] " ++ script.name ++ " (stack "
        ++ toString script.stackSize.toNat ++ ") ===",
      script.program.listing script.name, script.source]) ++ [table.lookupSource]

def successorText : Option Nat → String
  | some index => "Some(" ++ toString index ++ ")"
  | none => "None"

def blobLines (blob : Packed.Blob) : List String :=
  ("uuid " ++ hex64 blob.uuid ++ ", stack " ++ toString blob.stackSize.toNat ++ ", "
      ++ toString blob.nodes.length ++ " records")
    :: blob.nodes.zipIdx.map fun (node, index) =>
      padLeft 3 (toString index) ++ " @" ++ zeroPadded 4 node.offset ++ " "
        ++ padRight 14 node.type.displayName ++ " -> ["
        ++ ", ".intercalate (node.successors.map successorText) ++ "] " ++ node.payload.describe

/-- What is printed of reported events unless somebody asks for details. -/
def eventLines (events : List Event) : List String :=
  (events.filter fun event => event.level.isProblem || event.level == .info).map fun event =>
    event.level.name ++ " " ++ event.message

end NodeScript.CommandLine
