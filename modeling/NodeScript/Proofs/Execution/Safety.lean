import Mathlib.Data.List.Chain
import NodeScript.Graph.Basic
import NodeScript.Proofs.Execution.Steps

/-!
Programs that never trip the machine. `Program.WellFormed` says that control stays in the code, that
slots refer to globals of the right kind and that frames are large enough; an instance of such a
program never reports an address or a frame slot that does not exist, however it is driven.
-/
namespace NodeScript

namespace Instruction

/-- Where an instruction jumps to, if it can jump. -/
def target? : Instruction → Option Addr
  | jumpUnless _ _ _ target | loop _ _ target | jump target => some target
  | _ => none

/-- Whether the instruction behind this one can be next. -/
def goesOn : Instruction → Bool
  | finish | jump _ => false
  | _ => true

/-- The operands that an instruction reads. -/
def operands : Instruction → List Operand
  | sleep duration => [duration]
  | deleteObject object => [object]
  | sendEvent object eventType value => [object, eventType, value]
  | call _ argument _ => [argument]
  | jumpUnless _ lhs rhs _ => [lhs, rhs]
  | _ => []

/-- The frame slots that an instruction uses. -/
def frameSlots : Instruction → List Slot
  | setLocal slot _ => [slot]
  | instruction => instruction.operands.filterMap fun operand =>
      match operand with
      | .frame slot => some slot
      | _ => none

end Instruction

namespace Program

/-- The kind of the global at a slot. -/
def kind? (p : Program) (slot : Slot) : Option GlobalKind := p.globals[slot.toNat]?.map Global.kind

/-- What the machine relies on. -/
structure WellFormed (p : Program) : Prop where
  addressable : p.code.size < UInt32.size
  entries : ∀ trigger entry, p.entries.get trigger = some entry → entry.toNat < p.code.size
  targets : ∀ instruction ∈ p.code, ∀ target, instruction.target? = some target →
    target.toNat < p.code.size
  onward : ∀ pc instruction, p.code[pc]? = some instruction → instruction.goesOn = true →
    pc + 1 < p.code.size
  calls : ∀ function argument result, .call function argument result ∈ p.code →
    (∃ hash, p.kind? function = some (.function hash)) ∧ p.kind? result = some .number
  counters : ∀ counter bound exit, .loop counter bound exit ∈ p.code →
    p.kind? counter = some .counter
  globals : ∀ instruction ∈ p.code, ∀ slot, .global slot ∈ instruction.operands →
    p.kind? slot = some .number
  frame : ∀ instruction ∈ p.code, ∀ slot ∈ instruction.frameSlots, slot.toNat < p.maxLocals.toNat
  names : (p.globals.toList.map Global.name).Nodup

/-- The addresses that can be next after an instruction. -/
def successors (instruction : Instruction) (pc : Addr) : List Addr :=
  (if instruction.goesOn then [pc + 1] else []) ++ instruction.target?.toList

/-- The ways that control can take from an entry on, the latest address first. -/
inductive Path (p : Program) : List Addr → Prop
  | entry {trigger : Trigger} {pc : Addr} (found : p.entries.get trigger = some pc) : Path p [pc]
  | step {pc next : Addr} {earlier : List Addr} {instruction : Instruction}
      (path : Path p (pc :: earlier)) (found : p.code[pc.toNat]? = some instruction)
      (follows : next ∈ successors instruction pc) : Path p (next :: pc :: earlier)

/-- Frames are read as bound: on every path that arrives at an instruction reading a frame slot, the
slot has been bound by the same visit of the same block, from where control has come straight on. -/
def ReadsBound (p : Program) (blockOf : Addr → Option Uuid) : Prop :=
  ∀ pc earlier instruction slot, Path p (pc :: earlier) →
    p.code[pc.toNat]? = some instruction → .frame slot ∈ instruction.operands →
    ∃ between binder before value node, earlier = between ++ binder :: before ∧
      p.code[binder.toNat]? = some (.setLocal slot value) ∧
      (pc :: (between ++ [binder])).IsChain (fun later sooner => later = sooner + 1) ∧
      ∀ address ∈ pc :: (between ++ [binder]), blockOf address = some node

variable {p : Program}

theorem WellFormed.toNat_add_one (formed : p.WellFormed) {pc : Addr}
    (inside : pc.toNat < p.code.size) :
    (pc + 1).toNat = pc.toNat + 1 := by
  have small := formed.addressable
  rw [UInt32.size] at small
  have one : (1 : UInt32).toNat = 1 := rfl
  rw [UInt32.toNat_add, one]
  omega

/-- Control stays in the code. -/
theorem WellFormed.successor (formed : p.WellFormed) {pc next : Addr} {instruction : Instruction}
    (found : p.code[pc.toNat]? = some instruction) (follows : next ∈ successors instruction pc) :
    next.toNat < p.code.size := by
  have inside := (Array.getElem?_eq_some_iff.mp found).1
  rcases List.mem_append.mp follows with onward | target
  · split at onward
    next goesOn =>
      rw [List.mem_singleton.mp onward, formed.toNat_add_one inside]
      exact formed.onward _ _ found goesOn
    next => simp at onward
  · exact formed.targets _ (Array.mem_of_getElem? found) _ (Option.mem_toList.mp target)

end Program

/-- Whether an entry tells of an address or a frame slot that does not exist. -/
def Entry.isFault : Entry → Bool
  | event (.addressOutside _) | event (.localOutside _) => true
  | _ => false

/-- How many addresses or frame slots have turned out not to exist. -/
def Journal.faults (j : Journal) : Nat := j.entries.toList.countP Entry.isFault

namespace Journal

theorem faults_add (j : Journal) {entry : Entry} (harmless : entry.isFault = false) :
    (j.add entry).faults = j.faults := by
  simp [faults, add, harmless]

theorem faults_call (j : Journal) (f : UserFunction) (argument : UInt32) :
    (j.call f argument).1.faults = j.faults := faults_add j rfl

theorem faults_reportAll (j : Journal) {events : List Event}
    (harmless : ∀ event ∈ events, (Entry.event event).isFault = false) :
    (j.reportAll events).faults = j.faults := by
  induction events generalizing j with
  | nil => rfl
  | cons event rest ih =>
    obtain ⟨first, others⟩ := List.forall_mem_cons.mp harmless
    exact (ih (j.report event) others).trans (faults_add j first)

end Journal

namespace Machine

variable {τ : Type} {p : Program}

/-- The machine stands in the code and has frames that are large enough. -/
structure Sound (p : Program) (m : Machine τ) : Prop where
  inside : ∀ pc, m.pc = some pc → pc.toNat < p.code.size
  room : p.maxLocals.toNat ≤ m.locals.size

/-- What an instruction leads to is sound, and nothing has turned out not to exist. -/
def StepSound (p : Program) (j : Journal) : Step τ → Prop
  | .next pc m k => pc.toNat < p.code.size ∧ p.maxLocals.toNat ≤ m.locals.size ∧ k.faults = j.faults
  | .stop _ m k => m.Sound p ∧ k.faults = j.faults

variable [Elapsed τ]

theorem StepsTo.sound (formed : p.WellFormed) {frame : τ} {pc : Addr}
    (inside : pc.toNat < p.code.size) {m : Machine τ} (room : p.maxLocals.toNat ≤ m.locals.size)
    {j : Journal} {result : Step τ} (steps : StepsTo p frame pc m j result) :
    StepSound p j result := by
  have onward {instruction : Instruction} (found : p.code[pc.toNat]? = some instruction)
      (goesOn : instruction.goesOn = true) : (pc + 1).toNat < p.code.size :=
    formed.successor found (by simp [Program.successors, goesOn])
  have jumps {instruction : Instruction} {target : Addr}
      (found : p.code[pc.toNat]? = some instruction) (leads : instruction.target? = some target) :
      target.toNat < p.code.size := formed.targets _ (Array.mem_of_getElem? found) target leads
  have here (other : Addr) (same : some pc = some other) : other.toNat < p.code.size :=
    Option.some.inj same ▸ inside
  cases steps with
  | outside missing => exact absurd inside (Nat.not_lt.mpr (Array.getElem?_eq_none_iff.mp missing))
  | @unroomy slot value found beyond =>
    have small := formed.frame _ (Array.mem_of_getElem? found) slot (List.mem_singleton_self _)
    exact absurd (Nat.lt_of_lt_of_le small room) beyond
  | setLocal found => exact ⟨onward found rfl, by simpa using room, rfl⟩
  | enter | wait => exact ⟨⟨here, room⟩, rfl⟩
  | deleteObject found | sendEvent found | miss found =>
    exact ⟨onward found rfl, room, j.faults_add rfl⟩
  | call found => exact ⟨onward found rfl, room, j.faults_call _ _⟩
  | wake found | goOn found | again found => exact ⟨onward found rfl, room, rfl⟩
  | branch found | leave found | jump found => exact ⟨jumps found rfl, room, rfl⟩
  | finish => exact ⟨⟨fun other same => (Option.some_ne_none other same.symm).elim, room⟩, rfl⟩

/-- A turn of any length leaves the machine sound. -/
theorem run_sound (formed : p.WellFormed) (frame : τ) (budget steps : Nat) {pc : Addr}
    (inside : pc.toNat < p.code.size) {m : Machine τ} (room : p.maxLocals.toNat ≤ m.locals.size)
    (j : Journal) :
    (run p frame budget steps pc m j).2.1.Sound p ∧
      (run p frame budget steps pc m j).2.2.faults = j.faults := by
  fun_induction run p frame budget steps pc m j with
  | case1 pc m j =>
    exact ⟨⟨fun other same => Option.some.inj same ▸ inside, room⟩, j.faults_add rfl⟩
  | case2 steps pc m j pc' m' j' next ih =>
    obtain ⟨inside', room', same⟩ := (stepsTo_iff.mpr next).sound formed inside room
    obtain ⟨sound, same'⟩ := ih inside' room'
    exact ⟨sound, same'.trans same⟩
  | case3 steps pc m j pace m' j' stop => exact (stepsTo_iff.mpr stop).sound formed inside room

theorem Sound.resume (formed : p.WellFormed) {m : Machine τ} (sound : m.Sound p) (frame : τ)
    (budget : Nat) (j : Journal) :
    (m.resume p frame budget j).2.1.Sound p ∧
      (m.resume p frame budget j).2.2.faults = j.faults := by
  unfold Machine.resume
  cases next : m.pc with
  | none => exact ⟨sound, rfl⟩
  | some pc => exact run_sound formed frame budget budget (sound.inside pc next) sound.room j

end Machine

namespace Instance

variable {τ : Type} {table : Table} {index : Nat} {script : Script}

/-- An instance that runs a well-formed program, or none. -/
def Sound (i : Instance τ) : Prop :=
  ∀ script, i.script = some script → script.program.WellFormed ∧ i.machine.Sound script.program

theorem bind_sound (formed : script.program.WellFormed) (i : Instance τ) (registry : Registry)
    (config : Config) (j : Journal) :
    (i.bind script registry config j).1.Sound ∧
      (i.bind script registry config j).2.faults = j.faults := by
  constructor
  · rintro other stored
    obtain rfl : script = other := Option.some.inj stored
    refine ⟨formed, fun pc found => formed.entries .init pc found, ?_⟩
    simp only [bind, Array.size_replicate]
    exact Nat.le_max_right _ _
  · apply Journal.faults_reportAll
    intro event member
    simp only [List.mem_append, List.mem_singleton] at member
    rcases member with (member | member) | rfl
    · simp only [bindingEvents, List.mem_filterMap] at member
      obtain ⟨global, -, made⟩ := member
      split at made
      · split at made
        · cases made
        · cases made
          rfl
      · cases made
    · split at member
      · simp at member
      · obtain rfl := List.mem_singleton.mp member
        rfl
    · rfl

theorem nextPending?_eq_some {triggers rest : List Trigger} {entry : Addr}
    (found : nextPending? script triggers = some (entry, rest)) :
    ∃ trigger, script.program.entries.get trigger = some entry := by
  induction triggers with
  | nil => cases found
  | cons trigger others ih =>
    cases entered : script.program.entries.get trigger with
    | none =>
      simp only [nextPending?, entered] at found
      exact ih found
    | some first =>
      simp only [nextPending?, entered, Option.some.injEq, Prod.mk.injEq] at found
      exact ⟨trigger, entered.trans (congrArg some found.1)⟩

theorem settle_sound {i : Instance τ} (formed : script.program.WellFormed)
    (stored : i.script = some script) {m : Machine τ} (sound : m.Sound script.program)
    (pace : Pace) : (i.settle script pace m).Sound := by
  intro other stored'
  cases pace with
  | suspended =>
    obtain rfl : script = other := Option.some.inj (stored.symm.trans stored')
    exact ⟨formed, sound⟩
  | finished =>
    cases waiting : nextPending? script i.pending with
    | none =>
      simp only [settle, waiting] at stored' ⊢
      obtain rfl : script = other := Option.some.inj (stored.symm.trans stored')
      exact ⟨formed, sound⟩
    | some next =>
      obtain ⟨trigger, found⟩ := nextPending?_eq_some waiting
      simp only [settle, waiting] at stored' ⊢
      obtain rfl : script = other := Option.some.inj (stored.symm.trans stored')
      refine ⟨formed, fun pc same => ?_, sound.room⟩
      exact Option.some.inj same ▸ formed.entries trigger _ found

theorem Sound.trigger {i : Instance τ} (sound : i.Sound) (trigger : Trigger) (j : Journal) :
    (i.trigger trigger j).1.Sound ∧ (i.trigger trigger j).2.faults = j.faults := by
  have fires := i.triggersTo_trigger trigger j
  generalize i.trigger trigger j = result at fires ⊢
  cases fires with
  | unloaded | entryless | refuse => exact ⟨sound, j.faults_add rfl⟩
  | @start script entry stored found =>
    refine ⟨fun other stored' => ?_, rfl⟩
    obtain ⟨formed, machine⟩ := sound other stored'
    obtain rfl : script = other := Option.some.inj (stored.symm.trans stored')
    exact ⟨formed, fun pc same => Option.some.inj same ▸ formed.entries trigger entry found,
      machine.room⟩
  | queue => exact ⟨sound, rfl⟩

variable [Elapsed τ]

theorem Sound.update {i : Instance τ} (sound : i.Sound) (frame : τ) (j : Journal) :
    (i.update frame j).1.Sound ∧ (i.update frame j).2.faults = j.faults := by
  rcases i.update_cases frame with ⟨-, same⟩ | ⟨-, script, stored, turns⟩
  · rw [same]
    exact ⟨sound, rfl⟩
  · obtain ⟨formed, machine⟩ := sound script stored
    obtain ⟨machine', same⟩ := machine.resume formed frame i.config.maxStepsPerResume j
    rw [turns]
    exact ⟨settle_sound formed stored machine' _, same⟩

/-- However an instance is driven, nothing turns out not to exist. -/
theorem Sound.follow (formed : script.program.WellFormed) (found : table.get? index = some script)
    (registry : Registry) (calls : List (Call τ)) {i : Instance τ} (sound : i.Sound)
    (j : Journal) : (i.follow table registry index calls j).2.faults = j.faults := by
  induction calls generalizing i j with
  | nil => rfl
  | cons call rest ih =>
    have first : (i.handle table registry index j call).1.Sound ∧
        (i.handle table registry index j call).2.faults = j.faults := by
      cases call with
      | load config =>
        simp only [handle, load, found]
        exact bind_sound formed i registry config j
      | update frame => exact sound.update frame j
      | trigger trigger => exact sound.trigger trigger j
    exact (ih first.1 _).trans first.2

end Instance

end NodeScript
