import NodeScript.Compile.Assembly
import NodeScript.Proofs.Source.Reader

/-!
What source means as code. Statements are read into the groups that brackets make of them, and the
groups are laid out in order: each statement is one instruction, the second arm of a test stands
behind the first, and names stand for the constants of the innermost block, for globals or for
addresses. `Means` relates a piece of source to its groups, its labels and its code; pieces that
stand in it can be put together.
-/
namespace NodeScript.Source

/-- The statements from a place to the end of its group. -/
inductive Body
  | nothing
  | line (item : Item) (rest : Body)
  | block (inner rest : Body)
  | branch (test : Statement) (first second rest : Body)
  deriving DecidableEq, Repr

/-- What follows a place: the rest of its group and of the groups around it. The second arm of a
test is known at a place in the first. -/
inductive Groups
  | outermost (body : Body)
  | closed (body : Body) (around : Groups)
  | arms (body second : Body) (around : Groups)
  deriving DecidableEq, Repr

namespace Groups

/-- Changes the innermost group. -/
def edit (f : Body → Body) : Groups → Groups
  | outermost body => outermost (f body)
  | closed body around => closed (f body) around
  | arms body second around => arms (f body) second around

theorem edit_edit (f h : Body → Body) (groups : Groups) :
    (groups.edit f).edit h = groups.edit fun body => h (f body) := by
  cases groups <;> rfl

/-- What follows an item, given what follows it without the item. The arms of a loop begin with
changes of its counter, which belong to the test. -/
def put (item : Item) (groups : Groups) : Option Groups :=
  match item with
  | .statement .closeBlock => some (closed .nothing groups)
  | .statement .openBlock =>
    match groups with
    | closed inner around => some (around.edit (.block inner))
    | _ => none
  | .statement .orElse =>
    match groups with
    | closed second around => some (arms .nothing second around)
    | _ => none
  | .statement (.ifCompare lhs op rhs) =>
    match groups with
    | arms first second around =>
      some (around.edit (.branch (.ifCompare lhs op rhs) first second))
    | _ => none
  | .statement (.ifBelow counter bound) =>
    match groups with
    | arms (.line (.statement (.increment up)) first) (.line (.statement (.reset down)) second)
        around =>
      if up = counter ∧ down = counter then
        some (around.edit (.branch (.ifBelow counter bound) first second))
      else none
    | _ => none
  | item => some (groups.edit (.line item))

end Groups

/-- What items are before the end of the text. -/
def groups? : List Item → Option Groups
  | [] => some (.outermost .nothing)
  | item :: rest => (groups? rest).bind (Groups.put item)

/-- The text as one group, in which all brackets are matched. -/
def body? (items : List Item) : Option Body :=
  match groups? items with
  | some (.outermost body) => some body
  | _ => none

/-- The number of instructions. -/
def Item.size : Item → Nat
  | .label _ => 0
  | .statement _ => 1

namespace Body

def size : Body → Nat
  | nothing => 0
  | line item rest => item.size + rest.size
  | block inner rest => inner.size + rest.size
  | branch _ first second rest => 1 + first.size + second.size + rest.size

/-- The labels with the addresses at which they stand. -/
def labels : (base : Nat) → Body → List (String × Nat)
  | _, nothing => []
  | base, line (.label name) rest => (name, base) :: rest.labels base
  | base, line (.statement _) rest => rest.labels (base + 1)
  | base, block inner rest => inner.labels base ++ rest.labels (base + inner.size)
  | base, branch _ first second rest =>
    first.labels (base + 1) ++ (second.labels (base + 1 + first.size) ++
      rest.labels (base + 1 + first.size + second.size))

end Body

/-- The constant that a statement binds. -/
def bound : Statement → List String
  | .constant _ name _ => [name]
  | _ => []

/-- What the names of a text stand for, besides the constants of its blocks. -/
structure Context where
  globals : List Global
  labels : List (String × Nat)

namespace Context

variable (context : Context)

/-- The global that is written like this. -/
def slot? (text : String) : Option Slot :=
  (context.globals.findIdx? fun global => global.text == text).map Nat.toUInt16

/-- An operand, where these constants have been bound in the block. -/
def operand? (scope : List String) (text : String) : Option Operand :=
  if text ∈ scope then some (.frame (scope.idxOf text).toUInt16)
  else (context.slot? text).map .global

def address? (name : String) : Option Addr :=
  (context.labels.find? fun label => label.1 == name).map fun label => label.2.toUInt32

theorem address?_eq_none {name : String} (missing : name ∉ context.labels.map Prod.fst) :
    context.address? name = none := by
  rw [address?, Option.map_eq_none_iff, List.find?_eq_none]
  rintro label member same
  exact missing (List.mem_map.mpr ⟨label, member, beq_iff_eq.mp same⟩)

/-- The instruction of a statement that is no part of a group. -/
def instruction? (scope : List String) : Statement → Option Instruction
  | .constant _ _ value => some (.setLocal scope.length.toUInt16 value)
  | .sleep duration => (context.operand? scope duration).map .sleep
  | .removeObject object => (context.operand? scope object).map .deleteObject
  | .sendEvent object eventType value => do
    let object ← context.operand? scope object
    let eventType ← context.operand? scope eventType
    let value ← context.operand? scope value
    some (.sendEvent object eventType value)
  | .call result function argument => do
    let function ← context.slot? function
    let argument ← context.operand? scope argument
    let result ← context.slot? result
    some (.call function argument result)
  | .goto label => (context.address? label).map .jump
  | .leave => some .finish
  | _ => none

/-- The instruction of a test, whose second arm stands at an address. -/
def test? (scope : List String) (exit : Addr) : Statement → Option Instruction
  | .ifCompare lhs op rhs => do
    let lhs ← context.operand? scope lhs
    let rhs ← context.operand? scope rhs
    some (.jumpUnless op lhs rhs exit)
  | .ifBelow counter bound => (context.slot? counter).map fun slot => .loop slot bound exit
  | _ => none

/-- The instructions of a group. A block and an arm have constants of their own. -/
def code? : (base : Nat) → (scope : List String) → Body → Option (List Instruction)
  | _, _, .nothing => some []
  | base, scope, .line (.label _) rest => code? base scope rest
  | base, scope, .line (.statement content) rest => do
    let instruction ← context.instruction? scope content
    let others ← code? (base + 1) (scope ++ bound content) rest
    some (instruction :: others)
  | base, scope, .block inner rest => do
    let inside ← code? base [] inner
    let others ← code? (base + inner.size) scope rest
    some (inside ++ others)
  | base, scope, .branch test first second rest => do
    let exit := base + 1 + first.size
    let instruction ← context.test? scope exit.toUInt32 test
    let holds ← code? (base + 1) [] first
    let fails ← code? exit [] second
    let others ← code? (exit + second.size) scope rest
    some (instruction :: holds ++ (fails ++ others))

end Context

/-- The entry of each trigger that has a label. -/
def entries (labels : List (String × Nat)) : Entries :=
  let context : Context := ⟨[], labels⟩
  ⟨context.address? Trigger.init.label, context.address? Trigger.event.label,
    context.address? Trigger.collision.label⟩

/-- The code and the entries of a text, if its brackets are matched, its labels are distinct and
its names stand for something. -/
def program? (globals : List Global) (lines : List String) :
    Option (Array Instruction × Entries) := do
  let items ← read? lines
  let body ← body? items
  let labels := body.labels 0
  if (labels.map Prod.fst).Nodup then
    let code ← Context.code? ⟨globals, labels⟩ 0 [] body
    some (code.toArray, entries labels)
  else none

example : program? [⟨"cnt", .counter, 0⟩]
    ["entry_init:", "n_1:", "  \x7b", "    // Repeat", "    if (state->cnt < 3) \x7b",
      "      ++state->cnt;", "      goto n_1;", "    \x7d else \x7b", "      state->cnt = 0;",
      "      \x7b", "        const uint64_t t_time = 500;", "        sleep_ms(t_time);",
      "      \x7d", "      return;", "    \x7d", "  \x7d"] =
    some (#[.loop 0 3 2, .jump 0, .setLocal 0 500, .sleep (.frame 0), .finish],
      ⟨some 0, none, none⟩) := by
  decide +kernel

/-- What a piece of source is read as and what it says, in a block that has bound the constants of
a scope: the groups it makes, the constants it binds, the number of its instructions, its labels and
its code, given the address at which it stands. -/
structure Means (context : Context) (scope : List String) (items : List Item) (body : Body → Body)
    (names : List String) (size : Nat) (marks : Nat → List (String × Nat))
    (code : Nat → List Instruction) : Prop where
  grouped : ∀ rest groups, groups? rest = some groups →
    groups? (items ++ rest) = some (groups.edit body)
  sized : ∀ rest, (body rest).size = size + rest.size
  labelled : ∀ base rest, (body rest).labels base = marks base ++ rest.labels (base + size)
  coded : ∀ base rest, context.code? base scope (body rest) =
    (context.code? (base + size) (scope ++ names) rest).map (code base ++ ·)

/-- How the first arm of a test begins. -/
def ups : Statement → List Item
  | .ifBelow counter _ => [.statement (.increment counter)]
  | _ => []

/-- How the second arm of a test begins. -/
def downs : Statement → List Item
  | .ifBelow counter _ => [.statement (.reset counter)]
  | _ => []

namespace Means

variable {context : Context} {scope names names' : List String} {items items' : List Item}
  {body body' : Body → Body} {size size' : Nat} {marks marks' : Nat → List (String × Nat)}
  {code code' : Nat → List Instruction}

theorem nothing (context : Context) (scope : List String) :
    Means context scope [] id [] 0 (fun _ => []) (fun _ => []) where
  grouped := by
    intro rest groups found
    rw [List.nil_append, found]
    cases groups <;> rfl
  sized rest := (Nat.zero_add _).symm
  labelled _ _ := rfl
  coded base rest := by
    rw [List.append_nil]
    exact Option.map_id'.symm

theorem congr (meant : Means context scope items body names size marks code)
    (sameItems : items = items') (sameNames : names = names') (sameSize : size = size')
    (sameMarks : ∀ base, marks base = marks' base) (sameCode : ∀ base, code base = code' base) :
    Means context scope items' body names' size' marks' code' := by
  obtain rfl : marks = marks' := funext sameMarks
  obtain rfl : code = code' := funext sameCode
  subst sameItems sameNames sameSize
  exact meant

theorem append (first : Means context scope items body names size marks code)
    (second : Means context (scope ++ names) items' body' names' size' marks' code') :
    Means context scope (items ++ items') (body ∘ body') (names ++ names') (size + size')
      (fun base => marks base ++ marks' (base + size))
      (fun base => code base ++ code' (base + size)) where
  grouped := by
    intro rest groups found
    rw [List.append_assoc, first.grouped _ _ (second.grouped _ _ found), Groups.edit_edit]
    rfl
  sized rest := by rw [Function.comp_apply, first.sized, second.sized, Nat.add_assoc]
  labelled base rest := by
    rw [Function.comp_apply, first.labelled, second.labelled, List.append_assoc, Nat.add_assoc]
  coded base rest := by
    rw [Function.comp_apply, first.coded, second.coded, Option.map_map, Nat.add_assoc,
      List.append_assoc]
    congr 1
    funext others
    exact (List.append_assoc ..).symm

theorem label (context : Context) (scope : List String) (name : String) :
    Means context scope [.label name] (.line (.label name)) [] 0 (fun base => [(name, base)])
      (fun _ => []) where
  grouped := by
    intro rest groups found
    rw [List.singleton_append, groups?, found]
    rfl
  sized _ := rfl
  labelled _ _ := rfl
  coded base rest := by
    rw [List.append_nil]
    exact Option.map_id'.symm

/-- A statement that is no part of a group. -/
theorem statement {content : Statement} {instruction : Instruction}
    (found : context.instruction? scope content = some instruction) :
    Means context scope [.statement content] (.line (.statement content)) (bound content) 1
      (fun _ => []) (fun _ => [instruction]) where
  grouped := by
    intro rest groups found'
    rw [List.singleton_append, groups?, found', Option.bind_some]
    cases content with
    | openBlock | closeBlock | orElse | ifCompare | ifBelow => cases found
    | _ => rfl
  sized _ := rfl
  labelled _ _ := rfl
  coded base rest := by
    rw [Context.code?, found]
    cases context.code? (base + 1) (scope ++ bound content) rest <;> rfl

/-- A block is laid out in place, and its constants are its own. -/
theorem block (inner : Means context [] items body names size marks code) (scope : List String) :
    Means context scope (.statement .openBlock :: (items ++ [.statement .closeBlock]))
      (.block (body .nothing)) [] size marks code where
  grouped := by
    intro rest groups found
    have closed : groups? (.statement .closeBlock :: rest) = some (.closed .nothing groups) := by
      rw [groups?, found]
      rfl
    rw [List.cons_append, List.append_assoc, List.singleton_append, groups?,
      inner.grouped _ _ closed]
    rfl
  sized rest := by
    rw [Body.size, inner.sized]
    rfl
  labelled base rest := by
    rw [Body.labels, inner.labelled, inner.sized]
    simp [Body.labels, Body.size]
  coded base rest := by
    rw [Context.code?, inner.coded, inner.sized]
    simp only [Context.code?, Body.size, Nat.add_zero, List.append_nil, Option.map_some]
    cases context.code? (base + size) scope rest <;> rfl

/-- A test goes on into its first arm, and jumps to the second, which stands behind the first. -/
theorem branch {test : Statement} {jump : Nat → Instruction}
    (found : ∀ exit : Nat, context.test? scope exit.toUInt32 test = some (jump exit))
    (first : Means context [] items body names size marks code)
    (second : Means context [] items' body' names' size' marks' code') :
    Means context scope
      (.statement test :: (ups test ++ (items ++
        .statement .orElse :: (downs test ++ (items' ++ [.statement .closeBlock])))))
      (.branch test (body .nothing) (body' .nothing)) [] (1 + size + size')
      (fun base => marks (base + 1) ++ marks' (base + 1 + size))
      (fun base => jump (base + 1 + size) ::
        (code (base + 1) ++ code' (base + 1 + size))) where
  grouped := by
    intro rest groups found'
    have closed : groups? (.statement .closeBlock :: rest) = some (.closed .nothing groups) := by
      rw [groups?, found']
      rfl
    have fails := second.grouped _ _ closed
    cases test with
    | ifCompare lhs op rhs =>
      have turned : groups? (.statement .orElse :: (items' ++ .statement .closeBlock :: rest)) =
          some (.arms .nothing (body' .nothing) groups) := by
        rw [groups?, fails]
        rfl
      simp only [ups, downs, List.nil_append, List.cons_append, List.append_assoc]
      rw [groups?, first.grouped _ _ turned]
      rfl
    | ifBelow counter bound =>
      have turned : groups? (.statement .orElse :: .statement (.reset counter) ::
          (items' ++ .statement .closeBlock :: rest)) =
          some (.arms .nothing (.line (.statement (.reset counter)) (body' .nothing)) groups) := by
        rw [groups?, groups?, fails]
        rfl
      simp only [ups, downs, List.nil_append, List.cons_append, List.append_assoc]
      rw [groups?, groups?, first.grouped _ _ turned]
      exact if_pos ⟨rfl, rfl⟩
    | _ => cases found 0
  sized rest := by
    rw [Body.size, first.sized, second.sized]
    rfl
  labelled base rest := by
    rw [Body.labels, first.labelled, second.labelled, first.sized, second.sized]
    simp only [Body.labels, Body.size, Nat.add_zero, List.append_nil, List.append_assoc]
    simp only [Nat.add_assoc]
  coded base rest := by
    rw [Context.code?, first.coded, second.coded, first.sized, second.sized]
    simp only [Context.code?, Body.size, Nat.add_zero, List.append_nil, Option.map_some, found]
    simp only [← Nat.add_assoc]
    cases context.code? (base + 1 + size + size') scope rest <;> simp

end Means

end NodeScript.Source
