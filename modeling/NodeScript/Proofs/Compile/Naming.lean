import NodeScript.Proofs.Compile.Declarations
import NodeScript.Proofs.Graph.Renaming
import NodeScript.Proofs.Source.Comments

/-!
Names stay in comments. The name of an asset and the names of functions are written into comments as
they stand, and nowhere else; calls are bound by hash. So without its comments the source of a unit
does not show them, unless one has a line break, which ends its comment: what stands behind it is
source.
-/
namespace NodeScript

open Source (OneLine withoutComment withoutComments)

namespace Node

variable {g h : Graph} {a b : Node}

theorem demands_renamed (renamed : g.Renamed h) (same : a.Renamed b) :
    a.demands g = b.demands h := by
  obtain ⟨uuid, kind, position⟩ := a
  obtain ⟨uuid', kind', position'⟩ := b
  obtain ⟨rfl, kinds⟩ := same
  cases kinds with
  | same => simp only [demands, renamed.input]
  | function argument hash => simp only [demands, hash]

theorem constants_renamed (renamed : g.Renamed h) (same : a.Renamed b) :
    a.constants g = b.constants h := by
  obtain ⟨uuid, kind, position⟩ := a
  obtain ⟨uuid', kind', position'⟩ := b
  obtain ⟨rfl, kinds⟩ := same
  cases kinds with
  | same => simp only [constants, renamed.input]
  | function => rfl

theorem statements_renamed (renamed : g.Renamed h) (same : a.Renamed b)
    (spell : Variable → String) (indent : Nat) :
    a.statements g spell indent = b.statements h spell indent ∧
      a.prelude spell = b.prelude spell := by
  obtain ⟨uuid, kind, position⟩ := a
  obtain ⟨uuid', kind', position'⟩ := b
  obtain ⟨rfl, kinds⟩ := same
  cases kinds with
  | same => simp only [statements, prelude, renamed.input, and_self]
  | function argument hash => simp only [statements, prelude, hash, and_self]

/-- Only the title of a node shows its name. -/
theorem lines_renamed (renamed : g.Renamed h) (same : a.Renamed b) (spell : Variable → String)
    (indent : Nat) :
    (a.lines g spell indent).map Line.hushed = (b.lines h spell indent).map Line.hushed := by
  have opening : (a.opening g indent).map Line.hushed = (b.opening h indent).map Line.hushed := by
    rw [Node.opening, Node.opening, same.uuid, renamed.logicInDegree]
    split <;> rfl
  rw [lines, lines, List.map_append, List.map_append, opening, constants_renamed renamed same,
    (statements_renamed renamed same spell (indent + 1)).1, ← List.map_append, ← List.map_append]

end Node

namespace Chain

/-- The chains lead the same way through corresponding nodes. -/
inductive Renamed : Chain → Chain → Prop
  | stop : Renamed stop stop
  | jump (uuid : Uuid) : Renamed (jump uuid) (jump uuid)
  | step {a b : Node} {rest rest' : Chain} (same : a.Renamed b) (next : rest.Renamed rest') :
      Renamed (step a rest) (step b rest')
  | branch {a b : Node} {first second first' second' : Chain} (same : a.Renamed b)
      (holds : first.Renamed first') (fails : second.Renamed second') :
      Renamed (branch a first second) (branch b first' second')

variable {g h : Graph} {placed after after' : List Uuid} {chain chain' : Chain}

/-- Graphs that differ in names are laid out alike. -/
theorem Lays.renamed (renamed : g.Renamed h) {target : Option Uuid}
    (laid : Lays g placed target chain after) (laid' : Lays h placed target chain' after') :
    chain.Renamed chain' ∧ after = after' := by
  induction laid generalizing chain' after' with
  | stop placed =>
    cases laid'
    exact ⟨.stop, rfl⟩
  | jump seen =>
    cases laid' with
    | jump => exact ⟨.jump _, rfl⟩
    | step fresh | branch fresh => exact absurd seen fresh
  | @step placed after uuid node rest fresh found entered single next ih =>
    obtain ⟨counterpart, other, same⟩ := renamed.counterpart found
    cases laid' with
    | jump seen => exact absurd seen fresh
    | step fresh' foundOther entered' single' next' =>
      obtain rfl := Option.some.inj (other.symm.trans foundOther)
      obtain ⟨chains, rfl⟩ := ih (renamed.successor? _ _ ▸ next')
      exact ⟨.step same chains, rfl⟩
    | branch fresh' foundOther entered' double' holds' fails' =>
      obtain rfl := Option.some.inj (other.symm.trans foundOther)
      rw [same.type, double'] at single
      cases single
  | @branch placed middle after uuid node first second fresh found entered double holds fails
      ihFirst ihSecond =>
    obtain ⟨counterpart, other, same⟩ := renamed.counterpart found
    cases laid' with
    | jump seen => exact absurd seen fresh
    | step fresh' foundOther entered' single' next' =>
      obtain rfl := Option.some.inj (other.symm.trans foundOther)
      rw [same.type, single'] at double
      cases double
    | branch fresh' foundOther entered' double' holds' fails' =>
      obtain rfl := Option.some.inj (other.symm.trans foundOther)
      obtain ⟨one, rfl⟩ := ihFirst (renamed.successor? _ _ ▸ holds')
      obtain ⟨two, rfl⟩ := ihSecond (renamed.successor? _ _ ▸ fails')
      exact ⟨.branch same one two, rfl⟩

theorem demands_renamed (renamed : g.Renamed h) (same : chain.Renamed chain') :
    chain.demands g = chain'.demands h := by
  induction same with
  | stop | jump => rfl
  | step same _ ih => rw [demands, demands, Node.demands_renamed renamed same, ih]
  | branch same _ _ ihFirst ihSecond =>
    rw [demands, demands, Node.demands_renamed renamed same, ihFirst, ihSecond]

theorem lines_renamed (renamed : g.Renamed h) (same : chain.Renamed chain') (indent : Nat) :
    (chain.lines g indent).map Line.hushed = (chain'.lines h indent).map Line.hushed := by
  induction same generalizing indent with
  | stop | jump => rfl
  | step same _ ih =>
    have node := Node.lines_renamed renamed same Variable.text indent
    simp only [lines, List.map_append, List.map_cons, node, ih]
  | branch same _ _ ihFirst ihSecond =>
    have node := Node.lines_renamed renamed same Variable.text indent
    have prelude := (Node.statements_renamed renamed same Variable.text 0).2
    simp only [lines, List.map_append, List.map_cons, node, prelude, ihFirst, ihSecond]

end Chain

/-- The layouts have the same entries, with chains that lead the same way. -/
def Layout.Renamed (layout layout' : Layout) : Prop :=
  List.Forall₂ (fun entry entry' => entry.1 = entry'.1 ∧ entry.2.Renamed entry'.2) layout layout'

theorem Chain.LaysAll.renamed {g h : Graph} (renamed : g.Renamed h) {triggers : List Trigger}
    {placed after after' : List Uuid} {layout layout' : Layout}
    (laid : LaysAll g triggers placed layout after)
    (laid' : LaysAll h triggers placed layout' after') : layout.Renamed layout' := by
  induction laid generalizing layout' after' with
  | done placed =>
    cases laid'
    exact .nil
  | skip unlinked others ih =>
    rw [renamed.start_uuid, renamed.successor?] at unlinked
    cases laid' with
    | skip _ others' => exact ih others'
    | lead linked => cases unlinked.symm.trans linked
  | lead linked laid others ih =>
    rw [renamed.start_uuid, renamed.successor?] at linked
    cases laid' with
    | skip unlinked => cases unlinked.symm.trans linked
    | lead linked' laid' others' =>
      obtain rfl := Option.some.inj (linked.symm.trans linked')
      obtain ⟨same, rfl⟩ := laid.renamed renamed laid'
      exact .cons ⟨rfl, same⟩ (ih others')

namespace Layout

variable {g h : Graph} {layout layout' : Layout}

theorem demands_renamed (renamed : g.Renamed h) (same : layout.Renamed layout') :
    layout.demands g = layout'.demands h := by
  induction same with
  | nil => rfl
  | cons entry _ ih =>
    rw [demands, demands] at ih ⊢
    rw [List.flatMap_cons, List.flatMap_cons, Chain.demands_renamed renamed entry.2, ih]

theorem lines_renamed (renamed : g.Renamed h) (same : layout.Renamed layout') :
    (layout.lines g).map Line.hushed = (layout'.lines h).map Line.hushed := by
  induction same with
  | nil => rfl
  | @cons entry entry' _ _ first _ ih =>
    obtain ⟨trigger, chain⟩ := entry
    obtain ⟨trigger', chain'⟩ := entry'
    obtain ⟨rfl, same⟩ := first
    have chains := Chain.lines_renamed renamed same 1
    simp only [lines, List.flatMap_cons, List.map_cons, List.map_append, chains] at ih ⊢
    rw [ih]

theorem triggers_renamed (same : layout.Renamed layout') :
    layout.map Prod.fst = layout'.map Prod.fst := by
  induction same with
  | nil => rfl
  | cons entry _ ih => rw [List.map_cons, List.map_cons, entry.1, ih]

end Layout

/-- Which triggers have entries is told by the layout. -/
theorem Draft.isSome_entries (job : Job) (layout : Layout) (d : Draft) (entries : Entries)
    (trigger : Trigger) : ((Draft.lowerEntries job layout d entries).2.get trigger).isSome =
      (decide (trigger ∈ layout.map Prod.fst) || (entries.get trigger).isSome) := by
  induction layout generalizing d entries with
  | nil => rfl
  | cons entry rest ih =>
    rw [Draft.lowerEntries_cons, ih, Entries.get_set, List.map_cons]
    by_cases same : entry.1 = trigger
    · simp [same]
    · have other : (trigger == entry.1) = false := beq_eq_false_iff_ne.mpr (Ne.symm same)
      simp [same, other]

namespace Assembly

variable {a b : Assembly} {uuid : Uuid} {entries entries' : Entries}

/-- The first line of a unit, which names its asset. -/
def headerLine (uuid : Uuid) (name : String) : String :=
  "// '" ++ name ++ "' (" ++ hex64 uuid ++ ")"

/-- The lines of a unit behind the first. -/
def mainLines (a : Assembly) (uuid : Uuid) (entries : Entries) : List String :=
  (a.sourceLines uuid "" entries).tail

theorem sourceLines_eq (a : Assembly) (uuid : Uuid) (name : String) (entries : Entries) :
    a.sourceLines uuid name entries = headerLine uuid name :: a.mainLines uuid entries := rfl

theorem oneLine_headerLine (uuid : Uuid) (name : String) :
    OneLine (headerLine uuid name) ↔ OneLine name := by
  have digits := Source.oneLine_hex64 uuid
  simp +decide [headerLine, digits]

theorem withoutComment_headerLine (uuid : Uuid) (name : String) :
    withoutComment (headerLine uuid name) = "" := by
  have comment := Source.withoutComment_comment 0 ("'" ++ name ++ "' (" ++ hex64 uuid ++ ")")
  have letters : headerLine uuid name =
      indentation 0 ++ ("// " ++ ("'" ++ name ++ "' (" ++ hex64 uuid ++ ")")) :=
    String.toList_inj.mp (by simp [headerLine, indentation])
  rw [letters, comment]
  rfl

/-- The other lines show names in comments only. -/
theorem withoutComment_mainLines (globals : a.globals = b.globals)
    (lines : a.lines.toList.map Line.hushed = b.lines.toList.map Line.hushed)
    (entered : ∀ trigger, (entries.get trigger).isSome = (entries'.get trigger).isSome) :
    (a.mainLines uuid entries).map withoutComment =
      (b.mainLines uuid entries').map withoutComment := by
  have file : a.fileLines = b.fileLines := by rw [fileLines, globals, fileLines]
  have state : a.stateLines = b.stateLines := by rw [stateLines, globals, stateLines]
  have body : a.bodyLines.map withoutComment = b.bodyLines.map withoutComment :=
    withoutComment_render_congr lines
  simp only [mainLines, sourceLines, file, state, entered, List.cons_append, List.nil_append,
    List.tail_cons, List.map_append, body]

/-- The lines of a text whose other lines have no line breaks. -/
theorem lines_source {name : String} (whole : ∀ line ∈ a.mainLines uuid entries, OneLine line) :
    Source.lines (a.toScript uuid name entries).source =
      Source.lines (headerLine uuid name) ++ (a.mainLines uuid entries ++ [""]) := by
  have split := Source.lines_join (a.sourceLines uuid name entries) ""
  rw [String.append_empty] at split
  rw [source_toScript, split, sourceLines_eq, List.flatMap_cons, Source.flatMap_lines whole,
    List.append_assoc]
  rfl

/-- Of texts with the same lines behind the first, a name with line breaks adds lines to its own. -/
theorem withoutComments_source_eq_iff {name name' : String} (named : OneLine name)
    (whole : ∀ line ∈ a.mainLines uuid entries, OneLine line)
    (whole' : ∀ line ∈ b.mainLines uuid entries', OneLine line)
    (main : (a.mainLines uuid entries).map withoutComment =
      (b.mainLines uuid entries').map withoutComment) :
    withoutComments (b.toScript uuid name' entries').source =
        withoutComments (a.toScript uuid name entries).source ↔ OneLine name' := by
  have single := Source.lines_of_oneLine ((oneLine_headerLine uuid name).mpr named)
  rw [Source.withoutComments_eq_iff, lines_source whole, lines_source whole', single,
    List.map_append, List.map_append, List.map_append, List.map_append, main,
    List.append_cancel_right_eq, ← oneLine_headerLine uuid]
  constructor
  · intro same
    rw [Source.oneLine_iff_length_lines, ← List.length_map withoutComment, same]
    rfl
  · intro named'
    rw [Source.lines_of_oneLine named', List.map_singleton, List.map_singleton,
      withoutComment_headerLine, withoutComment_headerLine]

end Assembly

/-- Behind the first line there are no line breaks within lines if titles have none. -/
theorem Chain.LaysAll.oneLine_mainLines {job : Job} {layout : Layout} {after : List Uuid}
    (laid : Chain.LaysAll job.graph Trigger.all [] layout after)
    (few : (layout.vars job.graph).length ≤ 65535)
    (titled : ∀ node ∈ job.graph.nodes, OneLine node.kind.title) (uuid : Uuid) :
    ∀ line ∈ (job.draft layout).1.assembly.mainLines uuid (job.draft layout).2, OneLine line := by
  obtain ⟨globals, lines⟩ := laid.drafted few
  have inner : ∀ line ∈ (job.draft layout).1.assembly.lines.toList, line.Inner :=
    lines ▸ laid.lines_inner titled
  have whole := (@Assembly.defines_sourceLines _ _ uuid "" (job.draft layout).2 globals inner
    (by decide)).whole
  exact fun line member => whole line (List.mem_of_mem_tail member)

/-- Names stay in comments, as long as they have no line breaks. A graph that compiles under a name
without line breaks compiles under every name, with all its functions called otherwise under names
of equal hashes, whatever functions are registered. Without comments the source is the same text
exactly if the other name of the asset has no line break either. -/
theorem names_stay_in_comments {nodes nodes' : List Node} {links links' : List Link} {g h : Graph}
    (accepted : Graph.ofParts nodes links = .ok g) (accepted' : Graph.ofParts nodes' links' = .ok h)
    (renamed : g.Renamed h) (titled : ∀ node ∈ g.nodes, OneLine node.kind.title)
    (titled' : ∀ node ∈ h.nodes, OneLine node.kind.title) {asset : String} (named : OneLine asset)
    (asset' : String) {functions : Option Registry} (functions' : Option Registry) {uuid : Uuid}
    {script : Script} (compiled : (Job.compile ⟨g, asset, functions⟩ uuid).value = .ok script) :
    ∃ script', (Job.compile ⟨h, asset', functions'⟩ uuid).value = .ok script' ∧
      (withoutComments script'.source = withoutComments script.source ↔ OneLine asset') := by
  have formed := Graph.wellFormed_of_ofParts accepted
  have formed' := Graph.wellFormed_of_ofParts accepted'
  let job : Job := ⟨g, asset, functions⟩
  let job' : Job := ⟨h, asset', functions'⟩
  obtain ⟨layout, after, -, laid, few, rfl⟩ := @Job.laid_of_compile job formed _ _ compiled
  obtain ⟨layout', after', success, laid'⟩ := Chain.ofGraph_success formed' asset'
  have same := laid.renamed renamed laid'
  have vars : Layout.vars g layout = Layout.vars h layout' := by
    rw [Layout.vars, Layout.demands_renamed renamed same, Layout.vars]
  have few' : (Layout.vars h layout').length ≤ 65535 := vars ▸ few
  refine ⟨_, @Job.compile_of_few job' _ _ success laid' few' uuid, ?_⟩
  obtain ⟨globals, lines⟩ := @Chain.LaysAll.drafted job _ _ laid few
  obtain ⟨globals', lines'⟩ := @Chain.LaysAll.drafted job' _ _ laid' few'
  have main := @Assembly.withoutComment_mainLines _ _ uuid (job.draft layout).2
    (job'.draft layout').2 (globals.trans (vars ▸ globals'.symm))
    (by rw [lines, lines', Layout.lines_renamed renamed same]) fun trigger => by
      rw [Job.draft, Job.draft, Draft.isSome_entries, Draft.isSome_entries,
        Layout.triggers_renamed same]
  exact Assembly.withoutComments_source_eq_iff named
    (@Chain.LaysAll.oneLine_mainLines job _ _ laid few titled uuid)
    (@Chain.LaysAll.oneLine_mainLines job' _ _ laid' few' titled' uuid) main

/-- A graph that calls one function by name. -/
def Graph.named (name : String) : Graph where
  nodes := [⟨1, .start, .origin⟩, ⟨2, .function name 0, .origin⟩]
  links := [⟨1, 0, 2, 0⟩]

theorem Graph.named_accepted (name : String) :
    Graph.ofParts (Graph.named name).nodes (Graph.named name).links = .ok (Graph.named name) := by
  rfl

/-- Two names of one hash. -/
theorem names_stay_in_comments_named :
    ∃ script, (Job.compile ⟨Graph.named "plumless", "one", none⟩ 9).value = .ok script ∧
      ∀ asset' functions', ∃ script',
        (Job.compile ⟨Graph.named "buckeroo", asset', functions'⟩ 9).value = .ok script' ∧
        (withoutComments script'.source = withoutComments script.source ↔ OneLine asset') := by
  have formed := Graph.wellFormed_of_ofParts (Graph.named_accepted "plumless")
  obtain ⟨script, compiled⟩ :=
    @Job.compile_of_small ⟨Graph.named "plumless", "one", none⟩ formed (by decide) 9
  have renamed : (Graph.named "plumless").Renamed (Graph.named "buckeroo") :=
    ⟨.cons ⟨rfl, .same _⟩ (.cons ⟨rfl, .function 0 (by decide +kernel)⟩ .nil), rfl⟩
  have titled : ∀ name ∈ ["plumless", "buckeroo"], ∀ node ∈ (Graph.named name).nodes,
      OneLine node.kind.title := by decide +kernel
  refine ⟨_, compiled, fun asset' functions' => ?_⟩
  exact names_stay_in_comments (Graph.named_accepted _) (Graph.named_accepted _) renamed
    (titled _ (by decide)) (titled _ (by decide)) (by decide) asset' functions' compiled

end NodeScript
