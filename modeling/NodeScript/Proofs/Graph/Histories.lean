import NodeScript.Graph.Session
import NodeScript.Proofs.Compile.Joins
import NodeScript.Proofs.Graph.Edits

/-!
What holds of a graph whatever has been edited. An edit in a session is made or refused as a whole;
made, it keeps the graph well formed. In a graph that was made by edits alone links moreover join
pins of one kind, a Logic output drives one node and a Value input reads one source. A graph that
was assembled from parts need not be tidy in this sense, and edits do not make it so.
-/
namespace NodeScript

/-- What a session shows of an edit that is made or refused as a whole. -/
def Session.whole {α : Type} (g : Graph) :
    Except GraphError (Graph × α) → EStateM.Result GraphError Graph α
  | .ok (g', answer) => .ok answer g'
  | .error cause => .error cause g

namespace Session

theorem run_map {α β : Type} (f : α → β) {session : Session α} {g : Graph}
    {result : Except GraphError (Graph × α)} (runs : session.run g = whole g result) :
    (f <$> session).run g = whole g (result.map (Prod.map id f)) := by
  change EStateM.map f session g = _
  simp only [EStateM.map, show session g = whole g result from runs]
  cases result <;> rfl

variable (g : Graph)

theorem run_checkPin (side : Side) (uuid : Uuid) (pin : UInt16) :
    (checkPin side uuid pin).run g = whole g ((g.checkPin side uuid pin).map (g, ·)) := by
  simp only [checkPin, EStateM.run_bind, EStateM.run_get]
  cases g.checkPin side uuid pin <;> rfl

theorem run_add (kind : NodeKind) (position : Position) (hint : Uuid) :
    (add kind position hint).run g = whole g (.ok (g.add kind position hint)) := by
  simp only [add, Graph.add, EStateM.run_bind, EStateM.run_get]
  split <;> rfl

theorem run_setKind (uuid : Uuid) (kind : NodeKind) :
    (setKind uuid kind).run g = whole g ((g.setKind uuid kind).map (·, ())) := by
  simp only [setKind, Graph.setKind, EStateM.run_bind, EStateM.run_get]
  cases g.node? uuid with
  | none => rfl
  | some node =>
    dsimp only
    split <;> rfl

theorem run_setPosition (uuid : Uuid) (position : Position) :
    (setPosition uuid position).run g = whole g ((g.setPosition uuid position).map (·, ())) := by
  simp only [setPosition, Graph.setPosition, EStateM.run_bind, EStateM.run_get]
  cases g.node? uuid <;> rfl

theorem run_remove (uuid : Uuid) : (remove uuid).run g = whole g (g.remove uuid) := by
  simp only [remove, Graph.remove, EStateM.run_bind, EStateM.run_get]
  cases g.node? uuid with
  | none => rfl
  | some node =>
    dsimp only
    split <;> rfl

theorem run_link (new : Link) : (link new).run g = whole g ((g.link new).map (·, ())) := by
  simp only [link, Graph.link, EStateM.run_bind, run_checkPin]
  cases g.checkPin .output new.fromNode new.fromPin with
  | error cause => rfl
  | ok source =>
    simp only [Except.map, whole]
    cases g.checkPin .input new.toNode new.toPin with
    | error cause => rfl
    | ok target =>
      simp only [bind, Except.bind]
      split <;> rfl

theorem run_unlink (old : Link) : (unlink old).run g = whole g (.ok (g.unlink old)) := by
  have found : (g.links.filter fun other => other != old).length != g.links.length ↔
      g.links.contains old := by
    rw [bne_iff_ne, ne_eq, List.length_filter_eq_length_iff, List.contains_iff_mem]
    simp
  simp only [unlink, Graph.unlink, EStateM.run_bind, EStateM.run_get, whole]
  rw [← Bool.eq_iff_iff.mpr found]
  rfl

end Session

namespace Edit

/-- What an edit makes of a graph. -/
def outcome (g : Graph) : Edit → Except GraphError (Graph × Answer)
  | addDefault type position hint => .ok ((g.add (.ofType type) position hint).map id .placed)
  | add kind position hint => .ok ((g.add kind position hint).map id .placed)
  | setKind uuid kind => (g.setKind uuid kind).map (·, .done)
  | setPosition uuid position => (g.setPosition uuid position).map (·, .done)
  | remove uuid => (g.remove uuid).map (Prod.map id .removed)
  | link new => (g.link new).map (·, .done)
  | unlink old => .ok ((g.unlink old).map id .unlinked)

/-- An edit is made or refused as a whole. -/
theorem run_perform (edit : Edit) (g : Graph) :
    edit.perform.run g = Session.whole g (edit.outcome g) := by
  cases edit with
  | addDefault type position hint => exact Session.run_map Answer.placed (Session.run_add g _ _ _)
  | add kind position hint => exact Session.run_map Answer.placed (Session.run_add g _ _ _)
  | setKind uuid kind =>
    refine (Session.run_map _ (Session.run_setKind g uuid kind)).trans ?_
    simp only [outcome]
    cases g.setKind uuid kind <;> rfl
  | setPosition uuid position =>
    refine (Session.run_map _ (Session.run_setPosition g uuid position)).trans ?_
    simp only [outcome]
    cases g.setPosition uuid position <;> rfl
  | remove uuid => exact Session.run_map Answer.removed (Session.run_remove g uuid)
  | link new =>
    refine (Session.run_map _ (Session.run_link g new)).trans ?_
    simp only [outcome]
    cases g.link new <;> rfl
  | unlink old => exact Session.run_map Answer.unlinked (Session.run_unlink g old)

/-- Placing a node draws identifiers until one is free. It ends only with one that is. -/
def Draws (g : Graph) : Edit → Prop
  | addDefault type _ hint => type ≠ .start → g.node? (g.freshUuid hint) = none
  | add kind _ hint => kind.type ≠ .start → g.node? (g.freshUuid hint) = none
  | _ => True

/-- The graph that a session holds after an edit. -/
def after (edit : Edit) (g : Graph) : Graph :=
  match edit.perform.run g with
  | .ok _ g' => g'
  | .error _ g' => g'

theorem after_eq (edit : Edit) (g : Graph) :
    edit.after g = (edit.outcome g).toOption.elim g Prod.fst := by
  rw [after, run_perform]
  cases edit.outcome g <;> rfl

end Edit

namespace Graph

variable {g g' : Graph}

/-- A graph in which there is room has a free identifier. -/
theorem draws_of_room (room : g.nodes.length + 2 ≤ UInt64.size) (edit : Edit) : edit.Draws g := by
  cases edit with
  | addDefault type position hint => exact fun _ => node?_freshUuid room hint
  | add kind position hint => exact fun _ => node?_freshUuid room hint
  | _ => trivial

theorem map_eq_ok_iff {ε α β : Type} {first : Except ε α} {f : α → β} {result : β} :
    first.map f = .ok result ↔ ∃ value, first = .ok value ∧ f value = result := by
  cases first <;> simp [Except.map]

/-- Whatever each way of changing a graph gives, an edit that is made gives. -/
theorem outcome_elim {edit : Edit} {answer : Answer} {motive : Graph → Prop} (drawn : edit.Draws g)
    (made : edit.outcome g = .ok (g', answer))
    (add : ∀ kind position hint, (kind.type ≠ .start → g.node? (g.freshUuid hint) = none) →
      motive (g.add kind position hint).1)
    (setKind : ∀ uuid kind next, g.setKind uuid kind = .ok next → motive next)
    (setPosition : ∀ uuid position next, g.setPosition uuid position = .ok next → motive next)
    (remove : ∀ uuid next node, g.remove uuid = .ok (next, node) → motive next)
    (link : ∀ new next, g.link new = .ok next → motive next)
    (unlink : ∀ old, motive (g.unlink old).1) : motive g' := by
  cases edit with
  | addDefault type position hint =>
    obtain rfl := congrArg Prod.fst (Except.ok.inj made)
    exact add (.ofType type) position hint (by simpa [Edit.Draws] using drawn)
  | add kind position hint =>
    obtain rfl := congrArg Prod.fst (Except.ok.inj made)
    exact add kind position hint drawn
  | setKind uuid kind =>
    obtain ⟨_, result, ⟨⟩⟩ := map_eq_ok_iff.mp made
    exact setKind uuid kind _ result
  | setPosition uuid position =>
    obtain ⟨_, result, ⟨⟩⟩ := map_eq_ok_iff.mp made
    exact setPosition uuid position _ result
  | remove uuid =>
    obtain ⟨⟨_, node⟩, result, ⟨⟩⟩ := map_eq_ok_iff.mp made
    exact remove uuid _ node result
  | link new =>
    obtain ⟨_, result, ⟨⟩⟩ := map_eq_ok_iff.mp made
    exact link new _ result
  | unlink old =>
    obtain rfl := congrArg Prod.fst (Except.ok.inj made)
    exact unlink old

theorem WellFormed.outcome (formed : g.WellFormed) {edit : Edit} {answer : Answer}
    (drawn : edit.Draws g) (made : edit.outcome g = .ok (g', answer)) : g'.WellFormed := by
  refine outcome_elim drawn made (fun kind position hint free => ?_)
    (fun _ _ _ edited => formed.setKind edited) (fun _ _ _ edited => formed.setPosition edited)
    (fun _ _ _ edited => formed.remove edited) (fun _ _ edited => formed.link edited) formed.unlink
  by_cases start : kind.type = .start
  · rw [Graph.add, if_pos start]
    exact formed
  · exact formed.add kind position (free start)

/-! Tidy graphs -/

/-- All links that arrive at an input pin, in link order. -/
def linksInto (g : Graph) (uuid : Uuid) (pin : UInt16) : List Link :=
  g.links.filter fun link => link.toNode == uuid && link.toPin == pin

/-- What editing promises of links beyond well-formedness. -/
structure Tidy (g : Graph) : Prop where
  typed : g.Typed
  logic_output : ∀ uuid pin, g.pinKind? .output uuid pin = some .logic →
    (g.linksFrom uuid pin).length ≤ 1
  value_input : ∀ uuid pin, g.pinKind? .input uuid pin = some .value →
    (g.linksInto uuid pin).length ≤ 1
  distinct : g.links.Nodup

theorem tidy_single (start : Uuid) : (single start).Tidy where
  typed _ member := absurd member List.not_mem_nil
  logic_output _ _ _ := Nat.zero_le 1
  value_input _ _ _ := Nat.zero_le 1
  distinct := List.nodup_nil

/-- Both ends of a link have the kinds that they had. -/
def KeepsKinds (g g' : Graph) (link : Link) : Prop :=
  g'.pinKind? .output link.fromNode link.fromPin = g.pinKind? .output link.fromNode link.fromPin ∧
    g'.pinKind? .input link.toNode link.toPin = g.pinKind? .input link.toNode link.toPin

theorem Keeps.pinKind?_eq {uuid : Uuid} (kept : Keeps g g' uuid) {side : Side} {pin : UInt16}
    (present : (g.pinKind? side uuid pin).isSome) :
    g'.pinKind? side uuid pin = g.pinKind? side uuid pin := by
  cases found : g.node? uuid with
  | none => simp [Graph.pinKind?, found] at present
  | some node =>
    obtain ⟨node', found', type⟩ := kept node found
    rw [Graph.pinKind?, Graph.pinKind?, found, found', Option.bind_some, Option.bind_some, type]

theorem WellFormed.keepsKinds (formed : g.WellFormed) {link : Link} (member : link ∈ g.links)
    (source : Keeps g g' link.fromNode) (target : Keeps g g' link.toNode) : KeepsKinds g g' link :=
  ⟨source.pinKind?_eq (formed.linked link member).1,
    target.pinKind?_eq (formed.linked link member).2⟩

/-- At most one link has a property, if that is so wherever one has it. -/
theorem length_filter_le_one {links : List Link} {p : Link → Bool}
    (touched : ∀ link ∈ links, p link = true → (links.filter p).length ≤ 1) :
    (links.filter p).length ≤ 1 := by
  cases found : links.filter p with
  | nil => exact Nat.zero_le 1
  | cons first rest =>
    obtain ⟨member, holds⟩ := List.mem_filter.mp (found ▸ List.mem_cons_self .. :
      first ∈ links.filter p)
    exact found ▸ touched first member holds

/-- A new link may have the property if no other has it. -/
theorem length_filter_append_le_one {links : List Link} {new : Link} {p : Link → Bool}
    (one : (links.filter p).length ≤ 1) (alone : p new = true → ∀ old ∈ links, p old = false) :
    ((links ++ [new]).filter p).length ≤ 1 := by
  rw [List.filter_append, List.length_append]
  cases holds : p new with
  | false => simpa [holds] using one
  | true =>
    have none : links.filter p = [] :=
      List.filter_eq_nil_iff.mpr fun old member => by simp [alone holds old member]
    simp [none, holds]

/-- Some of the links of a tidy graph, between pins that keep their kinds, are tidy. A pin that none
of them touches may be of any kind. -/
theorem Tidy.of_sublist (tidy : g.Tidy) (fewer : g'.links.Sublist g.links)
    (kept : ∀ link ∈ g'.links, KeepsKinds g g' link) : g'.Tidy where
  typed link member := by
    rw [(kept link member).1, (kept link member).2]
    exact tidy.typed link (fewer.subset member)
  logic_output uuid pin logic := by
    refine length_filter_le_one fun link member leaves => ?_
    simp only [Bool.and_eq_true, beq_iff_eq] at leaves
    obtain ⟨rfl, rfl⟩ := leaves
    rw [(kept link member).1] at logic
    exact Nat.le_trans (fewer.filter _).length_le (tidy.logic_output _ _ logic)
  value_input uuid pin value := by
    refine length_filter_le_one fun link member arrives => ?_
    simp only [Bool.and_eq_true, beq_iff_eq] at arrives
    obtain ⟨rfl, rfl⟩ := arrives
    rw [(kept link member).2] at value
    exact Nat.le_trans (fewer.filter _).length_le (tidy.value_input _ _ value)
  distinct := tidy.distinct.sublist fewer

/-- A link that no other has to give way to. -/
theorem Tidy.append (tidy : g.Tidy) {new : Link} {kind : PinKind}
    (source : g.pinKind? .output new.fromNode new.fromPin = some kind)
    (target : g.pinKind? .input new.toNode new.toPin = some kind)
    (alone : ∀ old ∈ g.links, replaces kind new old = false) :
    Tidy ⟨g.nodes, g.links ++ [new]⟩ where
  typed link member := by
    rcases List.mem_append.mp member with old | made
    · exact tidy.typed link old
    · obtain rfl := List.mem_singleton.mp made
      exact source.trans target.symm
  logic_output uuid pin logic := by
    refine length_filter_append_le_one (tidy.logic_output uuid pin logic) fun leaves old member => ?_
    simp only [Bool.and_eq_true, beq_iff_eq] at leaves
    obtain ⟨rfl, rfl⟩ := leaves
    obtain rfl : kind = .logic := Option.some.inj (source.symm.trans logic)
    simpa [replaces] using alone old member
  value_input uuid pin value := by
    refine length_filter_append_le_one (tidy.value_input uuid pin value) fun arrives old member => ?_
    simp only [Bool.and_eq_true, beq_iff_eq] at arrives
    obtain ⟨rfl, rfl⟩ := arrives
    obtain rfl : kind = .value := Option.some.inj (target.symm.trans value)
    simpa [replaces] using alone old member
  distinct := by
    refine List.Nodup.append tidy.distinct (List.nodup_singleton _) ?_
    intro link old made
    obtain rfl := List.mem_singleton.mp made
    have apart := alone _ old
    cases kind <;> simp [replaces] at apart

/-! Edits of tidy graphs -/

theorem Tidy.add (tidy : g.Tidy) (formed : g.WellFormed) (kind : NodeKind) (position : Position)
    (hint : Uuid) : (g.add kind position hint).1.Tidy := by
  have kept := keeps_add g kind position hint
  have links : (g.add kind position hint).1.links = g.links := by
    unfold Graph.add
    split <;> rfl
  exact tidy.of_sublist (links ▸ List.Sublist.refl _) fun _ member =>
    formed.keepsKinds (links ▸ member) (kept _) (kept _)

/-- A change in place leaves links and the kinds of pins. -/
theorem Tidy.modify (tidy : g.Tidy) (formed : g.WellFormed) {uuid : Uuid} {change : Node → Node}
    (identifier : ∀ node, (change node).uuid = node.uuid)
    (type : ∀ node, g.node? uuid = some node → (change node).type = node.type) :
    (g.modify uuid change).Tidy :=
  have kept := formed.keeps_modify identifier type
  tidy.of_sublist (List.Sublist.refl _) fun _ member =>
    formed.keepsKinds member (kept _) (kept _)

theorem Tidy.setKind (tidy : g.Tidy) (formed : g.WellFormed) {uuid : Uuid} {kind : NodeKind}
    (edited : g.setKind uuid kind = .ok g') : g'.Tidy := by
  obtain ⟨node, found, same, rfl⟩ := setKind_eq_ok edited
  refine tidy.modify formed (fun _ => rfl) fun other found' => ?_
  rw [Option.some.inj (found'.symm.trans found)]
  exact same.symm

theorem Tidy.setPosition (tidy : g.Tidy) (formed : g.WellFormed) {uuid : Uuid}
    {position : Position} (edited : g.setPosition uuid position = .ok g') : g'.Tidy := by
  obtain rfl := setPosition_eq_ok edited
  exact tidy.modify formed (fun _ => rfl) fun _ _ => rfl

theorem Tidy.remove (tidy : g.Tidy) (formed : g.WellFormed) {uuid : Uuid} {node : Node}
    (edited : g.remove uuid = .ok (g', node)) : g'.Tidy := by
  have kept {other : Uuid} (differs : other ≠ uuid) := keeps_remove edited differs
  obtain ⟨-, -, rfl⟩ := remove_eq_ok edited
  refine tidy.of_sublist List.filter_sublist fun link member => ?_
  obtain ⟨old, apart⟩ := List.mem_filter.mp member
  simp only [Bool.and_eq_true, bne_iff_ne] at apart
  exact formed.keepsKinds old (kept apart.1) (kept apart.2)

/-- Links give way first, which leaves the graph tidy, and none that is left is in the way. -/
theorem Tidy.link (tidy : g.Tidy) {new : Link} (edited : g.link new = .ok g') : g'.Tidy := by
  obtain ⟨kind, source, target, rfl⟩ := link_eq_ok edited
  have room : Tidy ⟨g.nodes, g.links.filter fun old => !replaces kind new old⟩ :=
    tidy.of_sublist List.filter_sublist fun _ _ => ⟨rfl, rfl⟩
  exact room.append source target fun old member => by
    simpa using (List.mem_filter.mp member).2

theorem Tidy.unlink (tidy : g.Tidy) (old : Link) : (g.unlink old).1.Tidy :=
  tidy.of_sublist List.filter_sublist fun _ _ => ⟨rfl, rfl⟩

theorem Tidy.outcome (tidy : g.Tidy) (formed : g.WellFormed) {edit : Edit} {answer : Answer}
    (drawn : edit.Draws g) (made : edit.outcome g = .ok (g', answer)) : g'.Tidy :=
  outcome_elim drawn made (fun kind position hint _ => tidy.add formed kind position hint)
    (fun _ _ _ edited => tidy.setKind formed edited)
    (fun _ _ _ edited => tidy.setPosition formed edited)
    (fun _ _ _ edited => tidy.remove formed edited) (fun _ _ edited => tidy.link edited) tidy.unlink

/-! Histories -/

/-- The graphs that a session holds after a number of edits, made or refused. -/
inductive Becomes (g : Graph) : List Edit → Graph → Prop
  | unedited : Becomes g [] g
  | edited {edits : List Edit} {g' : Graph} (edit : Edit) (history : Becomes g edits g')
      (drawn : edit.Draws g') : Becomes g (edits ++ [edit]) (edit.after g')

/-- What edits that are made keep, all edits keep. -/
theorem Becomes.keeps {edits : List Edit} {motive : Graph → Prop} (history : g.Becomes edits g')
    (start : motive g)
    (step : ∀ {edit : Edit} {g g' : Graph} {answer : Answer}, motive g → edit.Draws g →
      edit.outcome g = .ok (g', answer) → motive g') : motive g' := by
  induction history with
  | unedited => exact start
  | @edited edits g' edit history drawn ih =>
    rw [Edit.after_eq]
    cases made : edit.outcome g' with
    | error cause => exact ih
    | ok result => exact step ih drawn made

/-- Graphs stay valid. A graph is assembled from parts exactly if these are well formed, and stays
well formed under any edits; a graph that was made by edits alone is tidy as well; and an edit that
is refused leaves the graph as it was. An edit may only fail to end where no identifier is free. -/
theorem edits_keep_graphs_valid :
    (∀ (nodes : List Node) (links : List Link) (g : Graph),
      ofParts nodes links = .ok g ↔ g = ⟨nodes, links⟩ ∧ g.WellFormed) ∧
    (∀ (g g' : Graph) (edits : List Edit), g.WellFormed → g.Becomes edits g' → g'.WellFormed) ∧
    (∀ (start : Uuid) (g : Graph) (edits : List Edit), (single start).Becomes edits g →
      g.WellFormed ∧ g.Tidy) ∧
    (∀ (edit : Edit) (g g' : Graph) (cause : GraphError),
      edit.perform.run g = .error cause g' → g' = g) ∧
    ∀ (edit : Edit) (g : Graph), g.nodes.length + 2 ≤ UInt64.size → edit.Draws g := by
  refine ⟨ofParts_eq_ok_iff, fun g g' edits formed history => ?_,
    fun start g edits history => ?_, fun edit g g' cause refused => ?_,
    fun edit g room => draws_of_room room edit⟩
  · exact history.keeps formed fun formed => formed.outcome
  · refine history.keeps (motive := fun g => g.WellFormed ∧ g.Tidy)
      ⟨wellFormed_single start, tidy_single start⟩ ?_
    intro edit g g' answer valid drawn made
    exact ⟨valid.1.outcome drawn made, valid.2.outcome valid.1 drawn made⟩
  · rw [Edit.run_perform] at refused
    cases made : edit.outcome g with
    | error cause' =>
      rw [made] at refused
      exact ((EStateM.Result.error.injEq ..).mp refused).2.symm
    | ok result =>
      rw [made] at refused
      cases refused

/-- A node is placed and linked twice, which gives one link; then the Start node is to be removed,
which is refused. -/
theorem edits_keep_graphs_valid_relinked :
    ∃ g, (single 1).Becomes
        ([] ++ [.addDefault .wait .origin 2] ++ [.link ⟨1, 0, 2, 0⟩] ++ [.link ⟨1, 0, 2, 0⟩]) g ∧
      g.links = [⟨1, 0, 2, 0⟩] ∧ ofParts g.nodes g.links = .ok g ∧ g.WellFormed ∧ g.Tidy ∧
      ∃ g', (Edit.remove 1).perform.run g = .error .cannotRemoveStart g' ∧ g' = g := by
  obtain ⟨accepts, keeps, valid, refuses, draws⟩ := edits_keep_graphs_valid
  have history := Becomes.edited (.link ⟨1, 0, 2, 0⟩)
    (.edited (.link ⟨1, 0, 2, 0⟩)
      (.edited (.addDefault .wait .origin 2) (.unedited (g := single 1))
        (draws _ _ (by decide)))
      trivial) trivial
  have ⟨formed, tidy⟩ := valid _ _ _ history
  exact ⟨_, history, by decide +kernel, (accepts _ _ _).mpr ⟨rfl, formed⟩,
    keeps _ _ _ formed .unedited, tidy, _, rfl,
    refuses (.remove 1) _ _ .cannotRemoveStart (by rfl)⟩

end Graph

end NodeScript
