import NodeScript.Proofs.Compile.Layout

/-!
Nodes that control is sent back to have labels in source. Each output is followed once in a layout,
so a node that a jump leads to is reached by two links; in a graph whose links join pins of one kind
both arrive at Logic inputs, and the node counts as one that several paths lead to.
-/
namespace NodeScript

namespace Graph

variable {g : Graph}

/-- Every link joins two pins of one kind. -/
def Typed (g : Graph) : Prop :=
  ∀ link ∈ g.links,
    g.pinKind? .output link.fromNode link.fromPin = g.pinKind? .input link.toNode link.toPin

instance : Decidable g.Typed := List.decidableBAll _ _

/-- A Logic output that leads to a node. -/
structure Leads (g : Graph) (way : Uuid × UInt16) (target : Uuid) : Prop where
  logic : g.pinKind? .output way.1 way.2 = some .logic
  successor : g.successor? way.1 way.2 = some target

/-- A node that two outputs lead to counts as such. -/
theorem Typed.one_lt_logicInDegree (typed : g.Typed) {way way' : Uuid × UInt16} {uuid : Uuid}
    (leads : g.Leads way uuid) (leads' : g.Leads way' uuid) (different : way ≠ way') :
    1 < g.logicInDegree uuid := by
  have arrives {way : Uuid × UInt16} (leads : g.Leads way uuid) :
      ∃ link, link ∈ g.links.filter (fun link =>
          link.toNode == uuid && g.pinKind? .input link.toNode link.toPin == some .logic) ∧
        (link.fromNode, link.fromPin) = way := by
    obtain ⟨link, member, node, pin, rfl⟩ := successor?_eq_some leads.successor
    have logic := leads.logic
    rw [← node, ← pin, typed link member] at logic
    exact ⟨link, List.mem_filter.mpr ⟨member, by simp [logic]⟩, by rw [node, pin]⟩
  obtain ⟨link, member, rfl⟩ := arrives leads
  obtain ⟨link', member', rfl⟩ := arrives leads'
  rw [logicInDegree]
  match all : g.links.filter fun link =>
      link.toNode == uuid && g.pinKind? .input link.toNode link.toPin == some .logic with
  | [] => simp [all] at member
  | [only] =>
    rw [all, List.mem_singleton] at member member'
    rw [member, member'] at different
    exact absurd rfl different
  | _ :: _ :: _ => simp [all]

theorem WellFormed.logic_trigger (formed : g.WellFormed) (trigger : Trigger) :
    g.pinKind? .output g.start.uuid trigger.pin = some .logic := by
  obtain ⟨start, type⟩ := formed.node?_start
  rw [pinKind?, start, Option.bind_some, type]
  cases trigger <;> rfl

/-- A node that something can be linked to goes on at its first output, and a branching node at its
second as well. -/
theorem logic_output {uuid : Uuid} {node : Node} (found : g.node? uuid = some node)
    (entered : node.type.inputs ≠ []) :
    g.pinKind? .output uuid 0 = some .logic ∧
      (node.type.branches = true → g.pinKind? .output uuid 1 = some .logic) := by
  simp only [pinKind?, found, Option.bind_some]
  cases type : node.type with
  | start | value => simp [type, NodeType.inputs] at entered
  | compare | loop => exact ⟨rfl, fun _ => rfl⟩
  | wait | deleteObject | sendEvent | function =>
    refine ⟨rfl, fun branches => ?_⟩
    cases branches

end Graph

namespace Chain

variable {g : Graph}

/-- The nodes that are gone on at although they stand elsewhere. -/
def jumps : Chain → List Uuid
  | stop => []
  | jump uuid => [uuid]
  | step _ rest => rest.jumps
  | branch _ first second => first.jumps ++ second.jumps

/-- The outputs that have been followed before a part of a layout: they are those of placed nodes
and of the Start node, and every placed node has been arrived at through one of them. -/
structure Followed (g : Graph) (placed : List Uuid) (ways : List (Uuid × UInt16)) : Prop where
  origin : ∀ way ∈ ways, way.1 ∈ g.start.uuid :: placed
  arrived : ∀ uuid ∈ placed, ∃ way ∈ ways, g.Leads way uuid

/-- Following an output to a node that is not placed yet. -/
theorem Followed.place {placed : List Uuid} {ways : List (Uuid × UInt16)}
    (followed : Followed g placed ways) {way : Uuid × UInt16} {uuid : Uuid}
    (leads : g.Leads way uuid) (origin : way.1 ∈ g.start.uuid :: placed) :
    Followed g (uuid :: placed) (way :: ways) where
  origin := by
    have longer : g.start.uuid :: placed ⊆ g.start.uuid :: uuid :: placed :=
      List.cons_subset_cons _ (List.subset_cons_self ..)
    intro other member
    rcases List.mem_cons.mp member with rfl | member
    · exact longer origin
    · exact longer (followed.origin other member)
  arrived := by
    intro other member
    rcases List.mem_cons.mp member with rfl | member
    · exact ⟨way, List.mem_cons_self .., leads⟩
    · obtain ⟨earlier, member, leads⟩ := followed.arrived other member
      exact ⟨earlier, List.mem_cons_of_mem _ member, leads⟩

/-- What following an output comes to: what has been followed then, with nothing new but this
output and those of nodes that were not placed, and two outputs for each jump. -/
structure FollowedTo (g : Graph) (placed after : List Uuid) (way : Uuid × UInt16)
    (ways ways' : List (Uuid × UInt16)) (jumps : List Uuid) : Prop where
  followed : Followed g after ways'
  fresh : ∀ other ∈ ways', other ∈ ways ∨ other = way ∨ other.1 ∉ g.start.uuid :: placed
  joined : ∀ uuid ∈ jumps, ∃ one other, one ≠ other ∧ g.Leads one uuid ∧ g.Leads other uuid

/-- The outputs of a node that is not placed have not been followed. -/
theorem Followed.unfollowed {placed : List Uuid} {ways : List (Uuid × UInt16)}
    (followed : Followed g placed ways) {way : Uuid × UInt16} {uuid : Uuid}
    (origin : way.1 ∈ g.start.uuid :: placed) (outside : uuid ∉ g.start.uuid :: placed)
    (pin : UInt16) : (uuid, pin) ∉ way :: ways := by
  intro member
  rcases List.mem_cons.mp member with rfl | member
  · exact outside origin
  · exact outside (followed.origin _ member)

/-- What is new behind a node that is placed is new before it. -/
theorem FollowedTo.fresh_behind {placed after : List Uuid} {way : Uuid × UInt16}
    {ways ways' : List (Uuid × UInt16)} {jumps : List Uuid} {uuid : Uuid} {pin : UInt16}
    (rest : FollowedTo g (uuid :: placed) after (uuid, pin) (way :: ways) ways' jumps)
    (outside : uuid ∉ g.start.uuid :: placed) :
    ∀ other ∈ ways', other ∈ ways ∨ other = way ∨ other.1 ∉ g.start.uuid :: placed := by
  intro other member
  rcases rest.fresh other member with earlier | rfl | apart
  · exact (List.mem_cons.mp earlier).elim (fun same => .inr (.inl same)) .inl
  · exact .inr (.inr outside)
  · exact .inr (.inr fun inside =>
      apart (List.cons_subset_cons _ (List.subset_cons_self ..) inside))

theorem Lays.followed (formed : g.WellFormed) {placed after : List Uuid} {target : Option Uuid}
    {chain : Chain} (laid : Lays g placed target chain after) {ways : List (Uuid × UInt16)}
    (followed : Followed g placed ways) {way : Uuid × UInt16}
    (logic : g.pinKind? .output way.1 way.2 = some .logic)
    (led : g.successor? way.1 way.2 = target) (origin : way.1 ∈ g.start.uuid :: placed)
    (new : way ∉ ways) :
    ∃ ways', FollowedTo g placed after way ways ways' chain.jumps := by
  induction laid generalizing ways way with
  | stop placed => exact ⟨ways, followed, fun other member => .inl member, by simp [jumps]⟩
  | @jump placed uuid seen =>
    refine ⟨ways, followed, fun other member => .inl member, fun other member => ?_⟩
    obtain rfl := List.mem_singleton.mp member
    obtain ⟨earlier, member, leads⟩ := followed.arrived other seen
    refine ⟨earlier, way, ?_, leads, ⟨logic, led⟩⟩
    rintro rfl
    exact new member
  | @step placed after uuid node rest unplaced found entered single next ih =>
    have outside : uuid ∉ g.start.uuid :: placed := by
      simp [formed.ne_start found entered, unplaced]
    obtain ⟨ways', rest⟩ := ih (followed.place ⟨logic, led⟩ origin)
      (Graph.logic_output found entered).1 rfl (by simp)
      (followed.unfollowed origin outside 0)
    exact ⟨ways', rest.followed, rest.fresh_behind outside, rest.joined⟩
  | @branch placed middle after uuid node first second unplaced found entered double holds fails
      ihFirst ihSecond =>
    have outside : uuid ∉ g.start.uuid :: placed := by
      simp [formed.ne_start found entered, unplaced]
    obtain ⟨ways₁, first⟩ := ihFirst (followed.place ⟨logic, led⟩ origin)
      (Graph.logic_output found entered).1 rfl (by simp)
      (followed.unfollowed origin outside 0)
    have unfollowed : (uuid, 1) ∉ ways₁ := by
      intro member
      rcases first.fresh _ member with earlier | same | apart
      · exact followed.unfollowed origin outside 1 earlier
      · simp at same
      · simp at apart
    obtain ⟨ways₂, second⟩ := ihSecond first.followed
      ((Graph.logic_output found entered).2 double) rfl
      (List.mem_cons_of_mem _ (holds.subset (by simp))) unfollowed
    refine ⟨ways₂, second.followed, fun other member => ?_, ?_⟩
    · have longer : placed ⊆ middle := List.Subset.trans (List.subset_cons_self ..) holds.subset
      rcases second.fresh other member with earlier | rfl | apart
      · exact first.fresh_behind outside other earlier
      · exact .inr (.inr outside)
      · exact .inr (.inr fun inside => apart (List.cons_subset_cons _ longer inside))
    · exact List.forall_mem_append.mpr ⟨first.joined, second.joined⟩

theorem LaysAll.followed (formed : g.WellFormed) {triggers : List Trigger}
    {placed after : List Uuid} {layout : List (Trigger × Chain)}
    (laid : LaysAll g triggers placed layout after) {ways : List (Uuid × UInt16)}
    (followed : Followed g placed ways) (distinct : triggers.Nodup)
    (new : ∀ trigger ∈ triggers, (g.start.uuid, trigger.pin) ∉ ways) :
    ∀ entry ∈ layout, ∀ uuid ∈ entry.2.jumps,
      ∃ one other, one ≠ other ∧ g.Leads one uuid ∧ g.Leads other uuid := by
  induction laid generalizing ways with
  | done => simp
  | skip unlinked others ih =>
    exact ih followed (List.nodup_cons.mp distinct).2 fun other member =>
      new other (List.mem_cons_of_mem _ member)
  | @lead placed middle after trigger rest target chain layout linked laid others ih =>
    obtain ⟨unlike, distinct⟩ := List.nodup_cons.mp distinct
    obtain ⟨ways', first⟩ := laid.followed formed followed (formed.logic_trigger trigger) linked
      (by simp) (new trigger (by simp))
    refine List.forall_mem_cons.mpr ⟨first.joined, ih first.followed distinct ?_⟩
    intro other member found
    rcases first.fresh _ found with earlier | same | apart
    · exact new other (List.mem_cons_of_mem _ member) earlier
    · obtain rfl : other = trigger := by
        have pins := congrArg Prod.snd same
        cases other <;> cases trigger <;> first | rfl | cases pins
      exact unlike member
    · simp at apart

/-- A node that is jumped to counts as one that several paths lead to. -/
theorem LaysAll.one_lt_logicInDegree (formed : g.WellFormed) (typed : g.Typed)
    {after : List Uuid} {layout : List (Trigger × Chain)}
    (laid : LaysAll g Trigger.all [] layout after) {entry : Trigger × Chain}
    (member : entry ∈ layout) {uuid : Uuid} (jumped : uuid ∈ entry.2.jumps) :
    1 < g.logicInDegree uuid := by
  have nothing : Followed g [] [] := ⟨by simp, by simp⟩
  obtain ⟨one, other, different, leads, leads'⟩ :=
    laid.followed formed nothing (by decide) (by simp) entry member uuid jumped
  exact typed.one_lt_logicInDegree leads leads' different

end Chain

end NodeScript
