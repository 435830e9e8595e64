import NodeScript.Proofs.Execution.Lifecycle

/-!
What an instance does depends on the journal only through the answers of its user functions. Two
journals after which the functions that are bound answer alike, whatever they are called with from
then on, are as good as one another: an instance takes the same course after both. An instance
calls no functions but those that are bound to it.
-/
namespace NodeScript

namespace UserFunction

/-- Whether a function answers alike after two histories, whatever it is called with from then
on. -/
def AnswersAlike (f : UserFunction) (history other : List UInt32) : Prop :=
  ∀ own argument, f.result (history ++ own) argument = f.result (other ++ own) argument

/-- A function whose results do not depend on earlier calls. -/
def Oblivious (f : UserFunction) : Prop :=
  ∀ history other argument, f.result history argument = f.result other argument

end UserFunction

namespace Journal

/-- The functions answer alike after both journals. -/
def Alike (bound : Array (Option UserFunction)) (j k : Journal) : Prop :=
  ∀ f, some f ∈ bound → f.AnswersAlike (j.history f.id) (k.history f.id)

theorem history_add (j : Journal) (entry : Entry) (function : Nat) :
    (j.add entry).history function =
      j.history function ++ (entry.argument? function).toList := by
  cases found : entry.argument? function <;> simp [history, add, found]

variable {bound : Array (Option UserFunction)} {j k : Journal}

theorem Alike.add (alike : Alike bound j k) (entry : Entry) :
    Alike bound (j.add entry) (k.add entry) := by
  intro f member own argument
  rw [history_add, history_add, List.append_assoc, List.append_assoc]
  exact alike f member _ argument

theorem Alike.call (alike : Alike bound j k) {f : UserFunction} (member : some f ∈ bound)
    (argument : UInt32) : (j.call f argument).2 = (k.call f argument).2 := by
  have same := alike f member [] argument
  rwa [List.append_nil, List.append_nil] at same

end Journal

open Journal (Alike)

/-- A journal that has grown without any call of a function that is not bound. -/
def Journal.Spares (bound : Array (Option UserFunction)) (j k : Journal) : Prop :=
  ∀ function, (∀ f, some f ∈ bound → f.id ≠ function) → k.history function = j.history function

namespace Journal

variable {bound : Array (Option UserFunction)} {j k l : Journal}

theorem Spares.refl : Spares bound j j := fun _ _ => rfl

theorem Spares.trans (first : Spares bound j k) (second : Spares bound k l) : Spares bound j l :=
  fun function unbound => (second function unbound).trans (first function unbound)

theorem spares_report (j : Journal) (event : Event) : Spares bound j (j.report event) := by
  intro function _
  rw [report, history_add]
  exact List.append_nil _

theorem spares_command (j : Journal) (command : Command) :
    Spares bound j (j.add (.command command)) := by
  intro function _
  rw [history_add]
  exact List.append_nil _

theorem spares_call (j : Journal) {f : UserFunction} (member : some f ∈ bound)
    (argument : UInt32) : Spares bound j (j.call f argument).1 := by
  intro function unbound
  have other : (Entry.call f.id f.hash argument).argument? function = none :=
    if_neg (unbound f member)
  rw [call, history_add, other]
  exact List.append_nil _

end Journal

/-- What an instruction leads to leaves alone what is not bound. -/
def Step.Spares {τ : Type} (bound : Array (Option UserFunction)) (j : Journal) : Step τ → Prop
  | .next _ m k | .stop _ m k => m.bound = bound ∧ Journal.Spares bound j k

/-- Two instructions that lead to the same, after journals that are alike. -/
def Step.SameAs {τ : Type} (bound : Array (Option UserFunction)) : Step τ → Step τ → Prop
  | .next pc m j, .next pc' m' k => pc = pc' ∧ m = m' ∧ m.bound = bound ∧ Alike bound j k
  | .stop pace m j, .stop pace' m' k =>
    pace = pace' ∧ m = m' ∧ m.bound = bound ∧ Alike bound j k
  | _, _ => False

namespace Machine

variable {τ : Type} [Elapsed τ] {program : Program} {frame : τ} {j k : Journal}

theorem StepsTo.alike {pc : Addr} {m : Machine τ} {result : Step τ}
    (steps : StepsTo program frame pc m j result) (alike : Alike m.bound j k) :
    ∃ other, StepsTo program frame pc m k other ∧ result.SameAs m.bound other := by
  cases steps with
  | outside missing => exact ⟨_, .outside missing, rfl, rfl, rfl, alike.add _⟩
  | unroomy found beyond => exact ⟨_, .unroomy found beyond, rfl, rfl, rfl, alike.add _⟩
  | setLocal found room => exact ⟨_, .setLocal found room, rfl, rfl, rfl, alike⟩
  | enter found fresh => exact ⟨_, .enter found fresh, rfl, rfl, rfl, alike⟩
  | wait found slept short => exact ⟨_, .wait found slept short, rfl, rfl, rfl, alike⟩
  | wake found slept enough => exact ⟨_, .wake found slept enough, rfl, rfl, rfl, alike⟩
  | deleteObject found => exact ⟨_, .deleteObject found, rfl, rfl, rfl, alike.add _⟩
  | sendEvent found issued => exact ⟨_, .sendEvent found issued, rfl, rfl, rfl, alike.add _⟩
  | @call function destination argument f found linked =>
    have member : some f ∈ m.bound := Array.mem_of_getElem? (Option.join_eq_some_iff.mp linked)
    have same := alike.call member (m.read argument).toUInt64.toUInt32
    refine ⟨_, .call found linked, rfl, ?_, rfl, alike.add _⟩
    rw [same]
  | miss found unlinked => exact ⟨_, .miss found unlinked, rfl, rfl, rfl, alike.add _⟩
  | goOn found holds => exact ⟨_, .goOn found holds, rfl, rfl, rfl, alike⟩
  | branch found fails => exact ⟨_, .branch found fails, rfl, rfl, rfl, alike⟩
  | again found below => exact ⟨_, .again found below, rfl, rfl, rfl, alike⟩
  | leave found full => exact ⟨_, .leave found full, rfl, rfl, rfl, alike⟩
  | jump found => exact ⟨_, .jump found, rfl, rfl, rfl, alike⟩
  | finish found => exact ⟨_, .finish found, rfl, rfl, rfl, alike⟩

theorem StepsTo.spares {pc : Addr} {m : Machine τ} {result : Step τ}
    (steps : StepsTo program frame pc m j result) : result.Spares m.bound j := by
  cases steps with
  | outside | unroomy | miss => exact ⟨rfl, j.spares_report _⟩
  | deleteObject | sendEvent => exact ⟨rfl, j.spares_command _⟩
  | call found linked =>
    exact ⟨rfl, j.spares_call (Array.mem_of_getElem? (Option.join_eq_some_iff.mp linked)) _⟩
  | setLocal | enter | wait | wake | goOn | branch | again | leave | jump | finish =>
    exact ⟨rfl, .refl⟩

variable (program frame)

theorem run_spares (budget steps : Nat) (pc : Addr) (m : Machine τ) (j : Journal) :
    Journal.Spares m.bound j (run program frame budget steps pc m j).2.2 := by
  fun_induction run program frame budget steps pc m j with
  | case1 pc m j => exact j.spares_report _
  | case2 steps pc m j pc' m' j' next ih =>
    obtain ⟨kept, first⟩ := (stepsTo_iff.mpr next).spares
    exact first.trans (kept ▸ ih)
  | case3 steps pc m j pace m' j' stop => exact (stepsTo_iff.mpr stop).spares.2

theorem resume_spares (budget : Nat) (m : Machine τ) (j : Journal) :
    Journal.Spares m.bound j (m.resume program frame budget j).2.2 := by
  unfold resume
  cases m.pc with
  | none => exact .refl
  | some pc => exact run_spares program frame budget budget pc m j

theorem run_alike (budget steps : Nat) (pc : Addr) (m : Machine τ) (alike : Alike m.bound j k) :
    (run program frame budget steps pc m j).1 = (run program frame budget steps pc m k).1 ∧
      (run program frame budget steps pc m j).2.1 =
        (run program frame budget steps pc m k).2.1 := by
  fun_induction run program frame budget steps pc m j generalizing k with
  | case1 pc m j => exact ⟨rfl, rfl⟩
  | case2 steps pc m j pc' m' j' next ih =>
    obtain ⟨other, second, same⟩ := (stepsTo_iff.mpr next).alike alike
    rw [run, second.step_eq]
    cases other with
    | next pc'' m'' k' =>
      obtain ⟨rfl, rfl, kept, alike'⟩ := same
      exact ih (kept ▸ alike')
    | stop => exact same.elim
  | case3 steps pc m j pace m' j' stop =>
    obtain ⟨other, second, same⟩ := (stepsTo_iff.mpr stop).alike alike
    rw [run, second.step_eq]
    cases other with
    | next => exact same.elim
    | stop pace' m'' k' => exact ⟨same.1, same.2.1⟩

theorem resume_alike (budget : Nat) (m : Machine τ) (alike : Alike m.bound j k) :
    (m.resume program frame budget j).1 = (m.resume program frame budget k).1 ∧
      (m.resume program frame budget j).2.1 = (m.resume program frame budget k).2.1 := by
  unfold resume
  cases m.pc with
  | none => exact ⟨rfl, rfl⟩
  | some pc => exact run_alike program frame budget budget pc m alike

end Machine

namespace Instance

variable {τ : Type}

theorem trigger_alike (i : Instance τ) (trigger : Trigger) (j k : Journal) :
    (i.trigger trigger j).1 = (i.trigger trigger k).1 := by
  have fires := i.triggersTo_trigger trigger j
  generalize i.trigger trigger j = result at fires ⊢
  cases fires with
  | unloaded absent => rw [(TriggersTo.unloaded absent).trigger_eq]
  | entryless stored missing => rw [(TriggersTo.entryless stored missing).trigger_eq]
  | start stored found ended => rw [(TriggersTo.start stored found ended).trigger_eq]
  | queue stored found busy room => rw [(TriggersTo.queue stored found busy room).trigger_eq]
  | refuse stored found busy full => rw [(TriggersTo.refuse stored found busy full).trigger_eq]

variable [Elapsed τ]

/-- An update calls no functions but those that are bound. -/
theorem update_spares (i : Instance τ) (frame : τ) (j : Journal) :
    Journal.Spares i.machine.bound j (i.update frame j).2 := by
  rcases i.update_cases frame with ⟨-, same⟩ | ⟨-, script, -, turns⟩
  · rw [same]
    exact .refl
  · rw [turns]
    exact Machine.resume_spares _ _ _ i.machine j

/-- An update after journals that are alike. -/
theorem update_alike (i : Instance τ) (frame : τ) {j k : Journal}
    (alike : Alike i.machine.bound j k) : (i.update frame j).1 = (i.update frame k).1 := by
  rcases i.update_cases frame with ⟨-, same⟩ | ⟨-, script, -, turns⟩
  · rw [same, same]
  · obtain ⟨pace, machine⟩ := Machine.resume_alike script.program frame
      i.config.maxStepsPerResume i.machine alike
    rw [turns, turns, pace, machine]

end Instance

end NodeScript
