import NodeScript.Proofs.Execution.Calls
import NodeScript.Proofs.Execution.Rules

/-!
Runs of the machine as sequences of instructions. `Moves` says that instructions go on from one
point to another; a turn that does not use up its steps gets as far as they lead.
-/
namespace NodeScript

namespace Journal

/-- What an instruction may add to a journal: an entry that does not tell that the turn has used up
its steps. -/
inductive Grows (j : Journal) : Journal → Prop
  | same : Grows j j
  | add (entry : Entry) (uncut : entry.isCut = false) : Grows j (j.add entry)

theorem Grows.cuts {j k : Journal} (grows : j.Grows k) : k.cuts = j.cuts := by
  cases grows with
  | same => rfl
  | add entry uncut => simp [Journal.cuts, Journal.add, uncut]

theorem Grows.effects {j k : Journal} (grows : j.Grows k) : j.effects <+: k.effects := by
  cases grows with
  | same => exact List.prefix_refl _
  | add entry uncut =>
    rw [effects_add]
    exact List.prefix_append _ _

end Journal

/-- What any instruction leads to: little is added to the journal, and nothing is under way if the
execution has ended. -/
def Step.Orderly {τ : Type} (j : Journal) : Step τ → Prop
  | .next _ _ k => j.Grows k
  | .stop pace m k => j.Grows k ∧ (pace = .finished → m.pc = none)

namespace Machine

variable {τ : Type} [Elapsed τ] {program : Program} {frame : τ}

/-- A number of instructions that all go on lead from one point of an execution to another. -/
inductive Moves (program : Program) (frame : τ) :
    Nat → Addr → Machine τ → Journal → Addr → Machine τ → Journal → Prop
  | refl (pc : Addr) (m : Machine τ) (j : Journal) : Moves program frame 0 pc m j pc m j
  | next {n : Nat} {pc pc' pc'' : Addr} {m m' m'' : Machine τ} {j j' j'' : Journal}
      (first : step program frame pc m j = .next pc' m' j')
      (rest : Moves program frame n pc' m' j' pc'' m'' j'') :
      Moves program frame (n + 1) pc m j pc'' m'' j''

variable {n k : Nat} {pc pc' pc'' : Addr} {m m' m'' : Machine τ} {j j' j'' : Journal}

theorem Moves.one (first : step program frame pc m j = .next pc' m' j') :
    Moves program frame 1 pc m j pc' m' j' := .next first (.refl ..)

theorem Moves.trans (first : Moves program frame n pc m j pc' m' j')
    (second : Moves program frame k pc' m' j' pc'' m'' j'') :
    Moves program frame (n + k) pc m j pc'' m'' j'' := by
  induction first with
  | refl => rwa [Nat.zero_add]
  | next first rest ih =>
    rw [Nat.add_right_comm]
    exact .next first (ih second)

theorem StepsTo.orderly {result : Step τ} (steps : StepsTo program frame pc m j result) :
    result.Orderly j := by
  cases steps with
  | outside | unroomy => exact ⟨.add _ rfl, fun _ => rfl⟩
  | enter | wait => exact ⟨.same, nofun⟩
  | deleteObject | sendEvent | call | miss => exact .add _ rfl
  | setLocal | wake | goOn | branch | again | leave | jump => exact .same
  | finish => exact ⟨.same, fun _ => rfl⟩

theorem cuts_next (next : step program frame pc m j = .next pc' m' j') : j'.cuts = j.cuts :=
  (stepsTo_iff.mpr next).orderly.cuts

theorem cuts_stop {pace : Pace} (stop : step program frame pc m j = .stop pace m' j') :
    j'.cuts = j.cuts := (stepsTo_iff.mpr stop).orderly.1.cuts

/-- A turn never unsays that an earlier one has used up its steps. -/
theorem cuts_le_run (budget steps : Nat) (pc : Addr) (m : Machine τ) (j : Journal) :
    j.cuts ≤ (run program frame budget steps pc m j).2.2.cuts := by
  fun_induction run program frame budget steps pc m j with
  | case1 pc m j => exact Journal.cuts_le_report j _
  | case2 steps pc m j pc' m' j' next ih =>
    rw [← cuts_next next]
    exact ih
  | case3 steps pc m j pace m' j' stop => exact Nat.le_of_eq (cuts_stop stop).symm

/-- A turn that does not use up its steps gets as far as its instructions lead. -/
theorem Moves.run_eq (moves : Moves program frame n pc m j pc' m' j') {budget steps : Nat}
    (uncut : (run program frame budget steps pc m j).2.2.cuts = j.cuts) :
    n ≤ steps ∧ j'.cuts = j.cuts ∧
      run program frame budget steps pc m j = run program frame budget (steps - n) pc' m' j' := by
  induction moves generalizing steps with
  | refl => exact ⟨Nat.zero_le _, rfl, rfl⟩
  | @next n pc pc₁ pc₂ m m₁ m₂ j j₁ j₂ first rest ih =>
    cases steps with
    | zero =>
      rw [run, Journal.cuts_report] at uncut
      simp [Entry.isCut] at uncut
    | succ steps =>
      have onward : run program frame budget (steps + 1) pc m j =
          run program frame budget steps pc₁ m₁ j₁ := by
        rw [run, first]
      rw [onward, ← cuts_next first] at uncut
      obtain ⟨enough, same, equal⟩ := ih uncut
      exact ⟨Nat.succ_le_succ enough, same.trans (cuts_next first),
        by rw [onward, equal, Nat.add_sub_add_right]⟩

theorem Moves.run_add {left : Nat} (moves : Moves program frame n pc m j pc' m' j') (budget : Nat) :
    run program frame budget (n + left) pc m j = run program frame budget left pc' m' j' := by
  induction moves with
  | refl => rw [Nat.zero_add]
  | @next n pc pc₁ pc₂ m m₁ m₂ j j₁ j₂ first rest ih =>
    rw [Nat.add_right_comm, run, first]
    exact ih

/-- A turn that does not use up its steps ends as the instruction it is led to does. -/
theorem Moves.run_stop (moves : Moves program frame n pc m j pc' m' j') {pace : Pace}
    (last : step program frame pc' m' j' = .stop pace m'' j'') {budget steps : Nat}
    (uncut : (run program frame budget steps pc m j).2.2.cuts = j.cuts) :
    run program frame budget steps pc m j = (pace, m'', j'') := by
  obtain ⟨enough, same, equal⟩ := moves.run_eq uncut
  rw [equal, ← same] at uncut
  rw [equal]
  cases left : steps - n with
  | zero =>
    rw [left, run, Journal.cuts_report] at uncut
    simp [Entry.isCut] at uncut
  | succ steps => rw [run, last]

theorem cuts_le_resume (program : Program) (frame : τ) (budget : Nat) (m : Machine τ)
    (j : Journal) : j.cuts ≤ (resume program frame budget m j).2.2.cuts := by
  unfold resume
  cases m.pc with
  | none => exact Nat.le_refl _
  | some pc => exact cuts_le_run budget budget pc m j

end Machine

namespace Instance

variable {τ : Type} [Elapsed τ]

theorem cuts_le_handle (table : Table) (registry : Registry) (index : Nat) (i : Instance τ)
    (j : Journal) (call : Call τ) : j.cuts ≤ (i.handle table registry index j call).2.cuts := by
  cases call with
  | load config =>
    simp only [handle, load]
    cases table.get? index with
    | some script => exact Journal.cuts_le_reportAll j _
    | none => exact Nat.le_trans (Journal.cuts_le_report j _) (Journal.cuts_le_reportAll _ _)
  | update frame =>
    rw [handle]
    rcases i.update_cases frame with ⟨-, same⟩ | ⟨-, script, -, turns⟩
    · exact Nat.le_of_eq (by rw [same])
    · rw [turns]
      exact Machine.cuts_le_resume ..
  | trigger trigger =>
    have fires := i.triggersTo_trigger trigger j
    rw [handle]
    generalize i.trigger trigger j = result at fires ⊢
    cases fires with
    | unloaded | entryless | refuse => exact Journal.cuts_le_report j _
    | start | queue => exact Nat.le_refl _

theorem cuts_le_follow (table : Table) (registry : Registry) (index : Nat) (calls : List (Call τ))
    (i : Instance τ) (j : Journal) : j.cuts ≤ (i.follow table registry index calls j).2.cuts := by
  induction calls generalizing i j with
  | nil => exact Nat.le_refl _
  | cons call rest ih =>
    exact Nat.le_trans (cuts_le_handle table registry index i j call) (ih _ _)

end Instance

end NodeScript
