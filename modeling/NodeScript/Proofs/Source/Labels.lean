import NodeScript.Proofs.Source.Lines
import NodeScript.Proofs.Source.Reader

/-!
The labels and the jumps of a text, line by line. As everything that is read, they are told by the
words of a line: what a comment says is neither. So a legible line has the label or the jump that it
was written for, and no other line of a unit has one.
-/
namespace NodeScript

namespace Source

/-- The label that a line is. -/
def label? (line : String) : Option String :=
  match words line with
  | [name, mark] => if mark = ":" then some name else none
  | _ => none

/-- The label that a line goes on at. -/
def goto? (line : String) : Option String :=
  match words line with
  | [verb, name, mark] => if verb = "goto" ∧ mark = ";" then some name else none
  | _ => none

/-- The labels of a text, in order. -/
def labels (text : String) : List String := (lines text).filterMap label?

/-- The labels that a text goes on at, in order. -/
def gotos (text : String) : List String := (lines text).filterMap goto?

/-- Neither the cases of the entries nor comments are jumps. -/
example :
    let text := "// a: goto b;\n  case A: goto entry;\nentry:\n  goto n_1;\n  // goto n_2;\n"
    labels text = ["entry"] ∧ gotos text = ["n_1"] := by decide +kernel

/-- The line is neither a label nor a jump. -/
def Still (line : String) : Prop := label? line = none ∧ goto? line = none

instance (line : String) : Decidable (Still line) := inferInstanceAs (Decidable (_ ∧ _))

theorem still_of_words {line : String} {first second : String} {rest : List String}
    (split : words line = first :: second :: rest) (verb : first ≠ "goto") (mark : second ≠ ":") :
    Still line := by
  constructor
  · unfold label?
    rw [split]
    cases rest with
    | nil => exact if_neg mark
    | cons => rfl
  · unfold goto?
    rw [split]
    match rest with
    | [] | _ :: _ :: _ => rfl
    | [_] => exact if_neg fun same => verb same.1

theorem still_comment (content : String) : Still ("// " ++ content) := by
  refine still_of_words (words_append_of_closes _ (by decide)) ?_ ?_ <;> decide

/-- A line that begins with a word of its own kind and a name. -/
theorem still_declared {word name : String} (rest : String) (one : words word = [word])
    (verb : word ≠ "goto") (whole : plain name = true) (opened : opens rest = true) :
    Still (word ++ " " ++ name ++ rest) := by
  refine @still_of_words _ word name (words rest) ?_ verb ?_
  · rw [words_append_of_opens _ opened, words_append_of_closes _ (by simp +decide),
      words_append_of_opens _ (by decide), one, words_of_plain whole]
    rfl
  · rintro rfl
    exact absurd whole (by decide)

theorem label?_indentation (steps : Nat) (text : String) :
    label? (indentation steps ++ text) = label? text := by
  rw [label?, words_indentation, label?]

theorem goto?_indentation (steps : Nat) (text : String) :
    goto? (indentation steps ++ text) = goto? text := by
  rw [goto?, words_indentation, goto?]

theorem still_indentation (steps : Nat) {text : String} :
    Still (indentation steps ++ text) ↔ Still text := by
  rw [Still, label?_indentation, goto?_indentation, Still]

theorem filterMap_still {lines : List String} (still : ∀ line ∈ lines, Still line) :
    lines.filterMap label? = [] ∧ lines.filterMap goto? = [] :=
  ⟨List.filterMap_eq_nil_iff.mpr fun line member => (still line member).1,
    List.filterMap_eq_nil_iff.mpr fun line member => (still line member).2⟩

/-- The labels and jumps of a text that is put together from lines. -/
theorem labels_join {lines : List String} (whole : ∀ line ∈ lines, OneLine line) :
    labels (String.join (lines.map (· ++ "\n"))) = lines.filterMap label? ∧
      gotos (String.join (lines.map (· ++ "\n"))) = lines.filterMap goto? := by
  have split := lines_join lines ""
  rw [String.append_empty, flatMap_lines whole] at split
  have last : ∀ line ∈ Source.lines "", Still line := by decide
  obtain ⟨noLabel, noGoto⟩ := filterMap_still last
  rw [labels, gotos, split, List.filterMap_append, List.filterMap_append, noLabel, noGoto,
    List.append_nil, List.append_nil]
  exact ⟨rfl, rfl⟩

end Source

open Source (Still legible legibleLine statement? words)

/-- The label that a statement goes on at. -/
def Statement.goto? : Statement → Option String
  | .goto label => some label
  | _ => none

namespace Line

def label? : Line → Option String
  | .label name => some name
  | .statement .. => none

def goto? : Line → Option String
  | .label _ => none
  | .statement _ content => content.goto?

end Line

namespace Source

/-- What is read as a statement other than a jump is neither a label nor a jump. -/
theorem still_of_statement? {text : String} {content : Statement}
    (found : statement? (words text) = some content) (other : content.goto? = none) :
    Still text := by
  constructor
  · unfold label?
    split
    next name mark split =>
      refine if_neg ?_
      rintro rfl
      rw [split] at found
      cases found
    next => rfl
  · unfold goto?
    split
    next verb name mark split =>
      refine if_neg ?_
      rintro ⟨rfl, rfl⟩
      rw [split] at found
      cases found
      cases other
    next => rfl

/-- A legible line has the label or the jump that it was written for. -/
theorem filterMap_render {line : Line} (readable : legibleLine line) :
    line.render.filterMap label? = line.label?.toList ∧
      line.render.filterMap goto? = line.goto?.toList := by
  cases line with
  | label name =>
    have split := words_label readable
    have label : label? (name ++ ":") = some name := by rw [label?, split]; rfl
    have goto : goto? (name ++ ":") = none := by rw [goto?, split]
    rw [Line.render, List.filterMap_cons_some label, List.filterMap_cons_none goto]
    exact ⟨rfl, rfl⟩
  | statement indent content =>
    have read : legible content := readable
    have still (each : ∀ text ∈ content.lines, Still text) (other : content.goto? = none) :
        (Line.statement indent content).render.filterMap label? = [] ∧
          (Line.statement indent content).render.filterMap goto? = content.goto?.toList := by
      rw [other]
      refine filterMap_still fun line member => ?_
      obtain ⟨text, written, rfl⟩ := List.mem_map.mp member
      exact (still_indentation indent).mpr (each text written)
    cases content with
    | text content => cases read
    | comment title => exact still (List.forall_mem_singleton.mpr (still_comment title)) rfl
    | goto name =>
      have split := words_indentation indent ("goto " ++ name ++ ";")
      rw [words_goto read] at split
      have label : label? (indentation indent ++ ("goto " ++ name ++ ";")) = none := by
        rw [label?, split]
      have goto : goto? (indentation indent ++ ("goto " ++ name ++ ";")) = some name := by
        rw [goto?, split]
        rfl
      rw [Line.render, Statement.lines, List.map_singleton, List.filterMap_cons_none label,
        List.filterMap_cons_some goto]
      exact ⟨rfl, rfl⟩
    | sendEvent object eventType value =>
      refine still (fun text member => ?_) rfl
      have split : words text ∈ _ := List.mem_map_of_mem member
      rw [words_sendEvent read] at split
      simp only [List.mem_cons, List.not_mem_nil, or_false] at split
      rcases split with split | split | split | split | split | split <;>
        simp [Still, label?, goto?, split]
    | _ =>
      obtain ⟨found, -⟩ := statement?_words read rfl fun title same => by cases same
      exact still (List.forall_mem_singleton.mpr (still_of_statement? found rfl)) rfl

theorem filterMap_flatMap_render {lines : List Line}
    (readable : ∀ line ∈ lines, legibleLine line) :
    (lines.flatMap Line.render).filterMap label? = lines.filterMap Line.label? ∧
      (lines.flatMap Line.render).filterMap goto? = lines.filterMap Line.goto? := by
  induction lines with
  | nil => exact ⟨rfl, rfl⟩
  | cons line rest ih =>
    obtain ⟨first, others⟩ := List.forall_mem_cons.mp readable
    obtain ⟨label, goto⟩ := filterMap_render first
    obtain ⟨labels, gotos⟩ := ih others
    rw [List.flatMap_cons, List.filterMap_append, List.filterMap_append, label, goto, labels, gotos,
      List.filterMap_cons, List.filterMap_cons]
    constructor
    · cases line.label? <;> rfl
    · cases line.goto? <;> rfl

end Source

end NodeScript
