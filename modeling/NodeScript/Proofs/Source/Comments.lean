import NodeScript.Proofs.Source.Lines
import NodeScript.Source.Statement

/-!
Text without its comments. A comment begins with two slashes and ends with its line, so what it says
is gone with it; what stands behind a line break in it is not.
-/
namespace NodeScript

namespace Source

/-- The letters of a line before its comment. -/
def codeLetters : List Char → List Char
  | '/' :: '/' :: _ => []
  | c :: rest => c :: codeLetters rest
  | [] => []

/-- A line without its comment. -/
def withoutComment (line : String) : String := String.ofList (codeLetters line.toList)

/-- A text without its comments. -/
def withoutComments (text : String) : String :=
  "\n".intercalate ((lines text).map withoutComment)

example : withoutComments "// a\nb / c; // d // e\n  f;\n" = "\nb / c; \n  f;\n" := by
  decide +kernel

theorem codeLetters_subset (letters : List Char) : codeLetters letters ⊆ letters := by
  fun_induction codeLetters letters with
  | case1 => exact List.nil_subset _
  | case2 c rest _ ih => exact List.cons_subset_cons c ih
  | case3 => exact List.nil_subset _

theorem oneLine_withoutComment {line : String} (whole : OneLine line) :
    OneLine (withoutComment line) := by
  rw [withoutComment, oneLine_ofList]
  exact fun member => whole (codeLetters_subset _ member)

/-- Lines stay lines without their comments. -/
theorem lines_withoutComments (text : String) :
    lines (withoutComments text) = (lines text).map withoutComment := by
  refine lines_intercalate ?_ ?_
  · intro line member
    obtain ⟨line, inside, rfl⟩ := List.mem_map.mp member
    exact oneLine_withoutComment (oneLine_of_mem_lines inside)
  · simp [lines, List.splitOn_ne_nil]

/-- Texts are the same without comments if their lines are. -/
theorem withoutComments_eq_iff (s t : String) : withoutComments s = withoutComments t ↔
    (lines s).map withoutComment = (lines t).map withoutComment := by
  constructor
  · intro same
    rw [← lines_withoutComments, same, lines_withoutComments]
  · intro same
    rw [withoutComments, same, withoutComments]

/-- Of a comment its indentation stays. -/
theorem withoutComment_comment (steps : Nat) (content : String) :
    withoutComment (indentation steps ++ ("// " ++ content)) = indentation steps := by
  have blanks (count : Nat) (letters : List Char) :
      codeLetters (List.replicate count ' ' ++ '/' :: '/' :: letters) = List.replicate count ' ' := by
    induction count with
    | zero => rfl
    | succ count ih => rw [List.replicate_succ, List.cons_append, codeLetters, ih]; simp
  have letters : (indentation steps ++ ("// " ++ content)).toList =
      List.replicate (2 * steps) ' ' ++ '/' :: '/' :: ' ' :: content.toList := by
    simp [indentation]
  rw [withoutComment, letters, blanks, indentation]

end Source

open Source (withoutComment)

/-- The statement with nothing to say in comments. -/
def Statement.hushed : Statement → Statement
  | comment _ => comment ""
  | other => other

def Line.hushed : Line → Line
  | label name => label name
  | statement indent content => statement indent content.hushed

theorem Line.render_hushed (line : Line) :
    line.hushed.render.map withoutComment = line.render.map withoutComment := by
  cases line with
  | label name => rfl
  | statement indent content =>
    cases content with
    | comment title =>
      simp only [hushed, Statement.hushed, render, Statement.lines, List.map_cons, List.map_nil,
        Source.withoutComment_comment]
    | _ => rfl

/-- Lines that differ in what comments say are the same without comments. -/
theorem withoutComment_render_congr {lines others : List Line}
    (same : lines.map Line.hushed = others.map Line.hushed) :
    (lines.flatMap Line.render).map withoutComment =
      (others.flatMap Line.render).map withoutComment := by
  have hushed (lines : List Line) : (lines.flatMap Line.render).map withoutComment =
      (lines.map Line.hushed).flatMap fun line => line.render.map withoutComment := by
    simp only [List.map_flatMap, List.flatMap_map, Line.render_hushed]
  rw [hushed, same, hushed]

end NodeScript
