import NodeScript.Proofs.Source.FileScope

/-!
The lines of a text. A text is put together from pieces with a line break behind each, so its lines
are those of the pieces; a piece with line breaks of its own is several lines.
-/
namespace NodeScript.Source

/-- The lines of a text. What stands behind the last line break is a line as well. -/
def lines (text : String) : List String := (text.toList.splitOn '\n').map String.ofList

example : lines "a\n\nb\n" = ["a", "", "b", ""] := by decide

theorem lines_append (s t : String) : lines (s ++ "\n" ++ t) = lines s ++ lines t := by
  have letters : (s ++ "\n" ++ t).toList = s.toList ++ '\n' :: t.toList := by
    simp
  rw [lines, letters, List.splitOn_append_cons_self, List.map_append]
  rfl

theorem lines_of_oneLine {text : String} (whole : OneLine text) : lines text = [text] := by
  rw [lines, List.splitOn_eq_singleton whole, List.map_singleton, String.ofList_toList]

theorem oneLine_of_mem_lines {text line : String} (member : line ∈ lines text) : OneLine line := by
  have apart (letters : List Char) : ∀ piece ∈ letters.splitOn '\n', '\n' ∉ piece := by
    induction letters with
    | nil => simp
    | cons c rest ih =>
      rw [List.splitOn_cons_eq_if_modifyHead]
      split
      · exact List.forall_mem_cons.mpr ⟨List.not_mem_nil, ih⟩
      next other =>
        obtain ⟨first, later, split⟩ := List.exists_cons_of_ne_nil (List.splitOn_ne_nil '\n' rest)
        rw [split] at ih ⊢
        obtain ⟨head, others⟩ := List.forall_mem_cons.mp ih
        refine List.forall_mem_cons.mpr ⟨?_, others⟩
        rintro (_ | ⟨_, member⟩)
        · exact other (beq_self_eq_true _)
        · exact head member
  obtain ⟨letters, inside, rfl⟩ := List.mem_map.mp member
  rw [oneLine_ofList]
  exact apart _ letters inside

/-- A text with line breaks is several lines. -/
theorem oneLine_iff_length_lines (text : String) : OneLine text ↔ (lines text).length = 1 := by
  constructor
  · intro whole
    rw [lines_of_oneLine whole]
    rfl
  · intro single broken
    obtain ⟨first, second, letters⟩ := List.append_of_mem broken
    have split : text = String.ofList first ++ "\n" ++ String.ofList second :=
      String.toList_inj.mp (by simp [letters])
    have nonempty (text : String) : 0 < (lines text).length := by
      rw [lines, List.length_map]
      exact List.length_pos_iff.mpr (List.splitOn_ne_nil _ _)
    have pair := nonempty (String.ofList first)
    have pair' := nonempty (String.ofList second)
    rw [split, lines_append, List.length_append] at single
    omega

/-- Lines with line breaks between them. -/
theorem lines_intercalate {pieces : List String} (whole : ∀ piece ∈ pieces, OneLine piece)
    (some : pieces ≠ []) : lines ("\n".intercalate pieces) = pieces := by
  have each : ∀ letters ∈ pieces.map String.toList, '\n' ∉ letters := by
    rintro letters member
    obtain ⟨piece, inside, rfl⟩ := List.mem_map.mp member
    exact whole piece inside
  rw [lines, String.toList_intercalate]
  change ((['\n'].intercalate _).splitOn '\n').map _ = _
  rw [List.splitOn_intercalate '\n' each (by simpa using some), List.map_map]
  simp [Function.comp_def]

/-- A text of pieces with a line break behind each. -/
theorem lines_join (pieces : List String) (rest : String) :
    lines (String.join (pieces.map (· ++ "\n")) ++ rest) = pieces.flatMap lines ++ lines rest := by
  induction pieces with
  | nil => rfl
  | cons piece pieces ih =>
    rw [List.map_cons, String.join_cons, String.append_assoc, lines_append, ih, List.flatMap_cons,
      List.append_assoc]

theorem flatMap_lines {pieces : List String} (whole : ∀ piece ∈ pieces, OneLine piece) :
    pieces.flatMap lines = pieces := by
  induction pieces with
  | nil => rfl
  | cons piece pieces ih =>
    obtain ⟨first, others⟩ := List.forall_mem_cons.mp whole
    rw [List.flatMap_cons, lines_of_oneLine first, ih others]
    rfl

end NodeScript.Source
