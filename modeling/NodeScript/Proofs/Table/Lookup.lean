import Mathlib.Data.List.Chain
import Mathlib.Data.List.InsertIdx
import NodeScript.Proofs.SortedMap
import NodeScript.Table.Basic

/-!
Looking up scripts. Halving ends at a place that the scripts on both sides of it agree with, in
whatever order they are. In a table whose identifiers ascend this is the one place an identifier
can have: every script is found at its index and by its identifier, and adding a script keeps the
order. Adding makes no other tables from the empty one.
-/
namespace NodeScript.Table

variable {t : Table} {scripts : List Script} {script : Script} {uuid : UInt64} {index : Nat}

/-- Identifiers ascend, so each occurs once. -/
def Ascending (t : Table) : Prop := t.scripts.Pairwise fun a b => a.uuid < b.uuid

/-- An identifier belongs before `top` and not before `base`, as far as the scripts there tell. -/
structure Bracket (scripts : List Script) (uuid : UInt64) (base top : Nat) : Prop where
  ordered : base < top
  inside : top ≤ scripts.length
  low : base = 0 ∨ ∀ script, scripts[base]? = some script → script.uuid ≤ uuid
  high : ∀ script, scripts[top]? = some script → uuid < script.uuid

/-- The range that is left may be one longer than the bracket, since going left keeps the middle of
an odd range. -/
theorem narrow_bracket {rounds size base top : Nat} (enough : size ≤ rounds + 1)
    (bracket : Bracket scripts uuid base top) (upper : top ≤ base + size)
    (lower : base + size ≤ top + 1) (fits : base + size ≤ scripts.length) :
    Bracket scripts uuid (narrow scripts uuid rounds size base)
      (narrow scripts uuid rounds size base + 1) := by
  have ordered := bracket.ordered
  induction rounds generalizing size base top with
  | zero =>
    obtain rfl : top = base + 1 := by omega
    exact bracket
  | succ rounds ih =>
    rw [narrow]
    split
    next single =>
      obtain rfl : top = base + 1 := by omega
      exact bracket
    next several =>
      have middle : base + size / 2 < scripts.length := by omega
      simp only [List.getElem?_eq_getElem middle]
      split
      next above =>
        have left : Bracket scripts uuid base (base + size / 2) := by
          refine ⟨by omega, by omega, bracket.low, fun script found => ?_⟩
          rw [List.getElem?_eq_getElem middle, Option.some.injEq] at found
          exact found ▸ above
        exact ih (by omega) left (by omega) (by omega) (by omega) left.ordered
      next notAbove =>
        have apart : base + size / 2 ≠ top := fun same =>
          notAbove (bracket.high _ (same ▸ List.getElem?_eq_getElem middle))
        have right : Bracket scripts uuid (base + size / 2) top := by
          refine ⟨by omega, bracket.inside, .inr fun script found => ?_, bracket.high⟩
          rw [List.getElem?_eq_getElem middle, Option.some.injEq] at found
          exact found ▸ UInt64.not_lt.mp notAbove
        exact ih (by omega) right (by omega) (by omega) (by omega) right.ordered

/-- Where halving a table ends. -/
theorem bracket_narrow (t : Table) (uuid : UInt64) (some : t.scripts ≠ []) :
    Bracket t.scripts uuid (narrow t.scripts uuid t.size t.size 0)
      (narrow t.scripts uuid t.size t.size 0 + 1) := by
  have whole : Bracket t.scripts uuid 0 t.size :=
    ⟨List.length_pos_iff.mpr some, Nat.le_refl _, .inl rfl, fun script found => by
      rw [size, List.getElem?_eq_none (Nat.le_refl _)] at found
      cases found⟩
  exact narrow_bracket (by omega) whole (by omega) (by omega) (by simp [size])

/-- An index is only found where the script has the identifier, by halving that ends there. -/
theorem indexOf?_eq_some (found : t.indexOf? uuid = some index) :
    narrow t.scripts uuid t.size t.size 0 = index ∧
      ∃ script, t.scripts[index]? = some script ∧ script.uuid = uuid := by
  simp only [indexOf?, locate] at found
  cases at_base : t.scripts[narrow t.scripts uuid t.size t.size 0]? with
  | none => simp [at_base] at found
  | some script =>
    by_cases same : script.uuid = uuid
    · simp only [at_base, same, if_true, Option.some.injEq] at found
      exact ⟨found, script, found ▸ at_base, same⟩
    · by_cases below : script.uuid < uuid <;> simp [at_base, same, below] at found

/-- If every script is found where it is, the scripts are in order. -/
theorem ascending_of_indexOf? (found : ∀ index script, t.scripts[index]? = some script →
    t.indexOf? script.uuid = some index) : t.Ascending := by
  have : Trans (fun a b : Script => a.uuid < b.uuid) (fun a b : Script => a.uuid < b.uuid)
      fun a b : Script => a.uuid < b.uuid := ⟨UInt64.lt_trans⟩
  refine List.isChain_iff_pairwise.mp (List.isChain_iff_getElem.mpr fun index inside => ?_)
  have here := List.getElem?_eq_getElem (Nat.lt_of_succ_lt inside)
  have bracket := bracket_narrow t (t.scripts[index]).uuid (List.ne_nil_of_length_pos (by omega))
  rw [(indexOf?_eq_some (found _ _ here)).1] at bracket
  exact bracket.high _ (List.getElem?_eq_getElem inside)

namespace Ascending

theorem lt (ascending : t.Ascending) {first second : Nat} {a b : Script}
    (at_first : t.scripts[first]? = some a) (at_second : t.scripts[second]? = some b)
    (less : first < second) : a.uuid < b.uuid := by
  obtain ⟨inside, rfl⟩ := List.getElem?_eq_some_iff.mp at_first
  obtain ⟨inside', rfl⟩ := List.getElem?_eq_some_iff.mp at_second
  exact List.pairwise_iff_getElem.mp ascending first second inside inside' less

/-- In order, halving ends at the script looked for. -/
theorem narrow_eq (ascending : t.Ascending) (found : t.scripts[index]? = some script) :
    narrow t.scripts script.uuid t.size t.size 0 = index := by
  obtain ⟨inside, -⟩ := List.getElem?_eq_some_iff.mp found
  have bracket := bracket_narrow t script.uuid (List.ne_nil_of_length_pos (by omega))
  generalize narrow t.scripts script.uuid t.size t.size 0 = base at bracket
  rcases Nat.lt_trichotomy base index with less | same | greater
  · have next := List.getElem?_eq_getElem (Nat.lt_of_le_of_lt less inside)
    have above := bracket.high _ next
    rcases Nat.eq_or_lt_of_le (Nat.succ_le_of_lt less) with rfl | before
    · exact absurd (bracket.high _ found) (UInt64.lt_irrefl _)
    · exact absurd (UInt64.lt_trans above (ascending.lt next found before)) (UInt64.lt_irrefl _)
  · exact same
  · have here := List.getElem?_eq_getElem (Nat.lt_of_lt_of_le bracket.ordered bracket.inside)
    have below := bracket.low.resolve_left (by omega) _ here
    exact absurd (ascending.lt found here greater) (UInt64.not_lt.mpr below)

theorem locate_found (ascending : t.Ascending) (found : t.scripts[index]? = some script) :
    t.locate script.uuid = (index, true) := by
  simp [locate, ascending.narrow_eq found, found]

theorem below (ascending : t.Ascending) (found : t.scripts[index]? = some script)
    (less : script.uuid < uuid) : ∀ other ∈ t.scripts.take (index + 1), other.uuid < uuid := by
  intro other member
  obtain ⟨position, inside, at_position⟩ := List.mem_take_iff_getElem.mp member
  have there := List.getElem?_eq_some_iff.mpr ⟨by omega, at_position⟩
  rcases Nat.eq_or_lt_of_le (Nat.le_of_lt_succ (by omega : position < index + 1)) with rfl | before
  · exact Option.some.inj (there.symm.trans found) ▸ less
  · exact UInt64.lt_trans (ascending.lt there found before) less

theorem above (ascending : t.Ascending)
    (less : ∀ script, t.scripts[index]? = some script → uuid < script.uuid) :
    ∀ other ∈ t.scripts.drop index, uuid < other.uuid := by
  intro other member
  obtain ⟨position, inside, at_position⟩ := List.mem_drop_iff_getElem.mp member
  have there := List.getElem?_eq_some_iff.mpr ⟨by omega, at_position⟩
  have found := List.getElem?_eq_getElem (by omega : index < t.scripts.length)
  rcases Nat.eq_zero_or_pos position with rfl | behind
  · exact less other there
  · exact UInt64.lt_trans (less _ found) (ascending.lt found there (by omega))

/-- A new identifier belongs behind the scripts that are below it and before those that are above. -/
theorem locate_new (ascending : t.Ascending) (new : ∀ script ∈ t.scripts, script.uuid ≠ uuid) :
    ∃ position ≤ t.scripts.length, t.locate uuid = (position, false) ∧
      (∀ script ∈ t.scripts.take position, script.uuid < uuid) ∧
        ∀ script ∈ t.scripts.drop position, uuid < script.uuid := by
  by_cases none : t.scripts = []
  · exact ⟨0, Nat.zero_le _, by simp [locate, none], by simp [none], by simp [none]⟩
  have bracket := bracket_narrow t uuid none
  rw [locate]
  generalize narrow t.scripts uuid t.size t.size 0 = base at bracket
  have inside := Nat.lt_of_lt_of_le bracket.ordered bracket.inside
  have here := List.getElem?_eq_getElem inside
  have differs := new _ (List.getElem_mem inside)
  by_cases less : (t.scripts[base]).uuid < uuid
  · refine ⟨base + 1, bracket.inside, by simp [here, differs, less], ?_, ?_⟩
    · exact ascending.below here less
    · exact ascending.above bracket.high
  · have greater := UInt64.lt_of_le_of_ne (UInt64.not_lt.mp less) (Ne.symm differs)
    have first : base = 0 :=
      bracket.low.resolve_right fun low => less (UInt64.lt_of_le_of_ne (low _ here) differs)
    refine ⟨base, Nat.le_of_lt inside, by simp [here, differs, less], ?_, ?_⟩
    · simp [first]
    · refine ascending.above fun script found => ?_
      exact Option.some.inj (here.symm.trans found) ▸ greater

/-- Adding puts a script between those below it and those above it; one with its identifier is
taken out. -/
theorem add_eq (ascending : t.Ascending) (script : Script) :
    ∃ before after, (t.scripts = before ++ after ∨
        ∃ old, old.uuid = script.uuid ∧ t.scripts = before ++ old :: after) ∧
      (t.add script).scripts = before ++ script :: after ∧
      (∀ other ∈ before, other.uuid < script.uuid) ∧
        ∀ other ∈ after, script.uuid < other.uuid := by
  by_cases known : ∃ old ∈ t.scripts, old.uuid = script.uuid
  · obtain ⟨old, member, same⟩ := known
    obtain ⟨before, after, parts⟩ := List.append_of_mem member
    have ordered := ascending
    rw [Ascending, parts, List.pairwise_append, List.pairwise_cons] at ordered
    obtain ⟨-, ⟨later, -⟩, earlier⟩ := ordered
    have place : t.locate script.uuid = (before.length, true) :=
      same ▸ ascending.locate_found (by simp [parts])
    refine ⟨before, after, .inr ⟨old, same, parts⟩, by simp [add, place, parts], ?_, ?_⟩
    · exact fun other inside => same ▸ earlier other inside old (List.mem_cons_self ..)
    · exact fun other inside => same ▸ later other inside
  · obtain ⟨position, inside, place, earlier, later⟩ :=
      ascending.locate_new fun old member same => known ⟨old, member, same⟩
    refine ⟨_, _, .inl (List.take_append_drop position _).symm, ?_, earlier, later⟩
    simp only [add, place]
    have inserted := List.modifyTailIdx_add (script :: ·) 0 (t.scripts.take position)
      (t.scripts.drop position)
    rw [List.take_append_drop, List.length_take, Nat.min_eq_left inside] at inserted
    exact inserted

protected theorem add (ascending : t.Ascending) (script : Script) : (t.add script).Ascending := by
  obtain ⟨before, after, parts, added, earlier, later⟩ := ascending.add_eq script
  have ordered : (before ++ after).Pairwise fun a b : Script => a.uuid < b.uuid := by
    refine List.Pairwise.sublist ?_ ascending
    rcases parts with parts | ⟨old, -, parts⟩ <;> simp [parts]
  rw [List.pairwise_append] at ordered
  rw [Ascending, added, List.pairwise_append, List.pairwise_cons]
  refine ⟨ordered.1, ⟨later, ordered.2.1⟩, fun a first b second => ?_⟩
  rcases List.mem_cons.mp second with rfl | second
  · exact earlier a first
  · exact ordered.2.2 a first b second

theorem mem_add (ascending : t.Ascending) {other : Script} :
    other ∈ (t.add script).scripts ↔
      other = script ∨ other ∈ t.scripts ∧ other.uuid ≠ script.uuid := by
  obtain ⟨before, after, parts, added, earlier, later⟩ := ascending.add_eq script
  have apart : other ∈ before ∨ other ∈ after → other.uuid ≠ script.uuid
    | .inl inside => UInt64.ne_of_lt (earlier other inside)
    | .inr inside => (UInt64.ne_of_lt (later other inside)).symm
  rw [added, List.mem_append, List.mem_cons]
  rcases parts with parts | ⟨old, same, parts⟩
  · rw [parts, List.mem_append]
    tauto
  · have gone : other = old → other.uuid = script.uuid := fun equal => equal ▸ same
    rw [parts, List.mem_append, List.mem_cons]
    tauto

/-- A script below all others is added in front. -/
theorem add_first (ascending : t.Ascending)
    (first : ∀ other ∈ t.scripts, script.uuid < other.uuid) :
    (t.add script).scripts = script :: t.scripts := by
  obtain ⟨before, after, parts, added, earlier, -⟩ := ascending.add_eq script
  have nothing : before = [] := by
    refine List.eq_nil_iff_forall_not_mem.mpr fun other inside => ?_
    have member : other ∈ t.scripts := by
      rcases parts with parts | ⟨old, -, parts⟩ <;> simp [parts, inside]
    exact UInt64.lt_asymm (earlier other inside) (first other member)
  subst nothing
  rcases parts with parts | ⟨old, same, parts⟩
  · rw [added, parts]
    rfl
  · have less := first old (by simp [parts])
    exact absurd (same ▸ less) (UInt64.lt_irrefl _)

theorem indexOf?_eq_some_iff (ascending : t.Ascending) :
    t.indexOf? uuid = some index ↔ ∃ script, t.scripts[index]? = some script ∧ script.uuid = uuid :=
  ⟨fun found => (indexOf?_eq_some found).2, fun ⟨script, found, same⟩ => by
    rw [indexOf?, ← same, ascending.locate_found found]⟩

theorem getByUuid?_eq_some_iff (ascending : t.Ascending) :
    t.getByUuid? uuid = some script ↔ script ∈ t.scripts ∧ script.uuid = uuid := by
  rw [getByUuid?, Option.bind_eq_some_iff]
  constructor
  · rintro ⟨index, found, at_index⟩
    obtain ⟨other, there, same⟩ := (indexOf?_eq_some found).2
    obtain rfl := Option.some.inj (at_index.symm.trans there)
    exact ⟨List.mem_of_getElem? there, same⟩
  · rintro ⟨member, same⟩
    obtain ⟨index, at_index⟩ := List.getElem?_of_mem member
    exact ⟨index, ascending.indexOf?_eq_some_iff.mpr ⟨script, at_index, same⟩, at_index⟩

/-- Entries under the identifiers of some of the scripts, each with its place. -/
theorem entries (ascending : t.Ascending) (kept : Script × Nat → Bool)
    {entryOf : Script × Nat → UInt64 × UInt16} (keyed : ∀ place, (entryOf place).1 = place.1.uuid) :
    SortedMap.Ascending ⟨(t.scripts.zipIdx.filter kept).map entryOf⟩ := by
  have keys : (((t.scripts.zipIdx.filter kept).map entryOf).map (·.1)).Sublist
      (t.scripts.map (·.uuid)) := by
    have whole := (List.filter_sublist (p := kept) (l := t.scripts.zipIdx)).map (·.1)
    rw [List.zipIdx_map_fst] at whole
    simpa [Function.comp_def, keyed] using whole.map (·.uuid)
  exact List.Pairwise.sublist keys (List.pairwise_map.mpr ascending)

/-- The indices of assets are those that fit sixteen bits. -/
theorem find?_assetIndices (ascending : t.Ascending) {index : UInt16} :
    t.assetIndices.find? uuid = some index ↔ t.indexOf? uuid = some index.toNat := by
  rw [ascending.indexOf?_eq_some_iff, assetIndices,
    SortedMap.find?_ofEntries (ascending.entries _ fun _ => rfl)]
  simp only [List.mem_map, List.mem_filter, List.mem_zipIdx_iff_getElem?, Prod.mk.injEq,
    Prod.exists, decide_eq_true_eq]
  constructor
  · rintro ⟨script, position, ⟨found, fits⟩, same, rfl⟩
    rw [UInt16.toNat_ofNat_of_lt' fits]
    exact ⟨script, found, same⟩
  · rintro ⟨script, found, same⟩
    exact ⟨script, index.toNat, ⟨found, index.toNat_lt⟩, same, UInt16.ofNat_toNat⟩

end Ascending

theorem ascending_empty : empty.Ascending := List.Pairwise.nil

theorem ascending_foldl_add (ascending : t.Ascending) (scripts : List Script) :
    (scripts.foldl add t).Ascending := by
  induction scripts generalizing t with
  | nil => exact ascending
  | cons script rest ih => exact ih (ascending.add script)

/-- Scripts in ascending order are a table if the last is added first. -/
theorem foldl_add_reverse (ordered : Ascending ⟨scripts⟩) :
    scripts.reverse.foldl add empty = ⟨scripts⟩ := by
  rw [List.foldl_reverse]
  induction scripts with
  | nil => rfl
  | cons script rest ih =>
    obtain ⟨first, ordered⟩ := List.pairwise_cons.mp ordered
    rw [List.foldr_cons, ih ordered]
    exact congrArg mk (Ascending.add_first ordered first)

end NodeScript.Table
