import NodeScript.SortedMap

/-!
Sorted maps through their lookup. Setting and erasing a key changes what is found under that key
and nothing else, and both keep the keys in ascending order.
-/
namespace NodeScript.SortedMap

variable {κ ν : Type}

/-- The keys are in ascending order, each once. -/
def Ascending [LT κ] (m : SortedMap κ ν) : Prop := (m.entries.map (·.1)).Pairwise (· < ·)

theorem ascending_empty [LT κ] : (empty : SortedMap κ ν).Ascending := List.Pairwise.nil

section Lookup

variable [DecidableEq κ]

theorem find?_erase (m : SortedMap κ ν) (key other : κ) :
    (m.erase key).find? other = if other = key then none else m.find? other := by
  unfold erase find?
  rw [List.find?_filter]
  split
  next same =>
    rw [List.find?_eq_none.mpr]
    · rfl
    · simp [same]
  next differs =>
    congr 2
    funext entry
    by_cases found : entry.1 = other <;> simp [found, differs]

/-- Changing the values leaves the keys. -/
theorem find?_mapValues (entries : List (κ × ν)) (change : ν → ν) (key : κ) :
    find? ⟨entries.map fun entry => (entry.1, change entry.2)⟩ key =
      (find? ⟨entries⟩ key).map change := by
  simp [find?, List.find?_map, Function.comp_def]

variable [LT κ] [DecidableLT κ]

theorem find?_insert (m : SortedMap κ ν) (key other : κ) (value : ν) :
    (m.insert key value).find? other = if other = key then some value else m.find? other := by
  obtain ⟨entries⟩ := m
  unfold insert find?
  induction entries with
  | nil =>
    by_cases same : other = key
    · simp [insertEntry, same]
    · simp [insertEntry, same, Ne.symm same]
  | cons entry rest ih =>
    rw [insertEntry]
    split
    next here =>
      by_cases same : other = key
      · simp [same]
      · have differs : entry.1 ≠ other := fun equal => same (equal.symm.trans here.symm)
        simp [same, Ne.symm same, differs]
    next elsewhere =>
      split
      · by_cases same : other = key
        · simp [same]
        · simp [same, Ne.symm same]
      · by_cases first : entry.1 = other
        · have differs : other ≠ key := fun equal => elsewhere (first.trans equal).symm
          simp [first, differs]
        · simpa [first] using ih

end Lookup

section Order

variable [DecidableEq κ] [LT κ]

/-- In ascending order every entry is found. -/
theorem Ascending.find?_eq_some_iff [Std.Irrefl (α := κ) (· < ·)] {m : SortedMap κ ν}
    (ascending : m.Ascending) {key : κ} {value : ν} :
    m.find? key = some value ↔ (key, value) ∈ m.entries := by
  obtain ⟨entries⟩ := m
  unfold Ascending find? at *
  induction entries with
  | nil => simp
  | cons entry rest ih =>
    obtain ⟨below, ordered⟩ := List.pairwise_cons.mp ascending
    rw [List.mem_cons]
    by_cases here : entry.1 = key
    · have absent : (key, value) ∉ rest := fun member =>
        Std.Irrefl.irrefl entry.1 (below entry.1 (List.mem_map.mpr ⟨_, member, here.symm⟩))
      rw [List.find?_cons_of_pos (by simpa using here)]
      simp [absent, Prod.ext_iff, here, eq_comm]
    · have differs : (key, value) ≠ entry := fun same => here (same ▸ rfl)
      rw [List.find?_cons_of_neg (by simpa using here)]
      simpa [differs] using ih ordered

theorem Ascending.erase {m : SortedMap κ ν} (ascending : m.Ascending) (key : κ) :
    (m.erase key).Ascending :=
  List.Pairwise.sublist (List.filter_sublist.map _) ascending

variable [DecidableLT κ]

/-- Entries in ascending order are a map as they are. -/
theorem ofEntries_of_ascending [Std.Irrefl (α := κ) (· < ·)] {entries : List (κ × ν)}
    (ascending : Ascending ⟨entries⟩) : ofEntries entries = ⟨entries⟩ := by
  unfold Ascending ofEntries at *
  congr 1
  induction entries with
  | nil => rfl
  | cons entry rest ih =>
    obtain ⟨below, ordered⟩ := List.pairwise_cons.mp ascending
    rw [List.foldr_cons, ih ordered]
    cases rest with
    | nil => rfl
    | cons next rest =>
      have less : entry.1 < next.1 := below next.1 (List.mem_cons_self ..)
      have differs : entry.1 ≠ next.1 := fun same => Std.Irrefl.irrefl _ (same ▸ less)
      rw [supplyEntry, if_neg differs, if_pos less]

theorem find?_ofEntries [Std.Irrefl (α := κ) (· < ·)] {entries : List (κ × ν)}
    (ascending : Ascending ⟨entries⟩) {key : κ} {value : ν} :
    (ofEntries entries).find? key = some value ↔ (key, value) ∈ entries := by
  rw [ofEntries_of_ascending ascending, ascending.find?_eq_some_iff]

theorem mem_keys_insertEntry {key other : κ} {value : ν} {entries : List (κ × ν)}
    (member : other ∈ (insertEntry key value entries).map (·.1)) :
    other = key ∨ other ∈ entries.map (·.1) := by
  induction entries with
  | nil => exact .inl (List.mem_singleton.mp member)
  | cons entry rest ih =>
    rw [insertEntry] at member
    split at member
    · exact (List.mem_cons.mp member).imp_right (List.mem_cons_of_mem _)
    · split at member
      · exact List.mem_cons.mp member
      · rcases List.mem_cons.mp member with same | later
        · exact .inr (same ▸ List.mem_cons_self ..)
        · exact (ih later).imp_right (List.mem_cons_of_mem _)

variable [@Trans κ κ κ (· < ·) (· < ·) (· < ·)] [@Std.Trichotomous κ (· < ·)]

theorem Ascending.insert {m : SortedMap κ ν} (ascending : m.Ascending) (key : κ) (value : ν) :
    (m.insert key value).Ascending := by
  obtain ⟨entries⟩ := m
  unfold Ascending SortedMap.insert at *
  induction entries with
  | nil => exact List.pairwise_singleton _ _
  | cons entry rest ih =>
    obtain ⟨below, ordered⟩ := List.pairwise_cons.mp ascending
    dsimp only
    rw [insertEntry]
    split
    next here => exact List.pairwise_cons.mpr ⟨here ▸ below, ordered⟩
    next differs =>
      split
      next less =>
        refine List.pairwise_cons.mpr ⟨fun other member => ?_, ascending⟩
        rcases List.mem_cons.mp member with same | later
        · exact same ▸ less
        · exact Std.lt_trans less (below other later)
      next notLess =>
        refine List.pairwise_cons.mpr ⟨fun other member => ?_, ih ordered⟩
        rcases mem_keys_insertEntry member with same | later
        · rcases Std.lt_trichotomy entry.1 key with less | equal | greater
          · exact same ▸ less
          · exact absurd equal.symm differs
          · exact absurd greater notLess
        · exact below other later

end Order

end NodeScript.SortedMap
