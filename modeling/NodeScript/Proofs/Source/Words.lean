import NodeScript.Source.Statement
import NodeScript.Text.Hex

/-!
The words of a line of source. Brackets and punctuation are words of their own, blanks only separate
words, and everything else runs on; so a text that is put together from plain words and separators
has exactly these words.
-/
namespace NodeScript.Source

/-- Characters that are words of their own. -/
def isMark (c : Char) : Bool := ['(', ')', '\x7b', '\x7d', ';', ':', ',', '?', '/'].contains c

/-- Characters that end a word. -/
def isBreak (c : Char) : Bool := c == ' ' || isMark c

/-- The word that has been read, if it has letters. -/
def flush (word : List Char) : List String := if word.isEmpty then [] else [String.ofList word]

/-- The words of a text that goes on behind the letters of a word. -/
def wordsFrom (word : List Char) : List Char → List String
  | [] => flush word
  | c :: rest =>
    if isBreak c then
      flush word ++ ((if isMark c then [String.singleton c] else []) ++ wordsFrom [] rest)
    else wordsFrom (word ++ [c]) rest

def words (text : String) : List String := wordsFrom [] text.toList

example : words "    if (state->cnt_0A < 12) \x7b" =
    ["if", "(", "state->cnt_0A", "<", "12", ")", "\x7b"] := by decide

theorem wordsFrom_append (word first : List Char) {c : Char} (separates : isBreak c = true)
    (rest : List Char) :
    wordsFrom word (first ++ c :: rest) = wordsFrom word first ++ wordsFrom [] (c :: rest) := by
  induction first generalizing word with
  | nil => simp [wordsFrom, separates, flush]
  | cons d first ih =>
    rw [List.cons_append, wordsFrom, wordsFrom]
    split
    · rw [ih []]
      simp
    · exact ih _

theorem wordsFrom_letters (word letters : List Char) (joined : ∀ c ∈ letters, isBreak c = false) :
    wordsFrom word letters = flush (word ++ letters) := by
  induction letters generalizing word with
  | nil => simp [wordsFrom]
  | cons c rest ih =>
    obtain ⟨first, others⟩ := List.forall_mem_cons.mp joined
    rw [wordsFrom, if_neg (by simp [first]), ih _ others, List.append_assoc]
    rfl

/-- Whether a text begins with a separator. -/
def opens (text : String) : Bool := text.toList.head?.any isBreak

/-- Whether a text ends with a separator. -/
def closes (text : String) : Bool := text.toList.getLast?.any isBreak

/-- Whether a text is one word. -/
def plain (text : String) : Bool := text != "" && text.toList.all fun c => !isBreak c

theorem words_append_of_opens (s : String) {t : String} (separates : opens t = true) :
    words (s ++ t) = words s ++ words t := by
  unfold opens at separates
  unfold words
  rw [String.toList_append]
  cases letters : t.toList with
  | nil => simp [letters] at separates
  | cons c rest => exact wordsFrom_append _ _ (by simpa [letters] using separates) rest

theorem words_append_of_closes {s : String} (t : String) (separates : closes s = true) :
    words (s ++ t) = words s ++ words t := by
  unfold closes at separates
  unfold words
  rw [String.toList_append]
  rcases List.eq_nil_or_concat s.toList with empty | ⟨first, c, letters⟩
  · simp [empty] at separates
  · rw [List.concat_eq_append] at letters
    rw [letters] at separates ⊢
    have breaks : isBreak c = true := by simpa using separates
    rw [List.append_assoc, List.singleton_append, wordsFrom_append _ _ breaks,
      wordsFrom_append _ _ breaks, List.append_assoc]
    simp [wordsFrom, breaks, flush]

theorem plain_iff (text : String) :
    plain text = true ↔ text ≠ "" ∧ ∀ c ∈ text.toList, isBreak c = false := by
  simp [plain]

theorem words_of_plain {word : String} (whole : plain word = true) : words word = [word] := by
  obtain ⟨nonempty, joined⟩ := (plain_iff word).mp whole
  rw [words, wordsFrom_letters _ _ joined]
  simp [flush, nonempty]

@[simp] theorem closes_append (s : String) {t : String} (nonempty : t ≠ "") :
    closes (s ++ t) = closes t := by
  have letters : t.toList ≠ [] := by simpa using nonempty
  rw [closes, closes, String.toList_append, List.getLast?_append,
    List.getLast?_eq_some_getLast letters]
  rfl

theorem plain_append {s t : String} (first : plain s = true) (second : plain t = true) :
    plain (s ++ t) = true := by
  rw [plain_iff] at first second ⊢
  refine ⟨by simp [first.1], fun c member => ?_⟩
  rw [String.toList_append] at member
  rcases List.mem_append.mp member with member | member
  · exact first.2 c member
  · exact second.2 c member

/-- Indentation is no word. -/
theorem words_indentation (steps : Nat) (s : String) :
    words (indentation steps ++ s) = words s := by
  have blanks (count : Nat) (letters : List Char) :
      wordsFrom [] (List.replicate count ' ' ++ letters) = wordsFrom [] letters := by
    induction count with
    | zero => rfl
    | succ count ih => exact ih
  rw [words, indentation, String.toList_append, String.toList_ofList, blanks]
  rfl

theorem plain_hexDigits (width n : Nat) :
    plain (String.ofList (hexDigits (width + 1) n)) = true := by
  rw [plain_iff, String.toList_ofList]
  exact ⟨by simp [hexDigits], forall_hexDigits (by decide) _ _⟩

theorem plain_hex64 (word : UInt64) : plain (hex64 word) = true := plain_hexDigits 15 _

theorem plain_hex32 (word : UInt32) : plain (hex32 word) = true := plain_hexDigits 7 _

theorem isBreak_of_isDigit {c : Char} (digit : c.isDigit = true) : isBreak c = false := by
  cases breaks : isBreak c with
  | false => rfl
  | true =>
    simp only [isBreak, isMark, Bool.or_eq_true, beq_iff_eq, List.contains_eq_mem,
      List.mem_cons, List.not_mem_nil, or_false, decide_eq_true_eq] at breaks
    rcases breaks with rfl | rfl | rfl | rfl | rfl | rfl | rfl | rfl | rfl | rfl <;> cases digit

theorem isDigit_of_mem_repr {n : Nat} {c : Char} (member : c ∈ n.repr.toList) :
    c.isDigit = true := by
  rw [Nat.toList_repr] at member
  exact Nat.isDigit_of_mem_toDigits (by decide) (by decide) member

theorem plain_repr (n : Nat) : plain n.repr = true := by
  rw [plain_iff]
  exact ⟨Nat.repr_ne_empty, fun _ member => isBreak_of_isDigit (isDigit_of_mem_repr member)⟩

/-- Numbers are spelled in digits, with a sign or without. -/
theorem sign_or_digit_of_mem_toString {value : Int} {c : Char}
    (member : c ∈ (toString value).toList) : c = '-' ∨ c.isDigit = true := by
  rw [Int.toString_eq_repr, Int.repr_eq_if] at member
  split at member
  · exact .inr (isDigit_of_mem_repr member)
  · rcases List.mem_append.mp (String.toList_append ▸ member) with sign | digit
    · exact .inl (by simpa using sign)
    · exact .inr (isDigit_of_mem_repr digit)

/-- The number that digits spell in decimal. -/
def numeral? (digits : List Char) : Option Nat :=
  if digits ≠ [] ∧ digits.all Char.isDigit then some (Nat.ofDigitChars 10 digits 0) else none

/-- The number that a word spells in decimal, with or without a sign. -/
def number? (word : String) : Option Int :=
  match word.toList with
  | '-' :: digits => (numeral? digits).map fun n : Nat => -(n : Int)
  | digits => (numeral? digits).map fun n : Nat => (n : Int)

theorem numeral?_repr (n : Nat) : numeral? n.repr.toList = some n := by
  have digits : n.repr.toList.all Char.isDigit = true :=
    List.all_eq_true.mpr fun c member => isDigit_of_mem_repr member
  have nonempty : n.repr.toList ≠ [] := by simp
  rw [numeral?, if_pos ⟨nonempty, digits⟩, Nat.toList_repr, Nat.ofDigitChars_ten_toDigits]

theorem number?_toString (value : Int) : number? (toString value) = some value := by
  have unsigned (n : Nat) : number? n.repr = some (n : Int) := by
    have read := numeral?_repr n
    have digits := @isDigit_of_mem_repr n
    unfold number?
    split
    next rest letters =>
      rw [letters] at digits
      cases digits (List.mem_cons_self ..)
    next => rw [read, Option.map_some]
  rw [Int.toString_eq_repr, Int.repr_eq_if]
  split
  next positive => rw [unsigned, Int.toNat_of_nonneg positive]
  next negative =>
    rw [number?, String.toList_append]
    change (numeral? (-value).toNat.repr.toList).map (fun n : Nat => -(n : Int)) = _
    rw [numeral?_repr, Option.map_some]
    congr 1
    omega

theorem plain_toString (value : Int) : plain (toString value) = true := by
  rw [Int.toString_eq_repr, Int.repr_eq_if]
  split
  · exact plain_repr _
  · exact plain_append (by decide) (plain_repr _)

end NodeScript.Source
