import NodeScript.Json.Tree
import NodeScript.Proofs.Json.Literals

/-!
Printed values are read back as trees. The builder makes every tree out of its tokens, and the
lexer finds the tokens of a value's tree in the text that is printed for the value, line breaks and
indentation included.
-/
namespace NodeScript.Json

/-! ### Trees from tokens -/

namespace Tree

mutual

/-- The tokens of a tree in their order. -/
def tokens : Tree → List Token
  | .null => [.null]
  | .bool value => [.bool value]
  | .number literal => [.number literal]
  | .string pieces => [.string pieces]
  | .array [] => [.openArray, .closeArray]
  | .array (item :: rest) => .openArray :: (tokens item ++ itemTokens rest ++ [.closeArray])
  | .object [] => [.openObject, .closeObject]
  | .object ((key, item) :: rest) =>
    .openObject :: .string key :: .colon :: (tokens item ++ memberTokens rest ++ [.closeObject])

/-- The tokens of the items after the first. -/
def itemTokens : List Tree → List Token
  | [] => []
  | item :: rest => .comma :: (tokens item ++ itemTokens rest)

/-- The tokens of the members after the first. -/
def memberTokens : List (List Piece × Tree) → List Token
  | [] => []
  | (key, item) :: rest =>
    .comma :: .string key :: .colon :: (tokens item ++ memberTokens rest)

end

end Tree

namespace Builder

/-- What the builder makes of tokens from some state on. -/
def build (stack : List Frame) (expected : Expectation) (tokens : List Token) : Option Tree :=
  (tokens.foldlM step? ⟨stack, expected⟩).bind finish?

/-- The first item of an array is built like any other. -/
theorem build_firstItem (item : Tree) (stack : List Frame) (rest : List Token) :
    build stack .firstItem (item.tokens ++ rest) =
      build (.array [] :: stack) .value (item.tokens ++ rest) := by
  cases item with
  | null | bool | number | string => rfl
  | array items => cases items <;> rfl
  | object members => cases members <;> rfl

mutual

theorem build_tokens (tree : Tree) (stack : List Frame) (rest : List Token) :
    build stack .value (tree.tokens ++ rest) = build stack (.separator tree) rest := by
  match tree with
  | .null | .bool _ | .number _ | .string _ => rfl
  | .array [] => rfl
  | .array (item :: items) =>
    calc build stack .value ((Tree.array (item :: items)).tokens ++ rest)
      _ = build stack .firstItem (item.tokens ++ (Tree.itemTokens items ++ .closeArray :: rest)) := by
        simp [Tree.tokens, build, step?, value?]
      _ = build (.array [] :: stack) (.separator item)
            (Tree.itemTokens items ++ .closeArray :: rest) := by
        rw [build_firstItem, build_tokens item]
      _ = build stack (.separator (.array (item :: items))) rest :=
        build_itemTokens items [] item stack rest
  | .object [] => rfl
  | .object ((key, item) :: members) =>
    calc build stack .value ((Tree.object ((key, item) :: members)).tokens ++ rest)
      _ = build (.object [] key :: stack) .value
            (item.tokens ++ (Tree.memberTokens members ++ .closeObject :: rest)) := by
        simp [Tree.tokens, build, step?, value?]
      _ = build (.object [] key :: stack) (.separator item)
            (Tree.memberTokens members ++ .closeObject :: rest) := build_tokens item ..
      _ = build stack (.separator (.object ((key, item) :: members))) rest :=
        build_memberTokens members [] key item stack rest

theorem build_itemTokens (items before : List Tree) (last : Tree) (stack : List Frame)
    (rest : List Token) :
    build (.array before :: stack) (.separator last)
        (Tree.itemTokens items ++ .closeArray :: rest) =
      build stack (.separator (.array (before.reverse ++ last :: items))) rest := by
  match items with
  | [] => simp [Tree.itemTokens, build, step?, separator?]
  | item :: items =>
    calc build (.array before :: stack) (.separator last)
          (Tree.itemTokens (item :: items) ++ .closeArray :: rest)
      _ = build (.array (last :: before) :: stack) .value
            (item.tokens ++ (Tree.itemTokens items ++ .closeArray :: rest)) := by
        simp [Tree.itemTokens, build, step?, separator?]
      _ = build (.array (last :: before) :: stack) (.separator item)
            (Tree.itemTokens items ++ .closeArray :: rest) := build_tokens item ..
      _ = build stack (.separator (.array (before.reverse ++ last :: item :: items))) rest := by
        rw [build_itemTokens items, List.reverse_cons, List.append_assoc, List.singleton_append]

theorem build_memberTokens (members before : List (List Piece × Tree)) (key : List Piece)
    (last : Tree) (stack : List Frame) (rest : List Token) :
    build (.object before key :: stack) (.separator last)
        (Tree.memberTokens members ++ .closeObject :: rest) =
      build stack (.separator (.object (before.reverse ++ (key, last) :: members))) rest := by
  match members with
  | [] => simp [Tree.memberTokens, build, step?, separator?]
  | (name, item) :: members =>
    calc build (.object before key :: stack) (.separator last)
          (Tree.memberTokens ((name, item) :: members) ++ .closeObject :: rest)
      _ = build (.object ((key, last) :: before) name :: stack) .value
            (item.tokens ++ (Tree.memberTokens members ++ .closeObject :: rest)) := by
        simp [Tree.memberTokens, build, step?, separator?]
      _ = build (.object ((key, last) :: before) name :: stack) (.separator item)
            (Tree.memberTokens members ++ .closeObject :: rest) := build_tokens item ..
      _ = build stack
            (.separator (.object (before.reverse ++ (key, last) :: (name, item) :: members)))
            rest := by
        rw [build_memberTokens members, List.reverse_cons, List.append_assoc,
          List.singleton_append]

end

end Builder

/-- The builder makes a tree out of its tokens. -/
theorem Tree.ofTokens?_tokens (tree : Tree) : Tree.ofTokens? tree.tokens = some tree := by
  have built := Builder.build_tokens tree [] []
  rwa [List.append_nil] at built

/-! ### Trees of printed values -/

/-- How a character is spelled within a string. -/
def piece (c : Char) : Piece :=
  if c.toNat < 0x20 ∧ c ∉ ['\x08', '\x0c', '\n', '\r', '\t'] then .unit c.toNat else .char c

def pieces (text : String) : List Piece := text.toList.map piece

/-- The tree of a number text, and of `null` where there is no number. -/
def numeral (text : List Char) : Tree :=
  match Literal.ofChars? text with
  | some literal => .number literal
  | none => .null

mutual

/-- The tree that a value is printed as. -/
def tree : Json → Tree
  | .null => .null
  | .bool value => .bool value
  | .int value => numeral (intText value)
  | .single value => numeral (floatText singleStyle value)
  | .double value => numeral (floatText doubleStyle value)
  | .string value => .string (pieces value)
  | .array items => .array (itemTrees items)
  | .object members => .object (memberTrees members)

def itemTrees : List Json → List Tree
  | [] => []
  | item :: rest => tree item :: itemTrees rest

def memberTrees : List (String × Json) → List (List Piece × Tree)
  | [] => []
  | (key, value) :: rest => (pieces key, tree value) :: memberTrees rest

end

theorem tree_int (n : Int) : tree (.int n) = .number (Spelling.ofInt n).literal := by
  have read := (Spelling.ofInt n).ofChars?_text
  rw [text_ofInt] at read
  simp [tree, numeral, read]

namespace Lexer

/-- What the lexer reads from between two tokens on. -/
def read (before : List Token) (text : List Char) : Option (List Token) :=
  (text.foldlM step? ⟨.ready, before⟩).bind finish?

/-- A text that does not go on with a number. -/
def Apart (text : List Char) : Prop := ∀ c ∈ text.head?, isNumeric c = false

variable (before : List Token) (rest : List Char)

theorem read_blanks (count : Nat) :
    read before (List.replicate count ' ' ++ rest) = read before rest := by
  induction count with
  | zero => rfl
  | succ count ih => exact ih

theorem read_newLine (level : Nat) : read before (newLine level ++ rest) = read before rest :=
  read_blanks before rest (2 * level)

theorem apart_newLine (level : Nat) : Apart (newLine level ++ rest) := fun _ first =>
  Option.some.inj first ▸ rfl

/-! #### Numbers -/

theorem foldlM_numeric {chars : List Char} (numeric : ∀ c ∈ chars, isNumeric c = true)
    (seen : List Char) :
    (chars ++ rest).foldlM step? ⟨.number seen, before⟩ =
      rest.foldlM step? ⟨.number (chars.reverse ++ seen), before⟩ := by
  induction chars generalizing seen with
  | nil => rfl
  | cons c chars ih =>
    obtain ⟨first, others⟩ := List.forall_mem_cons.mp numeric
    have next : step? ⟨.number seen, before⟩ c = some ⟨.number (c :: seen), before⟩ := by
      simp [step?, first]
    rw [List.cons_append, List.foldlM_cons, next, List.reverse_cons, List.append_assoc]
    exact ih others (c :: seen)

variable {rest} in
theorem read_spelling (s : Spelling) (apart : Apart rest) :
    read before (s.text ++ rest) = read (.number s.literal :: before) rest := by
  obtain ⟨c, others, text, first⟩ := s.text_cons
  have numeric : ∀ d ∈ others, isNumeric d = true := fun d member =>
    s.isNumeric_of_mem_text (text ▸ List.mem_cons_of_mem c member)
  have opened : step? ⟨.ready, before⟩ c = some ⟨.number [c], before⟩ := by
    have visible : isBlank c = false := decide_eq_false fun blank => by
      rcases blank with rfl | rfl | rfl | rfl <;> exact absurd first (by decide)
    simp [step?, begin?, visible, first]
  have closed : closeNumber? (others.reverse ++ [c]) before =
      some (.number s.literal :: before) := by
    have read := s.ofChars?_text
    rw [text] at read
    simp [closeNumber?, read]
  unfold read
  rw [text, List.cons_append, List.foldlM_cons, opened]
  change ((others ++ rest).foldlM step? ⟨.number [c], before⟩).bind finish? = _
  rw [foldlM_numeric before rest numeric]
  cases rest with
  | nil => simp [finish?, closed]
  | cons d rest => simp [step?, apart d rfl, closed]

/-! #### Strings -/

theorem hexValue?_lowerHexDigit : ∀ d < 16, hexValue? (lowerHexDigit d) = some d := by decide

/-- However a character is escaped, it adds its piece. -/
theorem foldlM_escapeChar (c : Char) (seen : List Piece) :
    (escapeChar c ++ rest).foldlM step? ⟨.string seen, before⟩ =
      rest.foldlM step? ⟨.string (piece c :: seen), before⟩ := by
  by_cases short : c ∈ ['"', '\\', '\x08', '\x0c', '\n', '\r', '\t']
  · simp only [List.mem_cons, List.not_mem_nil, or_false] at short
    rcases short with rfl | rfl | rfl | rfl | rfl | rfl | rfl <;> rfl
  · simp only [List.mem_cons, List.not_mem_nil, or_false, not_or] at short
    obtain ⟨quote, backslash, unnamed⟩ := short
    by_cases control : c.toNat < 0x20
    · -- Two zeros and the two digits of the code: what is read is a code unit.
      have high := hexValue?_lowerHexDigit (c.toNat / 16) (by omega)
      have low := hexValue?_lowerHexDigit (c.toNat % 16) (by omega)
      have escape : escapeChar c = ['\\', 'u', '0', '0', lowerHexDigit (c.toNat / 16),
          lowerHexDigit (c.toNat % 16)] := by simp [escapeChar, quote, backslash, unnamed, control]
      have unit : piece c = .unit c.toNat := by simp [piece, unnamed, control]
      have code : c.toNat / 16 * 16 + c.toNat % 16 = c.toNat := Nat.div_add_mod' ..
      have zero : hexValue? '0' = some 0 := rfl
      rw [escape, unit]
      simp [step?, high, low, zero, code]
    · have escape : escapeChar c = [c] := by
        simp [escapeChar, quote, backslash, unnamed, control]
      have plain : piece c = .char c := by simp [piece, control]
      have taken : step? ⟨.string seen, before⟩ c = some ⟨.string (.char c :: seen), before⟩ := by
        simp [step?, quote, backslash, control]
      rw [escape, plain, List.singleton_append, List.foldlM_cons, taken]
      rfl

theorem foldlM_escaped (text : List Char) (seen : List Piece) :
    (text.flatMap escapeChar ++ rest).foldlM step? ⟨.string seen, before⟩ =
      rest.foldlM step? ⟨.string ((text.map piece).reverse ++ seen), before⟩ := by
  induction text generalizing seen with
  | nil => rfl
  | cons c text ih =>
    rw [List.flatMap_cons, List.append_assoc, foldlM_escapeChar, ih, List.map_cons,
      List.reverse_cons, List.append_assoc, List.singleton_append]

theorem read_quoted (text : String) :
    read before (quoted text ++ rest) = read (.string (pieces text) :: before) rest := by
  have opened : step? ⟨.ready, before⟩ '"' = some ⟨.string [], before⟩ := rfl
  have inside := foldlM_escaped before ('"' :: rest) text.toList []
  have closed : step? ⟨.string ((text.toList.map piece).reverse ++ []), before⟩ '"' =
      some ⟨.ready, .string (pieces text) :: before⟩ := by simp [step?, pieces]
  unfold read quoted
  rw [List.cons_append, List.append_assoc, List.singleton_append, List.foldlM_cons, opened]
  rw [List.foldlM_cons, closed] at inside
  exact congrArg (·.bind finish?) inside

/-! #### Values -/

variable {rest}

/-- A number is read as its literal, and what is no number as `null`. -/
theorem read_floatText {F : Format} (precise : 0 < F.precision) (style : DecimalStyle)
    (x : Binary F) (apart : Apart rest) :
    read before (floatText style x ++ rest) =
      read ((numeral (floatText style x)).tokens.reverse ++ before) rest := by
  unfold floatText
  split
  · obtain ⟨s, text⟩ := style.exists_spelling precise x
    have literal : numeral s.text = .number s.literal := by simp [numeral, s.ofChars?_text]
    rw [← text, literal, read_spelling before s apart]
    rfl
  · rfl

theorem apart_prettyItems (level outer : Nat) (items : List Json) :
    Apart (prettyItems level items ++ (newLine outer ++ rest)) := by
  cases items with
  | nil => exact apart_newLine rest outer
  | cons item items => exact fun c first => Option.some.inj first ▸ rfl

theorem apart_prettyMembers (level outer : Nat) (members : List (String × Json)) :
    Apart (prettyMembers level members ++ (newLine outer ++ rest)) := by
  cases members with
  | nil => exact apart_newLine rest outer
  | cons member members => exact fun c first => Option.some.inj first ▸ rfl

mutual

theorem read_prettyChars (level : Nat) (value : Json) (before : List Token) {rest : List Char}
    (apart : Apart rest) :
    read before (prettyChars level value ++ rest) =
      read (value.tree.tokens.reverse ++ before) rest := by
  match value with
  | .null => rfl
  | .bool true | .bool false => rfl
  | .int n =>
    rw [tree_int, prettyChars, scalarText, ← text_ofInt]
    exact read_spelling before (Spelling.ofInt n) apart
  | .single x => exact read_floatText before (F := .single) (by decide) singleStyle x apart
  | .double x => exact read_floatText before (F := .double) (by decide) doubleStyle x apart
  | .string text => exact read_quoted before rest text
  | .array [] => rfl
  | .array (item :: items) =>
    calc read before (prettyChars level (.array (item :: items)) ++ rest)
      _ = read (.openArray :: before) (newLine (level + 1) ++ (prettyChars (level + 1) item ++
            (prettyItems (level + 1) items ++ (newLine level ++ ']' :: rest)))) := by
        simp only [prettyChars, List.cons_append, List.append_assoc]
        rfl
      _ = read (item.tree.tokens.reverse ++ .openArray :: before)
            (prettyItems (level + 1) items ++ (newLine level ++ ']' :: rest)) := by
        rw [read_newLine, read_prettyChars (level + 1) item _ (apart_prettyItems _ _ _)]
      _ = read ((Tree.itemTokens (itemTrees items)).reverse ++
            (item.tree.tokens.reverse ++ .openArray :: before)) (']' :: rest) :=
        read_prettyItems ..
      _ = read ((tree (.array (item :: items))).tokens.reverse ++ before) rest := by
        simp only [tree, itemTrees, Tree.tokens, List.reverse_cons, List.reverse_append,
          List.append_assoc, List.singleton_append]
        rfl
  | .object [] => rfl
  | .object ((key, item) :: members) =>
    calc read before (prettyChars level (.object ((key, item) :: members)) ++ rest)
      _ = read (.openObject :: before) (newLine (level + 1) ++ (quoted key ++ ':' :: ' ' ::
            (prettyChars (level + 1) item ++
              (prettyMembers (level + 1) members ++ (newLine level ++ '\x7d' :: rest))))) := by
        simp only [prettyChars, List.cons_append, List.append_assoc]
        rfl
      _ = read (.colon :: .string (pieces key) :: .openObject :: before)
            (prettyChars (level + 1) item ++
              (prettyMembers (level + 1) members ++ (newLine level ++ '\x7d' :: rest))) := by
        rw [read_newLine, read_quoted]
        rfl
      _ = read (item.tree.tokens.reverse ++
              .colon :: .string (pieces key) :: .openObject :: before)
            (prettyMembers (level + 1) members ++ (newLine level ++ '\x7d' :: rest)) :=
        read_prettyChars (level + 1) item _ (apart_prettyMembers _ _ _)
      _ = read ((Tree.memberTokens (memberTrees members)).reverse ++ (item.tree.tokens.reverse ++
              .colon :: .string (pieces key) :: .openObject :: before)) ('\x7d' :: rest) :=
        read_prettyMembers ..
      _ = read ((tree (.object ((key, item) :: members))).tokens.reverse ++ before) rest := by
        simp only [tree, memberTrees, Tree.tokens, List.reverse_cons, List.reverse_append,
          List.append_assoc, List.singleton_append]
        rfl

theorem read_prettyItems (level outer : Nat) (items : List Json) (before : List Token)
    (rest : List Char) :
    read before (prettyItems level items ++ (newLine outer ++ rest)) =
      read ((Tree.itemTokens (itemTrees items)).reverse ++ before) rest := by
  match items with
  | [] => exact read_newLine before rest outer
  | item :: items =>
    calc read before (prettyItems level (item :: items) ++ (newLine outer ++ rest))
      _ = read (.comma :: before) (newLine level ++ (prettyChars level item ++
            (prettyItems level items ++ (newLine outer ++ rest)))) := by
        simp only [prettyItems, List.cons_append, List.append_assoc]
        rfl
      _ = read (item.tree.tokens.reverse ++ .comma :: before)
            (prettyItems level items ++ (newLine outer ++ rest)) := by
        rw [read_newLine, read_prettyChars level item _ (apart_prettyItems _ _ _)]
      _ = read ((Tree.itemTokens (itemTrees items)).reverse ++
            (item.tree.tokens.reverse ++ .comma :: before)) rest := read_prettyItems ..
      _ = read ((Tree.itemTokens (itemTrees (item :: items))).reverse ++ before) rest := by
        simp only [itemTrees, Tree.itemTokens, List.reverse_cons, List.reverse_append,
          List.append_assoc, List.singleton_append]

theorem read_prettyMembers (level outer : Nat) (members : List (String × Json))
    (before : List Token) (rest : List Char) :
    read before (prettyMembers level members ++ (newLine outer ++ rest)) =
      read ((Tree.memberTokens (memberTrees members)).reverse ++ before) rest := by
  match members with
  | [] => exact read_newLine before rest outer
  | (key, item) :: members =>
    calc read before (prettyMembers level ((key, item) :: members) ++ (newLine outer ++ rest))
      _ = read (.comma :: before) (newLine level ++ (quoted key ++ ':' :: ' ' ::
            (prettyChars level item ++ (prettyMembers level members ++
              (newLine outer ++ rest))))) := by
        simp only [prettyMembers, List.cons_append, List.append_assoc]
        rfl
      _ = read (.colon :: .string (pieces key) :: .comma :: before)
            (prettyChars level item ++
              (prettyMembers level members ++ (newLine outer ++ rest))) := by
        rw [read_newLine, read_quoted]
        rfl
      _ = read (item.tree.tokens.reverse ++ .colon :: .string (pieces key) :: .comma :: before)
            (prettyMembers level members ++ (newLine outer ++ rest)) :=
        read_prettyChars level item _ (apart_prettyMembers _ _ _)
      _ = read ((Tree.memberTokens (memberTrees members)).reverse ++ (item.tree.tokens.reverse ++
            .colon :: .string (pieces key) :: .comma :: before)) rest := read_prettyMembers ..
      _ = read ((Tree.memberTokens (memberTrees ((key, item) :: members))).reverse ++ before)
            rest := by
        simp only [memberTrees, Tree.memberTokens, List.reverse_cons, List.reverse_append,
          List.append_assoc, List.singleton_append]
        rfl

end

end Lexer

/-- What is printed for a value is read back as its tree. -/
theorem parse?_pretty (value : Json) : Tree.parse? value.pretty = some value.tree := by
  have apart : Lexer.Apart [] := nofun
  have read := Lexer.read_prettyChars 0 value [] apart
  simp only [List.append_nil] at read
  have tokens : tokens? (prettyChars 0 value) = some value.tree.tokens := by
    refine read.trans ?_
    simp [Lexer.read, Lexer.finish?]
  rw [Tree.parse?, pretty, String.toList_ofList, tokens, Option.bind_some, Tree.ofTokens?_tokens]

end NodeScript.Json
