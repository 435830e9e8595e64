import NodeScript.Proofs.Source.Words

/-!
Reading source back. Every line is read by its words alone, without a look at how it is indented;
comments say nothing. What is written out of plain words is read back as it was.
-/
namespace NodeScript.Source

/-- What is read: a label or a statement. -/
inductive Item
  | label (name : String)
  | statement (content : Statement)
  deriving DecidableEq, Repr

/-- The comparison that a symbol stands for. -/
def comparison? (symbol : String) : Option CompareOp :=
  CompareOp.all.find? fun op => op.symbol == symbol

/-- A test by its operands and its symbol. Only counters are compared with a numeral. -/
def test? (lhs symbol rhs : String) : Option Statement :=
  match numeral? rhs.toList with
  | some bound => if symbol = "<" then some (.ifBelow lhs bound.toUInt32) else none
  | none => (comparison? symbol).map fun op => .ifCompare lhs op rhs

/-- A word that stands as a statement. -/
def command? (word : String) : Option Statement :=
  match word.toList with
  | '+' :: '+' :: counter => some (.increment (String.ofList counter))
  | _ => if word = "return" then some .leave else none

/-- The statement on a line of its own. -/
def statement? : List String → Option Statement
  | [a] => if a = "\x7b" then some .openBlock else if a = "\x7d" then some .closeBlock else none
  | [a, b] => if b = ";" then command? a else none
  | [a, b, c] =>
    if [a, b, c] = ["\x7d", "else", "\x7b"] then some .orElse
    else if [a, c] = ["goto", ";"] then some (.goto b)
    else none
  | [a, b, c, d] => if [b, c, d] = ["=", "0", ";"] then some (.reset a) else none
  | [a, b, c, d, e] =>
    if [a, b, d, e] = ["sleep_ms", "(", ")", ";"] then some (.sleep c) else none
  | [a, b, c, d, e, f] =>
    if [a, d, f] = ["const", "=", ";"] then
      (number? e).map fun value => .constant b c (Int64.ofInt value)
    else none
  | [a, b, c, d, e, f, g] =>
    if [a, b, f, g] = ["if", "(", ")", "\x7b"] then test? c d e
    else if [b, d, f, g] = ["=", "(", ")", ";"] then some (.call a c e)
    else none
  | a :: b :: c :: rest =>
    if a = "object_remove" ∧ b = "(" ∧
        rest = ["==", "0", "?", "inst->object_id", ":", c, ")", ";"] then
      some (.removeObject c)
    else none
  | [] => none

def item? (line : List String) : Option Item :=
  match line with
  | [a, b] => if b = ":" then some (.label a) else (statement? line).map .statement
  | _ => (statement? line).map .statement

/-- The rest of an event that is sent, one line for each argument. -/
def sendEvent? : (target sender eventType value last : List String) → Option Statement
  | object :: target, sender, eventType :: mark, [value], last =>
    if target = ["==", "0", "?", "inst->object_id", ":", object, ","] ∧
        sender = ["inst->object_id", ","] ∧ mark = [","] ∧ last = [")", ";"] then
      some (.sendEvent object eventType value)
    else none
  | _, _, _, _, _ => none

/-- What lines say. -/
def items? : List (List String) → Option (List Item)
  | [] => some []
  | line :: rest =>
    if line = ["send_event", "("] then
      match rest with
      | target :: sender :: eventType :: value :: last :: rest => do
        let statement ← sendEvent? target sender eventType value last
        let items ← items? rest
        some (.statement statement :: items)
      | _ => none
    else do
      let item ← item? line
      let items ← items? rest
      some (item :: items)

def isComment (line : List String) : Bool := line.take 2 == ["/", "/"]

/-- The words of the lines that are no comments. -/
def spoken (lines : List String) : List (List String) :=
  (lines.map words).filter fun line => !isComment line

/-- What a text says, line by line. -/
def read? (lines : List String) : Option (List Item) := items? (spoken lines)

/-- Whether the operands of a statement are plain words, so that it can be told what it says. -/
def legible : Statement → Prop
  | .text _ => False
  | .constant type name _ => plain type = true ∧ plain name = true
  | .sleep operand | .removeObject operand | .increment operand | .reset operand
  | .ifBelow operand _ | .goto operand => plain operand = true
  | .sendEvent object eventType value =>
    plain object = true ∧ plain eventType = true ∧ plain value = true
  | .call result function argument =>
    plain result = true ∧ plain function = true ∧ plain argument = true
  | .ifCompare lhs _ rhs => plain lhs = true ∧ plain rhs = true ∧ numeral? rhs.toList = none
  | _ => True

def legibleLine : Line → Prop
  | .label name => plain name = true
  | .statement _ content => legible content

/-- What is said by a line that is written. -/
def Item.ofLine : Line → List Item
  | .label name => [.label name]
  | .statement _ (.comment _) => []
  | .statement _ content => [.statement content]

theorem comparison?_symbol (op : CompareOp) : comparison? op.symbol = some op := by
  cases op <;> decide

theorem words_label {name : String} (whole : plain name = true) :
    words (name ++ ":") = [name, ":"] := by
  rw [words_append_of_opens _ (by decide), words_of_plain whole]
  rfl

theorem words_goto {label : String} (whole : plain label = true) :
    words ("goto " ++ label ++ ";") = ["goto", label, ";"] := by
  simp (disch := simp +decide) only [words_append_of_opens, words_append_of_closes]
  rw [words_of_plain whole]
  rfl

/-- The words that a legible statement is written with. -/
def wording : Statement → List String
  | .text content => words content
  | .comment _ => []
  | .openBlock => ["\x7b"]
  | .closeBlock => ["\x7d"]
  | .constant type name value => ["const", type, name, "=", toString value.toInt, ";"]
  | .sleep duration => ["sleep_ms", "(", duration, ")", ";"]
  | .removeObject object =>
    ["object_remove", "(", object, "==", "0", "?", "inst->object_id", ":", object, ")", ";"]
  | .sendEvent object eventType value =>
    ["send_event", "(", object, "==", "0", "?", "inst->object_id", ":", object, ",",
      "inst->object_id", ",", eventType, ",", value, ")", ";"]
  | .call result function argument => [result, "=", function, "(", argument, ")", ";"]
  | .ifCompare lhs op rhs => ["if", "(", lhs, op.symbol, rhs, ")", "\x7b"]
  | .ifBelow counter bound => ["if", "(", counter, "<", toString bound.toNat, ")", "\x7b"]
  | .increment counter => ["++" ++ counter, ";"]
  | .orElse => ["\x7d", "else", "\x7b"]
  | .reset counter => [counter, "=", "0", ";"]
  | .goto label => ["goto", label, ";"]
  | .leave => ["return", ";"]

/-- The words of an event that is sent, line by line. -/
theorem words_sendEvent {object eventType value : String}
    (readable : legible (.sendEvent object eventType value)) :
    (Statement.sendEvent object eventType value).lines.map words =
      [["send_event", "("], [object, "==", "0", "?", "inst->object_id", ":", object, ","],
        ["inst->object_id", ","], [eventType, ","], [value], [")", ";"]] := by
  obtain ⟨objectPlain, typePlain, valuePlain⟩ := readable
  simp only [Statement.lines, List.map_cons, List.map_nil]
  simp (disch := simp +decide) only [words_append_of_opens, words_append_of_closes]
  rw [words_of_plain objectPlain, words_of_plain typePlain, words_of_plain valuePlain]
  rfl

/-- The words on the line of a legible statement. -/
theorem words_of_legible {content : Statement} (readable : legible content) {text : String}
    (written : content.lines = [text]) (spoken : ∀ title, content ≠ .comment title) :
    words text = wording content := by
  cases content with
  | text content => cases readable
  | comment title => cases spoken title rfl
  | openBlock | closeBlock | orElse | leave => cases written; rfl
  | sendEvent => cases written
  | constant type name value =>
    obtain ⟨typePlain, namePlain⟩ := readable
    cases written
    simp (disch := simp +decide) only [words_append_of_opens, words_append_of_closes]
    rw [words_of_plain typePlain, words_of_plain namePlain, words_of_plain (plain_toString _)]
    rfl
  | sleep duration =>
    cases written
    simp (disch := simp +decide) only [words_append_of_opens, words_append_of_closes]
    rw [words_of_plain readable]
    rfl
  | removeObject object =>
    cases written
    simp (disch := simp +decide) only [words_append_of_opens, words_append_of_closes]
    rw [words_of_plain readable]
    rfl
  | call result function argument =>
    obtain ⟨resultPlain, functionPlain, argumentPlain⟩ := readable
    cases written
    simp (disch := simp +decide) only [words_append_of_opens, words_append_of_closes]
    rw [words_of_plain resultPlain, words_of_plain functionPlain, words_of_plain argumentPlain]
    rfl
  | ifCompare lhs op rhs =>
    obtain ⟨lhsPlain, rhsPlain, -⟩ := readable
    cases written
    have symbol : words op.symbol = [op.symbol] := by cases op <;> decide
    simp (disch := simp +decide) only [words_append_of_opens, words_append_of_closes]
    rw [words_of_plain lhsPlain, words_of_plain rhsPlain, symbol]
    rfl
  | ifBelow counter bound =>
    cases written
    simp (disch := simp +decide) only [words_append_of_opens, words_append_of_closes]
    rw [words_of_plain readable, Nat.toString_eq_repr, words_of_plain (plain_repr _)]
    rfl
  | increment counter =>
    cases written
    rw [words_append_of_opens _ (by decide), words_of_plain (plain_append (by decide) readable)]
    rfl
  | reset counter =>
    cases written
    rw [words_append_of_opens _ (by decide), words_of_plain readable]
    rfl
  | goto label =>
    cases written
    exact words_goto readable

/-- A legible statement on a line of its own is read back. -/
theorem statement?_words {content : Statement} (readable : legible content) {text : String}
    (written : content.lines = [text]) (said : ∀ title, content ≠ .comment title) :
    statement? (words text) = some content ∧ isComment (words text) = false := by
  rw [words_of_legible readable written said]
  cases content with
  | text content => cases readable
  | comment title => cases said title rfl
  | sendEvent => cases written
  | openBlock | closeBlock | orElse | leave | sleep | goto => exact ⟨rfl, rfl⟩
  | constant type name value =>
    refine ⟨?_, rfl⟩
    change (number? (toString value.toInt)).map
      (fun value => Statement.constant type name (Int64.ofInt value)) = _
    rw [number?_toString, Option.map_some, Int64.ofInt_toInt]
  | removeObject object => exact ⟨if_pos ⟨rfl, rfl, rfl⟩, rfl⟩
  | call | reset => simp [wording, statement?, isComment]
  | ifCompare lhs op rhs =>
    refine ⟨?_, rfl⟩
    change test? lhs op.symbol rhs = _
    rw [test?, readable.2.2, comparison?_symbol, Option.map_some]
  | ifBelow counter bound =>
    refine ⟨?_, rfl⟩
    change test? counter "<" bound.toNat.repr = _
    rw [test?, numeral?_repr]
    simp
  | increment counter =>
    change command? ("++" ++ counter) = _ ∧ isComment ["++" ++ counter, ";"] = false
    rw [command?, String.toList_append]
    change some (Statement.increment (String.ofList counter.toList)) = _ ∧ _
    rw [String.ofList_toList]
    simp [isComment]

theorem items?_cons {line : List String} {item : Item} (found : item? line = some item)
    (rest : List (List String)) : items? (line :: rest) = (items? rest).map (item :: ·) := by
  have single : line ≠ ["send_event", "("] := by
    rintro rfl
    cases found
  rw [items?.eq_def]
  dsimp only
  rw [if_neg single, found]
  cases items? rest <;> rfl

theorem item?_of_statement? {line : List String} {content : Statement}
    (found : statement? line = some content) : item? line = some (.statement content) := by
  unfold item?
  split
  next a b =>
    have mark : b ≠ ":" := by
      rintro rfl
      cases found
    rw [if_neg mark, found]
    rfl
  next => rw [found]; rfl

theorem spoken_append (lines others : List String) :
    spoken (lines ++ others) = spoken lines ++ spoken others := by
  rw [spoken, List.map_append, List.filter_append]
  rfl

/-- A statement on a line of its own speaks as it is worded, at any indentation. -/
theorem spoken_single {content : Statement} (readable : legible content) {text : String}
    (written : content.lines = [text]) (said : ∀ title, content ≠ .comment title) (indent : Nat) :
    spoken (Line.statement indent content).render = [wording content] := by
  have voiced := (statement?_words readable written said).2
  rw [words_of_legible readable written said] at voiced
  simp [spoken, Line.render, written, words_indentation, words_of_legible readable written said,
    voiced]

theorem spoken_sendEvent {object eventType value : String}
    (readable : legible (.sendEvent object eventType value)) (indent : Nat) :
    spoken (Line.statement indent (.sendEvent object eventType value)).render =
      [["send_event", "("], [object, "==", "0", "?", "inst->object_id", ":", object, ","],
        ["inst->object_id", ","], [eventType, ","], [value], [")", ";"]] := by
  have indented : words ∘ (indentation indent ++ ·) = words := by
    funext text
    exact words_indentation indent text
  rw [spoken, Line.render, List.map_map, indented, words_sendEvent readable]
  simp [isComment]

theorem spoken_comment (indent : Nat) (title : String) :
    spoken (Line.statement indent (.comment title)).render = [] := by
  simp only [spoken, Line.render, Statement.lines, List.map_cons, List.map_nil, words_indentation]
  rw [words_append_of_closes _ (by decide)]
  rfl

theorem spoken_label {name : String} (whole : plain name = true) :
    spoken (Line.label name).render = [[name, ":"]] := by
  simp only [spoken, Line.render, List.map_cons, List.map_nil, words_label whole]
  simp [isComment]

theorem items?_single {content : Statement} (readable : legible content) {text : String}
    (written : content.lines = [text]) (said : ∀ title, content ≠ .comment title) (indent : Nat)
    (rest : List (List String)) :
    items? (spoken (Line.statement indent content).render ++ rest) =
      (items? rest).map (.statement content :: ·) := by
  have found := (statement?_words readable written said).1
  rw [words_of_legible readable written said] at found
  rw [spoken_single readable written said]
  exact items?_cons (item?_of_statement? found) rest

/-- An event that is sent is read back. -/
theorem items?_sendEvent {object eventType value : String}
    (readable : legible (.sendEvent object eventType value)) (indent : Nat)
    (rest : List (List String)) :
    items? (spoken (Line.statement indent (.sendEvent object eventType value)).render ++ rest) =
      (items? rest).map (.statement (.sendEvent object eventType value) :: ·) := by
  have sent : sendEvent? [object, "==", "0", "?", "inst->object_id", ":", object, ","]
      ["inst->object_id", ","] [eventType, ","] [value] [")", ";"] =
      some (.sendEvent object eventType value) := if_pos ⟨rfl, rfl, rfl, rfl⟩
  rw [spoken_sendEvent readable, List.cons_append, items?.eq_def]
  dsimp only [List.cons_append, List.nil_append]
  rw [if_pos rfl, sent]
  cases items? rest <;> rfl

/-- A legible line is read back. -/
theorem items?_render {line : Line} (readable : legibleLine line) (rest : List (List String)) :
    items? (spoken line.render ++ rest) = (items? rest).map (Item.ofLine line ++ ·) := by
  cases line with
  | label name =>
    rw [spoken_label readable]
    exact items?_cons rfl rest
  | statement indent content =>
    have read : legible content := readable
    cases content with
    | text content => cases read
    | comment title =>
      rw [spoken_comment, List.nil_append]
      exact Option.map_id'.symm
    | sendEvent object eventType value => exact items?_sendEvent read indent rest
    | _ => exact items?_single read rfl nofun indent rest

/-- A legible text is read back, but for its comments. -/
theorem read?_render {lines : List Line} (readable : ∀ line ∈ lines, legibleLine line) :
    read? (lines.flatMap Line.render) = some (lines.flatMap Item.ofLine) := by
  induction lines with
  | nil => rfl
  | cons line rest ih =>
    obtain ⟨first, others⟩ := List.forall_mem_cons.mp readable
    rw [read?, List.flatMap_cons, spoken_append, items?_render first, ← read?, ih others,
      Option.map_some]
    rfl

end NodeScript.Source
