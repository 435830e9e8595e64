import NodeScript.Execution.Instance
import NodeScript.Text.Hidden

/-!
Dumps of instances for diagnosis. Names are quoted: backslash escapes stand for the quote, the
backslash and common controls; other characters that are not shown on their own are written by code
point in braces.
-/
namespace NodeScript

/-- A code point in lower-case hexadecimal digits. -/
def codePoint (c : Char) : String :=
  "\\u\x7b" ++ String.ofList (Nat.toDigits 16 c.toNat) ++ "\x7d"

def quoteChar (c : Char) : String :=
  match c with
  | '\x00' => "\\0"
  | '\t' => "\\t"
  | '\r' => "\\r"
  | '\n' => "\\n"
  | '"' => "\\\""
  | '\\' => "\\\\"
  | c =>
    if c.toNat < 0x20 ∨ c.toNat = 0x7f then codePoint c
    else if 0x80 ≤ c.toNat ∧ isHidden c then codePoint c
    else c.toString

def quoteText (text : String) : String :=
  "\"" ++ String.join (text.toList.map quoteChar) ++ "\""

namespace Instance

variable {τ : Type}

/-- A value that may be absent. -/
def describeOption (value : Option String) : String :=
  match value with
  | some text => "Some(" ++ text ++ ")"
  | none => "None"

def describe (i : Instance τ) : String :=
  "Instance \x7b object_id: " ++ toString i.owner.toNat ++ ", state: " ++ i.phase.name ++ ", unit: "
    ++ describeOption (i.script.map fun script => quoteText script.name) ++ ", pc: "
    ++ describeOption (i.machine.pc.map fun pc => toString pc.toNat) ++ ", pending: ["
    ++ ", ".intercalate (i.pending.map (·.name)) ++ "] \x7d"

end Instance

end NodeScript
