import Conform.Binary64.Style
import Conform.Instant.Printer
import Conform.Value

/-!
# Values as JSON text

A layout says what stands between the tokens, so the compact text and the indented one come from one
writer. Integers below `2 ^ 53` are written in full, other numbers as their shortest decimal, and what is
not finite as null. Dates are written as strings.
-/

namespace Conform.Json

structure Layout where
  /-- Before each entry of a container and before its end, by the count of containers open there. -/
  gap : Nat → List Char
  colon : List Char

def compact : Layout := ⟨fun _ => [], [':']⟩

/-- An entry a line, two spaces in for each open container. -/
def indented : Layout := ⟨fun level => '\n' :: List.replicate (2 * level) ' ', [':', ' ']⟩

/-- Numbers in JSON keep their point in place in the middle range and always show it. A half goes to the
even digit. -/
def numberStyle : Binary64.Style := ⟨.even, fun point => -5 < point && point ≤ 16, true⟩

def writeInt (n : Int) : List Char := (if n < 0 then ['-'] else []) ++ Nat.toDigits 10 n.natAbs

def writeNumber (x : Binary64) : List Char :=
  match x.exactInteger?, x with
  | some n, _ => writeInt n
  | none, .finite negative rank => numberStyle.write negative rank
  | none, _ => ['n', 'u', 'l', 'l']

def escapeLetter? (c : Char) : Option Char :=
  match c with
  | '"' => some '"'
  | '\\' => some '\\'
  | '\x08' => some 'b'
  | '\t' => some 't'
  | '\n' => some 'n'
  | '\x0c' => some 'f'
  | '\r' => some 'r'
  | _ => none

def writeChar (c : Char) : List Char :=
  match escapeLetter? c with
  | some letter => ['\\', letter]
  | none =>
    if c < ' ' then
      ['\\', 'u', '0', '0', Nat.digitChar (c.toNat / 16), Nat.digitChar (c.toNat % 16)]
    else [c]

def writeString (s : List Char) : List Char := '"' :: s.flatMap writeChar ++ ['"']

mutual

def write (layout : Layout) (level : Nat) : Value → List Char
  | .null => ['n', 'u', 'l', 'l']
  | .bool true => ['t', 'r', 'u', 'e']
  | .bool false => ['f', 'a', 'l', 's', 'e']
  | .number x => writeNumber x
  | .string s => writeString s.toList
  | .date d => writeString d.textZ
  | .array [] => ['[', ']']
  | .array (v :: items) =>
    '[' :: layout.gap (level + 1) ++ write layout (level + 1) v ++ writeItems layout (level + 1) items ++
      layout.gap level ++ [']']
  | .object [] => ['\x7b', '\x7d']
  | .object ((key, v) :: fields) =>
    '\x7b' :: layout.gap (level + 1) ++ writeString key.toList ++ layout.colon ++
      write layout (level + 1) v ++ writeFields layout (level + 1) fields ++ layout.gap level ++ ['\x7d']

def writeItems (layout : Layout) (level : Nat) : List Value → List Char
  | [] => []
  | v :: items => ',' :: layout.gap level ++ write layout level v ++ writeItems layout level items

def writeFields (layout : Layout) (level : Nat) : List (String × Value) → List Char
  | [] => []
  | (key, v) :: fields =>
    ',' :: layout.gap level ++ writeString key.toList ++ layout.colon ++ write layout level v ++
      writeFields layout level fields

end

end Conform.Json

namespace Conform.Value

def json (v : Value) : String := String.ofList (Json.write Json.compact 0 v)

def indentedJson (v : Value) : String := String.ofList (Json.write Json.indented 0 v)

end Conform.Value
