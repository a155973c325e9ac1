import Conform.Binary64.Literal
import Conform.Json
import Conform.Json.Numeral

/-!
# Documents from text

The reader takes a text to the document that it writes or to the first fault in it. `Rules` say how numbers
are taken and how deep containers may nest. A strict reader refuses what stands for no data. A lenient one
keeps it in its place and goes on, so that its first fault is one of grammar. Reading takes at most two steps
a character, so the count of steps that the reader is given never runs out.
-/

namespace Conform.Json

open Conform.Text

structure Rules where
  nesting : Nat
  /-- The number of a numeral, out of range if it is not finite. -/
  number : Numeral → Binary64
  lenient : Bool

namespace Rules

def data : Rules := ⟨127, Numeral.scaled, false⟩

/-- Records are read like data, but members that they pass over may stand for no data. -/
def record : Rules := { data with lenient := true }

def refuse (rules : Rules) (f : Fault) (rest : List Char) : Except Fault (Json × List Char) :=
  if rules.lenient then .ok (.beyond f, rest) else .error f

end Rules

/-- A reader takes something off the start of a text and leaves the rest. -/
abbrev Reader (α : Type) := List Char → Except Fault (α × List Char)

def faultAt (cause : Cause) (rest : List Char) : Fault := ⟨cause, rest, 0⟩

def faultOn (cause : Cause) (rest : List Char) : Fault := ⟨cause, rest, 1⟩

def isSpace (c : Char) : Bool := c == ' ' || c == '\n' || c == '\t' || c == '\r'

def skipSpace (t : List Char) : List Char := t.dropWhile isSpace

def word (result : Json) : List Char → Reader Json
  | [], t => .ok (result, t)
  | _ :: _, [] => .error (faultAt .eofInValue [])
  | c :: cs, d :: t => if c = d then word result cs t else .error (faultOn .expectedWord (d :: t))

/-! ### Strings -/

/-- The characters of a string, and the first fault that keeps it from being one. -/
structure Characters where
  characters : List Char
  fault : Option Fault

def Characters.cons (c : Char) (s : Characters) : Characters := { s with characters := c :: s.characters }

def escaped? (c : Char) : Option Char :=
  match c with
  | '"' => some '"'
  | '\\' => some '\\'
  | '/' => some '/'
  | 'b' => some '\x08'
  | 'f' => some '\x0c'
  | 'n' => some '\n'
  | 'r' => some '\r'
  | 't' => some '\t'
  | _ => none

def codeUnit? (a b c d : Char) : Option Nat := natInBase? 16 [a, b, c, d]

/-- The fault of a text that does not start with a code unit, which takes four bytes. -/
def codeUnitFault (t : List Char) : Fault :=
  if byteCount t < 4 then faultAt .eofInString [] else ⟨.invalidEscape, t, 4⟩

def isLeading (n : Nat) : Bool := 0xD800 ≤ n && n ≤ 0xDBFF

def isTrailing (n : Nat) : Bool := 0xDC00 ≤ n && n ≤ 0xDFFF

def pairCharacter (leading trailing : Nat) : Char :=
  Char.ofNat (0x10000 + (leading - 0xD800) * 0x400 + (trailing - 0xDC00))

/-- What is read, spoilt by a fault for a lenient reader and refused by a strict one. -/
def spoiled (lenient : Bool) (f : Fault) (read : Except Fault (Characters × List Char)) :
    Except Fault (Characters × List Char) :=
  if lenient then read.map fun (s, rest) => ({ s with fault := some f }, rest) else .error f

/-- What is read other than the partner that a leading code unit waits for. -/
def unlessWaiting (lenient : Bool) (waiting : Option Nat) (f : Fault)
    (read : Except Fault (Characters × List Char)) : Except Fault (Characters × List Char) :=
  if waiting.isSome then spoiled lenient f read else read

def behind (c : Char) (read : Except Fault (Characters × List Char)) : Except Fault (Characters × List Char) :=
  read.map fun (s, rest) => (s.cons c, rest)

/-- The characters up to the closing quote, read from after the opening one or, if a leading code unit is
waiting for its partner, from after that. -/
def characters (lenient : Bool) (waiting : Option Nat) : Reader Characters
  | [] => .error (faultAt .eofInString [])
  | '"' :: t => unlessWaiting lenient waiting (faultOn .unpairedSurrogate ('"' :: t)) (.ok (⟨[], none⟩, t))
  | '\\' :: 'u' :: a :: b :: c :: d :: t =>
    let fault := faultAt .loneSurrogate t
    match codeUnit? a b c d with
    | none => .error (codeUnitFault (a :: b :: c :: d :: t))
    | some n =>
      if isTrailing n then
        match waiting with
        | some m => behind (pairCharacter m n) (characters lenient none t)
        | none => spoiled lenient fault (characters lenient none t)
      else if isLeading n then unlessWaiting lenient waiting fault (characters lenient (some n) t)
      else unlessWaiting lenient waiting fault (behind (Char.ofNat n) (characters lenient none t))
  | '\\' :: 'u' :: t => .error (codeUnitFault t)
  | ['\\'] => .error (faultAt .eofInString [])
  | '\\' :: c :: t =>
    unlessWaiting lenient waiting (faultOn .unpairedSurrogate (c :: t)) <|
      match escaped? c with
      | some d => behind d (characters lenient none t)
      | none => .error (faultOn .invalidEscape (c :: t))
  | c :: t =>
    unlessWaiting lenient waiting (faultOn .unpairedSurrogate (c :: t)) <|
      if c < ' ' then .error (faultOn .controlCharacter (c :: t)) else behind c (characters lenient none t)

/-! ### Numbers -/

/-- The integer of 64 bits that digits with a sign write. Zero with a sign is no integer. -/
def integer? (negative : Bool) (n : Nat) : Option Int :=
  if negative then if 0 < n ∧ n ≤ 1 <<< 63 then some (-n) else none
  else if n < 1 <<< 64 then some n else none

/-- The digits after a point, none if there is no point. -/
def fraction : Reader (Option (List Char))
  | '.' :: t =>
    let digits := leadingDigits t
    if digits.isEmpty then .error (faultOn (if t.isEmpty then .eofInValue else .invalidNumber) t)
    else .ok (some digits, afterDigits t)
  | t => .ok (none, t)

/-- What follows the digit with which a power of ten outgrows 31 bits, or else what follows its digits. -/
def afterPower (power : Nat) : List Char → List Char
  | [] => []
  | c :: t =>
    if c.isDigit then
      let longer := Numeral.pushDigit power c
      if longer < 1 <<< 31 then afterPower longer t else t
    else c :: t

/-- A power of ten, and the text after the digit that settles whether it is too great. -/
structure Power where
  value : Int
  settled : List Char

/-- The power of ten after an `e`, none if there is no `e`. -/
def exponent : Reader (Option Power)
  | [] => .ok (none, [])
  | c :: t =>
    if c = 'e' ∨ c = 'E' then
      let (negative, t) := Binary64.takeSign t
      let digits := leadingDigits t
      if digits.isEmpty then
        .error (faultOn (if t.isEmpty then .eofInValue else .invalidNumber) t)
      else
        let power : Int := decimal digits
        .ok (some ⟨if negative then -power else power, afterPower 0 t⟩, afterDigits t)
    else .ok (none, c :: t)

/-- The digits before a point: one zero, or digits that do not start with zero. -/
def wholeDigits : Reader (List Char)
  | [] => .error (faultAt .eofInValue [])
  | c :: t =>
    if c = '0' then
      if (leadingDigits t).isEmpty then .ok (['0'], t) else .error (faultOn .invalidNumber t)
    else if c.isDigit then .ok (leadingDigits (c :: t), afterDigits (c :: t))
    else .error (faultOn .invalidNumber (c :: t))

def number (rules : Rules) (negative : Bool) : Reader Json := fun t => do
  let (whole, t) ← wholeDigits t
  let (part, t) ← fraction t
  let (power, t) ← exponent t
  match part, power, integer? negative (decimal whole) with
  | none, none, some n => .ok (.integer n, t)
  | _, _, _ =>
    let x := rules.number ⟨negative, whole, part.getD [], (power.map (·.value)).getD 0⟩
    if x.isFinite then .ok (.real x, t)
    else rules.refuse (faultAt .numberOutOfRange ((power.map (·.settled)).getD t)) t

/-! ### Containers -/

inductive Next where
  | close (rest : List Char)
  | entry (rest : List Char)

/-- What follows in an array, the first entry standing after no comma. -/
def nextItem (first : Bool) (t : List Char) : Except Fault Next :=
  match skipSpace t with
  | [] => .error (faultOn .eofInList [])
  | c :: t =>
    if c = ']' then .ok (.close t)
    else if first then .ok (.entry (c :: t))
    else if c = ',' then
      match skipSpace t with
      | [] => .error (faultOn .eofInValue [])
      | d :: t => if d = ']' then .error (faultOn .trailingComma (d :: t)) else .ok (.entry (d :: t))
    else .error (faultOn .expectedListEnd (c :: t))

/-- What follows in an object, a member being entered after the quote that opens its name. -/
def nextMember (first : Bool) (t : List Char) : Except Fault Next :=
  match skipSpace t with
  | [] => .error (faultOn .eofInObject [])
  | c :: t =>
    if c = '\x7d' then .ok (.close t)
    else if first then
      if c = '"' then .ok (.entry t) else .error (faultOn .keyNotString (c :: t))
    else if c = ',' then
      match skipSpace t with
      | [] => .error (faultOn .eofInValue [])
      | d :: t =>
        if d = '"' then .ok (.entry t)
        else if d = '\x7d' then .error (faultOn .trailingComma (d :: t))
        else .error (faultOn .keyNotString (d :: t))
    else .error (faultOn .expectedObjectEnd (c :: t))

def colon (t : List Char) : Except Fault (List Char) :=
  match skipSpace t with
  | [] => .error (faultOn .eofInObject [])
  | c :: t => if c = ':' then .ok t else .error (faultOn .expectedColon (c :: t))

/-- A container with room for it. Without room it is a fault at `start`. -/
def within (rules : Rules) (room : Nat) (start : List Char) (read : Except Fault (Json × List Char)) :
    Except Fault (Json × List Char) :=
  let fault := faultOn .tooDeep start
  if 0 < room then read
  else if rules.lenient then read.map fun (_, rest) => (.beyond fault, rest)
  else .error fault

/-- The members read so far with one more in front. A name that is no string spoils the object. -/
def addMember (name : Characters) (value : Json) : Except Fault (List (String × Json)) →
    Except Fault (List (String × Json))
  | .error f => .error (name.fault.getD f)
  | .ok members =>
    match name.fault with
    | some f => .error f
    | none => .ok ((String.ofList name.characters, value) :: members)

/-- The object of members, or the fault of a name in it. -/
def ofMembers : Except Fault (List (String × Json)) → Json
  | .ok members => .object members
  | .error f => .beyond f

mutual

/-- A document at the start of a text, with room for so many nested containers. -/
def value (rules : Rules) : (steps room : Nat) → Reader Json
  | 0, _, _ => .error (faultAt .eofInValue [])
  | steps + 1, room, t =>
    match skipSpace t with
    | [] => .error (faultOn .eofInValue [])
    | c :: t =>
      if c = 'n' then word .null ['u', 'l', 'l'] t
      else if c = 't' then word (.bool true) ['r', 'u', 'e'] t
      else if c = 'f' then word (.bool false) ['a', 'l', 's', 'e'] t
      else if c = '-' then number rules true t
      else if c.isDigit then number rules false (c :: t)
      else if c = '"' then do
        let (s, t) ← characters rules.lenient none t
        .ok ((s.fault.map Json.beyond).getD (.string (String.ofList s.characters)), t)
      else if c = '[' then
        within rules room (c :: t) do
          let (vs, rest) ← items rules steps (room - 1) true t
          .ok (.array vs, rest)
      else if c = '\x7b' then
        within rules room (c :: t) do
          let (ms, rest) ← members rules steps (room - 1) true t
          .ok (ofMembers ms, rest)
      else .error (faultOn .expectedValue (c :: t))

def items (rules : Rules) : (steps room : Nat) → (first : Bool) → Reader (List Json)
  | 0, _, _, _ => .error (faultAt .eofInList [])
  | steps + 1, room, first, t => do
    match ← nextItem first t with
    | .close t => .ok ([], t)
    | .entry t =>
      let (v, t) ← value rules steps room t
      let (vs, t) ← items rules steps room false t
      .ok (v :: vs, t)

def members (rules : Rules) :
    (steps room : Nat) → (first : Bool) → Reader (Except Fault (List (String × Json)))
  | 0, _, _, _ => .error (faultAt .eofInObject [])
  | steps + 1, room, first, t => do
    match ← nextMember first t with
    | .close t => .ok (.ok [], t)
    | .entry t =>
      let (name, t) ← characters rules.lenient none t
      let t ← colon t
      let (v, t) ← value rules steps room t
      let (vs, t) ← members rules steps room false t
      .ok (addMember name v vs, t)

end

def ofText (rules : Rules) (t : List Char) : Except Fault Json := do
  let (v, t) ← value rules (2 * t.length + 1) rules.nesting t
  match skipSpace t with
  | [] => .ok v
  | t => .error (faultOn .trailingCharacters t)

end Conform.Json
