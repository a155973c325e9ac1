import Conform.Instant
import Conform.Text.Blank
import Conform.Text.Digits

/-!
# Instants from text

Three forms are tried in turn: a date and time with a zone and fields of fixed width, a date and time in
loose fields with no zone, and a date in loose fields. A loose field may stand after blanks and be shorter
than usual, and a loose year with a sign may be longer. Times with no zone are read as if at offset zero.
-/

namespace Conform.Instant

open Conform.Text

/-- A reader takes something off the start of a text and leaves the rest. -/
abbrev Reader (α : Type) := List Char → Option (α × List Char)

def expect (c : Char) : List Char → Option (List Char)
  | [] => none
  | d :: t => if d = c then some t else none

def fixed (width : Nat) : Reader Nat := fun t =>
  let digits := t.take width
  if digits.length = width ∧ digits.all Char.isDigit then some (decimal digits, t.drop width) else none

def upTo (width : Nat) : Reader Nat := fun t =>
  let digits := (t.take width).takeWhile Char.isDigit
  if digits.isEmpty then none else some (decimal digits, t.drop digits.length)

def unbounded : Reader Nat := fun t =>
  let digits := leadingDigits t
  if digits.isEmpty then none else some (decimal digits, afterDigits t)

/-- The nanoseconds that fraction digits write, those after the ninth dropped. -/
def nanosOfDigits (digits : List Char) : Nat :=
  let kept := digits.take 9
  decimal kept * Nat.pow 10 (9 - kept.length)

def fraction : Reader Nat
  | '.' :: t =>
    let digits := leadingDigits t
    if digits.isEmpty then none else some (nanosOfDigits digits, afterDigits t)
  | t => some (0, t)

/-- An offset from a zone: a letter for none, or a sign with hours and minutes. -/
def offset : Reader Int
  | [] => none
  | c :: t =>
    if c = 'Z' ∨ c = 'z' then some (0, t)
    else if c = '+' ∨ c = '-' ∨ c = '\u2212' then do
      let (hours, t) ← fixed 2 t
      let t ← expect ':' t
      let (minutes, t) ← fixed 2 t
      if hours ≤ 23 ∧ minutes ≤ 59 then
        let seconds : Int := hours * 3600 + minutes * 60
        some (if c = '+' then seconds else -seconds, t)
      else none
    else none

def separator : List Char → Option (List Char)
  | [] => none
  | c :: t => if c = 'T' ∨ c = 't' ∨ c = ' ' then some t else none

/-- The first form: fields of fixed width and a zone. -/
def ofZonedText? (t : List Char) : Option Instant := do
  let (year, t) ← fixed 4 t
  let t ← expect '-' t
  let (month, t) ← fixed 2 t
  let t ← expect '-' t
  let (day, t) ← fixed 2 t
  let t ← separator t
  let (hour, t) ← fixed 2 t
  let t ← expect ':' t
  let (minute, t) ← fixed 2 t
  let t ← expect ':' t
  let (second, t) ← fixed 2 t
  let (nanos, t) ← fraction t
  let (shift, t) ← offset t
  if t.isEmpty then ofFields? ⟨⟨year, month, day⟩, hour, minute, second, nanos⟩ shift else none

def loose : Reader Nat := fun t => upTo 2 (skipBlanks t)

/-- A loose year: up to four digits, or a sign and any number of them. -/
def looseYear : Reader Int := fun t =>
  match skipBlanks t with
  | '-' :: t => (unbounded t).map fun (n, t) => (-(n : Int), t)
  | '+' :: t => (unbounded t).map fun (n, t) => ((n : Int), t)
  | t => (upTo 4 t).map fun (n, t) => ((n : Int), t)

def looseDate : Reader Calendar.Date := fun t => do
  let (year, t) ← looseYear t
  let t ← expect '-' t
  let (month, t) ← loose t
  let t ← expect '-' t
  let (day, t) ← loose t
  some (⟨year, month, day⟩, t)

/-- The second form: date and time in loose fields. -/
def ofLocalText? (t : List Char) : Option Instant := do
  let (date, t) ← looseDate t
  let t ← expect 'T' t
  let (hour, t) ← loose t
  let t ← expect ':' t
  let (minute, t) ← loose t
  let t ← expect ':' t
  let (second, t) ← loose t
  let (nanos, t) ← fraction t
  if t.isEmpty then ofFields? ⟨date, hour, minute, second, nanos⟩ 0 else none

def ofDateText? (t : List Char) : Option Instant := do
  let (date, t) ← looseDate t
  if t.isEmpty then ofFields? ⟨date, 0, 0, 0, 0⟩ 0 else none

/-- The instant that a text names, blanks at both ends aside. -/
def ofText? (t : List Char) : Option Instant :=
  let t := trim t
  (ofZonedText? t).orElse fun _ => (ofLocalText? t).orElse fun _ => ofDateText? t

end Conform.Instant
