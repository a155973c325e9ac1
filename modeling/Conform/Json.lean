import Conform.Binary64.Basic

/-!
# JSON documents

A document as it is written: members of an object in order, repeated names included, and numbers told apart
by their spelling. What follows the grammar and yet stands for no data is kept in its place together with
the fault that reading it as data meets, so that a reader can pass over it.
-/

namespace Conform

namespace Json

/-- Why a text is no document, or a document no data. -/
inductive Cause where
  | eofInValue
  | eofInString
  | eofInList
  | eofInObject
  | expectedValue
  | expectedWord
  | expectedColon
  | expectedListEnd
  | expectedObjectEnd
  | keyNotString
  | trailingComma
  | trailingCharacters
  | invalidNumber
  | invalidEscape
  | controlCharacter
  | numberOutOfRange
  | loneSurrogate
  | unpairedSurrogate
  | tooDeep
deriving DecidableEq

namespace Cause

def message : Cause → String
  | eofInValue => "EOF while parsing a value"
  | eofInString => "EOF while parsing a string"
  | eofInList => "EOF while parsing a list"
  | eofInObject => "EOF while parsing an object"
  | expectedValue => "expected value"
  | expectedWord => "expected ident"
  | expectedColon => "expected `:`"
  | expectedListEnd => "expected `,` or `]`"
  | expectedObjectEnd => "expected `,` or `\x7d`"
  | keyNotString => "key must be a string"
  | trailingComma => "trailing comma"
  | trailingCharacters => "trailing characters"
  | invalidNumber => "invalid number"
  | invalidEscape => "invalid escape"
  | controlCharacter => "control character (\\u0000-\\u001F) found while parsing a string"
  | numberOutOfRange => "number out of range"
  | loneSurrogate => "lone leading surrogate in hex escape"
  | unpairedSurrogate => "unexpected end of hex escape"
  | tooDeep => "recursion limit exceeded"

end Cause

structure Fault where
  cause : Cause
  rest : List Char
  seen : Nat
deriving DecidableEq

def byteCount (t : List Char) : Nat := t.foldl (fun bytes c => bytes + c.utf8Size) 0

/-- A place in a text: the line, from one, and the bytes read of that line. -/
structure Place where
  line : Nat
  column : Nat
deriving DecidableEq

namespace Place

def start : Place := ⟨1, 0⟩

/-- The place so many bytes further on in a text, or at its end. The last of them may be inside a character. -/
def forward (place : Place) (bytes : Nat) : List Char → Place
  | [] => place
  | c :: t =>
    if bytes = 0 then place
    else if c = '\n' then forward ⟨place.line + 1, 0⟩ (bytes - 1) t
    else forward ⟨place.line, place.column + min bytes c.utf8Size⟩ (bytes - c.utf8Size) t

def after (text : List Char) : Place := start.forward (byteCount text) text

end Place

def Fault.place (f : Fault) (text : List Char) : Place :=
  (Place.after (text.take (text.length - f.rest.length))).forward f.seen f.rest

def Fault.message (f : Fault) (text : List Char) : String :=
  let place := f.place text
  f.cause.message ++ " at line " ++ toString place.line ++ " column " ++ toString place.column

end Json

inductive Json where
  | null
  | bool (b : Bool)
  | integer (n : Int)
  | real (x : Binary64)
  | string (s : String)
  | array (items : List Json)
  | object (members : List (String × Json))
  | beyond (fault : Json.Fault)

end Conform
