import Conform.Binary64.Style
import Conform.Instant.Printer
import Conform.Value

/-!
# Values as text

The text that the type `string` gives a value: numbers in full with no power of ten, dates with a zero
offset, the items of an array between commas with nulls left out, and one fixed text for all objects.
-/

namespace Conform.Value

/-- Numbers in text have their point in place, and a half goes up. -/
def numberStyle : Binary64.Style := ⟨.up, fun _ => true, false⟩

def numberText : Binary64 → String
  | .nan => "NaN"
  | .infinite negative => if negative then "-inf" else "inf"
  | .finite negative rank => String.ofList (numberStyle.write negative rank)

mutual

def text : Value → String
  | null => "null"
  | bool b => if b then "true" else "false"
  | number n => numberText n
  | string s => s
  | date d => String.ofList d.text
  | array items => ",".intercalate (itemTexts items)
  | object _ => "[object Object]"

def itemTexts : List Value → List String
  | [] => []
  | v :: items => (if v.isNull then "" else text v) :: itemTexts items

end

end Conform.Value
