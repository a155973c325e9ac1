import Conform.Error.Spec
import Conform.Error.Validation

/-!
# Failures

Whatever can go wrong between reading a spec and answering for a value, under one type. A failure is put
into words that include the words of what caused it.
-/

namespace Conform

inductive Failure where
  | spec (e : SpecError)
  | validation (e : ValidationError)
  | validations (es : ValidationErrors)
  | unreadable (reason : String)
  | malformed (report : String)

namespace Failure

def cause : Failure → String
  | spec e => e.message
  | validation e => e.text
  | validations es => es.text
  | unreadable reason => reason
  | malformed report => report

def message : Failure → String
  | spec e => "Spec error: " ++ e.message
  | validation e => "Validation error: " ++ e.text
  | validations es => es.text
  | unreadable reason => "I/O error: " ++ reason
  | malformed report => "Serialization error: " ++ report

end Failure

end Conform
