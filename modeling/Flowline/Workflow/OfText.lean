import Flowline.Notice
import Flowline.Workflow.OfJson

/-!
# Workflows from text

A workflow is read from a JSON text, or found in a generated text that may say more around it:
what counts there is the span from the first opening brace to the last closing one. Looking up the
fields of a value cannot fail; `Workflow.convert` goes through its members, where it might.
-/

namespace Flowline

namespace Workflow

/-- The workflow that a value describes. -/
def ofJson : Json → Except Issue Workflow
  | .object ms => .ok (ofMembers ms)
  | j => .error (.notAnObject j.kindName)

/-- The workflow that a text describes. -/
def parse (text : String) : Except Issue Workflow :=
  match Json.read text with
  | .ok j => ofJson j
  | .error f => .error (.malformedText (f.locate text.toList))

/-- The part of a text from the first opening brace to the last closing brace behind it. -/
def objectSpan? (text : List Char) : Option (List Char) :=
  match text.dropWhile (· != '\x7b') with
  | [] => none
  | c :: cs =>
    match cs.reverse.dropWhile (· != '\x7d') with
    | [] => none
    | d :: ds => some (c :: (d :: ds).reverse)

/-- The workflow inside a generated text. -/
def extract (text : String) : Except Issue Workflow :=
  match objectSpan? text.toList with
  | none => .error .noObject
  | some span =>
    match Json.read (String.ofList span) with
    | .ok j => ofJson j
    | .error f => .error (.malformedObject (f.locate span))

/-- The workflow inside a generated text, or one that carries the prompt. The latter is noticed. -/
def generated (text prompt : String) : Workflow × List Notice :=
  match extract text with
  | .ok w => (w, [])
  | .error i => (fallback prompt, [.fallback i])

end Workflow

end Flowline
