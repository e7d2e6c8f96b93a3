import Flowline.Binary64.Shortest
import Flowline.Json.Writer
import Flowline.Text.Shown

/-!
# Why a text cannot be read

A fault is a cause and the place in the text where reading stopped. Causes are of two kinds: the
text breaks the grammar of JSON, or a value does not have the shape that its reader wants. The
place is kept as the number of bytes that had not been taken yet, so that it does not depend on
how the reader walked; `Fault.locate` turns it into a line and a column.
-/

namespace Flowline.Json

/-- The number of bytes of a text. -/
def byteCount : List Char → Nat
  | [] => 0
  | c :: cs => c.utf8Size + byteCount cs

/-- How a text breaks the grammar. -/
inductive Grammar where
  | endInValue
  | endInArray
  | endInObject
  | endInString
  | expectedValue
  | misspelledWord
  | expectedColon
  | expectedCommaOrBracket
  | expectedCommaOrBrace
  | keyNotString
  | trailingComma
  | trailingText
  | invalidNumber
  | numberOutOfRange
  | invalidEscape
  | loneSurrogate
  | endOfHexEscape
  | controlCharacter
  | tooDeep
  deriving DecidableEq, Repr, Inhabited

namespace Grammar

/-- The wording of a break of the grammar. -/
def message : Grammar → String
  | endInValue => "EOF while parsing a value"
  | endInArray => "EOF while parsing a list"
  | endInObject => "EOF while parsing an object"
  | endInString => "EOF while parsing a string"
  | expectedValue => "expected value"
  | misspelledWord => "expected ident"
  | expectedColon => "expected `:`"
  | expectedCommaOrBracket => "expected `,` or `]`"
  | expectedCommaOrBrace => "expected `,` or `\x7d`"
  | keyNotString => "key must be a string"
  | trailingComma => "trailing comma"
  | trailingText => "trailing characters"
  | invalidNumber => "invalid number"
  | numberOutOfRange => "number out of range"
  | invalidEscape => "invalid escape"
  | loneSurrogate => "lone leading surrogate in hex escape"
  | endOfHexEscape => "unexpected end of hex escape"
  | controlCharacter => "control character (\\u0000-\\u001F) found while parsing a string"
  | tooDeep => "recursion limit exceeded"

end Grammar

/-- What stands in a place where something else was wanted. -/
inductive Found where
  | null
  | bool (value : Bool)
  | int (value : Int)
  | double (value : Binary64)
  | string (text : String)
  | sequence
  | map
  deriving DecidableEq, Repr

namespace Found

/-- The name of what was found. -/
def text : Found → String
  | null => "null"
  | bool true => "boolean `true`"
  | bool false => "boolean `false`"
  | int n => "integer `" ++ String.ofList (intText n) ++ "`"
  | double d => "floating point `" ++ String.ofList d.text ++ "`"
  | string s => "string " ++ Text.shown s
  | sequence => "sequence"
  | map => "map"

end Found

/-- How a value misses the shape that is wanted. -/
inductive Misfit where
  | wrongType (found : Found) (wanted : String)
  | wrongValue (value : Int) (wanted : String)
  | unknownVariant (name : String) (known : List String)
  | missingField (name : String)
  | duplicateField (name : String)
  | wrongLength (length : Nat) (wanted : String)
  | malformedUuid
  deriving DecidableEq, Repr

namespace Misfit

/-- The alternatives of an enumeration, as a message lists them. -/
def alternatives : List String → String
  | [] => "there are no variants"
  | [a] => "expected `" ++ a ++ "`"
  | [a, b] => "expected `" ++ a ++ "` or `" ++ b ++ "`"
  | names => "expected one of " ++ ", ".intercalate (names.map fun n => "`" ++ n ++ "`")

/-- The wording of a misfit. -/
def message : Misfit → String
  | wrongType found wanted => "invalid type: " ++ found.text ++ ", expected " ++ wanted
  | wrongValue n wanted =>
    "invalid value: integer `" ++ String.ofList (intText n) ++ "`, expected " ++ wanted
  | unknownVariant name known => "unknown variant `" ++ name ++ "`, " ++ alternatives known
  | missingField name => "missing field `" ++ name ++ "`"
  | duplicateField name => "duplicate field `" ++ name ++ "`"
  | wrongLength n wanted => "invalid length " ++ toString n ++ ", expected " ++ wanted
  | malformedUuid => "UUID parsing failed"

end Misfit

/-- Why reading stopped. -/
inductive Cause where
  | grammar (g : Grammar)
  | misfit (m : Misfit)
  deriving DecidableEq, Repr

/-- The wording of a cause. -/
def Cause.message : Cause → String
  | grammar g => g.message
  | misfit m => m.message

/-- A cause, and how many bytes of the text had not been taken when it showed. -/
structure Fault where
  cause : Cause
  left : Nat
  deriving DecidableEq, Repr

namespace Fault

/-- A break of the grammar in front of the rest of the text. -/
def before (g : Grammar) (rest : List Char) : Fault := ⟨.grammar g, byteCount rest⟩

/-- A break of the grammar at the first byte of the rest of the text, or at the end of the text. -/
def upon (g : Grammar) (rest : List Char) : Fault := ⟨.grammar g, byteCount rest - 1⟩

/-- A misfit that shows in front of the rest of the text. -/
def unfit (m : Misfit) (rest : List Char) : Fault := ⟨.misfit m, byteCount rest⟩

end Fault

/-- A line, counted from one, and the number of bytes taken on that line. -/
structure Place where
  line : Nat
  column : Nat
  deriving DecidableEq, Repr

namespace Place

/-- The place that is a number of bytes further on. -/
def advance (p : Place) : List Char → Nat → Place
  | [], _ => p
  | c :: cs, n =>
    if n = 0 then p
    else if c = '\n' then advance ⟨p.line + 1, 0⟩ cs (n - 1)
    else if n ≤ c.utf8Size then ⟨p.line, p.column + n⟩
    else advance ⟨p.line, p.column + c.utf8Size⟩ cs (n - c.utf8Size)

/-- The place in a text with a number of bytes left. -/
def ofLeft (text : List Char) (left : Nat) : Place :=
  advance ⟨1, 0⟩ text (byteCount text - left)

end Place

/-- A fault whose place in the text has been found. -/
structure TextError where
  cause : Cause
  place : Place
  deriving DecidableEq, Repr

/-- Finds the place of a fault. -/
def Fault.locate (text : List Char) (f : Fault) : TextError := ⟨f.cause, .ofLeft text f.left⟩

/-- The words of an error in a text, with its place. -/
def TextError.message (e : TextError) : String :=
  e.cause.message ++ " at line " ++ toString e.place.line ++ " column " ++ toString e.place.column

end Flowline.Json
