import ReplicationQueue.Text.Quoted
import ReplicationQueue.Decimal.Shortest

/-! What can be wrong with a JSON text. A fault is the cause; its category says whether the text
ended early, is malformed, or is well formed but not what was wanted; its message is one line. -/

namespace ReplicationQueue.Json

/-- A value that was met where another was wanted. Sequences and maps are not looked into. -/
inductive Found where
  | null
  | boolean (value : Bool)
  | integer (value : Int)
  | float (negative : Bool) (magnitude : Binary64)
  | text (value : String)
  | sequence
  | map
  deriving DecidableEq

/-- Floating point numbers from `0.00001` to below `1e+16` have their point in place. -/
def numberStyle : Decimal.Style :=
  ⟨-5, 16, "+"⟩

def Found.describe : Found → String
  | .null => "null"
  | .boolean value => "boolean `" ++ (if value then "true" else "false") ++ "`"
  | .integer value => "integer `" ++ toString value ++ "`"
  | .float negative magnitude =>
    let sign := if negative then "-" else ""
    "floating point `" ++ sign ++ Decimal.write numberStyle magnitude ++ "`"
  | .text value => "string " ++ Text.quoted value
  | .sequence => "sequence"
  | .map => "map"

/-- What was being read when the text ended. -/
inductive Unfinished where
  | value
  | string
  | object
  | list
  deriving DecidableEq

inductive Fault where
  | ended (what : Unfinished)
  | expectedValue
  | expectedWord
  | expectedColon
  | expectedCommaOrBrace
  | expectedCommaOrBracket
  | keyNotString
  | trailingComma
  | trailingCharacters
  | invalidNumber
  | numberOutOfRange
  | invalidEscape
  | unfinishedPair
  | loneSurrogate
  | invalidUtf8
  | controlCharacter
  | missingField (name : String)
  | duplicateField (name : String)
  | wrongType (found : Found) (wanted : String)
  | wrongLength (length : Nat) (wanted : String)
  | unknownVariant (name : String) (wanted : String)
  | invalidKey (text : String)
  deriving DecidableEq

inductive Category where
  | early
  | malformed
  | unwanted
  deriving DecidableEq, Repr

def Fault.category : Fault → Category
  | .ended _ => .early
  | .missingField _ | .duplicateField _ | .wrongType _ _ | .wrongLength _ _ | .unknownVariant _ _
  | .invalidKey _ => .unwanted
  | _ => .malformed

def Unfinished.describe : Unfinished → String
  | .value => "a value"
  | .string => "a string"
  | .object => "an object"
  | .list => "a list"

/-- The message about a text that is not a task key. -/
def invalidKeyMessage (text : String) : String :=
  "invalid task key: " ++ Text.quoted text

def Fault.message : Fault → String
  | .ended what => "EOF while parsing " ++ what.describe
  | .expectedValue => "expected value"
  | .expectedWord => "expected ident"
  | .expectedColon => "expected `:`"
  | .expectedCommaOrBrace => "expected `,` or `\x7d`"
  | .expectedCommaOrBracket => "expected `,` or `]`"
  | .keyNotString => "key must be a string"
  | .trailingComma => "trailing comma"
  | .trailingCharacters => "trailing characters"
  | .invalidNumber => "invalid number"
  | .numberOutOfRange => "number out of range"
  | .invalidEscape => "invalid escape"
  | .unfinishedPair => "unexpected end of hex escape"
  | .loneSurrogate => "lone leading surrogate in hex escape"
  | .invalidUtf8 => "invalid unicode code point"
  | .controlCharacter => "control character (\\u0000-\\u001F) found while parsing a string"
  | .missingField name => "missing field `" ++ name ++ "`"
  | .duplicateField name => "duplicate field `" ++ name ++ "`"
  | .wrongType found wanted => "invalid type: " ++ found.describe ++ ", expected " ++ wanted
  | .wrongLength length wanted => "invalid length " ++ toString length ++ ", expected " ++ wanted
  | .unknownVariant name wanted => "unknown variant `" ++ name ++ "`, expected " ++ wanted
  | .invalidKey text => invalidKeyMessage text

end ReplicationQueue.Json
