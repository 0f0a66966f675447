import CloudOffers.Json.Value
import CloudOffers.Text.Quoted
/-!
What can be wrong with a JSON text: its form, its end, or what it holds.
-/

namespace CloudOffers.Json

/-- What was found where something else was wanted. -/
inductive Found where
  | null
  | bool (b : Bool)
  | number (n : Number)
  | text (s : String)
  | list
  | object

inductive Error where
  | expectedValue
  | expectedWord
  | expectedListEnd
  | expectedObjectEnd
  | expectedColon
  | nameNotText
  | trailingComma
  | trailingCharacters
  | invalidNumber
  | numberOutOfRange
  | invalidEscape
  | loneSurrogate
  | brokenSurrogatePair
  | controlCharacter
  | invalidCodePoint
  | tooDeep
  | listUnfinished
  | objectUnfinished
  | textUnfinished
  | valueUnfinished
  | mismatch (found : Found) (wanted : String)
  | unsuitable (found : Found) (wanted : String)
  | missingField (name : String)
  | duplicateField (name : String)
  | wrongLength (length : Nat) (wanted : String)

inductive Category where
  | malformed
  | unfinished
  | content
deriving DecidableEq

def Found.of : Json → Found
  | .null => .null
  | .bool b => .bool b
  | .num n => .number n
  | .str s => .text s
  | .arr _ => .list
  | .obj _ => .object

def Found.message : Found → String
  | .null => "null"
  | .bool true => "boolean `true`"
  | .bool false => "boolean `false`"
  | .number (.float x) => "floating point `" ++ NumberStyle.json.text x ++ "`"
  | .number n => "integer `" ++ n.text ++ "`"
  | .text s => "string " ++ quoted s
  | .list => "sequence"
  | .object => "map"

namespace Error

def category : Error → Category
  | .listUnfinished | .objectUnfinished | .textUnfinished | .valueUnfinished => .unfinished
  | .mismatch .. | .unsuitable .. | .missingField _ | .duplicateField _ | .wrongLength .. => .content
  | _ => .malformed

def message : Error → String
  | .expectedValue => "expected value"
  | .expectedWord => "expected ident"
  | .expectedListEnd => "expected `,` or `]`"
  | .expectedObjectEnd => "expected `,` or `\x7d`"
  | .expectedColon => "expected `:`"
  | .nameNotText => "key must be a string"
  | .trailingComma => "trailing comma"
  | .trailingCharacters => "trailing characters"
  | .invalidNumber => "invalid number"
  | .numberOutOfRange => "number out of range"
  | .invalidEscape => "invalid escape"
  | .loneSurrogate => "lone leading surrogate in hex escape"
  | .brokenSurrogatePair => "unexpected end of hex escape"
  | .controlCharacter => "control character (\\u0000-\\u001F) found while parsing a string"
  | .invalidCodePoint => "invalid unicode code point"
  | .tooDeep => "recursion limit exceeded"
  | .listUnfinished => "EOF while parsing a list"
  | .objectUnfinished => "EOF while parsing an object"
  | .textUnfinished => "EOF while parsing a string"
  | .valueUnfinished => "EOF while parsing a value"
  | .mismatch found wanted => "invalid type: " ++ found.message ++ ", expected " ++ wanted
  | .unsuitable found wanted => "invalid value: " ++ found.message ++ ", expected " ++ wanted
  | .missingField name => "missing field `" ++ name ++ "`"
  | .duplicateField name => "duplicate field `" ++ name ++ "`"
  | .wrongLength length wanted => "invalid length " ++ toString length ++ ", expected " ++ wanted

end Error

end CloudOffers.Json
