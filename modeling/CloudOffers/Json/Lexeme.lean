import CloudOffers.Decimal.Scaled
import CloudOffers.Json.Error
/-!
Blanks, words, numbers and texts of JSON, read from the front of a list of bytes. Each reader
returns what it read and the bytes that follow.
-/

namespace CloudOffers.Json

abbrev Bytes := List UInt8

def isBlank (b : UInt8) : Bool := b = 0x20 || b = 0x0a || b = 0x09 || b = 0x0d

def isDigit (b : UInt8) : Bool := 0x30 ≤ b && b ≤ 0x39

def skipBlanks (bs : Bytes) : Bytes := bs.dropWhile isBlank

/-- The number that a run of digits writes in base ten. -/
def digitsValue (ds : Bytes) : Nat := ds.foldl (fun n d ↦ 10 * n + (d.toNat - 0x30)) 0

def readWord : Bytes → Bytes → Except Error (Unit × Bytes)
  | [], bs => .ok ((), bs)
  | _ :: _, [] => .error .valueUnfinished
  | w :: word, b :: bs => if b = w then readWord word bs else .error .expectedWord

/-- The integer digits of a number: a zero alone, or digits that start with another one. -/
def readInteger : Bytes → Except Error (Bytes × Bytes)
  | [] => .error .valueUnfinished
  | b :: bs =>
    if b = 0x30 then
      if (bs.head?.map isDigit).getD false then .error .invalidNumber else .ok ([b], bs)
    else if isDigit b then .ok (b :: bs.takeWhile isDigit, bs.dropWhile isDigit)
    else .error .invalidNumber

def readDigits (bs : Bytes) : Except Error (Bytes × Bytes) :=
  match bs with
  | [] => .error .valueUnfinished
  | b :: _ =>
    if isDigit b then .ok (bs.takeWhile isDigit, bs.dropWhile isDigit) else .error .invalidNumber

def readFraction : Bytes → Except Error (Option Bytes × Bytes)
  | 0x2e :: bs => (readDigits bs).map (fun r ↦ (some r.1, r.2))
  | bs => .ok (none, bs)

/-- The sign of an exponent, and what follows it. -/
def readExponentSign : Bytes → Bool × Bytes
  | 0x2d :: bs => (true, bs)
  | 0x2b :: bs => (false, bs)
  | bs => (false, bs)

def exponentValue (negative : Bool) (ds : Bytes) : Int :=
  if negative then -(digitsValue ds : Int) else digitsValue ds

def readExponent : Bytes → Except Error (Option Int × Bytes)
  | [] => .ok (none, [])
  | b :: bs =>
    if b = 0x65 || b = 0x45 then
      (readDigits (readExponentSign bs).2).map (fun r ↦ (some (exponentValue (readExponentSign bs).1 r.1), r.2))
    else .ok (none, b :: bs)

/-- Appends digits to a number while it stays below `2 ^ 64`. The digits left over come with it. -/
def appendDigits (n : Nat) : Bytes → Nat × Bytes
  | [] => (n, [])
  | d :: ds =>
    let next := 10 * n + (d.toNat - 0x30)
    if next < Nat.pow 2 64 then appendDigits next ds else (n, d :: ds)

/-- The float that the parts of a number write. Digits left over of the integer part only count for
the exponent, and those of the fraction not at all. -/
def floatOfParts? (negative : Bool) (whole fraction : Bytes) (exponent : Int) : Option Binary64 :=
  let (n, wholeRest) := appendDigits 0 whole
  let (n, fractionRest) := appendDigits n fraction
  Binary64.ofScaled? negative n
    (exponent + wholeRest.length + fractionRest.length - fraction.length)

/-- What the text of a number is made of. -/
structure Parts where
  negative : Bool
  whole : Bytes
  fraction : Option Bytes
  exponent : Option Int

/-- The sign of a number, and what follows it. -/
def readSign : Bytes → Bool × Bytes
  | 0x2d :: bs => (true, bs)
  | bs => (false, bs)

def readParts (bs : Bytes) : Except Error (Parts × Bytes) := do
  let (whole, rest) ← readInteger (readSign bs).2
  let (fraction, rest) ← readFraction rest
  let (exponent, rest) ← readExponent rest
  .ok (⟨(readSign bs).1, whole, fraction, exponent⟩, rest)

/-- The integer that parts without a fraction and an exponent make, if one holds it. -/
def Parts.integer? (p : Parts) : Option Number :=
  if p.fraction.isNone && p.exponent.isNone then Number.ofInteger? p.negative (digitsValue p.whole)
  else none

def Parts.number (p : Parts) : Except Error Number :=
  match p.integer? with
  | some n => .ok n
  | none =>
    match floatOfParts? p.negative p.whole (p.fraction.getD []) (p.exponent.getD 0) with
    | some x => .ok (.float x)
    | none => .error .numberOutOfRange

def readNumber (bs : Bytes) : Except Error (Number × Bytes) := do
  let (p, rest) ← readParts bs
  .ok (← p.number, rest)

def hexValue? (b : UInt8) : Option Nat :=
  if 0x30 ≤ b && b ≤ 0x39 then some (b.toNat - 0x30)
  else if 0x61 ≤ b && b ≤ 0x66 then some (b.toNat - 0x61 + 10)
  else if 0x41 ≤ b && b ≤ 0x46 then some (b.toNat - 0x41 + 10)
  else none

def readHex : Bytes → Except Error (Nat × Bytes)
  | a :: b :: c :: d :: bs =>
    match hexValue? a, hexValue? b, hexValue? c, hexValue? d with
    | some a, some b, some c, some d => .ok (a * 4096 + b * 256 + c * 16 + d, bs)
    | _, _, _, _ => .error .invalidEscape
  | _ => .error .textUnfinished

def utf8 (codePoint : Nat) : Bytes := String.utf8EncodeChar (Char.ofNat codePoint)

/-- The escape of the second half of a surrogate pair, as the bytes of the character of both. -/
def readSecondHalf (first : Nat) : Bytes → Except Error (Bytes × Bytes)
  | [] => .error .textUnfinished
  | 0x5c :: [] => .error .textUnfinished
  | 0x5c :: 0x75 :: bs => do
    let (second, bs) ← readHex bs
    if 0xdc00 ≤ second && second ≤ 0xdfff then
      .ok (utf8 (0x10000 + (first - 0xd800) * 1024 + (second - 0xdc00)), bs)
    else .error .loneSurrogate
  | _ => .error .brokenSurrogatePair

/-- A hexadecimal escape after `\u`, as the bytes of its character. The halves of a surrogate pair
come as two escapes. -/
def readUnicode (bs : Bytes) : Except Error (Bytes × Bytes) := do
  let (n, bs) ← readHex bs
  if 0xdc00 ≤ n && n ≤ 0xdfff then .error .loneSurrogate
  else if 0xd800 ≤ n && n ≤ 0xdbff then readSecondHalf n bs
  else .ok (utf8 n, bs)

def readEscape : Bytes → Except Error (Bytes × Bytes)
  | [] => .error .textUnfinished
  | b :: bs =>
    if b = 0x22 || b = 0x5c || b = 0x2f then .ok ([b], bs)
    else if b = 0x62 then .ok ([0x08], bs)
    else if b = 0x66 then .ok ([0x0c], bs)
    else if b = 0x6e then .ok ([0x0a], bs)
    else if b = 0x72 then .ok ([0x0d], bs)
    else if b = 0x74 then .ok ([0x09], bs)
    else if b = 0x75 then readUnicode bs
    else .error .invalidEscape

def readTextBytes : Nat → Bytes → Except Error (Bytes × Bytes)
  | 0, _ => .error .textUnfinished
  | _ + 1, [] => .error .textUnfinished
  | fuel + 1, b :: bs =>
    if b = 0x22 then .ok ([], bs)
    else if b = 0x5c then do
      let (c, bs) ← readEscape bs
      let (rest, bs) ← readTextBytes fuel bs
      .ok (c ++ rest, bs)
    else if b < 0x20 then .error .controlCharacter
    else do
      let (rest, bs) ← readTextBytes fuel bs
      .ok (b :: rest, bs)

def readText (bs : Bytes) : Except Error (String × Bytes) := do
  let (bytes, rest) ← readTextBytes (bs.length + 1) bs
  match String.fromUTF8? ⟨bytes.toArray⟩ with
  | some s => .ok (s, rest)
  | none => .error .invalidCodePoint

end CloudOffers.Json
