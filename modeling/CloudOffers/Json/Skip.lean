import CloudOffers.Json.Lexeme
/-!
Passing over a value of which nothing is wanted. Its form is checked, but neither the size of its
numbers, nor the characters of its texts, nor how deep it nests.
-/

namespace CloudOffers.Json

def skipDigits (bs : Bytes) : Except Error Bytes :=
  match bs with
  | [] => .error .invalidNumber
  | b :: bs => if isDigit b then .ok (bs.dropWhile isDigit) else .error .invalidNumber

def skipInteger : Bytes → Except Error Bytes
  | [] => .error .invalidNumber
  | b :: bs =>
    if b = 0x30 then
      if (bs.head?.map isDigit).getD false then .error .invalidNumber else .ok bs
    else if isDigit b then .ok (bs.dropWhile isDigit)
    else .error .invalidNumber

def skipExponent : Bytes → Except Error Bytes
  | [] => .ok []
  | b :: bs =>
    if b = 0x65 || b = 0x45 then skipDigits (readExponentSign bs).2 else .ok (b :: bs)

def skipFraction : Bytes → Except Error Bytes
  | 0x2e :: bs => skipDigits bs
  | bs => .ok bs

def skipNumber (bs : Bytes) : Except Error Bytes := do
  skipExponent (← skipFraction (← skipInteger (readSign bs).2))

def skipEscape : Bytes → Except Error Bytes
  | [] => .error .textUnfinished
  | b :: bs =>
    if b = 0x75 then (readHex bs).map (·.2)
    else if [0x22, 0x5c, 0x2f, 0x62, 0x66, 0x6e, 0x72, 0x74].contains b then .ok bs
    else .error .invalidEscape

def skipText : Nat → Bytes → Except Error Bytes
  | 0, _ => .error .textUnfinished
  | _ + 1, [] => .error .textUnfinished
  | fuel + 1, b :: bs =>
    if b = 0x22 then .ok bs
    else if b = 0x5c then do skipText fuel (← skipEscape bs)
    else if b < 0x20 then .error .controlCharacter
    else skipText fuel bs

def skipWord (word bs : Bytes) : Except Error Bytes := (readWord word bs).map (·.2)

/-- Passes over a value that is no list and no object. -/
def skipScalar (b : UInt8) (bs : Bytes) : Except Error Bytes :=
  if b = 0x6e then skipWord [0x75, 0x6c, 0x6c] bs
  else if b = 0x74 then skipWord [0x72, 0x75, 0x65] bs
  else if b = 0x66 then skipWord [0x61, 0x6c, 0x73, 0x65] bs
  else if b = 0x2d || isDigit b then skipNumber (b :: bs)
  else if b = 0x22 then skipText (bs.length + 1) bs
  else .error .expectedValue

mutual

def skipValue : Nat → Bytes → Except Error Bytes
  | 0, _ => .error .valueUnfinished
  | fuel + 1, bs =>
    match skipBlanks bs with
    | [] => .error .valueUnfinished
    | b :: bs =>
      if b = 0x5b then
        match skipBlanks bs with
        | [] => .error .listUnfinished
        | 0x5d :: bs => .ok bs
        | bs => skipItems fuel bs
      else if b = 0x7b then
        match skipBlanks bs with
        | [] => .error .objectUnfinished
        | 0x7d :: bs => .ok bs
        | bs => skipMembers fuel bs
      else skipScalar b bs

def skipItems : Nat → Bytes → Except Error Bytes
  | 0, _ => .error .listUnfinished
  | fuel + 1, bs => do
    match skipBlanks (← skipValue fuel bs) with
    | [] => .error .listUnfinished
    | 0x2c :: bs => skipItems fuel bs
    | 0x5d :: bs => .ok bs
    | _ => .error .expectedListEnd

def skipMembers : Nat → Bytes → Except Error Bytes
  | 0, _ => .error .objectUnfinished
  | fuel + 1, bs =>
    match skipBlanks bs with
    | [] => .error .objectUnfinished
    | 0x22 :: bs => do
      match skipBlanks (← skipText (bs.length + 1) bs) with
      | [] => .error .objectUnfinished
      | 0x3a :: bs =>
        match skipBlanks (← skipValue fuel bs) with
        | [] => .error .objectUnfinished
        | 0x2c :: bs => skipMembers fuel bs
        | 0x7d :: bs => .ok bs
        | _ => .error .expectedObjectEnd
      | _ => .error .expectedColon
    | _ => .error .nameNotText

end

/-- Passes over one value; the bytes bound the steps. -/
def skip (bs : Bytes) : Except Error Bytes := skipValue (2 * bs.length + 2) bs

end CloudOffers.Json
