import CloudOffers.Toml.Value
/-!
Blanks, keys, texts, numbers and dates of TOML, read from the front of a list of characters. Each
reader returns what it read and the characters that follow.
-/

namespace CloudOffers.Toml

def isBlank (c : Char) : Bool := c = ' ' || c = '\t'

def skipBlanks (cs : List Char) : List Char := cs.dropWhile isBlank

/-- Whether a character may stand in comments and texts. -/
def isPlain (c : Char) : Bool := c = '\t' || (32 ≤ c.toNat && c.toNat ≠ 127)

def newline? : List Char → Option (List Char)
  | '\n' :: cs => some cs
  | '\r' :: '\n' :: cs => some cs
  | _ => none

def skipComment : List Char → List Char
  | '#' :: cs => cs.dropWhile isPlain
  | cs => cs

/-- Reads what may follow on a line, up to the next line or the end. -/
def endLine? (cs : List Char) : Option (List Char) :=
  match skipComment (skipBlanks cs) with
  | [] => some []
  | cs => newline? cs

def skipLines : Nat → List Char → List Char
  | 0, cs => cs
  | fuel + 1, cs =>
    let cs := skipComment (skipBlanks cs)
    match newline? cs with
    | some rest => skipLines fuel rest
    | none => cs

def isHexDigit (c : Char) : Bool := c.isDigit || ('a' ≤ c && c ≤ 'f') || ('A' ≤ c && c ≤ 'F')

def digitValue (c : Char) : Nat :=
  if c.isDigit then c.toNat - 48 else if 'a' ≤ c then c.toNat - 87 else c.toNat - 55

def digitsValue (base : Nat) (ds : List Char) : Nat := ds.foldl (fun n d ↦ base * n + digitValue d) 0

def readHex? (n : Nat) (cs : List Char) : Option (Char × List Char) :=
  let ds := cs.take n
  let code := digitsValue 16 ds
  if ds.length = n && ds.all isHexDigit && code.isValidChar then some (Char.ofNat code, cs.drop n)
  else none

def readEscape? : List Char → Option (Char × List Char)
  | 'b' :: cs => some ('\x08', cs)
  | 't' :: cs => some ('\t', cs)
  | 'n' :: cs => some ('\n', cs)
  | 'f' :: cs => some ('\x0c', cs)
  | 'r' :: cs => some ('\r', cs)
  | '"' :: cs => some ('"', cs)
  | '\\' :: cs => some ('\\', cs)
  | 'u' :: cs => readHex? 4 cs
  | 'U' :: cs => readHex? 8 cs
  | _ => none

/-- The rest of a text of one line, with escapes if `q` is the double quote. -/
def readLine? (q : Char) : Nat → List Char → Option (List Char × List Char)
  | 0, _ | _, [] => none
  | fuel + 1, c :: cs =>
    if c = q then some ([], cs)
    else if c = '\\' && q = '"' then do
      let (c, cs) ← readEscape? cs
      let (rest, cs) ← readLine? q fuel cs
      some (c :: rest, cs)
    else if isPlain c then do
      let (rest, cs) ← readLine? q fuel cs
      some (c :: rest, cs)
    else none

def skipSpace : Nat → List Char → List Char
  | 0, cs => cs
  | fuel + 1, cs =>
    match newline? (skipBlanks cs) with
    | some rest => skipSpace fuel rest
    | none => skipBlanks cs

/-- After a backslash at the end of a line: the blanks and line ends up to the next character. -/
def skipContinuation? (cs : List Char) : Option (List Char) :=
  (newline? (skipBlanks cs)).map (fun rest ↦ skipSpace rest.length rest)

/-- The rest of a text of several lines. Of the quotes at its end the last three close it. -/
def readLines? (q : Char) : Nat → List Char → Option (List Char × List Char)
  | 0, _ | _, [] => none
  | fuel + 1, c :: cs =>
    if c = q then
      let quotes := c :: cs.takeWhile (· = q)
      let cs := cs.dropWhile (· = q)
      if quotes.length < 3 then do
        let (rest, cs) ← readLines? q fuel cs
        some (quotes ++ rest, cs)
      else if quotes.length ≤ 5 then some (quotes.drop 3, cs)
      else none
    else if c = '\\' && q = '"' then
      match skipContinuation? cs with
      | some cs => readLines? q fuel cs
      | none => do
        let (c, cs) ← readEscape? cs
        let (rest, cs) ← readLines? q fuel cs
        some (c :: rest, cs)
    else
      match newline? (c :: cs) with
      | some cs => do
        let (rest, cs) ← readLines? q fuel cs
        some ('\n' :: rest, cs)
      | none =>
        if isPlain c then do
          let (rest, cs) ← readLines? q fuel cs
          some (c :: rest, cs)
        else none

def readShort? (q : Char) (cs : List Char) : Option (String × List Char) :=
  (readLine? q (cs.length + 1) cs).map (fun r ↦ (String.ofList r.1, r.2))

/-- Reads a text after its first quote; three quotes open a text of several lines, of which a line
end at its beginning is no part. -/
def readText? (q : Char) (cs : List Char) : Option (String × List Char) :=
  match cs with
  | a :: b :: rest =>
    if a = q && b = q then
      let body := (newline? rest).getD rest
      (readLines? q (body.length + 1) body).map (fun r ↦ (String.ofList r.1, r.2))
    else readShort? q cs
  | cs => readShort? q cs

def isBare (c : Char) : Bool := c.isAlphanum || c = '_' || c = '-'

def readPart? : List Char → Option (String × List Char)
  | '"' :: cs => readShort? '"' cs
  | '\'' :: cs => readShort? '\'' cs
  | cs =>
    let name := cs.takeWhile isBare
    if name.isEmpty then none else some (String.ofList name, cs.dropWhile isBare)

def readKey? : Nat → List Char → Option (List String × List Char)
  | 0, _ => none
  | fuel + 1, cs => do
    let (part, cs) ← readPart? (skipBlanks cs)
    match skipBlanks cs with
    | '.' :: cs =>
      let (rest, cs) ← readKey? fuel cs
      some (part :: rest, cs)
    | cs => some ([part], cs)

/-- Digits with single underscores between them. -/
def readDigits? (isDigit : Char → Bool) : Nat → List Char → Option (List Char × List Char)
  | 0, _ | _, [] => none
  | fuel + 1, c :: cs =>
    if isDigit c then
      let next := match cs with
        | '_' :: rest => rest
        | cs => cs
      match next, cs with
      | d :: _, _ =>
        if isDigit d then (readDigits? isDigit fuel next).map (fun r ↦ (c :: r.1, r.2))
        else some ([c], cs)
      | [], cs => some ([c], cs)
    else none

/-- Decimal digits of a whole number: a zero stands alone. -/
def readWhole? (cs : List Char) : Option (List Char × List Char) :=
  match cs with
  | '0' :: cs => some (['0'], cs)
  | cs => readDigits? Char.isDigit cs.length cs

def readExponent? : List Char → Option (Option Int × List Char)
  | c :: cs =>
    if c = 'e' || c = 'E' then do
      let (negative, cs) := match cs with
        | '-' :: cs => (true, cs)
        | '+' :: cs => (false, cs)
        | cs => (false, cs)
      let (ds, cs) ← readDigits? Char.isDigit cs.length cs
      let n : Int := digitsValue 10 ds
      some (some (if negative then -n else n), cs)
    else some (none, c :: cs)
  | [] => some (none, [])

def readFraction? : List Char → Option (Option (List Char) × List Char)
  | '.' :: cs => (readDigits? Char.isDigit cs.length cs).map (fun r ↦ (some r.1, r.2))
  | cs => some (none, cs)

def integer? (negative : Bool) (n : Nat) : Option Value :=
  if n < Nat.pow 2 63 || (negative && n = Nat.pow 2 63) then
    some (.integer (if negative then -n else n))
  else none

def readDecimal? (negative : Bool) (cs : List Char) : Option (Value × List Char) := do
  let (whole, cs) ← readWhole? cs
  let (fraction, cs) ← readFraction? cs
  let (exponent, cs) ← readExponent? cs
  match fraction, exponent with
  | none, none => some (← integer? negative (digitsValue 10 whole), cs)
  | fraction, exponent =>
    let fraction := fraction.getD []
    let x := Binary64.ofDecimal negative (digitsValue 10 (whole ++ fraction))
      (exponent.getD 0 - fraction.length)
    if x = .infinity false then none else some (.float x, cs)

def readBased? (base : Nat) (isDigit : Char → Bool) (cs : List Char) : Option (Value × List Char) := do
  let (ds, cs) ← readDigits? isDigit cs.length cs
  some (← integer? false (digitsValue base ds), cs)

def readSigned? (negative : Bool) : List Char → Option (Value × List Char)
  | 'i' :: 'n' :: 'f' :: cs => some (.float (.infinity negative), cs)
  | 'n' :: 'a' :: 'n' :: cs => some (.float .nan, cs)
  | cs => readDecimal? negative cs

/-- Two digits that write a number of a range. -/
def readPair? (low high : Nat) : List Char → Option (Nat × List Char)
  | a :: b :: cs =>
    let n := digitsValue 10 [a, b]
    if a.isDigit && b.isDigit && low ≤ n && n ≤ high then some (n, cs) else none
  | _ => none

def isLeap (year : Nat) : Bool := year % 4 = 0 && (year % 100 ≠ 0 || year % 400 = 0)

def daysIn (year month : Nat) : Nat :=
  if month = 2 then if isLeap year then 29 else 28
  else if month = 4 || month = 6 || month = 9 || month = 11 then 30
  else 31

/-- Skips a date such as `1979-05-27`. -/
def skipDate? : List Char → Option (List Char)
  | a :: b :: c :: d :: '-' :: cs => do
    if [a, b, c, d].all Char.isDigit then
      let (month, cs) ← readPair? 1 12 cs
      match cs with
      | '-' :: cs => some (← readPair? 1 (daysIn (digitsValue 10 [a, b, c, d]) month) cs).2
      | _ => none
    else none
  | _ => none

/-- Skips a time of day such as `07:32:00.5`. -/
def skipTime? (cs : List Char) : Option (List Char) := do
  let (_, cs) ← readPair? 0 23 cs
  match cs with
  | ':' :: cs =>
    let (_, cs) ← readPair? 0 59 cs
    match cs with
    | ':' :: cs =>
      let (_, cs) ← readPair? 0 60 cs
      match cs with
      | '.' :: d :: cs => if d.isDigit then some (cs.dropWhile Char.isDigit) else none
      | cs => some cs
    | _ => none
  | _ => none

def skipOffset? : List Char → Option (List Char)
  | 'Z' :: cs | 'z' :: cs => some cs
  | c :: cs =>
    if c = '+' || c = '-' then do
      let (_, cs) ← readPair? 0 23 cs
      match cs with
      | ':' :: cs => some (← readPair? 0 59 cs).2
      | _ => none
    else some (c :: cs)
  | [] => some []

/-- Skips a date with or without a time. After a blank there may be a time or not. -/
def skipMoment? (cs : List Char) : Option (List Char) := do
  let cs ← skipDate? cs
  match cs with
  | 'T' :: rest | 't' :: rest => skipOffset? (← skipTime? rest)
  | ' ' :: rest =>
    match skipTime? rest with
    | some rest => skipOffset? rest
    | none => some cs
  | cs => some cs

/-- Reads a value that starts with a digit: a date, a time, or a number. -/
def readDigital? (cs : List Char) : Option (Value × List Char) :=
  match skipMoment? cs with
  | some rest => some (.moment, rest)
  | none =>
    match skipTime? cs with
    | some rest => some (.moment, rest)
    | none =>
      match cs with
      | '0' :: 'x' :: cs => readBased? 16 isHexDigit cs
      | '0' :: 'o' :: cs => readBased? 8 (fun c ↦ '0' ≤ c && c ≤ '7') cs
      | '0' :: 'b' :: cs => readBased? 2 (fun c ↦ c = '0' || c = '1') cs
      | cs => readDecimal? false cs

end CloudOffers.Toml
