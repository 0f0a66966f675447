import CloudOffers.Settings.Layer
import CloudOffers.Text.Blank
/-!
Settings in the environment. A variable names a setting after a common beginning, in any case; its
value is a word, a number, a list, a map or a quoted text. A value that does not read as one of them
to its end stands for itself.
-/

namespace CloudOffers.Environment

def isBlank (c : Char) : Bool := c = ' ' || c = '\t' || c = '\n' || c = '\x0c' || c = '\r'

def skipBlanks (cs : List Char) : List Char := cs.dropWhile isBlank

def isSeparator (c : Char) : Bool := c = ',' || c = '\x7b' || c = '\x7d' || c = '[' || c = ']'

def isNameChar (c : Char) : Bool := c.isAlphanum || c = '_' || c = '-'

/-- Splits a quoted text at its closing quote. A backslash takes the character after it along. -/
def splitQuoted? : List Char → Option (List Char × List Char)
  | [] => none
  | '"' :: cs => some ([], cs)
  | '\\' :: c :: cs => (splitQuoted? cs).map (fun r ↦ ('\\' :: c :: r.1, r.2))
  | c :: cs => (splitQuoted? cs).map (fun r ↦ (c :: r.1, r.2))

def unescape? : Nat → List Char → Option (List Char)
  | _, [] => some []
  | 0, _ => none
  | fuel + 1, '\\' :: cs => do
    let (c, cs) ← Toml.readEscape? cs
    some (c :: (← unescape? fuel cs))
  | fuel + 1, c :: cs => if Toml.isPlain c then (unescape? fuel cs).map (c :: ·) else none

/-- The characters at the front that fit into so many bytes. -/
def fitting : Nat → List Char → List Char
  | _, [] => []
  | n, c :: cs => if c.utf8Size ≤ n then c :: fitting (n - c.utf8Size) cs else []

/-- What a quoted text stands for. If it has escapes, then what comes before the first is cut to as
many bytes as it has characters. -/
def unquote? (cs : List Char) : Option (List Char) := do
  let before := cs.takeWhile (· ≠ '\\')
  let escaped := cs.dropWhile (· ≠ '\\')
  if before.all Toml.isPlain then
    if escaped.isEmpty then some before
    else some (fitting before.length before ++ (← unescape? escaped.length escaped))
  else none

/-- Reads a quoted text after its opening quote. -/
def readQuoted? (cs : List Char) : Option (List Char × List Char) := do
  let (quoted, cs) ← splitQuoted? cs
  some (← unquote? quoted, cs)

/-- Digits with a sign that is allowed, as a number. -/
def integer? (cs : List Char) : Option Setting :=
  let number? := fun (ds : List Char) ↦
    if ds.isEmpty || !ds.all Char.isDigit then none else some (Toml.digitsValue 10 ds)
  match cs with
  | '-' :: ds => do
    let n ← number? ds
    if n ≤ Nat.pow 2 63 then some (.signed (-n)) else none
  | cs => do
    let n ← number? (match cs with
      | '+' :: ds => ds
      | ds => ds)
    if n < Nat.pow 2 64 then some (.unsigned n) else none

def exponent? : List Char → Option Int
  | [] => some 0
  | c :: cs =>
    if c = 'e' || c = 'E' then
      let (negative, ds) := match cs with
        | '-' :: ds => (true, ds)
        | '+' :: ds => (false, ds)
        | ds => (false, ds)
      if ds.isEmpty || !ds.all Char.isDigit then none
      else some (if negative then -(Toml.digitsValue 10 ds : Int) else Toml.digitsValue 10 ds)
    else none

/-- A number with a point and digits on at least one side of it. -/
def float? (cs : List Char) : Option Binary64 := do
  let (negative, cs) := match cs with
    | '-' :: cs => (true, cs)
    | '+' :: cs => (false, cs)
    | cs => (false, cs)
  let whole := cs.takeWhile Char.isDigit
  match cs.dropWhile Char.isDigit with
  | '.' :: cs =>
    let fraction := cs.takeWhile Char.isDigit
    let exponent ← exponent? (cs.dropWhile Char.isDigit)
    if whole.isEmpty && fraction.isEmpty then none
    else some (Binary64.ofDecimal negative (Toml.digitsValue 10 (whole ++ fraction))
      (exponent - fraction.length))
  | _ => none

/-- What a word stands for: a number with a point, an integer, or itself. -/
def word (cs : List Char) : Setting :=
  let cs := trimBoth isWhiteSpace cs
  match float? cs with
  | some x => .float x
  | none => (integer? cs).getD (.text (String.ofList cs))

def skipName? (cs : List Char) : Option (List Char) :=
  match skipBlanks cs with
  | '"' :: cs => (readQuoted? cs).map (fun r ↦ skipBlanks r.2)
  | cs =>
    if (cs.takeWhile isNameChar).isEmpty then none
    else some (skipBlanks (cs.dropWhile isNameChar))

mutual

/-- Reads a value with blanks around it. -/
def readSetting? : Nat → List Char → Option (Setting × List Char)
  | 0, _ => none
  | fuel + 1, cs =>
    let read : Option (Setting × List Char) := match skipBlanks cs with
      | 't' :: 'r' :: 'u' :: 'e' :: cs => some (.bool true, cs)
      | 'f' :: 'a' :: 'l' :: 's' :: 'e' :: cs => some (.bool false, cs)
      | '[' :: cs => (readItems? fuel cs).map (fun r ↦ (.list r.1, r.2))
      | '\x7b' :: cs => (skipMembers? fuel cs).map (fun cs ↦ (.map, cs))
      | '"' :: cs => (readQuoted? cs).map (fun r ↦ (.text (String.ofList r.1), r.2))
      | '\'' :: c :: '\'' :: cs => some (.text (String.singleton c), cs)
      | '\'' :: _ => none
      | cs => some (word (cs.takeWhile (fun c ↦ !isSeparator c)), cs.dropWhile (fun c ↦ !isSeparator c))
    read.map (fun r ↦ (r.1, skipBlanks r.2))

def readItems? : Nat → List Char → Option (List Setting × List Char)
  | 0, _ => none
  | _, ']' :: cs => some ([], cs)
  | fuel + 1, cs => do
    let (v, cs) ← readSetting? fuel cs
    match cs with
    | ',' :: cs =>
      let (rest, cs) ← readItems? fuel cs
      some (v :: rest, cs)
    | ']' :: cs => some ([v], cs)
    | _ => none

def skipMembers? : Nat → List Char → Option (List Char)
  | 0, _ => none
  | _, '\x7d' :: cs => some cs
  | fuel + 1, cs => do
    match ← skipName? cs with
    | '=' :: cs =>
      let (_, cs) ← readSetting? fuel cs
      match cs with
      | ',' :: cs => skipMembers? fuel cs
      | '\x7d' :: cs => some cs
      | _ => none
    | _ => none

end

def setting (value : String) : Setting :=
  match readSetting? (2 * value.length + 2) value.toList with
  | some (v, []) => v
  | _ => .text value

def dropStart? : List Char → List Char → Option (List Char)
  | [], cs => some cs
  | _ :: _, [] => none
  | b :: start, c :: cs => if b.toLower = c.toLower then dropStart? start cs else none

/-- The parts of a name. Two underscores or a point part them. -/
def parts : List Char → List (List Char)
  | [] => [[]]
  | '_' :: '_' :: cs => [] :: parts cs
  | '.' :: cs => [] :: parts cs
  | c :: cs =>
    match parts cs with
    | [] => [[c]]
    | first :: rest => (c :: first) :: rest

def start : String := "CLOUDINFO_"

/-- The variable that names the file of settings is no setting itself. -/
def fileVariable : String := "CONFIG_FILE"

/-- The setting that a variable gives, if it is one. A name of several parts gives a map. -/
def ofVariable? (name value : String) : Option (String × Setting) := do
  let rest ← dropStart? start.toList (trimBoth isWhiteSpace name.toList)
  let rest := trimBoth isWhiteSpace (rest.map Char.toLower)
  if rest = fileVariable.toList.map Char.toLower || (parts rest).any List.isEmpty then none
  else
    match parts rest with
    | [one] => some (String.ofList one, setting value)
    | first :: _ => some (String.ofList first, .map)
    | [] => none

/-- The settings of the variables; of those that give the same one the last counts. -/
def layer (vars : List (String × String)) : Layer :=
  Dict.ofList (vars.filterMap (fun v ↦ ofVariable? v.1 v.2))

def file? (vars : List (String × String)) : Option String :=
  (vars.find? (fun v ↦ v.1 = start ++ fileVariable)).map (·.2)

end CloudOffers.Environment
