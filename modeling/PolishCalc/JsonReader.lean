import PolishCalc.Json
import PolishCalc.Utf8

namespace PolishCalc

namespace JsonReader

def isSpace (c : Char) : Bool := c = ' ' || c = '\t' || c = '\n' || c = '\r'

def skipSpace (cs : List Char) : List Char := cs.dropWhile isSpace

/-- What follows the given word, if the text starts with it. -/
def after? (word : String) (cs : List Char) : Option (List Char) :=
  if word.toList.isPrefixOf cs then some (cs.drop word.length) else none

/-- Four hexadecimal digits. -/
def unit? : List Char → Option (Nat × List Char)
  | a :: b :: c :: d :: cs => do
    let a ← hexValue? a
    let b ← hexValue? b
    let c ← hexValue? c
    let d ← hexValue? d
    some (((a * 16 + b) * 16 + c) * 16 + d, cs)
  | _ => none

/-- The character after a backslash and the letter u: two units can make up one character. A text
holds characters only, so half of such a pair stands for no character of its own: it is read as the
replacement character, and texts that differ in such halves alone are not told apart. -/
def escaped? (cs : List Char) : Option (Char × List Char) := do
  let (n, cs) ← unit? cs
  if 0xD800 ≤ n && n < 0xDC00 then
    match cs with
    | '\\' :: 'u' :: rest =>
      match unit? rest with
      | some (m, rest') =>
        if 0xDC00 ≤ m && m < 0xE000 then
          some (Char.ofNat (0x10000 + (n - 0xD800) * 0x400 + (m - 0xDC00)), rest')
        else some (Char.ofNat 0xFFFD, cs)
      | none => none
    | _ => some (Char.ofNat 0xFFFD, cs)
  else if 0xDC00 ≤ n && n < 0xE000 then some (Char.ofNat 0xFFFD, cs)
  else some (Char.ofNat n, cs)

/-- The named character after a backslash. -/
def named? (c : Char) : Option Char :=
  if c = doubleQuote || c = '\\' || c = '/' then some c
  else if c = 'b' then some (Char.ofNat 8)
  else if c = 'f' then some (Char.ofNat 12)
  else if c = 'n' then some '\n'
  else if c = 'r' then some '\r'
  else if c = 't' then some '\t'
  else none

/-- The characters up to the closing quote, and what follows it. -/
def string? : Nat → List Char → Option (List Char × List Char)
  | 0, _ => none
  | _, [] => none
  | fuel + 1, c :: cs =>
    if c = doubleQuote then some ([], cs)
    else if c.toNat < 0x20 then none
    else if c = '\\' then
      match cs with
      | [] => none
      | 'u' :: cs => do
        let (c, rest) ← escaped? cs
        let (s, rest) ← string? fuel rest
        some (c :: s, rest)
      | e :: cs => do
        let c ← named? e
        let (s, rest) ← string? fuel cs
        some (c :: s, rest)
    else do
      let (s, rest) ← string? fuel cs
      some (c :: s, rest)

/-- Digits after a point, if there is a point with a digit after it. -/
def fraction (cs : List Char) : List Char × List Char :=
  match cs with
  | '.' :: rest =>
    let ds := rest.takeWhile Char.isDigit
    if ds.isEmpty then ([], cs) else (ds, rest.dropWhile Char.isDigit)
  | _ => ([], cs)

/-- An exponent, if there is one with at least one digit. -/
def exponent (cs : List Char) : Option Int × List Char :=
  match cs with
  | e :: rest =>
    if e = 'e' || e = 'E' then
      let (negative, rest) := match rest with
        | '-' :: rest => (true, rest)
        | '+' :: rest => (false, rest)
        | rest => (false, rest)
      let ds := rest.takeWhile Char.isDigit
      if ds.isEmpty then (none, cs)
      else
        let n : Int := Nat.ofDigitChars 10 ds 0
        (some (if negative then -n else n), rest.dropWhile Char.isDigit)
    else (none, cs)
  | [] => (none, cs)

/-- A number: an integer, unless a fraction or an exponent makes it a real one. -/
def number? (cs : List Char) : Option (Json × List Char) :=
  let (negative, ds) := match cs with
    | '-' :: ds => (true, ds)
    | ds => (false, ds)
  let whole := match ds with
    | '0' :: _ => ['0']
    | ds => ds.takeWhile Char.isDigit
  if whole.isEmpty then none
  else
    let rest := ds.drop whole.length
    let (frac, rest) := fraction rest
    let (power, rest) := exponent rest
    if frac.isEmpty && power.isNone then
      if digitLimit < whole.length then none
      else
        let n : Int := Nat.ofDigitChars 10 whole 0
        some (.integer (if negative then -n else n), rest)
    else
      some (.real (.ofDecimal negative (Nat.ofDigitChars 10 (whole ++ frac) 0)
        (power.getD 0 - frac.length)), rest)

/-- The words that stand for a value. -/
def word? (cs : List Char) : Option (Json × List Char) :=
  ((after? "null" cs).map (Json.null, ·))
    <|> ((after? "true" cs).map (Json.bool true, ·))
    <|> ((after? "false" cs).map (Json.bool false, ·))
    <|> ((after? "NaN" cs).map (Json.real .nan, ·))
    <|> ((after? "Infinity" cs).map (Json.real (.infinite false), ·))
    <|> ((after? "-Infinity" cs).map (Json.real (.infinite true), ·))

/-- A later member takes the place of an earlier one of the same name. -/
def setMember : List (String × Json) → String → Json → List (String × Json)
  | [], name, j => [(name, j)]
  | (k, i) :: ms, name, j => if k = name then (k, j) :: ms else (k, i) :: setMember ms name j

mutual

/-- One value from the front of the text, and what follows it. Every step takes a character, so
that the length of the text is enough fuel. -/
def value? : Nat → List Char → Option (Json × List Char)
  | 0, _ => none
  | _, [] => none
  | fuel + 1, c :: cs =>
    if c = doubleQuote then do
      let (s, rest) ← string? fuel cs
      some (.text (String.ofList s), rest)
    else if c = '[' then
      match skipSpace cs with
      | ']' :: rest => some (.list [], rest)
      | cs => do
        let (items, rest) ← items? fuel cs
        some (.list items, rest)
    else if c.toNat = 0x7B then
      match skipSpace cs with
      | [] => none
      | d :: rest =>
        if d.toNat = 0x7D then some (.object [], rest)
        else do
          let (members, rest) ← members? fuel [] (d :: rest)
          some (.object members, rest)
    else word? (c :: cs) <|> number? (c :: cs)

/-- The items of a list up to its closing bracket. -/
def items? : Nat → List Char → Option (List Json × List Char)
  | 0, _ => none
  | fuel + 1, cs => do
    let (j, rest) ← value? fuel cs
    match skipSpace rest with
    | ']' :: rest => some ([j], rest)
    | ',' :: rest => do
      let (js, rest) ← items? fuel (skipSpace rest)
      some (j :: js, rest)
    | _ => none

/-- The members of an object up to its closing brace, after those that were read before. -/
def members? : Nat → List (String × Json) → List Char → Option (List (String × Json) × List Char)
  | 0, _, _ => none
  | _, _, [] => none
  | fuel + 1, before, q :: cs =>
    if q = doubleQuote then do
      let (name, rest) ← string? fuel cs
      match skipSpace rest with
      | ':' :: rest => do
        let (j, rest) ← value? fuel (skipSpace rest)
        let now := setMember before (String.ofList name) j
        match skipSpace rest with
        | [] => none
        | d :: rest =>
          if d.toNat = 0x7D then some (now, rest)
          else if d = ',' then members? fuel now (skipSpace rest)
          else none
      | _ => none
    else none

end

end JsonReader

/-- The value that a text holds, with blanks around it allowed. -/
def Json.ofChars? (cs : List Char) : Option Json :=
  match JsonReader.value? (2 * cs.length + 2) (JsonReader.skipSpace cs) with
  | some (j, rest) => if (JsonReader.skipSpace rest).isEmpty then some j else none
  | none => none

/-- Sixteen-bit units of bytes, the more significant byte first or last. -/
def units16? (bigEndian : Bool) : List UInt8 → Option (List Nat)
  | [] => some []
  | a :: b :: rest => do
    let us ← units16? bigEndian rest
    some ((if bigEndian then a.toNat * 256 + b.toNat else b.toNat * 256 + a.toNat) :: us)
  | [_] => none

/-- The characters of sixteen-bit units, where two units make up one beyond the basic plane. -/
def charsOfUnits16? : List Nat → Option (List Char)
  | [] => some []
  | u :: us =>
    if 0xD800 ≤ u && u < 0xDC00 then
      match us with
      | v :: us =>
        if 0xDC00 ≤ v && v < 0xE000 then
          (charsOfUnits16? us).map (Char.ofNat (0x10000 + (u - 0xD800) * 0x400 + (v - 0xDC00)) :: ·)
        else none
      | [] => none
    else if 0xDC00 ≤ u && u < 0xE000 then none
    else (charsOfUnits16? us).map (Char.ofNat u :: ·)

/-- The characters of units of thirty-two bits. -/
def charsOfUnits32? (bigEndian : Bool) : List UInt8 → Option (List Char)
  | [] => some []
  | a :: b :: c :: d :: rest =>
    let n := if bigEndian then ((a.toNat * 256 + b.toNat) * 256 + c.toNat) * 256 + d.toNat
      else ((d.toNat * 256 + c.toNat) * 256 + b.toNat) * 256 + a.toNat
    if n.isValidChar then (charsOfUnits32? bigEndian rest).map (Char.ofNat n :: ·) else none
  | _ => none

/-- The characters of a document, whose encoding shows in its first bytes: by a byte order mark,
or else by where the zero bytes are. -/
def documentChars? (bytes : List UInt8) : Option (List Char) :=
  let utf8 (bs : List UInt8) : Option (List Char) :=
    match decodeAt 0 bs with
    | (cs, none) => some cs
    | (_, some _) => none
  let utf16 (bigEndian : Bool) (bs : List UInt8) : Option (List Char) :=
    (units16? bigEndian bs).bind charsOfUnits16?
  match bytes with
  | 0 :: 0 :: 0xFE :: 0xFF :: rest => charsOfUnits32? true rest
  | 0xFF :: 0xFE :: 0 :: 0 :: rest => charsOfUnits32? false rest
  | 0xFE :: 0xFF :: rest => utf16 true rest
  | 0xFF :: 0xFE :: rest => utf16 false rest
  | 0xEF :: 0xBB :: 0xBF :: rest => utf8 rest
  | a :: b :: c :: d :: _ =>
    if a = 0 then if b = 0 then charsOfUnits32? true bytes else utf16 true bytes
    else if b = 0 then if c = 0 && d = 0 then charsOfUnits32? false bytes else utf16 false bytes
    else utf8 bytes
  | [a, b] => if a = 0 then utf16 true bytes else if b = 0 then utf16 false bytes else utf8 bytes
  | _ => utf8 bytes

/-- The value of a document. -/
def Json.ofBytes? (bytes : List UInt8) : Option Json :=
  (documentChars? bytes).bind Json.ofChars?

end PolishCalc
