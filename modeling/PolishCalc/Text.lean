namespace PolishCalc

/-- Blank characters separate words: the control characters that move the cursor or divide
records, the space, and every other space or separator character. -/
def isBlank (c : Char) : Bool :=
  let n := c.toNat
  (9 ≤ n && n ≤ 13) || (28 ≤ n && n ≤ 32) || n == 0x85 || n == 0xA0 || n == 0x1680 ||
    (0x2000 ≤ n && n ≤ 0x200A) || n == 0x2028 || n == 0x2029 || n == 0x202F || n == 0x205F ||
    n == 0x3000

/-- An empty word is no word. -/
def closeWord (w : List Char) (ws : List (List Char)) : List (List Char) :=
  if w.isEmpty then ws else w :: ws

/-- The run of characters up to the first blank, and the words after it. -/
def splitWord : List Char → List Char × List (List Char)
  | [] => ([], [])
  | c :: cs =>
    let (w, ws) := splitWord cs
    if isBlank c then ([], closeWord w ws) else (c :: w, ws)

/-- The maximal runs of characters that are not blank. -/
def wordsOf (cs : List Char) : List (List Char) :=
  let (w, ws) := splitWord cs
  closeWord w ws

/-- The words of a text, in order. -/
def words (s : String) : List String :=
  (wordsOf s.toList).map String.ofList

/-- Puts a character in front of the first of the given lines. -/
def consLine (c : Char) : List (List Char) → List (List Char)
  | [] => [[c]]
  | l :: ls => (c :: l) :: ls

/-- The characters that end a line of assembly text. -/
def isLineBreak (c : Char) : Bool :=
  let n := c.toNat
  (10 ≤ n && n ≤ 13) || (28 ≤ n && n ≤ 30) || n == 0x85 || n == 0x2028 || n == 0x2029

/-- The lines of a text without their ends. A carriage return and a line feed in a row end one
line, and no empty line follows the last line end. -/
def linesOf : List Char → List (List Char)
  | [] => []
  | '\r' :: '\n' :: cs => [] :: linesOf cs
  | c :: cs => if isLineBreak c then [] :: linesOf cs else consLine c (linesOf cs)

/-- The lines of assembly text. -/
def textLines (s : String) : List String :=
  (linesOf s.toList).map String.ofList

/-- Every line end written as one line feed. -/
def unifyNewlines : List Char → List Char
  | [] => []
  | '\r' :: '\n' :: cs => '\n' :: unifyNewlines cs
  | c :: cs => (if c = '\r' then '\n' else c) :: unifyNewlines cs

/-- The lines that end in a line feed, and what stands after the last line feed. -/
def newlineLines : List Char → List (List Char) × List Char
  | [] => ([], [])
  | c :: cs =>
    match newlineLines cs with
    | (ls, last) =>
      if c = '\n' then ([] :: ls, last)
      else match ls with
        | [] => ([], c :: last)
        | l :: ls => ((c :: l) :: ls, last)

/-- The lines one below the other, with no line end after the last. -/
def joinLines (ls : List String) : String :=
  "\n".intercalate ls

/-- The parts of a text between the characters that divide it. -/
def partsBy (divides : Char → Bool) : List Char → List (List Char)
  | [] => [[]]
  | c :: cs =>
    if divides c then [] :: partsBy divides cs
    else match partsBy divides cs with
      | [] => [[c]]
      | p :: ps => (c :: p) :: ps

/-- What stands before the first such character, and what stands after it. -/
def cutAt (d : Char) (cs : List Char) : List Char × List Char :=
  (cs.takeWhile (· != d), (cs.dropWhile (· != d)).drop 1)

/-- The capital of a character. Besides the letters a to z only these have a capital in the
letters A to Z; all other characters stay. -/
def capital (c : Char) : List Char :=
  match c.toNat with
  | 0xDF => ['S', 'S']
  | 0x131 => ['I']
  | 0x17F => ['S']
  | 0xFB00 => ['F', 'F']
  | 0xFB01 => ['F', 'I']
  | 0xFB02 => ['F', 'L']
  | 0xFB03 => ['F', 'F', 'I']
  | 0xFB04 => ['F', 'F', 'L']
  | 0xFB05 => ['S', 'T']
  | 0xFB06 => ['S', 'T']
  | _ => [c.toUpper]

def inCapitals (s : String) : String :=
  String.ofList (s.toList.flatMap capital)

end PolishCalc
