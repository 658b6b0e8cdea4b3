import PolishCalc.Quoted
import PolishCalc.Text

namespace PolishCalc

inductive Utf8Reason
  | start
  | continuation
  | ended
  deriving DecidableEq, Repr

/-- Bytes that are no UTF-8: the first of them, where it stands, and how many there are. -/
structure Utf8Fault where
  byte : UInt8
  offset : Nat
  count : Nat
  reason : Utf8Reason
  deriving DecidableEq, Repr

def Utf8Reason.text : Utf8Reason → String
  | .start => "invalid start byte"
  | .continuation => "invalid continuation byte"
  | .ended => "unexpected end of data"

def Utf8Fault.message (f : Utf8Fault) : String :=
  let place :=
    if f.count = 1 then
      "byte 0x" ++ String.ofList (hexDigits 2 f.byte.toNat) ++ " in position " ++ f.offset.repr
    else "bytes in position " ++ f.offset.repr ++ "-" ++ (f.offset + f.count - 1).repr
  String.ofList (quotedChars "utf-8".toList) ++ " codec can" ++ String.singleton singleQuote ++
    "t decode " ++ place ++ ": " ++ f.reason.text

/-- Decoded characters, and what ended the text early. -/
abbrev Decoded := List Char × Option Utf8Fault

def isTail (b : UInt8) : Bool := 0x80 ≤ b && b ≤ 0xBF

/-- The bytes that may follow the first byte of a sequence of three or four. The limits keep out
forms longer than needed, surrogates, and numbers beyond the last code point. -/
def isSecond (a b : UInt8) : Bool :=
  (if a = 0xE0 then 0xA0 else if a = 0xF0 then 0x90 else 0x80) ≤ b &&
    b ≤ (if a = 0xED then 0x9F else if a = 0xF4 then 0x8F else 0xBF)

/-- The low bits of a byte, moved up by a number of continuation bytes. -/
def bits (b : UInt8) (mask places : Nat) : Nat :=
  (b.toNat % mask) * Nat.pow 64 places

/-- The characters of UTF-8 bytes, of which the first has the given position. -/
def decodeAt (n : Nat) : List UInt8 → Decoded
  | [] => ([], none)
  | a :: rest =>
    let fault (count : Nat) (reason : Utf8Reason) : Decoded := ([], some ⟨a, n, count, reason⟩)
    let more (code : Nat) (later : Decoded) : Decoded := (Char.ofNat code :: later.1, later.2)
    if a < 0x80 then more a.toNat (decodeAt (n + 1) rest)
    else if a < 0xC2 then fault 1 .start
    else if a < 0xE0 then
      match rest with
      | [] => fault 1 .ended
      | b :: rest =>
        if isTail b then more (bits a 32 1 + bits b 64 0) (decodeAt (n + 2) rest)
        else fault 1 .continuation
    else if a < 0xF0 then
      match rest with
      | [] => fault 1 .ended
      | b :: rest =>
        if !isSecond a b then fault 1 .continuation
        else match rest with
        | [] => fault 2 .ended
        | c :: rest =>
          if isTail c then more (bits a 16 2 + bits b 64 1 + bits c 64 0) (decodeAt (n + 3) rest)
          else fault 2 .continuation
    else if a < 0xF5 then
      match rest with
      | [] => fault 1 .ended
      | b :: rest =>
        if !isSecond a b then fault 1 .continuation
        else match rest with
        | [] => fault 2 .ended
        | c :: rest =>
          if !isTail c then fault 2 .continuation
          else match rest with
          | [] => fault 3 .ended
          | d :: rest =>
            if isTail d then
              more (bits a 8 3 + bits b 64 2 + bits c 64 1 + bits d 64 0) (decodeAt (n + 4) rest)
            else fault 3 .continuation
    else fault 1 .start

/-- The text of a whole file, with its line ends unified. -/
def decodeText (bytes : List UInt8) : Except Utf8Fault String :=
  match decodeAt 0 bytes with
  | (cs, none) => .ok (String.ofList (unifyNewlines cs))
  | (_, some f) => .error f

/-- The number of bytes that arrive at a time on standard input. -/
def blockSize : Nat := 8192

/-- The blocks of a stream of bytes; `fuel` blocks at most. -/
def blocksOf : Nat → List UInt8 → List (List UInt8)
  | 0, _ => []
  | fuel + 1, bytes =>
    if bytes.isEmpty then [] else bytes.take blockSize :: blocksOf fuel (bytes.drop blockSize)

/-- Whether the bytes from a fault on may only lack the bytes still to come. A surrogate is not
refused before its third byte is there. -/
def awaitsMore (f : Utf8Fault) : List UInt8 → Bool
  | [0xED, b] => isTail b
  | _ => f.reason = .ended

/-- Decodes block after block. The bytes of a character that a block cuts off wait for the next
block, and a block that cannot be decoded is lost as a whole. -/
def decodeBlocks : List UInt8 → List (List UInt8) → Decoded
  | pending, [] => decodeAt 0 pending
  | pending, block :: blocks =>
    match decodeAt 0 (pending ++ block) with
    | (cs, none) =>
      let later := decodeBlocks [] blocks
      (cs ++ later.1, later.2)
    | (cs, some f) =>
      let cutOff := (pending ++ block).drop f.offset
      if awaitsMore f cutOff then
        let later := decodeBlocks cutOff blocks
        (cs ++ later.1, later.2)
      else ([], some f)

/-- A text that arrives line by line: its finished lines, the text after them, and what stopped
the decoding. -/
structure LineStream where
  lines : List String
  last : String
  fault : Option Utf8Fault
  deriving DecidableEq, Repr

/-- Until more arrives, a carriage return at the end may be the first half of a line end. -/
def LineStream.ofBytes (bytes : List UInt8) : LineStream :=
  let (cs, fault) := decodeBlocks [] (blocksOf bytes.length bytes)
  let cs := if fault.isSome && cs.getLast? == some '\r' then cs.dropLast else cs
  let (ls, last) := newlineLines (unifyNewlines cs)
  ⟨ls.map String.ofList, String.ofList last, fault⟩

end PolishCalc
