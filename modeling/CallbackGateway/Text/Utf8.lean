/-!
# UTF-8

Bytes as a list of pieces: whole characters, and the shortest stretches that cannot belong to
one. Strict decoding refuses the first bad stretch and says where it starts; lossy decoding
writes one replacement character for each.
-/

namespace CallbackGateway

/-- A finite sequence of bytes. -/
abbrev Bytes := List UInt8

end CallbackGateway

namespace CallbackGateway.Text.Utf8

/-- The bytes of one character. -/
def encodeChar (c : Char) : Bytes :=
  let n := c.toNat
  if n < 0x80 then [n.toUInt8]
  else if n < 0x800 then [(0xC0 + n / 0x40).toUInt8, (0x80 + n % 0x40).toUInt8]
  else if n < 0x10000 then
    [(0xE0 + n / 0x1000).toUInt8, (0x80 + n / 0x40 % 0x40).toUInt8, (0x80 + n % 0x40).toUInt8]
  else
    [(0xF0 + n / 0x40000).toUInt8, (0x80 + n / 0x1000 % 0x40).toUInt8,
      (0x80 + n / 0x40 % 0x40).toUInt8, (0x80 + n % 0x40).toUInt8]

/-- The bytes of a text. -/
def encode (text : List Char) : Bytes := text.flatMap encodeChar

/-- The bytes of a string. -/
def encodeString (text : String) : Bytes := encode text.toList

/-- No characters take no bytes. -/
@[simp] theorem encode_nil : encode [] = [] := rfl

/-- The first character is written first. -/
@[simp] theorem encode_cons (c : Char) (text : List Char) :
    encode (c :: text) = encodeChar c ++ encode text := rfl

/-- Texts are written one after another. -/
@[simp] theorem encode_append (left right : List Char) :
    encode (left ++ right) = encode left ++ encode right := List.flatMap_append

/-- What a stretch of bytes is. -/
inductive Piece
  /-- The bytes of one character. -/
  | char (c : Char)
  /-- Bytes that start no character, with their number. -/
  | invalid (length : Nat)
  /-- The start of a character at the very end of the bytes. -/
  | incomplete
  deriving DecidableEq, Repr

/-- A byte that continues a character. -/
def isTail (b : UInt8) : Bool := 0x80 ≤ b && b < 0xC0

/-- The bits that a continuing byte carries. -/
def tailBits (b : UInt8) : Nat := b.toNat % 0x40

/-- A second byte that is allowed after the first byte of a three-byte character. -/
def isSecondOfThree (first second : UInt8) : Bool :=
  if first == 0xE0 then 0xA0 ≤ second && second < 0xC0
  else if first == 0xED then 0x80 ≤ second && second < 0xA0
  else isTail second

/-- A second byte that is allowed after the first byte of a four-byte character. -/
def isSecondOfFour (first second : UInt8) : Bool :=
  if first == 0xF0 then 0x90 ≤ second && second < 0xC0
  else if first == 0xF4 then 0x80 ≤ second && second < 0x90
  else isTail second

/-- Cut bytes into pieces from the left; a bad stretch is as long as its bytes could still have
started a character. -/
def pieces : Bytes → List Piece
  | [] => []
  | a :: afterA =>
    if a < 0x80 then .char (Char.ofNat a.toNat) :: pieces afterA
    else if 0xC2 ≤ a && a < 0xE0 then
      match afterA with
      | [] => [.incomplete]
      | b :: afterB =>
        if isTail b then .char (Char.ofNat (a.toNat % 0x20 * 0x40 + tailBits b)) :: pieces afterB
        else .invalid 1 :: pieces (b :: afterB)
    else if 0xE0 ≤ a && a < 0xF0 then
      match afterA with
      | [] => [.incomplete]
      | b :: afterB =>
        if isSecondOfThree a b then
          match afterB with
          | [] => [.incomplete]
          | c :: afterC =>
            if isTail c then
              .char (Char.ofNat (a.toNat % 0x10 * 0x1000 + tailBits b * 0x40 + tailBits c)) ::
                pieces afterC
            else .invalid 2 :: pieces (c :: afterC)
        else .invalid 1 :: pieces (b :: afterB)
    else if 0xF0 ≤ a && a < 0xF5 then
      match afterA with
      | [] => [.incomplete]
      | b :: afterB =>
        if isSecondOfFour a b then
          match afterB with
          | [] => [.incomplete]
          | c :: afterC =>
            if isTail c then
              match afterC with
              | [] => [.incomplete]
              | d :: afterD =>
                if isTail d then
                  .char (Char.ofNat (a.toNat % 0x08 * 0x40000 + tailBits b * 0x1000 +
                    tailBits c * 0x40 + tailBits d)) :: pieces afterD
                else .invalid 3 :: pieces (d :: afterD)
            else .invalid 2 :: pieces (c :: afterC)
        else .invalid 1 :: pieces (b :: afterB)
    else .invalid 1 :: pieces afterA

/-- Why bytes are not a text. -/
inductive Defect
  /-- Bytes at an offset start no character. -/
  | invalid (length offset : Nat)
  /-- The bytes end inside the character that starts at an offset. -/
  | incomplete (offset : Nat)
  deriving DecidableEq, Repr

/-- The wording of a defect. -/
def Defect.message : Defect → String
  | .invalid length offset => s!"invalid utf-8 sequence of {length} bytes from index {offset}"
  | .incomplete offset => s!"incomplete utf-8 byte sequence from index {offset}"

/-- The characters of a list of pieces that starts at an offset, if no piece is bad. -/
def collect (offset : Nat) : List Piece → Except Defect (List Char)
  | [] => .ok []
  | .char c :: rest => (collect (offset + (encodeChar c).length) rest).map (c :: ·)
  | .invalid length :: _ => .error (.invalid length offset)
  | .incomplete :: _ => .error (.incomplete offset)

/-- The text that the bytes spell, or the first defect. -/
def decode (bytes : Bytes) : Except Defect (List Char) := collect 0 (pieces bytes)

/-- The string that the bytes spell, if they spell one. -/
def decode? (bytes : Bytes) : Option (List Char) := (decode bytes).toOption

/-- The character that stands for a bad piece. -/
def replacement : Char := '\uFFFD'

/-- The character shown for a piece. -/
def Piece.shown : Piece → Char
  | .char c => c
  | .invalid _ | .incomplete => replacement

/-- The text that the bytes spell, with a replacement character for each bad piece. -/
def decodeLossy (bytes : Bytes) : List Char := (pieces bytes).map Piece.shown

end CallbackGateway.Text.Utf8
