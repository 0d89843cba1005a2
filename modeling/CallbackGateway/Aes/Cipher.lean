import CallbackGateway.Aes.Block

/-!
# The block cipher with keys of 256 bits

Fourteen rounds of byte substitution, row shift, column mixing and key addition. Each step is a
small function beside the function that undoes it, over the field of 256 elements.
-/

namespace CallbackGateway.Aes

/-- The product with the field element two. -/
def double (b : UInt8) : UInt8 := (b <<< 1) ^^^ (if 0x80 ≤ b then 0x1B else 0)

/-- The field product, from the low bits of the second factor up. -/
def multiplyFrom : Nat → UInt8 → UInt8 → UInt8
  | 0, _, _ => 0
  | bits + 1, a, b =>
    (if b &&& 1 = 1 then a else 0) ^^^ multiplyFrom bits (double a) (b >>> 1)

/-- The field product. -/
def multiply (a b : UInt8) : UInt8 := multiplyFrom 8 a b

/-- The square of a field element. -/
def square (a : UInt8) : UInt8 := multiply a a

/-- The field inverse, zero for zero: the power 254. -/
def inverse (a : UInt8) : UInt8 :=
  let a2 := square a
  let a3 := multiply a2 a
  let a12 := square (square a3)
  let a15 := multiply a12 a3
  let a240 := square (square (square (square a15)))
  multiply (multiply a240 a12) a2

/-- Rotate a byte to the left. -/
def rotate (b : UInt8) (count : UInt8) : UInt8 := (b <<< count) ||| (b >>> (8 - count))

/-- The substitute of a byte: its inverse under an affine map. -/
def substituteByte (b : UInt8) : UInt8 :=
  let i := inverse b
  i ^^^ rotate i 1 ^^^ rotate i 2 ^^^ rotate i 3 ^^^ rotate i 4 ^^^ 0x63

/-- The byte that has the given substitute. -/
def restoreByte (s : UInt8) : UInt8 :=
  inverse (rotate s 1 ^^^ rotate s 3 ^^^ rotate s 6 ^^^ 0x05)

/-- The substitutes of all bytes. -/
def substitutes : Vector UInt8 256 := Vector.ofFn fun i => substituteByte (UInt8.ofNat i.val)

/-- The bytes that have the given substitutes. -/
def restored : Vector UInt8 256 := Vector.ofFn fun i => restoreByte (UInt8.ofNat i.val)

/-- Look up the substitute of a byte. -/
def substitute (b : UInt8) : UInt8 := substitutes.get b.toFin

/-- Look up the byte that has the given substitute. -/
def restore (s : UInt8) : UInt8 := restored.get s.toFin

/-- Substitute every byte. -/
def substituteBlock (x : Block) : Block := x.map (Column.map substitute)

/-- Undo the substitution of every byte. -/
def restoreBlock (x : Block) : Block := x.map (Column.map restore)

/-- Shift the second, third and fourth row left by one, two and three. -/
def shiftRows (x : Block) : Block :=
  ⟨⟨x.c0.a, x.c1.b, x.c2.c, x.c3.d⟩, ⟨x.c1.a, x.c2.b, x.c3.c, x.c0.d⟩,
    ⟨x.c2.a, x.c3.b, x.c0.c, x.c1.d⟩, ⟨x.c3.a, x.c0.b, x.c1.c, x.c2.d⟩⟩

/-- Shift the rows back. -/
def unshiftRows (x : Block) : Block :=
  ⟨⟨x.c0.a, x.c3.b, x.c2.c, x.c1.d⟩, ⟨x.c1.a, x.c0.b, x.c3.c, x.c2.d⟩,
    ⟨x.c2.a, x.c1.b, x.c0.c, x.c3.d⟩, ⟨x.c3.a, x.c2.b, x.c1.c, x.c0.d⟩⟩

/-- Mix the bytes of a column with the coefficients 2, 3, 1, 1. -/
def mixColumn (x : Column) : Column :=
  ⟨double x.a ^^^ (double x.b ^^^ x.b) ^^^ x.c ^^^ x.d,
    x.a ^^^ double x.b ^^^ (double x.c ^^^ x.c) ^^^ x.d,
    x.a ^^^ x.b ^^^ double x.c ^^^ (double x.d ^^^ x.d),
    (double x.a ^^^ x.a) ^^^ x.b ^^^ x.c ^^^ double x.d⟩

/-- The products of a byte with 9, 11, 13 and 14. -/
def unmixByte (b : UInt8) : Column :=
  let b2 := double b
  let b4 := double b2
  let b8 := double b4
  ⟨b8 ^^^ b, b8 ^^^ b2 ^^^ b, b8 ^^^ b4 ^^^ b, b8 ^^^ b4 ^^^ b2⟩

/-- Unmix the bytes of a column with the coefficients 14, 11, 13, 9. -/
def unmixColumn (x : Column) : Column :=
  let a := unmixByte x.a
  let b := unmixByte x.b
  let c := unmixByte x.c
  let d := unmixByte x.d
  ⟨a.d ^^^ b.b ^^^ c.c ^^^ d.a, a.a ^^^ b.d ^^^ c.b ^^^ d.c,
    a.c ^^^ b.a ^^^ c.d ^^^ d.b, a.b ^^^ b.c ^^^ c.a ^^^ d.d⟩

/-- The round keys: one before the rounds, one for each full round, one for the last round. -/
structure Schedule where
  first : Block
  middle : List Block
  last : Block
  deriving DecidableEq, Repr

/-- The next pair of round keys after a pair, with the constant of the step. -/
def nextPair (constant : UInt8) (pair : Block × Block) : Block × Block :=
  let (x, y) := pair
  let t := y.c3
  let core : Column :=
    ⟨substitute t.b ^^^ constant, substitute t.c, substitute t.d, substitute t.a⟩
  let x0 := x.c0.xor core
  let x1 := x.c1.xor x0
  let x2 := x.c2.xor x1
  let x3 := x.c3.xor x2
  let y0 := y.c0.xor (x3.map substitute)
  let y1 := y.c1.xor y0
  let y2 := y.c2.xor y1
  let y3 := y.c3.xor y2
  (⟨x0, x1, x2, x3⟩, ⟨y0, y1, y2, y3⟩)

/-- The round keys after a pair, for a number of full steps and one half step. -/
def expandFrom : Nat → UInt8 → Block × Block → List Block × Block
  | 0, constant, pair => ([], (nextPair constant pair).1)
  | steps + 1, constant, pair =>
    let next := nextPair constant pair
    let (keys, last) := expandFrom steps (double constant) next
    (next.1 :: next.2 :: keys, last)

/-- The round keys of a key of two blocks. -/
def Schedule.expand (first second : Block) : Schedule :=
  let (keys, last) := expandFrom 6 1 (first, second)
  ⟨first, second :: keys, last⟩

/-- One full round. -/
def round (state key : Block) : Block :=
  ((shiftRows (substituteBlock state)).map mixColumn).xor key

/-- Undo one full round. -/
def unround (key state : Block) : Block :=
  restoreBlock (unshiftRows ((state.xor key).map unmixColumn))

/-- Encrypt one block. -/
def Schedule.encrypt (keys : Schedule) (x : Block) : Block :=
  (shiftRows (substituteBlock (keys.middle.foldl round (x.xor keys.first)))).xor keys.last

/-- Decrypt one block. -/
def Schedule.decrypt (keys : Schedule) (x : Block) : Block :=
  (keys.middle.foldr unround (restoreBlock (unshiftRows (x.xor keys.last)))).xor keys.first

/-- Shifting the rows back undoes the shift. -/
@[simp] theorem unshiftRows_shiftRows (x : Block) : unshiftRows (shiftRows x) = x := rfl

end CallbackGateway.Aes
