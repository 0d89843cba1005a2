import CallbackGateway.Text.Utf8

/-!
# SHA-1

The digest of a sequence of bytes: the padded message is folded block by block into a state of
five words. A digest has twenty bytes.
-/

namespace CallbackGateway.Digest.Sha1

/-- The chaining state. -/
structure State where
  a : UInt32
  b : UInt32
  c : UInt32
  d : UInt32
  e : UInt32
  deriving DecidableEq, Repr

/-- The state before the first block. -/
def State.initial : State := ⟨0x67452301, 0xEFCDAB89, 0x98BADCFE, 0x10325476, 0xC3D2E1F0⟩

/-- Add two states word by word. -/
def State.add (x y : State) : State := ⟨x.a + y.a, x.b + y.b, x.c + y.c, x.d + y.d, x.e + y.e⟩

/-- Rotate a word to the left. -/
def rotate (x : UInt32) (count : UInt32) : UInt32 := (x <<< count) ||| (x >>> (32 - count))

/-- The mixing function and the constant of a round. -/
def mixing (round : Nat) (b c d : UInt32) : UInt32 × UInt32 :=
  if round < 20 then ((b &&& c) ||| (~~~b &&& d), 0x5A827999)
  else if round < 40 then (b ^^^ c ^^^ d, 0x6ED9EBA1)
  else if round < 60 then ((b &&& c) ||| (b &&& d) ||| (c &&& d), 0x8F1BBCDC)
  else (b ^^^ c ^^^ d, 0xCA62C1D6)

/-- Run the rounds that the remaining schedule words feed. -/
def rounds (round : Nat) : List UInt32 → State → State
  | [], state => state
  | word :: rest, ⟨a, b, c, d, e⟩ =>
    let (mixed, constant) := mixing round b c d
    rounds (round + 1) rest ⟨rotate a 5 + mixed + e + constant + word, a, rotate b 30, c, d⟩

/-- The next schedule word, from the words so far, the latest first. -/
def nextWord (latest : List UInt32) : UInt32 :=
  rotate (latest.getD 2 0 ^^^ latest.getD 7 0 ^^^ latest.getD 13 0 ^^^ latest.getD 15 0) 1

/-- Extend a schedule, the latest word first. -/
def extend : Nat → List UInt32 → List UInt32
  | 0, latest => latest
  | count + 1, latest => extend count (nextWord latest :: latest)

/-- Fold one block of sixteen words into the state. -/
def compress (state : State) (block : List UInt32) : State :=
  state.add (rounds 0 (extend 64 block.reverse).reverse state)

/-- A number as eight bytes, the most significant first. -/
def bytes64 (n : Nat) : Bytes :=
  [n >>> 56, n >>> 48, n >>> 40, n >>> 32, n >>> 24, n >>> 16, n >>> 8, n].map UInt8.ofNat

/-- The message with a one bit, zeros to the block size, and its length in bits. -/
def pad (message : Bytes) : Bytes :=
  message ++ 0x80 :: List.replicate ((119 - message.length % 64) % 64) 0 ++
    bytes64 (8 * message.length)

/-- Four bytes as a word, the most significant first. -/
def word (a b c d : UInt8) : UInt32 :=
  (a.toUInt32 <<< 24) ||| (b.toUInt32 <<< 16) ||| (c.toUInt32 <<< 8) ||| d.toUInt32

/-- Bytes as words; a last group of fewer than four is dropped. -/
def words : Bytes → List UInt32
  | a :: b :: c :: d :: rest => word a b c d :: words rest
  | _ => []

/-- Fold all blocks into the state. -/
def absorb : Nat → List UInt32 → State → State
  | 0, _, state => state
  | count + 1, message, state => absorb count (message.drop 16) (compress state (message.take 16))

/-- A word as four bytes, the most significant first. -/
def wordBytes (w : UInt32) : Bytes :=
  [(w >>> 24).toUInt8, (w >>> 16).toUInt8, (w >>> 8).toUInt8, w.toUInt8]

/-- The digest of a message. -/
def digest (message : Bytes) : Bytes :=
  let padded := pad message
  let state := absorb (padded.length / 64) (words padded) State.initial
  [state.a, state.b, state.c, state.d, state.e].flatMap wordBytes

/-- A digest has twenty bytes. -/
theorem digest_length (message : Bytes) : (digest message).length = 20 := rfl

end CallbackGateway.Digest.Sha1
