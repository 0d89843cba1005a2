import CallbackGateway.Digest.Sha1
import CallbackGateway.Text.Hex

/-!
# Request signatures

A signature is the hexadecimal SHA-1 digest of its parts, concatenated in ascending byte order.
The plain check covers token, timestamp and nonce, the sealed check the ciphertext as well.
-/

namespace CallbackGateway.Signature

/-- Whether a text does not come after another in the order of their bytes. -/
def inOrder (left right : Bytes) : Bool := !(List.lex right left (· < ·))

/-- The parts as bytes, in ascending order. -/
def arrange (parts : List String) : List Bytes :=
  (parts.map Text.Utf8.encodeString).mergeSort inOrder

/-- The bytes that a signature covers. -/
def covered (parts : List String) : Bytes := (arrange parts).flatten

/-- The signature of a list of parts. -/
def sign (parts : List String) : String :=
  String.ofList (Text.Hex.encode (Digest.Sha1.digest (covered parts)))

/-- Which parts a check covers. -/
inductive Mode
  /-- Token, timestamp and nonce. -/
  | plain
  /-- The ciphertext too. -/
  | safe
  deriving DecidableEq, Repr

/-- The one signature that a check accepts; a sealed check needs a ciphertext. -/
def expected? (mode : Mode) (token timestamp nonce : String) (ciphertext : Option String) :
    Option String :=
  match mode, ciphertext with
  | .plain, _ => some (sign [token, timestamp, nonce])
  | .safe, some text => some (sign [token, timestamp, nonce, text])
  | .safe, none => none

/-- Check a presented signature. -/
def verify (mode : Mode) (token timestamp nonce presented : String) (ciphertext : Option String) :
    Bool :=
  expected? mode token timestamp nonce ciphertext == some presented

/-- The order of the parts does not matter for the order they are arranged in. -/
theorem arrange_perm (parts : List String) :
    (arrange parts).Perm (parts.map Text.Utf8.encodeString) := List.mergeSort_perm _ _

end CallbackGateway.Signature
