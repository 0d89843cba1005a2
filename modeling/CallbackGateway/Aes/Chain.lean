import CallbackGateway.Aes.Block

/-!
# Cipher block chaining

Every plain block is combined with the block sent before it, the first with a start block.
Decryption undoes encryption whenever the block functions do.
-/

namespace CallbackGateway.Aes

/-- Encrypt blocks one after another. -/
def encryptChain (encrypt : Block → Block) : Block → List Block → List Block
  | _, [] => []
  | previous, plain :: rest =>
    let sent := encrypt (plain.xor previous)
    sent :: encryptChain encrypt sent rest

/-- Decrypt blocks one after another. -/
def decryptChain (decrypt : Block → Block) : Block → List Block → List Block
  | _, [] => []
  | previous, sent :: rest => (decrypt sent).xor previous :: decryptChain decrypt sent rest

/-- Chaining keeps the number of blocks. -/
@[simp] theorem encryptChain_length (encrypt : Block → Block) (start : Block)
    (blocks : List Block) : (encryptChain encrypt start blocks).length = blocks.length := by
  induction blocks generalizing start with
  | nil => rfl
  | cons plain rest ih => simp [encryptChain, ih]

/-- Decryption undoes encryption. -/
theorem decryptChain_encryptChain (encrypt decrypt : Block → Block)
    (undo : ∀ x, decrypt (encrypt x) = x) (start : Block) (blocks : List Block) :
    decryptChain decrypt start (encryptChain encrypt start blocks) = blocks := by
  induction blocks generalizing start with
  | nil => rfl
  | cons plain rest ih => simp [encryptChain, decryptChain, undo, ih]

end CallbackGateway.Aes
