import CallbackGateway.Proofs.Aes.Inverse
import Mathlib.Data.Finite.Prod

/-!
# Encryption undoes decryption

There are finitely many blocks. Encryption of a block can be undone, so it never takes two blocks
to one, and then it leaves none out: every block is an encrypted one, and decryption is undone in
turn. The same holds for chains of blocks.
-/

namespace CallbackGateway.Aes

/-- The bytes of a column in one tuple. -/
def Column.toTuple (x : Column) : Fin 256 × Fin 256 × Fin 256 × Fin 256 :=
  (x.a.toFin, x.b.toFin, x.c.toFin, x.d.toFin)

/-- A column is its four bytes. -/
theorem Column.toTuple_injective : Function.Injective Column.toTuple := by
  intro x y h
  simp only [toTuple, Prod.mk.injEq, UInt8.toFin_inj] at h
  obtain ⟨ha, hb, hc, hd⟩ := h
  cases x
  cases y
  congr

instance : Finite Column := Finite.of_injective _ Column.toTuple_injective

/-- There are finitely many blocks. -/
instance : Finite Block := by
  have hinjective : Function.Injective fun x : Block => (x.c0, x.c1, x.c2, x.c3) := by
    intro x y h
    cases x
    cases y
    simpa using h
  exact Finite.of_injective _ hinjective

/-- Encryption gives every block back under every schedule of round keys. -/
@[simp] theorem Schedule.encrypt_decrypt (keys : Schedule) (x : Block) :
    keys.encrypt (keys.decrypt x) = x := by
  have hundone : Function.LeftInverse keys.decrypt keys.encrypt := keys.decrypt_encrypt
  obtain ⟨y, rfl⟩ := Finite.injective_iff_surjective.mp hundone.injective x
  rw [keys.decrypt_encrypt]

/-- Chained encryption undoes chained decryption. -/
theorem encryptChain_decryptChain (encrypt decrypt : Block → Block)
    (undo : ∀ x, encrypt (decrypt x) = x) (start : Block) (blocks : List Block) :
    encryptChain encrypt start (decryptChain decrypt start blocks) = blocks := by
  induction blocks generalizing start with
  | nil => rfl
  | cons sent rest ih => simp [decryptChain, encryptChain, undo, ih]

end CallbackGateway.Aes
