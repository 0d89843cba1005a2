import CallbackGateway.Text.Hex

/-!
# Percent encoding

A percent sign with two hexadecimal digits stands for a byte; any other percent sign stands for
itself.
-/

namespace CallbackGateway.Http

/-- The value of a byte that is a hexadecimal digit. -/
def hexValue? (b : UInt8) : Option Nat := Text.Hex.value? (Char.ofNat b.toNat)

/-- The byte that two hexadecimal digits spell. -/
def hexPair? (high low : UInt8) : Option UInt8 := do
  let h ← hexValue? high
  let l ← hexValue? low
  return UInt8.ofNat (h * 16 + l)

/-- Replace the encoded bytes of a text. -/
def percentDecode : Bytes → Bytes
  | [] => []
  | b :: rest =>
    if b = 0x25 then
      match rest with
      | high :: low :: after =>
        match hexPair? high low with
        | some decoded => decoded :: percentDecode after
        | none => b :: percentDecode (high :: low :: after)
      | short => b :: percentDecode short
    else b :: percentDecode rest

/-- A text without percent signs stands for itself. -/
theorem percentDecode_eq_self {bytes : Bytes} (h : 0x25 ∉ bytes) : percentDecode bytes = bytes := by
  fun_induction percentDecode bytes with
  | case1 => rfl
  | case2 => simp at h
  | case3 => simp at h
  | case4 => simp at h
  | case5 b rest _ ih =>
    rw [ih]
    exact fun hm => h (List.mem_cons_of_mem _ hm)

end CallbackGateway.Http
