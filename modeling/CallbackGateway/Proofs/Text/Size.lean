import CallbackGateway.Proofs.Text.Decimal
import CallbackGateway.Proofs.Text.Utf8

/-!
# Sizes of texts

A character takes one to four bytes, and an integer of 64 bits at most 21 characters. Sizes of
lists are sums over their members, in any order.
-/

namespace CallbackGateway

/-! ## Sums -/

section

variable {α : Type} (size : α → Nat)

/-- The sum of the sizes of the members of a list. -/
def sizeSum : List α → Nat
  | [] => 0
  | first :: rest => size first + sizeSum rest

/-- An empty list has size zero. -/
@[simp] theorem sizeSum_nil : sizeSum size [] = 0 := rfl

/-- The first item adds its size. -/
@[simp] theorem sizeSum_cons (first : α) (rest : List α) :
    sizeSum size (first :: rest) = size first + sizeSum size rest := rfl

/-- Lists one after the other have the size of both. -/
@[simp] theorem sizeSum_append (left right : List α) :
    sizeSum size (left ++ right) = sizeSum size left + sizeSum size right := by
  induction left with
  | nil => rw [List.nil_append, sizeSum_nil, Nat.zero_add]
  | cons first rest ih => rw [List.cons_append, sizeSum_cons, sizeSum_cons, ih, Nat.add_assoc]

/-- The order of the items does not matter to the size. -/
theorem sizeSum_perm {left right : List α} (h : left.Perm right) :
    sizeSum size left = sizeSum size right := by
  induction h with
  | nil => rfl
  | cons first _ ih => rw [sizeSum_cons, sizeSum_cons, ih]
  | swap first second rest =>
    simp only [sizeSum_cons]
    omega
  | trans _ _ ihleft ihright => exact ihleft.trans ihright

/-- A reversed list has the size of the list. -/
@[simp] theorem sizeSum_reverse (list : List α) : sizeSum size list.reverse = sizeSum size list :=
  sizeSum_perm size list.reverse_perm

/-- A member of a list is no larger than the list. -/
theorem le_sizeSum_of_mem {item : α} {list : List α} (h : item ∈ list) :
    size item ≤ sizeSum size list := by
  induction list with
  | nil => exact absurd h List.not_mem_nil
  | cons first rest ih =>
    rw [sizeSum_cons]
    rcases List.mem_cons.mp h with rfl | hrest
    · exact Nat.le_add_right _ _
    · exact Nat.le_add_left_of_le (ih hrest)

/-- Lists that are put together have the sizes of all of them. -/
theorem length_flatten (lists : List (List α)) :
    lists.flatten.length = sizeSum List.length lists := by
  induction lists with
  | nil => rfl
  | cons first rest ih => rw [List.flatten_cons, List.length_append, ih, sizeSum_cons]

end

namespace Text

/-! ## Bytes -/

namespace Utf8

/-- A character takes one to four bytes. -/
theorem length_encodeChar_range (c : Char) :
    1 ≤ (encodeChar c).length ∧ (encodeChar c).length ≤ 4 := by
  unfold encodeChar
  dsimp only
  repeat' split
  all_goals simp only [List.length_cons, List.length_nil]; decide

/-- A character takes one to four bytes. -/
theorem length_encode_range (text : List Char) :
    text.length ≤ (encode text).length ∧ (encode text).length ≤ 4 * text.length := by
  induction text with
  | nil => exact ⟨Nat.le_refl _, Nat.le_refl _⟩
  | cons c rest ih =>
    have hc := length_encodeChar_range c
    rw [encode_cons, List.length_append, List.length_cons]
    omega

/-- The number of bytes that a text takes. -/
def byteCount (text : List Char) : Nat := (encode text).length

/-- Texts one after the other take the bytes of both. -/
@[simp] theorem byteCount_append (left right : List Char) :
    byteCount (left ++ right) = byteCount left + byteCount right := by
  rw [byteCount, encode_append, List.length_append, byteCount, byteCount]

/-- A text takes at least one byte for each character, and at most four. -/
theorem byteCount_range (text : List Char) :
    text.length ≤ byteCount text ∧ byteCount text ≤ 4 * text.length := length_encode_range text

/-- A decoded text has no more characters than there are bytes. -/
theorem length_le_of_decode {bytes : Bytes} {text : List Char} (h : decode bytes = .ok text) :
    text.length ≤ bytes.length := by
  rw [decode_eq_ok_iff.mp h]
  exact (length_encode_range text).1

/-- A decoded text has no more characters than there are bytes, by the reader without errors. -/
theorem length_le_of_decode? {bytes : Bytes} {text : List Char} (h : decode? bytes = some text) :
    text.length ≤ bytes.length := by
  cases hdecode : decode bytes with
  | error defect =>
    rw [decode?, hdecode] at h
    cases h
  | ok found =>
    rw [decode?, hdecode] at h
    obtain rfl := Option.some.inj h
    exact length_le_of_decode hdecode

end Utf8

/-! ## Integers -/

/-- A size of at most twenty digits makes at most 21 characters. -/
theorem length_decimal_le {n : Int} (h : n.natAbs < 100000000000000000000) :
    (decimal n).toList.length ≤ 21 := by
  have hsign : (signText n).length ≤ 1 := by
    unfold signText
    split <;> simp
  have hdigits : (Nat.toDigits 10 n.natAbs).length ≤ 20 :=
    (Nat.length_toDigits_le_iff (by decide) (by decide)).mpr h
  rw [toList_decimal, List.length_append]
  omega

end Text

end CallbackGateway
