import CallbackGateway.Proofs.Signature.Binding
import Mathlib.Data.Set.Insert

/-!
# The accepted signatures

The signature of some parts does not depend on their order, because they are arranged before they
are covered: two arrangements of the same parts are sorted lists with the same entries. Of all
texts a check accepts the one signature of the token and the fields that it covers, and nothing
else: no digit in upper case, no beginning of the signature and nothing longer.
-/

namespace CallbackGateway

namespace Text

/-- The digits of lower-case hexadecimal text. -/
def Hex.digits : List Char := "0123456789abcdef".toList

/-- The digit of a number under sixteen is a hexadecimal digit. -/
theorem Hex.digit_mem {n : Nat} (h : n < 16) : digit n ∈ digits := by
  have hall : ∀ n : Fin 16, digit n ∈ digits := by decide
  exact hall ⟨n, h⟩

/-- Bytes are written with lower-case digits only. -/
theorem Hex.mem_digits_of_mem_encode {bytes : Bytes} {c : Char} (h : c ∈ encode bytes) :
    c ∈ digits := by
  obtain ⟨b, -, hc⟩ := List.mem_flatMap.mp h
  have hsize := b.toNat_lt
  rw [encodeByte, List.mem_cons, List.mem_singleton] at hc
  obtain rfl | rfl := hc
  · exact digit_mem (by omega)
  · exact digit_mem (by omega)

end Text

namespace Signature

open Text Digest.Sha1

variable {mode : Mode} {token timestamp nonce token' timestamp' nonce' : String}
  {ciphertext ciphertext' : Option String} {parts others fields fields' : List String}

/-- The signatures that a check accepts. -/
def accepted (mode : Mode) (token timestamp nonce : String) (ciphertext : Option String) :
    Set String :=
  {presented | verify mode token timestamp nonce presented ciphertext = true}

/-- The order of the parts does not matter. -/
theorem sign_eq_of_perm (h : parts.Perm others) : sign parts = sign others := by
  rw [sign, sign, covered, covered, arrange_eq_iff.mpr h]

/-- Strings can be put in the order of their bytes. -/
theorem exists_ordered (parts : List String) : ∃ ordered : List String, ordered.Perm parts ∧
    (ordered.map Utf8.encodeString).Pairwise (· ≤ ·) := by
  have hsame := congrFun₂ (List.eq_map_comp_perm Utf8.encodeString) (arrange parts) parts
  obtain ⟨ordered, hmap, hperm⟩ := hsame.mpr (arrange_perm parts)
  exact ⟨ordered, hperm, hmap ▸ arrange_pairwise parts⟩

/-- The signature is the digest of the parts in the order of their bytes. -/
theorem sign_of_ordered {ordered : List String} (h : ordered.Perm parts)
    (hordered : (ordered.map Utf8.encodeString).Pairwise (· ≤ ·)) :
    sign parts = String.ofList (Hex.encode (digest (ordered.map Utf8.encodeString).flatten)) := by
  rw [sign, covered_of_perm ordered h.symm hordered]

example : sign ["b", "a", "c"] = "a9993e364706816aba3e25717850c26c9cd0d89d" := by cbv

/-- A signature has forty characters. -/
theorem length_sign (parts : List String) : (sign parts).length = 40 := by
  rw [sign, String.length_ofList, Hex.encode_length, digest_length]

/-- A signature consists of hexadecimal digits. -/
theorem mem_digits_of_mem_sign {c : Char} (h : c ∈ (sign parts).toList) : c ∈ Hex.digits := by
  rw [sign, String.toList_ofList] at h
  exact Hex.mem_digits_of_mem_encode h

/-- A check accepts one signature, if it has the fields that it covers. -/
theorem accepted_eq_singleton (h : fields? mode timestamp nonce ciphertext = some fields) :
    accepted mode token timestamp nonce ciphertext = {sign (token :: fields)} := by
  ext presented
  rw [accepted, Set.mem_ofPred_eq, Set.mem_singleton_iff, verify_iff]
  constructor
  · rintro ⟨others, hothers, rfl⟩
    rw [Option.some.inj (h.symm.trans hothers)]
  · exact fun hpresented => ⟨fields, h, hpresented⟩

/-- Nothing is accepted where there are no fields to sign. -/
theorem accepted_eq_empty (h : fields? mode timestamp nonce ciphertext = none) :
    accepted mode token timestamp nonce ciphertext = ∅ := by
  ext presented
  rw [accepted, Set.mem_ofPred_eq, verify_iff]
  simp [h]

/-- Only a sealed check without a ciphertext lacks a field. -/
theorem fields?_eq_none_iff :
    fields? mode timestamp nonce ciphertext = none ↔ mode = .safe ∧ ciphertext = none := by
  cases mode <;> cases ciphertext <;> simp [fields?]

/-- Nothing is accepted just if the mode is safe and there is no ciphertext. -/
theorem accepted_eq_empty_iff : accepted mode token timestamp nonce ciphertext = ∅ ↔
    mode = .safe ∧ ciphertext = none := by
  refine ⟨fun h => ?_, fun h => accepted_eq_empty (fields?_eq_none_iff.mpr h)⟩
  cases hfields : fields? mode timestamp nonce ciphertext with
  | none => exact fields?_eq_none_iff.mp hfields
  | some fields =>
    rw [accepted_eq_singleton hfields] at h
    exact absurd h (Set.singleton_ne_empty _)

/-- The signature of some parts is the lower-case digest of the parts in the order of their bytes,
whatever order they are given in. A check that accepts anything accepts just the signature of the
token and the fields that it covers, and accepts the same if these are exchanged with one another;
only a sealed check without a ciphertext accepts nothing. -/
theorem one_signature_is_accepted :
    (∀ parts, (sign parts).length = 40 ∧ (∀ c ∈ (sign parts).toList, c ∈ Hex.digits) ∧
      (∃ ordered : List String, ordered.Perm parts ∧
        (ordered.map Utf8.encodeString).Pairwise (· ≤ ·) ∧ sign parts =
          String.ofList (Hex.encode (digest (ordered.map Utf8.encodeString).flatten))) ∧
      ∀ others, parts.Perm others → sign others = sign parts) ∧
    ∀ mode token timestamp nonce ciphertext,
      ((accepted mode token timestamp nonce ciphertext).Nonempty →
        ∃ fields, fields? mode timestamp nonce ciphertext = some fields ∧
          accepted mode token timestamp nonce ciphertext = {sign (token :: fields)} ∧
          ∀ token' timestamp' nonce' ciphertext' fields',
            fields? mode timestamp' nonce' ciphertext' = some fields' →
            (token' :: fields').Perm (token :: fields) →
            accepted mode token' timestamp' nonce' ciphertext' =
              accepted mode token timestamp nonce ciphertext) ∧
      (accepted mode token timestamp nonce ciphertext = ∅ ↔ mode = .safe ∧ ciphertext = none) := by
  refine ⟨fun parts => ⟨length_sign parts, fun _ => mem_digits_of_mem_sign, ?_,
    fun _ h => (sign_eq_of_perm h).symm⟩,
    fun mode token timestamp nonce ciphertext => ⟨?_, accepted_eq_empty_iff⟩⟩
  · obtain ⟨ordered, hperm, hordered⟩ := exists_ordered parts
    exact ⟨ordered, hperm, hordered, sign_of_ordered hperm hordered⟩
  · rintro ⟨presented, hpresented⟩
    obtain ⟨fields, hfields, -⟩ := verify_iff.mp hpresented
    refine ⟨fields, hfields, accepted_eq_singleton hfields, ?_⟩
    intro token' timestamp' nonce' ciphertext' fields' hfields' hperm
    rw [accepted_eq_singleton hfields', accepted_eq_singleton hfields, sign_eq_of_perm hperm]

/-- The ciphertext can change places with the token. -/
theorem one_signature_is_accepted_exchanged :
    sign ["c", "1", "2", "tok"] = sign ["tok", "1", "2", "c"] ∧
    accepted .safe "tok" "1" "2" (some "c") = {sign ["tok", "1", "2", "c"]} ∧
    accepted .safe "c" "1" "2" (some "tok") = accepted .safe "tok" "1" "2" (some "c") ∧
    accepted .safe "tok" "1" "2" none = ∅ := by
  obtain ⟨hsign, haccepted⟩ := one_signature_is_accepted
  obtain ⟨-, -, -, hperm⟩ := hsign ["tok", "1", "2", "c"]
  have hpresented : sign ["tok", "1", "2", "c"] ∈ accepted .safe "tok" "1" "2" (some "c") :=
    verify_iff.mpr ⟨_, rfl, rfl⟩
  obtain ⟨fields, hfields, hone, hexchanged⟩ :=
    (haccepted .safe "tok" "1" "2" (some "c")).1 ⟨_, hpresented⟩
  obtain rfl := Option.some.inj hfields
  exact ⟨hperm _ (by decide), hone,
    hexchanged "c" "1" "2" (some "tok") ["1", "2", "tok"] rfl (by decide),
    (haccepted .safe "tok" "1" "2" none).2.mpr ⟨rfl, rfl⟩⟩

end Signature

end CallbackGateway
