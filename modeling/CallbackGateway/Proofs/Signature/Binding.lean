import CallbackGateway.Proofs.Text.Size
import CallbackGateway.Signature
import Mathlib.Data.List.Perm.Basic

/-!
# What a signature binds

A signature covers its parts in ascending byte order, written one after another without
separators. So it binds the bytes that are covered, up to collisions of the digest, and not where
one part ends and the next begins: parts can be exchanged, text can be moved between parts that
are neighbours, and an empty ciphertext can be added, while the covered bytes stay as they are.

What does hold is stated for two checks that accept one signature. Their covered bytes are the
same or collide, and if the boundaries between the parts are the same as well, then so are the
parts, up to their order.
-/

namespace CallbackGateway

/-! ## Digits -/

namespace Text

/-- A digit is read as its value. -/
theorem Hex.value?_digit {n : Nat} (h : n < 16) : value? (digit n) = some n := by
  have hall : ∀ n : Fin 16, value? (digit n) = some n.val := by decide
  exact hall ⟨n, h⟩

/-- Written bytes are read back. -/
theorem Hex.decode?_encode (bytes : Bytes) : decode? (encode bytes) = some bytes := by
  induction bytes with
  | nil => rfl
  | cons b bytes ih =>
    have hstep : encode (b :: bytes) =
        digit (b.toNat / 16) :: digit (b.toNat % 16) :: encode bytes := rfl
    have hbyte : b.toNat / 16 * 16 + b.toNat % 16 = b.toNat := by omega
    have hsize := b.toNat_lt
    have hread : decode? (encode (b :: bytes)) =
        some (UInt8.ofNat (b.toNat / 16 * 16 + b.toNat % 16) :: bytes) := by
      rw [hstep, decode?, value?_digit (by omega), value?_digit (by omega), ih]
      rfl
    rw [hread, hbyte, UInt8.ofNat_toNat]

/-- Byte strings with one hexadecimal text are one. -/
theorem Hex.encode_injective : Function.Injective encode := fun first second h =>
  Option.some.inj <| by rw [← decode?_encode first, h, decode?_encode]

/-- The bytes of a string determine it. -/
theorem Utf8.encodeString_injective : Function.Injective encodeString := by
  intro first second h
  have hdecode : decode? (encodeString first) = decode? (encodeString second) := by rw [h]
  rw [encodeString, encodeString, decode?_encode, decode?_encode] at hdecode
  exact String.toList_injective (Option.some.inj hdecode)

end Text

/-- Two different messages with one digest. -/
def Digest.Sha1.IsCollision (first second : Bytes) : Prop :=
  first ≠ second ∧ digest first = digest second

namespace Signature

open Text Digest.Sha1

/-! ## The order of the parts -/

/-- The order that the parts are sorted by is the lexicographic order of bytes. -/
theorem inOrder_iff {left right : Bytes} : inOrder left right = true ↔ left ≤ right := by
  rw [inOrder, Bool.not_eq_true', List.lex_eq_false_iff_ge]

variable {parts others : List String}

/-- Arranged parts stand in ascending order. -/
theorem arrange_pairwise (parts : List String) : (arrange parts).Pairwise (· ≤ ·) := by
  have hsorted := @List.pairwise_mergeSort _ inOrder
    (fun a b c hab hbc => inOrder_iff.mpr
      (List.le_trans (inOrder_iff.mp hab) (inOrder_iff.mp hbc)))
    (fun a b => by
      rw [Bool.or_eq_true, inOrder_iff, inOrder_iff]
      exact List.le_total a b)
    (parts.map Utf8.encodeString)
  exact hsorted.imp inOrder_iff.mp

/-- Parts are arranged alike if and only if they are the same up to their order. -/
theorem arrange_eq_iff : arrange parts = arrange others ↔ parts.Perm others := by
  rw [← List.map_perm_map_iff Utf8.encodeString_injective]
  constructor
  · intro h
    exact (arrange_perm parts).symm.trans (h ▸ arrange_perm others)
  · intro h
    exact List.Perm.eq_of_pairwise (fun _ _ _ _ => List.le_antisymm) (arrange_pairwise parts)
      (arrange_pairwise others) ((arrange_perm parts).trans (h.trans (arrange_perm others).symm))

/-- Parts that are in order are covered one after another, in whatever order they were given. -/
theorem covered_of_perm (ordered : List String) (h : parts.Perm ordered)
    (hordered : (ordered.map Utf8.encodeString).Pairwise (· ≤ ·)) :
    covered parts = (ordered.map Utf8.encodeString).flatten := by
  have harrange : arrange ordered = ordered.map Utf8.encodeString :=
    List.mergeSort_of_pairwise (hordered.imp inOrder_iff.mpr)
  rw [covered, arrange_eq_iff.mpr h, harrange]

/-- How many bytes the parts have. -/
def byteCount (parts : List String) : Nat := sizeSum List.length (parts.map Utf8.encodeString)

/-- All bytes of the parts are covered. -/
theorem length_covered (parts : List String) : (covered parts).length = byteCount parts := by
  rw [covered, length_flatten, sizeSum_perm List.length (arrange_perm parts), byteCount]

/-- The covered bytes and the boundaries between the arranged parts determine the parts. -/
theorem perm_of_covered_eq (h : covered parts = covered others)
    (hbounds : (arrange parts).map List.length = (arrange others).map List.length) :
    parts.Perm others :=
  arrange_eq_iff.mp (List.eq_iff_flatten_eq.mpr ⟨h, hbounds⟩)

/-! ## Checks -/

/-- A signature determines the digest of the bytes that it covers. -/
theorem sign_eq_iff :
    sign parts = sign others ↔ digest (covered parts) = digest (covered others) := by
  rw [sign, sign, String.ofList_inj]
  exact Hex.encode_injective.eq_iff

/-- What a check covers besides the token; a sealed check needs a ciphertext. -/
def fields? (mode : Mode) (timestamp nonce : String) (ciphertext : Option String) :
    Option (List String) :=
  match mode, ciphertext with
  | .plain, _ => some [timestamp, nonce]
  | .safe, some text => some [timestamp, nonce, text]
  | .safe, none => none

variable {mode other : Mode} {token presented timestamp nonce timestamp' nonce' : String}
  {ciphertext ciphertext' : Option String} {fields fields' : List String}

/-- The expected signature is that of the token and the fields, where there are fields to sign. -/
theorem expected?_eq (mode : Mode) (token timestamp nonce : String) (ciphertext : Option String) :
    expected? mode token timestamp nonce ciphertext =
      (fields? mode timestamp nonce ciphertext).map fun fields => sign (token :: fields) := by
  cases mode <;> cases ciphertext <;> rfl

/-- A check accepts the signature of the token and of the fields that it covers. -/
theorem verify_iff : verify mode token timestamp nonce presented ciphertext = true ↔
    ∃ fields, fields? mode timestamp nonce ciphertext = some fields ∧
      presented = sign (token :: fields) := by
  rw [verify, beq_iff_eq, expected?_eq, Option.map_eq_some_iff]
  exact exists_congr fun fields => and_congr_right fun _ => eq_comm

/-- Sealed checks cover one field more. -/
theorem mode_eq_of_length (h : fields? mode timestamp nonce ciphertext = some fields)
    (h' : fields? other timestamp' nonce' ciphertext' = some fields')
    (hlength : fields.length = fields'.length) : mode = other := by
  cases mode <;> cases other <;> cases ciphertext <;> cases ciphertext' <;>
    simp_all [fields?] <;> simp [← h, ← h'] at hlength

/-- If the same timestamp and nonce cover the same bytes in both modes, the ciphertext is empty. -/
theorem eq_empty_of_covered_eq {text : String}
    (h : covered [token, timestamp, nonce] = covered [token, timestamp, nonce, text]) :
    text = "" := by
  have hlength := congrArg List.length h
  rw [length_covered, length_covered] at hlength
  have hempty : Utf8.encodeString text = [] := by
    rw [← List.length_eq_zero_iff]
    simp only [byteCount, List.map_cons, List.map_nil, sizeSum_cons, sizeSum_nil] at hlength
    omega
  exact Utf8.encodeString_injective (hempty.trans rfl)

/-- A signature that two checks accept binds the bytes that they cover: these are the same, or they
are a collision. If they are the same, then all signatures are accepted alike, the fields have
the same number of bytes, and fields whose boundaries are the same are the same up to their order.
For one timestamp and one nonce, a plain signature passes a sealed check only if the ciphertext is
empty or there is a collision. -/
theorem signature_binds_covered_bytes
    (h : verify mode token timestamp nonce presented ciphertext = true)
    (h' : verify other token timestamp' nonce' presented ciphertext' = true) :
    ∃ fields fields', fields? mode timestamp nonce ciphertext = some fields ∧
      fields? other timestamp' nonce' ciphertext' = some fields' ∧
      (covered (token :: fields) = covered (token :: fields') ∨
        IsCollision (covered (token :: fields)) (covered (token :: fields'))) ∧
      (covered (token :: fields) = covered (token :: fields') →
        (∀ signature, verify mode token timestamp nonce signature ciphertext =
          verify other token timestamp' nonce' signature ciphertext') ∧
        byteCount fields = byteCount fields' ∧
        ((arrange (token :: fields)).map List.length =
            (arrange (token :: fields')).map List.length →
          mode = other ∧ fields.Perm fields')) ∧
      (mode = .plain → other = .safe → timestamp = timestamp' → nonce = nonce' →
        ciphertext' = some "" ∨
          IsCollision (covered (token :: fields)) (covered (token :: fields'))) := by
  obtain ⟨fields, hfields, rfl⟩ := verify_iff.mp h
  obtain ⟨fields', hfields', hsame⟩ := verify_iff.mp h'
  have hdigest := sign_eq_iff.mp hsame
  have hbound : covered (token :: fields) = covered (token :: fields') ∨
      IsCollision (covered (token :: fields)) (covered (token :: fields')) := by
    by_cases hcovered : covered (token :: fields) = covered (token :: fields')
    · exact .inl hcovered
    · exact .inr ⟨hcovered, hdigest⟩
  refine ⟨fields, fields', hfields, hfields', hbound, fun hcovered => ⟨?_, ?_, ?_⟩, ?_⟩
  · intro signature
    rw [verify, verify, expected?_eq, expected?_eq, hfields, hfields', Option.map_some,
      Option.map_some, hsame]
  · have hlength := congrArg List.length hcovered
    rw [length_covered, length_covered] at hlength
    exact Nat.add_left_cancel hlength
  · intro hbounds
    have hperm := (perm_of_covered_eq hcovered hbounds).cons_inv
    exact ⟨mode_eq_of_length hfields hfields' hperm.length_eq, hperm⟩
  · rintro rfl rfl rfl rfl
    obtain rfl := Option.some.inj hfields
    cases ciphertext' with
    | none => cases hfields'
    | some text =>
      obtain rfl := Option.some.inj hfields'
      exact hbound.imp (fun hcovered => congrArg some (eq_empty_of_covered_eq hcovered)) id

/-- Fields that are exchanged, between which text is moved, and with a ciphertext. -/
def sharingFields : List (List String) :=
  [["12", "3"], ["3", "12"], ["1", "23"], ["1", "2", "3"], ["12", "3", ""]]

/-- The signature of the first of these fields. -/
def sharedSignature : String := sign ["tok", "12", "3"]

/-- The fields of the sample all cover one string. -/
theorem covered_of_sharing :
    ∀ fields ∈ sharingFields, covered ("tok" :: fields) = Utf8.encodeString "123tok" := by
  simp only [sharingFields, List.forall_mem_cons, List.not_mem_nil, false_implies, implies_true,
    and_true]
  refine ⟨?_, ?_, ?_, ?_, ?_⟩
  · exact covered_of_perm ["12", "3", "tok"] (by decide) (by decide)
  · exact covered_of_perm ["12", "3", "tok"] (by decide) (by decide)
  · exact covered_of_perm ["1", "23", "tok"] (by decide) (by decide)
  · exact covered_of_perm ["1", "2", "3", "tok"] (by decide) (by decide)
  · exact covered_of_perm ["", "12", "3", "tok"] (by decide) (by decide)

/-- Timestamp and nonce exchanged are accepted with one signature, and are the same fields in
another order. -/
theorem signature_binds_covered_bytes_exchanged :
    verify .plain "tok" "12" "3" sharedSignature none = true ∧
    verify .plain "tok" "3" "12" sharedSignature none = true ∧
    ["12", "3"].Perm ["3", "12"] := by
  have hshared := (covered_of_sharing ["12", "3"] (by decide)).trans
    (covered_of_sharing ["3", "12"] (by decide)).symm
  have hplain : verify .plain "tok" "12" "3" sharedSignature none = true :=
    verify_iff.mpr ⟨_, rfl, rfl⟩
  have hother : verify .plain "tok" "3" "12" sharedSignature none = true :=
    verify_iff.mpr ⟨_, rfl, sign_eq_iff.mpr (congrArg digest hshared)⟩
  obtain ⟨fields, fields', hfields, hfields', -, hbinds, -⟩ :=
    signature_binds_covered_bytes hplain hother
  obtain rfl := Option.some.inj hfields
  obtain rfl := Option.some.inj hfields'
  have hbounds := arrange_eq_iff.mpr (show ["tok", "12", "3"].Perm ["tok", "3", "12"] by decide)
  exact ⟨hplain, hother, ((hbinds hshared).2.2 (congrArg _ hbounds)).2⟩

/-- One signature passes checks of different fields and of both modes, without a collision: the
bytes that are covered are the same. -/
theorem shared_signature_passes_other_checks :
    verify .plain "tok" "12" "3" sharedSignature none = true ∧
    verify .plain "tok" "3" "12" sharedSignature none = true ∧
    verify .plain "tok" "1" "23" sharedSignature none = true ∧
    verify .safe "tok" "1" "2" sharedSignature (some "3") = true ∧
    verify .safe "tok" "12" "3" sharedSignature (some "") = true ∧
    ∀ fields ∈ sharingFields, covered ("tok" :: fields) = Utf8.encodeString "123tok" := by
  have hpasses : ∀ fields ∈ sharingFields, sharedSignature = sign ("tok" :: fields) :=
    fun fields hfields => sign_eq_iff.mpr (congrArg digest
      ((covered_of_sharing ["12", "3"] (by decide)).trans
        (covered_of_sharing fields hfields).symm))
  exact ⟨verify_iff.mpr ⟨_, rfl, hpasses _ (by decide)⟩,
    verify_iff.mpr ⟨_, rfl, hpasses _ (by decide)⟩,
    verify_iff.mpr ⟨_, rfl, hpasses _ (by decide)⟩,
    verify_iff.mpr ⟨_, rfl, hpasses _ (by decide)⟩,
    verify_iff.mpr ⟨_, rfl, hpasses _ (by decide)⟩, covered_of_sharing⟩

end Signature

end CallbackGateway
