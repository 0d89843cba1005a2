import CallbackGateway.Proofs.Message.TextSize
import CallbackGateway.Proofs.Payload.WireForm
import CallbackGateway.Proofs.Push.Conveyed

/-!
# How long the texts of a push are

Neither a wrapper nor a ciphertext can hold more than the body has, so the texts of an opened push
are longer than its body by a constant factor at most, however it was sent.
-/

namespace CallbackGateway

open Record

/-! ## Wrappers -/

namespace Envelope

/-- No text read out of a wrapper in markup is longer than the markup. -/
theorem textsWithin_fieldsOfMarkup {text : List Char} {fields : Fields}
    (h : fieldsOfMarkup text = .ok fields) : fields.TextsWithin text.length := by
  have hscan := Markup.textSize_scan (Markup.dropMark text)
  have hmark := Markup.length_dropMark_le text
  have hitems := Markup.itemsTextSize_assemble_le (Markup.scan (Markup.dropMark text)).tokens
  exact (textsWithin_ofItems h).mono (by omega)

/-- A string read out of a tree is no longer than the texts of the tree. -/
theorem length_stringOf?_le {bound : Nat} {tree : Json.Tree} {text : String}
    (htree : tree.TextsWithin bound) (h : stringOf? tree = some text) : text.length ≤ bound := by
  cases tree with
  | string quoted => exact htree.string h
  | null | boolean | number | array | object => cases h

/-- What an object's members add to a wrapper keeps the bound on its texts. -/
theorem textsWithin_fieldsOfMembers? {bound : Nat} {members : List (Json.Quoted × Json.Tree)}
    {found fields : Fields} (hfound : found.TextsWithin bound)
    (hmembers : ∀ member ∈ members, member.2.TextsWithin bound)
    (h : fieldsOfMembers? found members = some fields) : fields.TextsWithin bound := by
  induction members generalizing found with
  | nil =>
    obtain rfl := Option.some.inj h
    exact hfound
  | cons member rest ih =>
    obtain ⟨key, tree⟩ := member
    obtain ⟨htree, hrest⟩ := List.forall_mem_cons.mp hmembers
    obtain ⟨name, -, h⟩ := Option.bind_eq_some_iff.mp h
    split at h
    · split at h
      · cases h
      · obtain ⟨text, htext, h⟩ := Option.bind_eq_some_iff.mp h
        exact ih (hfound.concat (.text (length_stringOf?_le htree htext))) hrest h
    · exact ih hfound hrest h

/-- A wrapper read out of an array keeps the bound on the array's texts. -/
theorem textsWithin_fieldsOfItems? {bound : Nat} {names : List String} {items : List Json.Tree}
    {fields : Fields} (hitems : ∀ item ∈ items, item.TextsWithin bound)
    (h : fieldsOfItems? names items = some fields) : fields.TextsWithin bound := by
  induction items generalizing names fields with
  | nil =>
    rw [fieldsOfItems?] at h
    obtain rfl := Option.some.inj h
    exact .nil
  | cons item rest ih =>
    obtain ⟨hitem, hrest⟩ := List.forall_mem_cons.mp hitems
    cases names with
    | nil => cases h
    | cons name others =>
      obtain ⟨text, htext, h⟩ := Option.bind_eq_some_iff.mp h
      obtain ⟨tail, htail, h⟩ := Option.bind_eq_some_iff.mp h
      obtain rfl := Option.some.inj h
      exact .cons (.text (length_stringOf?_le hitem htext)) (ih hrest htail)

/-- No text of a wrapper is longer than the body that it is read from. -/
theorem textsWithin_fieldsOf {format : WireFormat} {body : Bytes} {fields : Fields}
    (h : fieldsOf format body = .ok fields) : fields.TextsWithin body.length := by
  cases format with
  | xml =>
    rw [fieldsOf] at h
    split at h
    · rename_i text hdecode
      exact (textsWithin_fieldsOfMarkup (eq_ok_of_mapError h)).mono
        (Text.Utf8.length_le_of_decode hdecode)
    · cases h
  | json =>
    rw [fieldsOf] at h
    split at h
    · rename_i found hfound
      obtain rfl := Except.ok.inj h
      obtain ⟨tree, htree, hfields⟩ := Option.bind_eq_some_iff.mp hfound
      have hwithin := Json.Tree.textsWithin_of_read? htree
      cases tree with
      | object members => exact textsWithin_fieldsOfMembers? .nil hwithin.member hfields
      | array items => exact textsWithin_fieldsOfItems? hwithin.item hfields
      | null | boolean | number | string => cases hfields
    · cases h

/-- A ciphertext is not longer than the body that it came in. -/
theorem length_ciphertext_le {format : WireFormat} {body : Bytes} {wrapper : Wrapper}
    (h : Wrapper.decode format body = .ok wrapper) : wrapper.ciphertext.length ≤ body.length := by
  obtain ⟨fields, hfields, h⟩ := exists_of_bind_eq_ok h
  have hwithin := textsWithin_fieldsOf hfields
  dsimp only at h
  split at h
  · cases h
  · obtain rfl := Except.ok.inj h
    exact hwithin.length_text_le "Encrypt"

end Envelope

/-! ## Ciphertexts -/

/-- A ciphertext has at least as many characters as its content has bytes. -/
theorem Payload.length_decrypt_le {key : Key} {sealedText appId : String} {content : Bytes}
    (h : decrypt key sealedText appId = .ok content) : content.length ≤ sealedText.length := by
  obtain ⟨opened, hopened, h⟩ := exists_of_bind_eq_ok h
  rcases fails_or_isSealed key sealedText with
    ⟨error, hfails⟩ | ⟨salt, kept, trailer, count, hsealed⟩
  · rw [hfails.openSealed] at hopened
    cases hopened
  · obtain rfl := Except.ok.inj (hsealed.openSealed.symm.trans hopened)
    split at h
    · obtain rfl := Except.ok.inj h
      obtain ⟨-, -, sent, hsent, htext⟩ := hsealed.sent
      have hplain := (Key.length_of_encryptBytes? hsent).1
      have hletters := Base64.encode_length sent
      have htrim := Text.length_trim_le sealedText.toList
      rw [htext, String.length_toList] at htrim
      simp only [List.length_append] at hplain
      dsimp only
      omega
    · cases h

/-- Sealing makes a content at most twice as long, and adds a constant. -/
theorem Payload.length_encrypt_le {key : Key} {salt : Aes.Block} {content : Bytes}
    {appId sealedText : String} (h : encrypt key salt content appId = .ok sealedText) :
    sealedText.length ≤ 2 * (content.length + (Text.Utf8.encodeString appId).length) + 80 := by
  unfold encrypt at h
  split at h
  · cases h
  · dsimp only at h
    split at h
    · rename_i sent hsent
      obtain rfl := Except.ok.inj h
      have hplain := (Key.length_of_encryptBytes? hsent).1
      have hpadding := (padCount_range (frame salt content (Text.Utf8.encodeString appId)).length).2
      rw [pad, List.length_append, List.length_replicate] at hplain
      have hframe : (frame salt content (Text.Utf8.encodeString appId)).length =
          20 + content.length + (Text.Utf8.encodeString appId).length := by
        simp only [frame, List.length_append, Aes.Block.toBytes_length, bytes32, List.length_cons,
          List.length_nil]
      rw [String.length_ofList, Base64.encode_length]
      omega
    · cases h

/-! ## Opened pushes -/

/-- What a body conveys is not longer than the body. -/
theorem Conveys.length_le {credentials : Credentials} {format : WireFormat}
    {encoding : PushEncoding} {body inner : Bytes}
    (h : Conveys credentials format encoding body inner) : inner.length ≤ body.length := by
  cases encoding with
  | plain =>
    obtain rfl := h
    exact Nat.le_refl _
  | sealed =>
    obtain ⟨key, wrapper, -, hwrapper, hinner⟩ := h
    exact Nat.le_trans (Payload.length_decrypt_le hinner) (Envelope.length_ciphertext_le hwrapper)

/-- The texts of an opened push. -/
theorem PushQuery.textsWithin_of_openPush {query : PushQuery} {credentials : Credentials}
    {format : WireFormat} {body : Bytes} {opened : OpenedPush}
    (h : query.openPush credentials format body = .ok opened) :
    opened.message.TextsWithin (6 * body.length + 29) := by
  obtain ⟨inner, hconveys, hdecode⟩ := exists_decode_of_openPush h
  have hlength := hconveys.length_le
  exact (Message.textsWithin_of_decode hdecode).mono (by omega)

end CallbackGateway
