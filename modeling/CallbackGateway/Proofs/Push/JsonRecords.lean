import CallbackGateway.Envelope.Wrapper
import CallbackGateway.Message.Decode
import CallbackGateway.Proofs.Json.ReadBack
import CallbackGateway.Proofs.Record.JsonForm

/-!
# Records of JSON bodies

The body of a push is an object, but the records inside it need not be: an array of values is read
as the fields of a record in the order of their declaration, and so is a whole wrapper. The records
of a callback are objects or arrays of at most as many values as there are fields; a wrapper is an
object or an array of two strings.
-/

namespace CallbackGateway

open Record

/-! ## Popups -/

section Popups

variable {schema inner : Schema} {value deep : Json.Value}

/-- Records stay where they are when a member is updated, if they do in this member. -/
theorem Record.Within.updateMember {key : String} {update : Json.Value → Json.Value}
    (h : Within (.record schema) value (.record inner) deep)
    (hnull : ∀ held, held ≠ .null → update held ≠ .null)
    (hupdate : ∀ kind held, List.lookup key schema = some kind →
      Within kind held (.record inner) deep →
        (∃ members, deep = .object members) ∨ Within kind (update held) (.record inner) deep) :
    (∃ members, deep = .object members) ∨
      Within (.record schema) (Message.updateMember key update value) (.record inner) deep := by
  cases h with
  | here =>
    cases value with
    | object members => exact .inl ⟨members, rfl⟩
    | null | boolean | number | string | array => exact .inr (.here ..)
  | position hfield hitem hrest => exact .inr (.position hfield hitem hrest)
  | @member _ members name kind _ held _ hkey hmem hheld hrest =>
    have hupdated := List.mem_map_of_mem (f := fun (member : String × Json.Value) =>
      (member.1, if member.1 = key then update member.2 else member.2)) hmem
    dsimp only at hupdated
    by_cases hname : name = key
    · rw [if_pos hname] at hupdated
      subst hname
      exact (hupdate kind held hkey hrest).imp_right fun hwithin =>
        .member hkey hupdated (hnull held hheld) hwithin
    · rw [if_neg hname] at hupdated
      exact .inr (.member hkey hupdated hheld hrest)

/-- A record in an object is a record in the array of this object. -/
theorem Record.Within.enlist (h : Within (.records schema) value (.record inner) deep) :
    Within (.records schema) (Message.enlist value) (.record inner) deep := by
  cases h with
  | item hmem hrest => exact .item hmem hrest
  | sole hrest => exact .item List.mem_cons_self hrest

/-- Giving the decisions of a popup their arrays leaves every record that is no object in place. -/
theorem Record.Within.enlistPopups {members : List (String × Json.Value)}
    (h : Within (.record Message.schema) (.object members) (.record inner) deep) :
    (∃ members, deep = .object members) ∨
      Within (.record Message.schema) (Message.enlistPopups (.object members)) (.record inner)
        deep := by
  have hlist (held : Json.Value) (hheld : held ≠ .null) : Message.enlist held ≠ .null := by
    cases held with
    | null => exact absurd rfl hheld
    | boolean | number | string | array | object => exact nofun
  refine h.updateMember (fun held hheld => ?_) fun kind held hkey hwithin => ?_
  · have hgroups := hlist held hheld
    cases hcase : Message.enlist held with
    | null => exact absurd hcase hgroups
    | boolean | number | string | array | object => exact nofun
  · obtain rfl := Option.some.inj hkey
    have hgroups := hwithin.enlist
    cases hcase : Message.enlist held with
    | array groups =>
      rw [hcase] at hgroups
      cases hgroups with
      | item hmem hgroup =>
        have hgroup := hgroup.updateMember hlist fun kind held hkey hrest => by
          have hname : List.lookup "List" Message.popupSchema = some kind := hkey
          obtain rfl := Option.some.inj hname
          exact .inr hrest.enlist
        exact hgroup.imp_right fun hwithin => .item (List.mem_map_of_mem hmem) hwithin
    | null | boolean | number | string | object =>
      rw [hcase] at hgroups
      exact .inr hgroups

end Popups

/-! ## Messages -/

namespace Message

/-- A JSON body is decoded just if it is an object that can be read as a record. -/
theorem exists_decode_json_iff {body : Bytes} : (∃ message, decode .json body = .ok message) ↔
    ∃ members, Json.Value.read? body = some (.object members) ∧
      Readable (.record schema) (enlistPopups (.object members)) := by
  rw [decode, fieldsOf, fieldsOfJson]
  cases hread : Json.Value.read? body with
  | none => simp [Except.map]
  | some value =>
    cases value with
    | object members =>
      simp only [Option.some.injEq, Json.Value.object.injEq, exists_eq_left', Readable, ofJson]
      cases readValue (.record schema) (enlistPopups (.object members)) with
      | error cause =>
        constructor
        · rintro ⟨message, h⟩
          cases h
        · rintro ⟨found, h⟩
          cases h
      | ok value => exact ⟨fun _ => ⟨value, rfl⟩, fun _ => ⟨_, rfl⟩⟩
    | null | boolean | number | string | array => simp [Except.map]

/-- No record of the message's schema declares a name twice. -/
theorem isDistinct_schema : (Kind.record schema).isDistinct = true := by decide +kernel

end Message

/-! ## Wrappers -/

namespace Envelope

/-- A field whose text is not empty is there, as that text. -/
theorem lookup_of_text_ne {fields : Fields} {name : String} (h : fields.text name ≠ "") :
    List.lookup name fields = some (.text (fields.text name)) := by
  unfold Fields.text at h ⊢
  split
  · assumption
  · rename_i hnone
    split at h
    · exact absurd ‹_› (hnone _)
    · exact absurd rfl h

/-- Whether a member with a name is a string with a text. -/
def HoldsText (members : List (Json.Quoted × Json.Tree)) (name text : String) : Prop :=
  ∃ key quoted, (key, Json.Tree.string quoted) ∈ members ∧ Json.quotedText? key = some name ∧
    Json.quotedText? quoted = some text

/-- A field that is found among members was found before or is a member that is a string. -/
theorem holdsText_of_fieldsOfMembers? {members : List (Json.Quoted × Json.Tree)}
    {before found : Fields} {name text : String} (h : fieldsOfMembers? before members = some found)
    (hfound : List.lookup name found = some (.text text)) :
    List.lookup name before = some (.text text) ∨ HoldsText members name text := by
  induction members generalizing before with
  | nil =>
    obtain rfl := Option.some.inj h
    exact .inl hfound
  | cons member rest ih =>
    obtain ⟨key, tree⟩ := member
    have hmore : HoldsText rest name text → HoldsText ((key, tree) :: rest) name text :=
      fun ⟨other, quoted, hmem, htext⟩ => ⟨other, quoted, List.mem_cons_of_mem _ hmem, htext⟩
    rw [fieldsOfMembers?] at h
    obtain ⟨other, hother, h⟩ := Option.bind_eq_some_iff.mp h
    split at h
    case isFalse => exact (ih h).imp_right hmore
    split at h
    case isTrue => cases h
    obtain ⟨content, hcontent, h⟩ := Option.bind_eq_some_iff.mp h
    rcases ih h with hbefore | hmember
    · rw [List.lookup_append] at hbefore
      cases hlookup : List.lookup name before with
      | some value =>
        rw [hlookup] at hbefore
        exact .inl hbefore
      | none =>
        -- the field is the one that this member adds
        rw [hlookup, Option.none_or] at hbefore
        obtain ⟨rfl, hvalue⟩ := Prod.mk.inj (List.mem_singleton.mp (mem_of_lookup hbefore))
        obtain rfl := Value.text.inj hvalue
        cases tree with
        | string quoted => exact .inr ⟨key, quoted, List.mem_cons_self, hother, hcontent⟩
        | null | boolean | number | array | object => cases hcontent
    · exact .inr (hmore hmember)

/-- Items with a ciphertext are two strings. -/
theorem exists_of_fieldsOfItems? {items : List Json.Tree} {found : Fields}
    (h : fieldsOfItems? (schema.map Prod.fst) items = some found)
    (hsealed : found.text "Encrypt" ≠ "") : ∃ user sealed userText sealedText,
      items = [.string user, .string sealed] ∧ Json.quotedText? user = some userText ∧
        Json.quotedText? sealed = some sealedText ∧
        found = [("ToUserName", .text userText), ("Encrypt", .text sealedText)] := by
  have hstring {tree : Json.Tree} {text : String} (htext : stringOf? tree = some text) :
      ∃ quoted, tree = .string quoted ∧ Json.quotedText? quoted = some text := by
    cases tree with
    | string quoted => exact ⟨quoted, rfl, htext⟩
    | null | boolean | number | array | object => cases htext
  change fieldsOfItems? ["ToUserName", "Encrypt"] items = some found at h
  match items with
  | [] =>
    obtain rfl := Option.some.inj h
    exact absurd rfl hsealed
  | [first] =>
    simp only [fieldsOfItems?, Option.bind_eq_bind, Option.bind_some, Option.bind_eq_some_iff] at h
    obtain ⟨text, -, h⟩ := h
    obtain rfl := Option.some.inj h
    exact absurd rfl hsealed
  | [first, second] =>
    simp only [fieldsOfItems?, Option.bind_eq_bind, Option.bind_some, Option.bind_eq_some_iff] at h
    obtain ⟨userText, huser, fields, ⟨sealedText, hsecond, hfields⟩, h⟩ := h
    obtain rfl := Option.some.inj hfields
    obtain rfl := Option.some.inj h
    obtain ⟨user, rfl, huser⟩ := hstring huser
    obtain ⟨sealed, rfl, hsecond⟩ := hstring hsecond
    exact ⟨user, sealed, userText, sealedText, rfl, huser, hsecond, rfl⟩
  | first :: second :: third :: rest =>
    simp [fieldsOfItems?] at h

namespace Wrapper

/-- Whether a body is an object that says what a wrapper holds; the ciphertext is not blank. -/
def IsObject (body : Bytes) (wrapper : Wrapper) : Prop :=
  ∃ members, Json.Tree.read? body = some (.object members) ∧
    HoldsText members "Encrypt" wrapper.ciphertext ∧ Text.trim wrapper.ciphertext.toList ≠ []

/-- Whether a body is an array of the two strings that a wrapper holds; the second is not blank. -/
def IsArray (body : Bytes) (wrapper : Wrapper) : Prop :=
  ∃ user sealed, Json.Tree.read? body = some (.array [.string user, .string sealed]) ∧
    Json.quotedText? user = some wrapper.toUser ∧
    Json.quotedText? sealed = some wrapper.ciphertext ∧
    Text.trim wrapper.ciphertext.toList ≠ []

/-- A body is read as a wrapper just if it holds a record of fields whose ciphertext is not blank.
-/
theorem decode_eq_ok_iff {format : WireFormat} {body : Bytes} {wrapper : Wrapper} :
    decode format body = .ok wrapper ↔ ∃ fields, fieldsOf format body = .ok fields ∧
      wrapper = ⟨fields.text "ToUserName", fields.text "Encrypt"⟩ ∧
      Text.trim wrapper.ciphertext.toList ≠ [] := by
  rw [decode]
  cases fieldsOf format body with
  | error error => simp [bind, Except.bind]
  | ok fields =>
    simp only [bind, Except.bind, Except.ok.injEq, exists_eq_left']
    split
    · rename_i hblank
      refine ⟨nofun, ?_⟩
      rintro ⟨rfl, hsealed⟩
      exact absurd hblank hsealed
    · rename_i hsealed
      simp only [pure, Except.pure, Except.ok.injEq]
      refine ⟨?_, fun h => h.1.symm⟩
      rintro rfl
      exact ⟨rfl, hsealed⟩

/-- A wrapper is an object or an array. -/
theorem isObject_or_isArray {body : Bytes} {wrapper : Wrapper}
    (h : decode .json body = .ok wrapper) : IsObject body wrapper ∨ IsArray body wrapper := by
  obtain ⟨fields, hfields, rfl, hsealed⟩ := decode_eq_ok_iff.mp h
  have hne : fields.text "Encrypt" ≠ "" := by
    intro hempty
    dsimp only at hsealed
    rw [hempty] at hsealed
    exact hsealed rfl
  rw [fieldsOf] at hfields
  cases hread : Json.Tree.read? body with
  | none =>
    rw [hread] at hfields
    cases hfields
  | some tree =>
    rw [hread, Option.bind_some] at hfields
    cases tree with
    | object members =>
      rw [fieldsOfTree?] at hfields
      cases hmembers : fieldsOfMembers? [] members with
      | none =>
        rw [hmembers] at hfields
        cases hfields
      | some found =>
        rw [hmembers] at hfields
        obtain rfl := Except.ok.inj hfields
        have htext := lookup_of_text_ne hne
        rcases holdsText_of_fieldsOfMembers? hmembers htext with hnone | hmember
        · cases hnone
        · exact .inl ⟨members, hread, hmember, hsealed⟩
    | array items =>
      rw [fieldsOfTree?] at hfields
      cases hitems : fieldsOfItems? (schema.map Prod.fst) items with
      | none =>
        rw [hitems] at hfields
        cases hfields
      | some found =>
        rw [hitems] at hfields
        obtain rfl := Except.ok.inj hfields
        obtain ⟨user, sealed, userText, sealedText, rfl, huser, hsecond, rfl⟩ :=
          exists_of_fieldsOfItems? hitems hne
        exact .inr ⟨user, sealed, hread, huser, hsecond, hsealed⟩
    | null | boolean | number | string => cases hfields

/-- An array of two strings is a wrapper. -/
theorem IsArray.decode {body : Bytes} {wrapper : Wrapper} (h : IsArray body wrapper) :
    decode .json body = .ok wrapper := by
  obtain ⟨user, sealed, hread, huser, hsecond, hsealed⟩ := h
  refine decode_eq_ok_iff.mpr ⟨[("ToUserName", .text wrapper.toUser),
    ("Encrypt", .text wrapper.ciphertext)], ?_, rfl, hsealed⟩
  have hitems : fieldsOfItems? (schema.map Prod.fst) [.string user, .string sealed] =
      some [("ToUserName", .text wrapper.toUser), ("Encrypt", .text wrapper.ciphertext)] := by
    simp [schema, fieldsOfItems?, stringOf?, huser, hsecond]
  rw [fieldsOf, hread, Option.bind_some, fieldsOfTree?, hitems]

end Wrapper

end Envelope

/-! ## Both bodies -/

/-- A JSON body is decoded as a message just if it is an object in which everything that stands
under a declared name has the form of its kind. Every record in it is an object or an array of
fields, which is read as an object. A JSON body is decoded as a wrapper only if it is an object with
a ciphertext that is not blank, or an array of two strings, and every such array is. -/
theorem json_records_are_objects_or_arrays (body : Bytes) :
    ((∃ message, Message.decode .json body = .ok message) ↔
      ∃ members, Json.Value.read? body = some (.object members) ∧
        ∀ kind value, Within (.record Message.schema) (Message.enlistPopups (.object members)) kind
          value → HasForm kind value) ∧
    (∀ message, Message.decode .json body = .ok message →
      ∃ members, Json.Value.read? body = some (.object members) ∧
        ∀ inner value, Within (.record Message.schema) (.object members) (.record inner) value →
          (∃ fields, value = .object fields) ∨ IsFieldArray inner value) ∧
    (∀ wrapper, Envelope.Wrapper.decode .json body = .ok wrapper →
      Envelope.Wrapper.IsObject body wrapper ∨ Envelope.Wrapper.IsArray body wrapper) ∧
    ∀ wrapper, Envelope.Wrapper.IsArray body wrapper →
      Envelope.Wrapper.decode .json body = .ok wrapper := by
  refine ⟨?_, fun message hmessage => ?_, fun _ => Envelope.Wrapper.isObject_or_isArray,
    fun _ => Envelope.Wrapper.IsArray.decode⟩
  · simp only [Message.exists_decode_json_iff, readable_iff]
  · obtain ⟨members, hread, hreadable⟩ := Message.exists_decode_json_iff.mp ⟨message, hmessage⟩
    refine ⟨members, hread, fun inner value hwithin => ?_⟩
    rcases hwithin.enlistPopups with hobject | hlisted
    · exact .inl hobject
    · exact hlisted.object_or_array Message.isDistinct_schema hreadable

/-- The code that was scanned may be told in an array, and a wrapper may be one. -/
theorem arrays_are_read_as_records :
    (Message.decode .json (Json.Value.object [("Event", .string "scancode_push"),
        ("MsgType", .string "event"),
        ("ScanCodeInfo", .array [.string "qrcode", .string "r"])]).toBytes).map Message.body =
      .ok (.event (.scanCodePush ⟨"", "qrcode", "r"⟩)) ∧
    Envelope.Wrapper.decode .json (Json.Value.array [.string "gh", .string "abc"]).toBytes =
      .ok ⟨"gh", "abc"⟩ := by
  constructor
  · have hstable : Json.Stable Json.deepest (.object [("Event", .string "scancode_push"),
        ("MsgType", .string "event"),
        ("ScanCodeInfo", .array [.string "qrcode", .string "r"])]) := by
      refine .of_names ["Event", "MsgType", "ScanCodeInfo"] rfl (by decide) ?_
      simp only [List.forall_mem_cons]
      refine ⟨.string _, .string _, .array ?_, nofun⟩
      simp only [List.forall_mem_cons]
      exact ⟨.string _, .string _, nofun⟩
    rw [Message.decode, Message.fieldsOf, Message.fieldsOfJson, hstable.read?_toBytes]
    rfl
  · have htree : Json.HasTree (.array [.string "gh", .string "abc"])
        (.array [.string (Json.textParts "gh".toList), .string (Json.textParts "abc".toList)]) :=
      .array (.cons (.string _) (.cons (.string _) .nil))
    refine Envelope.Wrapper.IsArray.decode ⟨_, _, Json.read?_toBytes htree, ?_, ?_, by decide⟩
    · rw [Json.quotedText?_textParts, String.ofList_toList]
    · rw [Json.quotedText?_textParts, String.ofList_toList]

end CallbackGateway
