import CallbackGateway.Proofs.Binary64.RenderedSize
import CallbackGateway.Proofs.Json.Document
import CallbackGateway.Proofs.Json.Members
import CallbackGateway.Proofs.Text.Size

/-!
# How long the texts in a JSON document are

No string in a document stands for more bytes than the document has, and the text of a number that
was read has at most 29 characters.
-/

namespace CallbackGateway.Json

open Text

variable {bound : Nat}

/-! ## Strings -/

/-- A string stands for at most as many bytes as it is written with. -/
theorem length_quotedBytes?_le {quoted : Quoted} {written bytes : Bytes}
    (hspelled : QuotedSpelled quoted written) (hbytes : quotedBytes? quoted = some bytes) :
    bytes.length ≤ written.length := by
  fun_induction quotedBytes? quoted generalizing written bytes with
  | case1 =>
    cases hbytes
    exact Nat.zero_le _
  | case2 b rest ih =>
    obtain ⟨tail, htail, rfl⟩ := Option.map_eq_some_iff.mp hbytes
    cases hspelled with
    | raw hquote hslash hcontrol hrest => exact Nat.succ_le_succ (ih hrest htail)
    | letter hcode hletter hrest => exact Nat.le_succ_of_le (Nat.succ_le_succ (ih hrest htail))
  | case3 n hhigh m after hlow ih =>
    obtain ⟨tail, htail, rfl⟩ := Option.map_eq_some_iff.mp hbytes
    have hjoined := (Utf8.length_encodeChar_range (joinHalves n m)).2
    cases hspelled with
    | code hfirst hspelled =>
      cases hspelled with
      | code hsecond hrest =>
        have hafter := ih hrest htail
        simp only [List.length_append, List.length_cons]
        omega
  | case4 n hhigh m after hlow => simp at hbytes
  | case5 n hhigh rest hnone => simp at hbytes
  | case6 n rest hhigh hlow => simp at hbytes
  | case7 n rest hhigh hlow ih =>
    obtain ⟨tail, htail, rfl⟩ := Option.map_eq_some_iff.mp hbytes
    have hcoded := (Utf8.length_encodeChar_range (Char.ofNat n)).2
    cases hspelled with
    | code hcode hrest =>
      have hafter := ih hrest htail
      simp only [List.length_append, List.length_cons]
      omega

/-- Each token of some bytes is written in some of them. -/
theorem exists_lexeme_of_mem {tokens : List Token} {bytes : Bytes} (h : Lexes tokens bytes)
    {token : Token} (hmem : token ∈ tokens) :
    ∃ written, Lexeme token written ∧ written.length ≤ bytes.length := by
  induction h with
  | nil => cases hmem
  | @cons first tokens blank written rest hblank hlexeme hrest ih =>
    simp only [List.length_append]
    rcases List.mem_cons.mp hmem with rfl | hmem
    · exact ⟨written, hlexeme, by omega⟩
    · obtain ⟨later, hlater, hlength⟩ := ih hmem
      exact ⟨later, hlater, by omega⟩

/-! ## Trees -/

/-- No string of a tree stands for more than so many bytes. -/
def Tree.TextsWithin (bound : Nat) (tree : Tree) : Prop :=
  ∀ quoted bytes, .string quoted ∈ tree.tokens → quotedBytes? quoted = some bytes →
    bytes.length ≤ bound

/-- The strings of a document are no longer than the document. -/
theorem Tree.textsWithin_of_read? {bytes : Bytes} {tree : Tree} (h : Tree.read? bytes = some tree) :
    tree.TextsWithin bytes.length := by
  intro quoted value hmem hvalue
  obtain ⟨written, hlexeme, hlength⟩ := exists_lexeme_of_mem (lexes_of_read? h) hmem
  cases hlexeme with
  | string hspelled =>
    have hspelling := length_quotedBytes?_le hspelled hvalue
    rw [List.length_cons, List.length_append] at hlength
    omega

/-- The tokens of an item are tokens of its array. -/
theorem tokens_subset_itemTokens {item : Tree} {items : List Tree} (h : item ∈ items) :
    item.tokens ⊆ itemTokens items := by
  induction items with
  | nil => cases h
  | cons first rest ih =>
    cases rest with
    | nil =>
      obtain rfl := List.mem_singleton.mp h
      exact List.Subset.refl _
    | cons second rest =>
      rw [itemTokens_cons_cons]
      rcases List.mem_cons.mp h with rfl | h
      · exact List.subset_append_left _ _
      · exact fun token htoken => List.mem_append_right _ (List.mem_cons_of_mem _ (ih h htoken))

/-- The tokens of a member are tokens of its object. -/
theorem tokens_subset_membersTokens {member : Quoted × Tree} {members : List (Quoted × Tree)}
    (h : member ∈ members) : memberTokens member ⊆ membersTokens members := by
  induction members with
  | nil => cases h
  | cons first rest ih =>
    cases rest with
    | nil =>
      obtain rfl := List.mem_singleton.mp h
      exact List.Subset.refl _
    | cons second rest =>
      rw [membersTokens_cons_cons]
      rcases List.mem_cons.mp h with rfl | h
      · exact List.subset_append_left _ _
      · exact fun token htoken => List.mem_append_right _ (List.mem_cons_of_mem _ (ih h htoken))

/-- The texts of an item are within the bound of its array. -/
theorem Tree.TextsWithin.item {items : List Tree} (h : (Tree.array items).TextsWithin bound) :
    ∀ item ∈ items, item.TextsWithin bound := fun _ hitem quoted bytes hmem =>
  h quoted bytes <| List.mem_cons_of_mem _ <|
    List.mem_append_left _ (tokens_subset_itemTokens hitem hmem)

/-- The texts of a member are within the bound of its object. -/
theorem Tree.TextsWithin.member {members : List (Quoted × Tree)}
    (h : (Tree.object members).TextsWithin bound) :
    ∀ member ∈ members, member.2.TextsWithin bound := by
  rintro ⟨key, tree⟩ hmember quoted bytes hmem
  have hmember : .string quoted ∈ membersTokens members :=
    tokens_subset_membersTokens hmember (List.mem_cons_of_mem _ (List.mem_cons_of_mem _ hmem))
  exact h quoted bytes (List.mem_cons_of_mem _ (List.mem_append_left _ hmember))

/-- The text of a string in a tree. -/
theorem Tree.TextsWithin.string {quoted : Quoted} {text : String}
    (h : (Tree.string quoted).TextsWithin bound) (htext : quotedText? quoted = some text) :
    text.length ≤ bound := by
  obtain ⟨bytes, hbytes, htext⟩ := Option.bind_eq_some_iff.mp htext
  obtain ⟨chars, hchars, rfl⟩ := Option.map_eq_some_iff.mp htext
  rw [String.length_ofList]
  exact Nat.le_trans (Utf8.length_le_of_decode? hchars)
    (h quoted bytes (List.mem_singleton.mpr rfl) hbytes)

/-! ## Numbers -/

/-- An integer that is read has at most twenty digits. -/
theorem Numeral.natAbs_lt_of_integer? {numeral : Numeral} {n : Int}
    (h : numeral.integer? = some n) : n.natAbs < 100000000000000000000 := by
  unfold Numeral.integer? largestSignificand at h
  dsimp only at h
  repeat' split at h
  all_goals first
    | (obtain rfl := Option.some.inj h; omega)
    | cases h

/-- A number that was read is written with at most 29 characters. -/
theorem Numeral.length_text_le {numeral : Numeral} {number : Number}
    (h : numeral.value? = some number) : number.text.length ≤ 29 := by
  unfold Numeral.value? at h
  split at h
  · rename_i n hinteger
    obtain rfl := Option.some.inj h
    exact Nat.le_trans (length_decimal_le (natAbs_lt_of_integer? hinteger)) (by decide)
  · obtain ⟨magnitude, -, rfl⟩ := Option.map_eq_some_iff.mp h
    exact Binary64.length_render_le _

/-! ## Values -/

/-- No text in a value is longer than so many characters; numbers count as their texts. -/
inductive Value.TextsWithin (bound : Nat) : Value → Prop
  | null : TextsWithin bound .null
  | boolean (value : Bool) : TextsWithin bound (.boolean value)
  | number {number : Number} (h : number.text.length ≤ bound) : TextsWithin bound (.number number)
  | string {text : String} (h : text.length ≤ bound) : TextsWithin bound (.string text)
  | array {items : List Value} (h : ∀ item ∈ items, TextsWithin bound item) :
      TextsWithin bound (.array items)
  | object {members : List (String × Value)} (h : ∀ member ∈ members, TextsWithin bound member.2) :
      TextsWithin bound (.object members)

mutual

/-- The texts of a value are within the bound of its tree. -/
theorem textsWithin_value? (hbound : 29 ≤ bound) : (tree : Tree) → (depth : Nat) → (value : Value) →
    tree.TextsWithin bound → tree.value? depth = some value → value.TextsWithin bound
  | .null, _, _, _, h => by
    obtain rfl := Option.some.inj h
    exact .null
  | .boolean truth, _, _, _, h => by
    obtain rfl := Option.some.inj h
    exact .boolean truth
  | .number numeral, _, _, _, h => by
    obtain ⟨number, hnumber, rfl⟩ := Option.map_eq_some_iff.mp h
    exact .number (Nat.le_trans (Numeral.length_text_le hnumber) hbound)
  | .string quoted, _, _, htexts, h => by
    obtain ⟨text, htext, rfl⟩ := Option.map_eq_some_iff.mp h
    exact .string (htexts.string htext)
  | .array _, 0, _, _, h => by cases h
  | .array items, inner + 1, _, htexts, h => by
    obtain ⟨values, hvalues, rfl⟩ := Option.map_eq_some_iff.mp h
    exact .array (textsWithin_itemValues? hbound items inner values htexts.item hvalues)
  | .object _, 0, _, _, h => by cases h
  | .object members, inner + 1, _, htexts, h => by
    obtain ⟨values, hvalues, rfl⟩ := Option.map_eq_some_iff.mp h
    have hwithin := textsWithin_memberValues? hbound members inner values htexts.member hvalues
    obtain ⟨sorted, hsorted, -, hmem⟩ := exists_sorted_ofMembers values
    rw [hsorted]
    exact .object fun member hmember => hwithin member (hmem member hmember)
termination_by structural tree => tree

/-- The texts of items are within the bound of their trees. -/
theorem textsWithin_itemValues? (hbound : 29 ≤ bound) : (items : List Tree) → (depth : Nat) →
    (values : List Value) → (∀ item ∈ items, item.TextsWithin bound) →
    itemValues? depth items = some values → ∀ value ∈ values, value.TextsWithin bound
  | [], _, _, _, h => by
    obtain rfl := Option.some.inj h
    exact fun _ hmem => absurd hmem List.not_mem_nil
  | item :: rest, depth, _, htexts, h => by
    obtain ⟨value, hvalue, h⟩ := Option.bind_eq_some_iff.mp h
    obtain ⟨others, hothers, h⟩ := Option.bind_eq_some_iff.mp h
    obtain rfl := Option.some.inj h
    obtain ⟨hitem, hrest⟩ := List.forall_mem_cons.mp htexts
    exact List.forall_mem_cons.mpr ⟨textsWithin_value? hbound item depth value hitem hvalue,
      textsWithin_itemValues? hbound rest depth others hrest hothers⟩
termination_by structural items => items

/-- The texts of members are within the bound of their trees. -/
theorem textsWithin_memberValues? (hbound : 29 ≤ bound) : (members : List (Quoted × Tree)) →
    (depth : Nat) → (values : List (String × Value)) →
    (∀ member ∈ members, member.2.TextsWithin bound) →
    memberValues? depth members = some values →
    ∀ member ∈ values, member.2.TextsWithin bound
  | [], _, _, _, h => by
    obtain rfl := Option.some.inj h
    exact fun _ hmem => absurd hmem List.not_mem_nil
  | member :: rest, depth, _, htexts, h => by
    obtain ⟨value, hvalue, h⟩ := Option.bind_eq_some_iff.mp h
    obtain ⟨others, hothers, h⟩ := Option.bind_eq_some_iff.mp h
    obtain rfl := Option.some.inj h
    obtain ⟨hmember, hrest⟩ := List.forall_mem_cons.mp htexts
    exact List.forall_mem_cons.mpr
      ⟨textsWithin_memberValue? hbound member depth value hmember hvalue,
        textsWithin_memberValues? hbound rest depth others hrest hothers⟩
termination_by structural members => members

/-- The texts of a member are within the bound of its tree. -/
theorem textsWithin_memberValue? (hbound : 29 ≤ bound) : (member : Quoted × Tree) → (depth : Nat) →
    (value : String × Value) → member.2.TextsWithin bound →
    memberValue? depth member = some value → value.2.TextsWithin bound
  | (_, tree), depth, _, htexts, h => by
    obtain ⟨name, -, h⟩ := Option.bind_eq_some_iff.mp h
    obtain ⟨value, hvalue, h⟩ := Option.bind_eq_some_iff.mp h
    obtain rfl := Option.some.inj h
    exact textsWithin_value? hbound tree depth value htexts hvalue
termination_by structural member => member

end

/-- The texts of a document that is read are no longer than the document, if it has the room for
a number. -/
theorem Value.textsWithin_of_read? {bytes : Bytes} {value : Value} (hbound : 29 ≤ bound)
    (hlength : bytes.length ≤ bound) (h : Value.read? bytes = some value) :
    value.TextsWithin bound := by
  obtain ⟨tree, htree, hvalue⟩ := Option.bind_eq_some_iff.mp h
  exact textsWithin_value? hbound tree deepest value (fun quoted bytes hmem hbytes =>
    Nat.le_trans (Tree.textsWithin_of_read? htree quoted bytes hmem hbytes) hlength) hvalue

end CallbackGateway.Json
