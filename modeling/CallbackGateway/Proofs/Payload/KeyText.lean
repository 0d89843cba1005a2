import CallbackGateway.Proofs.Payload.Opening
import CallbackGateway.Proofs.Payload.SpelledBits
import CallbackGateway.Proofs.Text.Boundary

/-!
# Texts of keys

A text is an encoding key just if it is forty-three letters with nothing but white space around
them. It spells the key whose bits are the first 256 of its 258 bits, so that the texts of a key
are its unpadded base64 and the three other texts that differ from it in the spare bits of the last
letter. Padding is never accepted, although letters are read with it: a text of forty-three bytes
that ends in padding spells thirty-one bytes.
-/

namespace CallbackGateway.Payload

open Base64 Text

/-! ## Letters as bytes -/

/-- The character of a byte. -/
def byteChar (b : UInt8) : Char := Char.ofNat b.toNat

/-- Letters are ASCII characters. -/
theorem toNat_lt_of_isLetter {c : Char} (h : isLetter c = true) : c.toNat < 0x80 := by
  obtain ⟨n, hn⟩ := Option.isSome_iff_exists.mp h
  obtain ⟨hlt, rfl⟩ := letter_of_value? hn
  have hall : ∀ n < 64, (letter n).toNat < 0x80 := by decide +kernel
  exact hall n hlt

/-- Letters are one byte each. -/
theorem map_byteChar_encode {text : List Char} (h : ∀ c ∈ text, isLetter c = true) :
    (Utf8.encode text).map byteChar = text := by
  induction text with
  | nil => rfl
  | cons c rest ih =>
    obtain ⟨hfirst, hrest⟩ := List.forall_mem_cons.mp h
    have hascii := toNat_lt_of_isLetter hfirst
    have hbytes : Utf8.encodeChar c = [c.toNat.toUInt8] := if_pos hascii
    rw [Utf8.encode_cons, hbytes, List.singleton_append, List.map_cons, ih hrest, byteChar,
      Utf8.toNat_toUInt8 (by omega), Char.ofNat_toNat]

/-- Bytes of letters are ASCII. -/
theorem isAscii_of_letters {bytes : Bytes} (h : ∀ b ∈ bytes, isLetter (byteChar b) = true) :
    Utf8.IsAscii bytes := by
  intro b hb
  have hlow := toNat_lt_of_isLetter (h b hb)
  have hbyte := b.toNat_lt
  rw [byteChar, Utf8.toNat_ofNat (by omega)] at hlow
  exact UInt8.lt_iff_toNat_lt.mpr hlow

/-- ASCII bytes are the bytes of their characters. -/
theorem encode_map_byteChar {bytes : Bytes} (h : Utf8.IsAscii bytes) :
    Utf8.encode (bytes.map byteChar) = bytes := by
  induction bytes with
  | nil => rfl
  | cons b rest ih =>
    obtain ⟨hfirst, hrest⟩ := List.forall_mem_cons.mp h
    rw [List.map_cons, Utf8.encode_cons, byteChar, Utf8.encodeChar_one hfirst, ih hrest,
      List.singleton_append]

/-- A text whose bytes are letters consists of these letters. -/
theorem eq_map_byteChar {text : List Char}
    (h : ∀ b ∈ Utf8.encode text, isLetter (byteChar b) = true) :
    text = (Utf8.encode text).map byteChar := by
  have hsame := congrArg Utf8.decode? (encode_map_byteChar (isAscii_of_letters h))
  rw [Utf8.decode?_encode, Utf8.decode?_encode] at hsame
  exact (Option.some.inj hsame).symm

/-- No bad symbol is found just if all bytes are letters. -/
theorem firstBadSymbol?_eq_none_iff {offset : Nat} {bytes : Bytes} :
    firstBadSymbol? offset bytes = none ↔ ∀ b ∈ bytes, isLetter (byteChar b) = true := by
  induction bytes generalizing offset with
  | nil => simp [firstBadSymbol?]
  | cons b rest ih =>
    have hrest := @ih (offset + 1)
    rw [firstBadSymbol?, List.forall_mem_cons, ← hrest, byteChar]
    cases isLetter (Char.ofNat b.toNat) <;> simp

/-! ## Keys as bytes -/

/-- Thirty-two bytes are the bytes of a key, and no other number of bytes is. -/
theorem Key.ofBytes?_eq_some_iff {bytes : Bytes} {key : Key} :
    Key.ofBytes? bytes = some key ↔ bytes = key.toBytes := by
  constructor
  · intro h
    unfold Key.ofBytes? at h
    split at h
    · rename_i first second hsplit
      obtain rfl := Option.some.inj h
      rw [Aes.Block.split?_eq_some_iff.mp hsplit]
      simp [Aes.Block.join, Key.toBytes]
    · cases h
  · rintro rfl
    exact Key.ofBytes?_toBytes key

/-- A key has 32 bytes. -/
theorem Key.length_toBytes (key : Key) : key.toBytes.length = 32 := rfl

/-- Any 32 bytes are a key. -/
theorem Key.exists_toBytes {bytes : Bytes} (h : bytes.length = 32) :
    ∃ key : Key, bytes = key.toBytes := by
  obtain ⟨blocks, -, rfl⟩ := Aes.Block.exists_split? (show bytes.length % 16 = 0 by omega)
  rw [Aes.Block.length_join] at h
  obtain ⟨first, second, rfl⟩ := List.length_eq_two.mp (show blocks.length = 2 by omega)
  exact ⟨⟨first, second⟩, by simp [Aes.Block.join, Key.toBytes]⟩

/-- The bits of a key determine it. -/
theorem Key.toBytes_injective {first second : Key} (h : first.toBytes = second.toBytes) :
    first = second := by
  have hread := congrArg Key.ofBytes? h
  rw [Key.ofBytes?_toBytes, Key.ofBytes?_toBytes] at hread
  exact Option.some.inj hread

/-! ## Texts that spell a key -/

/-- The form of a key text: forty-three letters. -/
def IsKeyText (text : List Char) : Prop :=
  text.length = encodingKeyLength ∧ ∀ c ∈ text, isLetter c = true

/-- The bits of a key: of the bits that the letters of a text spell, the first 256. -/
def Key.HasBitsOf (key : Key) (text : List Char) : Prop :=
  key.toBytes.flatMap byteBits = (text.flatMap letterBits).take 256

/-- A key is read from letters if it has their bits. -/
theorem Key.hasBitsOf_of_decodeLoose? {letters : List Char} {key : Key}
    (h : decodeLoose? letters = some key.toBytes) : key.HasBitsOf letters := by
  have hprefix := List.prefix_iff_eq_take.mp (prefix_of_decodeLoose? h)
  rwa [length_flatMap_of_width length_byteBits, Key.length_toBytes] at hprefix

/-- Two keys with the bits of one text are the same. -/
theorem Key.HasBitsOf.eq {first second : Key} {text : List Char} (hfirst : first.HasBitsOf text)
    (hsecond : second.HasBitsOf text) : first = second :=
  Key.toBytes_injective (eq_of_flatMap_eq length_byteBits (by decide)
    (fun _ _ _ _ => byteBits_injective) (hfirst.trans hsecond.symm))

/-- Forty-three letters are read as a key. -/
theorem IsKeyText.exists_parse {text : String} (h : IsKeyText (trim text.toList)) :
    ∃ key, Key.parse text = .ok key ∧ key.HasBitsOf (trim text.toList) := by
  have hchars := map_byteChar_encode h.2
  have hlength := congrArg List.length hchars
  rw [List.length_map, h.1] at hlength
  have hmem {b : UInt8} (hb : b ∈ Utf8.encode (trim text.toList)) :
      isLetter (byteChar b) = true := by
    refine h.2 _ ?_
    rw [← hchars]
    exact List.mem_map_of_mem hb
  have hletters : keyLetters (Utf8.encode (trim text.toList)) =
      Utf8.encode (trim text.toList) := by
    refine if_neg fun hlast => ?_
    have hpadding := hmem (List.mem_of_getLast? hlast)
    revert hpadding
    decide
  obtain ⟨bytes, hread⟩ := exists_decodeLoose? h.2 (by rw [h.1]; decide)
  have hsize := length_of_decodeLoose? hread
  rw [h.1] at hsize
  obtain ⟨key, rfl⟩ := Key.exists_toBytes hsize
  refine ⟨key, ?_, Key.hasBitsOf_of_decodeLoose? hread⟩
  simp only [Key.parse, hlength, hletters, firstBadSymbol?_eq_none_iff.mpr fun _ => hmem,
    ne_eq, not_true_eq_false, if_false]
  have hbytes : (Utf8.encode (trim text.toList)).map (fun b => Char.ofNat b.toNat) =
      trim text.toList := hchars
  rw [hbytes, hread, Option.getD_some, Key.ofBytes?_toBytes]

/-- Nothing but forty-three letters is read as a key. -/
theorem isKeyText_of_parse {text : String} {key : Key} (h : Key.parse text = .ok key) :
    IsKeyText (trim text.toList) := by
  unfold Key.parse at h
  dsimp only at h
  split at h
  · cases h
  rename_i hlength
  replace hlength := not_not.mp hlength
  split at h
  · cases h
  rename_i hnone
  have hletters := firstBadSymbol?_eq_none_iff.mp hnone
  split at h
  case h_2 => cases h
  rename_i hkey
  have hread := Key.ofBytes?_eq_some_iff.mp hkey
  by_cases hlast : (Utf8.encode (trim text.toList)).getLast? = some 0x3D
  · -- forty-two letters in front of padding spell thirty-one bytes
    rw [keyLetters, if_pos hlast] at hread
    cases hsome : decodeLoose? ((Utf8.encode (trim text.toList)).dropLast.map
        fun b => Char.ofNat b.toNat) with
    | none =>
      rw [hsome] at hread
      cases congrArg List.length hread
    | some bytes =>
      have hsize := length_of_decodeLoose? hsome
      rw [List.length_map, List.length_dropLast, hlength] at hsize
      rw [hsome, Option.getD_some] at hread
      rw [hread] at hsize
      cases hsize
  · rw [keyLetters, if_neg hlast] at hletters
    have htext := eq_map_byteChar hletters
    rw [IsKeyText, htext]
    refine ⟨by rw [List.length_map, hlength], fun c hc => ?_⟩
    obtain ⟨b, hb, rfl⟩ := List.mem_map.mp hc
    exact hletters b hb

/-- A text is read as a key just if it is forty-three letters that spell the bits of the key. -/
theorem Key.parse_eq_ok_iff {text : String} {key : Key} :
    Key.parse text = .ok key ↔
      IsKeyText (trim text.toList) ∧ key.HasBitsOf (trim text.toList) := by
  constructor
  · intro h
    have htext := isKeyText_of_parse h
    obtain ⟨read, hread, hbits⟩ := htext.exists_parse
    obtain rfl := Except.ok.inj (h.symm.trans hread)
    exact ⟨htext, hbits⟩
  · rintro ⟨htext, hbits⟩
    obtain ⟨read, hread, hread'⟩ := htext.exists_parse
    rw [hread, hread'.eq hbits]

/-! ## The texts of one key -/

/-- A text is trimmed to itself if it becomes no shorter. -/
theorem trim_eq_self_of_length {text : List Char} (h : (trim text).length = text.length) :
    trim text = text := by
  have hend : (trimEnd (trimStart text)).Sublist (trimStart text) := by
    rw [trimEnd, ← List.reverse_sublist, List.reverse_reverse]
    exact List.dropWhile_sublist isBlank
  exact (hend.trans (List.dropWhile_sublist isBlank)).eq_of_length h

/-- Letters are not blank. -/
theorem isBlank_of_isLetter {c : Char} (h : isLetter c = true) : isBlank c = false := by
  obtain ⟨n, hn⟩ := Option.isSome_iff_exists.mp h
  obtain ⟨hlt, rfl⟩ := letter_of_value? hn
  exact isBlank_letter n hlt

/-- The letters of numbers below 64 are letters. -/
theorem isLetter_letter {n : Nat} (h : n < 64) : isLetter (letter n) = true := by
  rw [isLetter, value?_letter n h, Option.isSome_some]

/-- A key text is 42 letters and one more. -/
theorem isKeyText_append_iff {front : List Char} {c : Char} :
    IsKeyText (front ++ [c]) ↔
      front.length = 42 ∧ (∀ d ∈ front, isLetter d = true) ∧ isLetter c = true := by
  simp only [IsKeyText, encodingKeyLength, List.length_append, List.length_singleton,
    Nat.reduceEqDiff, List.forall_mem_append, List.forall_mem_singleton]

/-- Of the last of forty-three letters, the two lowest bits are spare. -/
theorem Key.hasBitsOf_append_iff {key : Key} {front : List Char} {top spare : Nat}
    (hfront : front.length = 42) (htop : top < 16) (hspare : spare < 4) :
    key.HasBitsOf (front ++ [letter (4 * top + spare)]) ↔
      key.toBytes.flatMap byteBits = front.flatMap letterBits ++ lowBits 4 top := by
  have hlast : letterBits (letter (4 * top + spare)) = lowBits 4 top ++ lowBits 2 spare := by
    rw [letterBits_of_value? (value?_letter _ (by omega))]
    exact lowBits_add 4 2 top hspare
  have hlength : (front.flatMap letterBits ++ lowBits 4 top).length = 256 := by
    rw [List.length_append, length_flatMap_of_width length_letterBits, hfront, length_lowBits]
  rw [HasBitsOf, List.flatMap_append, List.flatMap_singleton, hlast, ← List.append_assoc,
    ← hlength, List.take_left]

/-- The letters of a key and what remains of the last one without its spare bits. -/
theorem Key.exists_letters (key : Key) : ∃ front top, front.length = 42 ∧ top < 16 ∧
    encode key.toBytes = front ++ [letter (4 * top), '='] ∧
    (∀ c ∈ front, isLetter c = true) ∧ key.HasBitsOf (front ++ [letter (4 * top)]) := by
  obtain ⟨front, top, htop, hencode, hfront, hread⟩ :=
    exists_letters_of_encode (show key.toBytes.length % 3 = 2 by rw [Key.length_toBytes])
  have hlength := congrArg List.length hencode
  rw [encode_length, Key.length_toBytes, List.length_append, List.length_cons,
    List.length_singleton] at hlength
  exact ⟨front, top, by omega, htop, hencode, hfront, Key.hasBitsOf_of_decodeLoose? hread⟩

/-- What a text of forty-three characters spells, its last letter taken apart. -/
theorem Key.parse_ofList_append_iff {key : Key} {front : List Char} {c : Char}
    (hlength : (front ++ [c]).length = encodingKeyLength) :
    Key.parse (String.ofList (front ++ [c])) = .ok key ↔
      front.length = 42 ∧ (∀ d ∈ front, isLetter d = true) ∧ ∃ top < 16, ∃ spare < 4,
        c = letter (4 * top + spare) ∧
        key.toBytes.flatMap byteBits = front.flatMap letterBits ++ lowBits 4 top := by
  rw [Key.parse_eq_ok_iff, String.toList_ofList]
  constructor
  · rintro ⟨htext, hbits⟩
    have htrim : trim (front ++ [c]) = front ++ [c] :=
      trim_eq_self_of_length (htext.1.trans hlength.symm)
    rw [htrim] at htext hbits
    obtain ⟨hfront, hletters, hlast⟩ := isKeyText_append_iff.mp htext
    obtain ⟨n, hn⟩ := Option.isSome_iff_exists.mp hlast
    obtain ⟨hlt, rfl⟩ := letter_of_value? hn
    have hsum : 4 * (n / 4) + n % 4 = n := Nat.div_add_mod n 4
    rw [← hsum, hasBitsOf_append_iff hfront (by omega) (Nat.mod_lt n (by decide))] at hbits
    exact ⟨hfront, hletters, n / 4, by omega, n % 4, Nat.mod_lt n (by decide), by rw [hsum], hbits⟩
  · rintro ⟨hfront, hletters, top, htop, spare, hspare, rfl, hbits⟩
    have htext : IsKeyText (front ++ [letter (4 * top + spare)]) :=
      isKeyText_append_iff.mpr ⟨hfront, hletters, isLetter_letter (by omega)⟩
    rw [trim_eq_self fun d hd => isBlank_of_isLetter (htext.2 d hd)]
    exact ⟨htext, (hasBitsOf_append_iff hfront htop hspare).mpr hbits⟩

/-- The texts with given first letters and a last letter whose two lowest bits are any. -/
def spareTexts (front : List Char) (top : Nat) : List (List Char) :=
  (List.range 4).map fun spare => front ++ [letter (4 * top + spare)]

/-- Different spare bits make different texts. -/
theorem nodup_spareTexts (front : List Char) {top : Nat} (h : top < 16) :
    (spareTexts front top).Nodup := by
  refine List.Nodup.map_on (fun a ha b hb hsame => ?_) List.nodup_range
  have hlast := List.append_inj_right hsame rfl
  have hvalue := congrArg value? (List.singleton_inj.mp hlast)
  rw [List.mem_range] at ha hb
  rw [value?_letter _ (by omega), value?_letter _ (by omega)] at hvalue
  have hsum := Option.some.inj hvalue
  omega

/-- A text is a key text just if it is forty-three letters of base64, white space around it aside,
and its key has the first 256 bits of these letters; every other text is refused. Every key is read
from its base64 without the padding, and of the texts of forty-three characters just the four that
have these letters, up to the two lowest bits of the last one, are read as it. -/
theorem key_texts_are_forty_three_letters (text : String) (key : Key) :
    (Key.parse text = .ok key ↔
      IsKeyText (trim text.toList) ∧ key.HasBitsOf (trim text.toList)) ∧
    ((∃ read, Key.parse text = .ok read) ↔ IsKeyText (trim text.toList)) ∧
    ((∃ defect, Key.parse text = .error defect) ↔ ¬ IsKeyText (trim text.toList)) ∧
    ∃ front top, top < 16 ∧ encode key.toBytes = front ++ [letter (4 * top), '='] ∧
      Key.parse (String.ofList (front ++ [letter (4 * top)])) = .ok key ∧
      (spareTexts front top).Nodup ∧
      ∀ other : List Char,
        other.length = encodingKeyLength ∧ Key.parse (String.ofList other) = .ok key ↔
          other ∈ spareTexts front top := by
  have hok : (∃ read, Key.parse text = .ok read) ↔ IsKeyText (trim text.toList) :=
    ⟨fun ⟨_, hread⟩ => isKeyText_of_parse hread, fun htext =>
      let ⟨read, hread, _⟩ := htext.exists_parse
      ⟨read, hread⟩⟩
  refine ⟨Key.parse_eq_ok_iff, hok, ?_, ?_⟩
  · rw [← hok]
    cases Key.parse text <;> simp
  obtain ⟨front, top, hfront, htop, hencode, hletters, hbits⟩ := key.exists_letters
  have hcut := (Key.hasBitsOf_append_iff hfront htop (show 0 < 4 by decide)).mp hbits
  have hlength (c : Char) : (front ++ [c]).length = encodingKeyLength := by
    rw [List.length_append, hfront]
    rfl
  have hread {spare : Nat} (hspare : spare < 4) :
      Key.parse (String.ofList (front ++ [letter (4 * top + spare)])) = .ok key :=
    (Key.parse_ofList_append_iff (hlength _)).mpr
      ⟨hfront, hletters, top, htop, spare, hspare, rfl, hcut⟩
  have hplain := hread (show 0 < 4 by decide)
  rw [Nat.add_zero] at hplain
  refine ⟨front, top, htop, hencode, hplain, nodup_spareTexts front htop, fun other => ?_⟩
  rw [spareTexts, List.mem_map]
  constructor
  · rintro ⟨hother, hparse⟩
    have hnonempty : other ≠ [] := by
      rintro rfl
      cases hother
    obtain ⟨start, c, rfl⟩ := (List.eq_nil_or_concat other).resolve_left hnonempty
    rw [List.concat_eq_append] at hother hparse
    obtain ⟨hstart, hstartLetters, head, hhead, spare, hspare, rfl, hsame⟩ :=
      (Key.parse_ofList_append_iff hother).mp hparse
    rw [hcut] at hsame
    have hwidth : (front.flatMap letterBits).length = (start.flatMap letterBits).length := by
      rw [length_flatMap_of_width length_letterBits, length_flatMap_of_width length_letterBits,
        hfront, hstart]
    obtain ⟨hfirst, hlast⟩ := List.append_inj hsame hwidth
    obtain rfl := eq_of_flatMap_eq length_letterBits (by decide)
      (fun a ha b hb => letterBits_injective (hletters a ha) (hstartLetters b hb)) hfirst
    obtain rfl := lowBits_injective htop hhead hlast
    exact ⟨spare, List.mem_range.mpr hspare, (List.concat_eq_append ..).symm⟩
  · rintro ⟨spare, hspare, rfl⟩
    exact ⟨hlength _, hread (List.mem_range.mp hspare)⟩

end CallbackGateway.Payload
