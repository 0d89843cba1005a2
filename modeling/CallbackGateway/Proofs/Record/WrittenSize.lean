import CallbackGateway.Proofs.Record.ReadBack
import CallbackGateway.Proofs.Text.Size
import CallbackGateway.Record.Encode

/-!
# How long a written record is

A section holds at least one character, or is the only one of its text, and a character of a string
takes at most six bytes. So in either format a text takes at most sixteen bytes for each of its
characters, and some for the rest. A record takes what its fields take, so it takes at least as many
bytes as one of its texts has characters.
-/

namespace CallbackGateway

open Text

/-! ## Sections -/

namespace Markup

/-- A character in front opens no further text. -/
theorem length_consFirst {texts : List (List Char)} (c : Char) (h : texts ≠ []) :
    (consFirst c texts).length = texts.length := by
  cases texts with
  | nil => exact absurd rfl h
  | cons first rest => rfl

/-- A text is cut into no more sections than it has characters, or one. -/
theorem length_chunks_le (text : List Char) : (chunks text).length ≤ text.length + 1 := by
  fun_induction chunks text with
  | case1 => exact Nat.le_refl _
  | case2 rest ih =>
    rw [List.length_cons, length_consFirst '>' (chunks_ne_nil rest)]
    simp only [List.length_cons]
    omega
  | case3 c rest _ ih =>
    rw [length_consFirst c (chunks_ne_nil rest), List.length_cons]
    omega

/-- A section takes twelve bytes around its content. -/
theorem byteCount_write_cdata (contents : List (List Char)) :
    Utf8.byteCount (write (contents.map .cdata)) =
      Utf8.byteCount contents.flatten + 12 * contents.length := by
  have hopening : Utf8.byteCount "[CDATA[".toList = 7 := by decide
  have hclosing : Utf8.byteCount "]]>".toList = 3 := by decide
  have hbrackets : Utf8.byteCount ['<', '!'] = 2 := by decide
  induction contents with
  | nil => rfl
  | cons content contents ih =>
    have hsection : write ((content :: contents).map .cdata) =
        ['<', '!'] ++ ("[CDATA[".toList ++ (content ++ ("]]>".toList ++
          write (contents.map .cdata)))) := by
      simp [write_cons, Token.write_cdata]
    rw [hsection]
    simp only [Utf8.byteCount_append, hbrackets, hopening, hclosing, ih, List.flatten_cons,
      List.length_cons]
    omega

/-- What the sections of a text take. -/
theorem byteCount_write_sections_le (text : List Char) :
    Utf8.byteCount (write (sections text)) ≤ 16 * text.length + 12 := by
  have hchunks := length_chunks_le text
  have hbytes := (Utf8.byteCount_range text).2
  rw [sections, byteCount_write_cdata, flatten_chunks]
  omega

/-- Sections take at least what their text takes. -/
theorem length_le_byteCount_write_sections (text : List Char) :
    text.length ≤ Utf8.byteCount (write (sections text)) := by
  have hbytes := (Utf8.byteCount_range text).1
  rw [sections, byteCount_write_cdata, flatten_chunks]
  omega

/-- An element takes its content, its name twice, and five bytes. -/
theorem byteCount_write_element (name : String) (content : List Token) :
    Utf8.byteCount (write (element name content)) =
      Utf8.byteCount (write content) + 2 * Utf8.byteCount name.toList + 5 := by
  have hbrackets : Utf8.byteCount ['<'] = 1 ∧ Utf8.byteCount ['>'] = 1 ∧
      Utf8.byteCount ['<', '/'] = 2 := by decide
  have helement : write (element name content) =
      ['<'] ++ (name.toList ++ (['>'] ++ (write content ++
        (['<', '/'] ++ (name.toList ++ ['>']))))) := by
    simp [element, write_cons, Token.write_openTag, Token.write_closeTag]
  rw [helement]
  simp only [Utf8.byteCount_append, hbrackets]
  omega

end Markup

/-! ## Strings -/

namespace Json

open Record

/-- A character is written as a letter behind a backslash, as its number, or as it is. -/
theorem writeChar_cases (c : Char) :
    (∃ letter, writeChar c = ['\\', letter]) ∨
      (c.toNat < 32 ∧ writeChar c = ['\\', 'u', '0', '0'] ++ Hex.encodeByte (UInt8.ofNat c.toNat)) ∨
      writeChar c = [c] := by
  have hletter (letter : Char) : ∃ other, ['\\', letter] = ['\\', other] := ⟨letter, rfl⟩
  unfold writeChar
  repeat' split
  · exact .inl (hletter '"')
  · exact .inl (hletter '\\')
  · exact .inl (hletter 'b')
  · exact .inl (hletter 'f')
  · exact .inl (hletter 'n')
  · exact .inl (hletter 'r')
  · exact .inl (hletter 't')
  · rename_i hcontrol
    exact .inr (.inl ⟨hcontrol, rfl⟩)
  · exact .inr (.inr rfl)

/-- A character of a string takes one to six bytes. -/
theorem byteCount_writeChar_range (c : Char) :
    1 ≤ Utf8.byteCount (writeChar c) ∧ Utf8.byteCount (writeChar c) ≤ 6 := by
  have hbackslash : Utf8.byteCount ['\\'] = 1 := by decide
  have hcontrol : ∀ n < 32, Utf8.byteCount
      (['\\', 'u', '0', '0'] ++ Hex.encodeByte (UInt8.ofNat n)) = 6 := by decide
  have hplain (c : Char) : 1 ≤ Utf8.byteCount [c] ∧ Utf8.byteCount [c] ≤ 4 :=
    Utf8.byteCount_range [c]
  rcases writeChar_cases c with ⟨letter, hescaped⟩ | ⟨hsmall, hnumber⟩ | hself
  · have hsplit : ['\\', letter] = ['\\'] ++ [letter] := rfl
    have hletter := hplain letter
    rw [hescaped, hsplit, Utf8.byteCount_append, hbackslash]
    omega
  · rw [hnumber, hcontrol c.toNat hsmall]
    decide
  · rw [hself]
    have hc := hplain c
    omega

/-- What a string takes. -/
theorem byteCount_writeString_range (text : String) :
    text.length ≤ Utf8.byteCount (writeString text) ∧
      Utf8.byteCount (writeString text) ≤ 6 * text.length + 2 := by
  have hchars (chars : List Char) : chars.length ≤ Utf8.byteCount (chars.flatMap writeChar) ∧
      Utf8.byteCount (chars.flatMap writeChar) ≤ 6 * chars.length := by
    induction chars with
    | nil => exact ⟨Nat.le_refl _, Nat.le_refl _⟩
    | cons c rest ih =>
      have hc := byteCount_writeChar_range c
      rw [List.flatMap_cons, Utf8.byteCount_append, List.length_cons]
      omega
  have htext := hchars text.toList
  have hquote : Utf8.byteCount ['"'] = 1 := by decide
  have hstring : writeString text = ['"'] ++ (text.toList.flatMap writeChar ++ ['"']) := rfl
  rw [String.length_toList] at htext
  rw [hstring, Utf8.byteCount_append, Utf8.byteCount_append, hquote]
  omega

/-- Members take what each of them takes, and a byte between two. -/
theorem byteCount_writeMembers_range (members : List (String × Value)) :
    sizeSum (fun member => Utf8.byteCount (writeMember member) + 1) members ≤
        Utf8.byteCount (writeMembers members) ∧
      Utf8.byteCount (writeMembers members) ≤
        sizeSum (fun member => Utf8.byteCount (writeMember member) + 1) members + 1 := by
  have hclosing : Utf8.byteCount ['\x7d'] = 1 := by decide
  have hcomma : Utf8.byteCount [','] = 1 := by decide
  induction members with
  | nil => decide
  | cons member rest ih =>
    rw [sizeSum_cons]
    cases rest with
    | nil =>
      rw [writeMembers, Utf8.byteCount_append, hclosing, sizeSum_nil]
      omega
    | cons next rest =>
      have hstep : writeMembers (member :: next :: rest) =
          writeMember member ++ ([','] ++ writeMembers (next :: rest)) := rfl
      rw [hstep, Utf8.byteCount_append, Utf8.byteCount_append, hcomma]
      omega

/-- An object takes what its members take, in any order. -/
theorem byteCount_write_ofMembers_range {members : List (String × Value)} (h : NoRepeats members) :
    sizeSum (fun member => Utf8.byteCount (writeMember member) + 1) members ≤
        Utf8.byteCount (Value.ofMembers members).write ∧
      Utf8.byteCount (Value.ofMembers members).write ≤
        sizeSum (fun member => Utf8.byteCount (writeMember member) + 1) members + 2 := by
  obtain ⟨sorted, hsorted, hperm⟩ := exists_ofMembers h
  have hmembers := byteCount_writeMembers_range sorted
  have hopening : Utf8.byteCount ['\x7b'] = 1 := by decide
  have hwrite : (Value.ofMembers members).write = ['\x7b'] ++ writeMembers sorted := by
    rw [hsorted, Value.write, List.singleton_append]
  rw [sizeSum_perm _ hperm] at hmembers
  rw [hwrite, Utf8.byteCount_append, hopening]
  omega

end Json

/-! ## Records -/

namespace Record

variable {fields : Fields}

/-- A text as it is written in a record: as sections, or as a string. -/
def writtenText (format : WireFormat) (text : String) : List Char :=
  match format with
  | .xml => Markup.write (Markup.sections text.toList)
  | .json => Json.writeString text

/-- In either format a character takes one to sixteen bytes, and the rest at most twelve. -/
theorem byteCount_writtenText_range (format : WireFormat) (text : String) :
    text.length ≤ Utf8.byteCount (writtenText format text) ∧
      Utf8.byteCount (writtenText format text) ≤ 16 * text.length + 12 := by
  cases format with
  | xml =>
    have hlow := Markup.length_le_byteCount_write_sections text.toList
    have hhigh := Markup.byteCount_write_sections_le text.toList
    rw [String.length_toList] at hlow hhigh
    exact ⟨hlow, hhigh⟩
  | json =>
    have hrange := Json.byteCount_writeString_range text
    rw [writtenText]
    omega

/-- The bytes of a field where it is written: of its element, or of its member and the byte between
two members. -/
def fieldBytes (format : WireFormat) : String × Value → Nat
  | (name, value) =>
    match format with
    | .xml => Utf8.byteCount (Markup.write (fieldTokens name value))
    | .json => Utf8.byteCount (Json.writeMember (name, value.toJson)) + 1

/-- A record takes what its fields take, and at most eleven bytes around them. -/
theorem length_encode_range (format : WireFormat) (hnames : NoRepeats fields) :
    sizeSum (fieldBytes format) fields ≤ (Fields.encode format fields).length ∧
      (Fields.encode format fields).length ≤ sizeSum (fieldBytes format) fields + 11 := by
  cases format with
  | xml =>
    have hfields (fields : Fields) : Utf8.byteCount (Markup.write (fieldsTokens fields)) =
        sizeSum (fieldBytes .xml) fields := by
      induction fields with
      | nil => rfl
      | cons field fields ih =>
        obtain ⟨name, value⟩ := field
        rw [fieldsTokens, namedTokens, Markup.write_append, Utf8.byteCount_append, ih,
          sizeSum_cons, fieldBytes]
    have hroot : Utf8.byteCount rootName.toList = 3 := by decide
    have hbytes : (Fields.encode .xml fields).length =
        Utf8.byteCount (fields.toMarkup rootName) := rfl
    rw [hbytes, Fields.toMarkup, Markup.byteCount_write_element, hfields]
    omega
  | json =>
    have hfields (fields : Fields) :
        sizeSum (fun member => Utf8.byteCount (Json.writeMember member) + 1)
          (jsonMembers fields) = sizeSum (fieldBytes .json) fields := by
      induction fields with
      | nil => rfl
      | cons field fields ih =>
        obtain ⟨name, value⟩ := field
        rw [jsonMembers, jsonMember, sizeSum_cons, sizeSum_cons, ih, fieldBytes]
    have hmembers : NoRepeats (jsonMembers fields) := by
      rwa [NoRepeats, map_fst_jsonMembers]
    have hobject := Json.byteCount_write_ofMembers_range hmembers
    have hbytes : (Fields.encode .json fields).length =
        Utf8.byteCount (Json.Value.ofMembers (jsonMembers fields)).write := rfl
    rw [hfields] at hobject
    omega

/-- A field of a text takes the text, and at most eight bytes for each character of its name. -/
theorem fieldBytes_text_range (format : WireFormat) (name content : String) :
    content.length ≤ fieldBytes format (name, .text content) ∧
      fieldBytes format (name, .text content) ≤
        Utf8.byteCount (writtenText format content) + 8 * name.length + 5 := by
  have hcontent := (byteCount_writtenText_range format content).1
  cases format with
  | xml =>
    have hname := (Utf8.byteCount_range name.toList).2
    rw [String.length_toList] at hname
    rw [writtenText] at hcontent ⊢
    rw [fieldBytes, fieldTokens, Markup.byteCount_write_element]
    omega
  | json =>
    have hname := (Json.byteCount_writeString_range name).2
    have hcolon : Utf8.byteCount [':'] = 1 := by decide
    have hmember : Json.writeMember (name, (Value.text content).toJson) =
        Json.writeString name ++ ([':'] ++ writtenText .json content) := by
      rw [Value.toJson, Json.writeMember, Json.Value.write, List.singleton_append, writtenText]
    rw [fieldBytes, hmember, Utf8.byteCount_append, Utf8.byteCount_append, hcolon]
    omega

/-- A field of an integer takes at most four bytes for each of its digits. -/
theorem fieldBytes_integer_le (format : WireFormat) (name : String) (n : Int) :
    fieldBytes format (name, .integer n) ≤ 4 * (decimal n).length + 8 * name.length + 5 := by
  have hdecimal := (Utf8.byteCount_range (decimal n).toList).2
  rw [String.length_toList] at hdecimal
  cases format with
  | xml =>
    have hname := (Utf8.byteCount_range name.toList).2
    rw [String.length_toList] at hname
    rw [fieldBytes, fieldTokens, Markup.byteCount_write_element, Markup.write_cons,
      Markup.Token.write_text, Markup.write_nil, List.append_nil]
    omega
  | json =>
    have hname := (Json.byteCount_writeString_range name).2
    have hcolon : Utf8.byteCount [':'] = 1 := by decide
    have hmember : Json.writeMember (name, (Value.integer n).toJson) =
        Json.writeString name ++ ([':'] ++ (decimal n).toList) := by
      rw [Value.toJson, Json.writeMember, Json.Value.write, Json.Number.text,
        List.singleton_append]
    rw [fieldBytes, hmember, Utf8.byteCount_append, Utf8.byteCount_append, hcolon]
    omega

/-- A record takes at least as many bytes as one of its texts has characters. -/
theorem length_le_length_encode (format : WireFormat) (hnames : NoRepeats fields)
    {name content : String} (h : (name, .text content) ∈ fields) :
    content.length ≤ (Fields.encode format fields).length :=
  Nat.le_trans (fieldBytes_text_range format name content).1
    (Nat.le_trans (le_sizeSum_of_mem (fieldBytes format) h) (length_encode_range format hnames).1)

end Record

end CallbackGateway
