import CallbackGateway.Proofs.Json.IntegerText
import CallbackGateway.Proofs.Json.StringText
import CallbackGateway.Proofs.Json.Syntax

/-!
# Written values read back

A value without floating-point numbers is written as one tree, which is read back from its
bytes: its strings are the parts that were written for their characters, and its integers their
digits.
-/

namespace CallbackGateway.Json

open Text

mutual

/-- Which tree is written for a value. -/
inductive HasTree : Value → Tree → Prop
  | null : HasTree .null .null
  | boolean (value : Bool) : HasTree (.boolean value) (.boolean value)
  | integer (n : Int) : HasTree (.number (.integer n)) (.number (integerNumeral n))
  | string (text : String) : HasTree (.string text) (.string (textParts text.toList))
  | array {items : List Value} {trees : List Tree} : ItemsHaveTrees items trees →
      HasTree (.array items) (.array trees)
  | object {members : List (String × Value)} {trees : List (Quoted × Tree)} :
      MembersHaveTrees members trees → HasTree (.object members) (.object trees)

/-- Which trees are written for items. -/
inductive ItemsHaveTrees : List Value → List Tree → Prop
  | nil : ItemsHaveTrees [] []
  | cons {item : Value} {tree : Tree} {items : List Value} {trees : List Tree} :
      HasTree item tree → ItemsHaveTrees items trees →
      ItemsHaveTrees (item :: items) (tree :: trees)

/-- Which trees are written for members. -/
inductive MembersHaveTrees : List (String × Value) → List (Quoted × Tree) → Prop
  | nil : MembersHaveTrees [] []
  | cons {key : String} {value : Value} {tree : Tree} {members : List (String × Value)}
      {trees : List (Quoted × Tree)} : HasTree value tree → MembersHaveTrees members trees →
      MembersHaveTrees ((key, value) :: members) ((textParts key.toList, tree) :: trees)

end

/-! ## Tokens of written values -/

/-- Items are divided by a comma. -/
theorem writeItems_cons_cons (item other : Value) (rest : List Value) :
    writeItems (item :: other :: rest) = item.write ++ ',' :: writeItems (other :: rest) := rfl

/-- A comma is written between two members. -/
theorem writeMembers_cons_cons (member other : String × Value) (rest : List (String × Value)) :
    writeMembers (member :: other :: rest) =
      writeMember member ++ ',' :: writeMembers (other :: rest) := rfl

/-- A token that starts with a byte is read first. -/
theorem tokens?_cons {b : UInt8} {rest after : Bytes} {token : Token} (hspace : isSpace b = false)
    (h : token? b rest = some (token, after)) :
    tokens? (b :: rest) = (tokens? after).map (token :: ·) := by
  rw [tokens?]
  have hdrop : (b :: rest).dropWhile isSpace = b :: rest :=
    List.dropWhile_cons_of_neg (by simp [hspace])
  split
  · rename_i hnil
    rw [hdrop] at hnil
    cases hnil
  · rename_i c tail hcons
    rw [hdrop, List.cons.injEq] at hcons
    obtain ⟨rfl, rfl⟩ := hcons
    split <;> simp_all

/-- Punctuation is read as it is. -/
theorem tokens?_punctuation {b : UInt8} {token : Token} (hspace : isSpace b = false)
    (h : punctuation? b = some token) (rest : Bytes) :
    tokens? (b :: rest) = (tokens? rest).map (token :: ·) :=
  tokens?_cons hspace (by rw [token?, h])

/-- A written string is read as its parts. -/
theorem tokens?_writeString (text : String) (rest : Bytes) :
    tokens? (Utf8.encode (writeString text) ++ rest) =
      (tokens? rest).map (.string (textParts text.toList) :: ·) := by
  have hwritten : Utf8.encode (writeString text) ++ rest =
      byte '"' :: (Utf8.encode (text.toList.flatMap writeChar) ++ byte '"' :: rest) := by
    have hquote : Utf8.encodeChar '"' = [byte '"'] := rfl
    simp [writeString, hquote]
  have hread := quoted?_of_spelled (spelled_textParts text.toList) rest
  rw [hwritten]
  refine tokens?_cons (by decide) ?_
  have hpunctuation : punctuation? (byte '"') = none := by decide
  rw [token?, hpunctuation]
  dsimp only
  rw [longToken?, if_pos (by decide), hread]
  rfl

/-- A digit is no mark. -/
theorem beq_eq_false_of_isDigit {b : UInt8} (h : isDigit b = true) {c : Char}
    (hc : isDigit (byte c) = false) : (b == byte c) = false := by
  rw [beq_eq_false_iff_ne]
  rintro rfl
  simp [hc] at h

/-- A digit starts a number. -/
theorem token?_digit {b : UInt8} (h : isDigit b = true) (rest : Bytes) :
    token? b rest = built .number (numeral? false (b :: rest)) := by
  have hne {c : Char} := beq_eq_false_of_isDigit h (c := c)
  have hpunctuation : punctuation? b = none := by
    simp only [punctuation?, hne (c := '\x7b') (by decide), hne (c := '\x7d') (by decide),
      hne (c := '[') (by decide), hne (c := ']') (by decide), hne (c := ',') (by decide),
      hne (c := ':') (by decide), Bool.false_eq_true, if_false]
  rw [token?, hpunctuation]
  simp only [longToken?, hne (c := '"') (by decide), hne (c := 'n') (by decide),
    hne (c := 't') (by decide), hne (c := 'f') (by decide), hne (c := '-') (by decide),
    Bool.false_eq_true, if_false]

/-- A minus sign starts a number. -/
theorem token?_minus (rest : Bytes) :
    token? (byte '-') rest = built .number (numeral? true rest) := by
  have hpunctuation : punctuation? (byte '-') = none := by decide
  rw [token?, hpunctuation]
  dsimp only
  unfold longToken?
  rw [if_neg (by decide), if_neg (by decide), if_neg (by decide), if_neg (by decide),
    if_pos (by decide)]

/-- A written integer is read as its number. -/
theorem tokens?_integer (n : Int) {rest : Bytes} (h : EndsNumber rest) :
    tokens? (Utf8.encode (Number.integer n).text ++ rest) =
      (tokens? rest).map (.number (integerNumeral n) :: ·) := by
  have hread := numeral?_digitBytes n h
  have htext : Utf8.encode (Number.integer n).text ++ rest =
      Utf8.encode (signText n) ++ (digitBytes n.natAbs ++ rest) := by
    rw [Number.text, toList_decimal, Utf8.encode_append, List.append_assoc]
    rfl
  rw [htext]
  by_cases hn : n < 0
  · have hsign : Utf8.encode (signText n) = [byte '-'] := by
      rw [signText, if_pos hn]
      rfl
    rw [decide_eq_true hn] at hread
    rw [hsign, List.singleton_append]
    exact tokens?_cons (by decide) (by rw [token?_minus, hread]; rfl)
  · have hsign : Utf8.encode (signText n) = [] := by
      rw [signText, if_neg hn]
      rfl
    rw [decide_eq_false hn] at hread
    rw [hsign, List.nil_append]
    obtain ⟨c, others, hcons⟩ :=
      List.exists_cons_of_ne_nil (Nat.toDigits_ne_nil (n := n.natAbs) (b := 10))
    have hdigit : isDigit (byte c) = true :=
      (encodeChar_digit (isDigit_toDigits c (by rw [hcons]; exact List.mem_cons_self))).2.1
    have hspace : isSpace (byte c) = false := by
      simp only [isSpace, beq_eq_false_of_isDigit hdigit (c := ' ') (by decide),
        beq_eq_false_of_isDigit hdigit (c := '\n') (by decide),
        beq_eq_false_of_isDigit hdigit (c := '\t') (by decide),
        beq_eq_false_of_isDigit hdigit (c := '\r') (by decide), Bool.or_self]
    rw [digitBytes_eq, hcons, List.map_cons, List.cons_append] at hread ⊢
    exact tokens?_cons hspace (by rw [token?_digit hdigit, hread]; rfl)

/-- What ends a written item or member ends a number too. -/
theorem endsNumber_cons {b : UInt8} {rest : Bytes}
    (h : isDigit b = false ∧ b ≠ byte '.' ∧ b ≠ byte 'e' ∧ b ≠ byte 'E') :
    EndsNumber (b :: rest) := by
  intro c hc
  cases hc
  exact h

/-- The byte of a punctuation mark. -/
theorem encode_mark {c : Char} (h : c.toNat < 0x80) (text : List Char) :
    Utf8.encode (c :: text) = byte c :: Utf8.encode text := by
  have hchar : Utf8.encodeChar c = [byte c] := by
    unfold Utf8.encodeChar
    exact if_pos h
  rw [Utf8.encode_cons, hchar]
  rfl

/-- A written word is read as its token. -/
theorem tokens?_null (rest : Bytes) :
    tokens? (Utf8.encode ['n', 'u', 'l', 'l'] ++ rest) = (tokens? rest).map (.null :: ·) :=
  tokens?_cons (by decide) rfl

/-- A truth value is read as its token. -/
theorem tokens?_boolean (value : Bool) (rest : Bytes) :
    tokens? (Utf8.encode (booleanText value) ++ rest) =
      (tokens? rest).map (.boolean value :: ·) := by
  cases value with
  | true => exact tokens?_cons (by decide) rfl
  | false => exact tokens?_cons (by decide) rfl

/-- A mark is read as its token. -/
theorem tokens?_mark {c : Char} (token : Token) (hascii : c.toNat < 0x80)
    (hspace : isSpace (byte c) = false) (h : punctuation? (byte c) = some token)
    (text : List Char) (rest : Bytes) : tokens? (Utf8.encode (c :: text) ++ rest) =
      (tokens? (Utf8.encode text ++ rest)).map (token :: ·) := by
  rw [encode_mark hascii, List.cons_append, tokens?_punctuation hspace h]

mutual

/-- A written value is read as the tokens of its tree. -/
theorem tokens?_write : (value : Value) → {tree : Tree} → HasTree value tree → {rest : Bytes} →
    EndsNumber rest → tokens? (Utf8.encode value.write ++ rest) =
      (tokens? rest).map (tree.tokens ++ ·)
  | .null, _, .null, rest, _ => tokens?_null rest
  | .boolean value, _, .boolean _, rest, _ => tokens?_boolean value rest
  | .number _, _, .integer n, _, h => tokens?_integer n h
  | .string text, _, .string _, rest, _ => tokens?_writeString text rest
  | .array items, _, .array htrees, rest, _ => by
    rw [Value.write, tokens?_mark .openArray (by decide) (by decide) (by decide),
      tokens?_writeItems items htrees rest, Option.map_map]
    rfl
  | .object members, _, .object htrees, rest, _ => by
    rw [Value.write, tokens?_mark .openObject (by decide) (by decide) (by decide),
      tokens?_writeMembers members htrees rest, Option.map_map]
    rfl
termination_by structural value => value

/-- Items are read as their tokens. -/
theorem tokens?_writeItems : (items : List Value) → {trees : List Tree} →
    ItemsHaveTrees items trees → (rest : Bytes) →
    tokens? (Utf8.encode (writeItems items) ++ rest) =
      (tokens? rest).map ((itemTokens trees ++ [.closeArray]) ++ ·)
  | [], _, .nil, rest => tokens?_mark _ (by decide) (by decide) (by decide) [] rest
  | [last], _, .cons hlast .nil, rest => by
    have hend : EndsNumber (Utf8.encode [']'] ++ rest) := endsNumber_cons (by decide)
    rw [writeItems, Utf8.encode_append, List.append_assoc, tokens?_write last hlast hend,
      tokens?_mark .closeArray (by decide) (by decide) (by decide), Option.map_map]
    refine congrArg (Option.map · _) (funext fun tokens => ?_)
    simp [itemTokens]
  | item :: other :: others, _, .cons hitem (.cons hother htrees), rest => by
    have hend : EndsNumber (Utf8.encode (',' :: writeItems (other :: others)) ++ rest) :=
      endsNumber_cons (by decide)
    rw [writeItems_cons_cons, Utf8.encode_append, List.append_assoc,
      tokens?_write item hitem hend,
      tokens?_mark .comma (by decide) (by decide) (by decide),
      tokens?_writeItems (other :: others) (.cons hother htrees) rest, Option.map_map,
      Option.map_map]
    refine congrArg (Option.map · _) (funext fun tokens => ?_)
    simp [itemTokens_cons_cons]
termination_by structural items => items

/-- Members are read as their tokens. -/
theorem tokens?_writeMembers : (members : List (String × Value)) →
    {trees : List (Quoted × Tree)} → MembersHaveTrees members trees → (rest : Bytes) →
    tokens? (Utf8.encode (writeMembers members) ++ rest) =
      (tokens? rest).map ((membersTokens trees ++ [.closeObject]) ++ ·)
  | [], _, .nil, rest => tokens?_mark _ (by decide) (by decide) (by decide) [] rest
  | [last], _, .cons hvalue .nil, rest => by
    have hend : EndsNumber (Utf8.encode ['\x7d'] ++ rest) := endsNumber_cons (by decide)
    rw [writeMembers, Utf8.encode_append, List.append_assoc,
      tokens?_writeMember last hvalue hend,
      tokens?_mark .closeObject (by decide) (by decide) (by decide), Option.map_map]
    refine congrArg (Option.map · _) (funext fun tokens => ?_)
    simp [membersTokens]
  | member :: other :: others, _, .cons hvalue (.cons hother htrees), rest => by
    have hend : EndsNumber (Utf8.encode (',' :: writeMembers (other :: others)) ++ rest) :=
      endsNumber_cons (by decide)
    rw [writeMembers_cons_cons, Utf8.encode_append, List.append_assoc,
      tokens?_writeMember member hvalue hend,
      tokens?_mark .comma (by decide) (by decide) (by decide),
      tokens?_writeMembers (other :: others) (.cons hother htrees) rest, Option.map_map,
      Option.map_map]
    refine congrArg (Option.map · _) (funext fun tokens => ?_)
    simp [membersTokens_cons_cons]
termination_by structural members => members

/-- A member is read as its tokens. -/
theorem tokens?_writeMember : (member : String × Value) → {tree : Tree} →
    HasTree member.2 tree → {rest : Bytes} → EndsNumber rest →
    tokens? (Utf8.encode (writeMember member) ++ rest) =
      (tokens? rest).map (memberTokens (textParts member.1.toList, tree) ++ ·)
  | (key, value), _, htree, rest, hend => by
    rw [writeMember, Utf8.encode_append, List.append_assoc, tokens?_writeString,
      tokens?_mark .colon (by decide) (by decide) (by decide),
      tokens?_write value htree hend, Option.map_map, Option.map_map]
    rfl
termination_by structural member => member

end

/-- A written value is read as its tree. -/
theorem read?_toBytes {value : Value} {tree : Tree} (h : HasTree value tree) :
    Tree.read? value.toBytes = some tree := by
  have hnothing : EndsNumber [] := by simp [EndsNumber]
  have htokens := tokens?_write value h hnothing
  have hend : tokens? [] = some [] := by
    rw [tokens?]
    rfl
  rw [List.append_nil, hend, Option.map_some, List.append_nil] at htokens
  rw [Tree.read?, Value.toBytes, htokens, Option.bind_some, ofTokens?_eq_some_iff]

end CallbackGateway.Json
