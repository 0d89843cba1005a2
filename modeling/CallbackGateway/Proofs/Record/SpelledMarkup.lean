import CallbackGateway.Proofs.Markup.Document
import CallbackGateway.Proofs.Record.MarkupFields
import CallbackGateway.Proofs.Record.SpelledElement

/-!
# Records of texts in markup

A record of texts is marked up by an element for each field, and for a repeated field by
neighbouring elements, one for each item. Each text is spelled in any way, and there may be white
space before, between and after the elements.

What is read from these elements is what is read from the record as it is written.
-/

namespace CallbackGateway.Record

open Markup

/-! ## Marked up records -/

/-- Which tokens mark up the fields of a record, in their order. -/
inductive MarkedUp : Fields → List Token → Prop
  | nil : MarkedUp [] []
  | text {name content : String} {rest : Fields} {inner tokens after others : List Token}
      (hleaf : LeafSpelled content.toList inner) (helement : ElementSpelled name inner tokens)
      (hafter : Spacing after) : MarkedUp rest others →
      MarkedUp ((name, .text content) :: rest) (tokens ++ (after ++ others))
  | record {name : String} {fields rest : Fields}
      {before inner tokens after others : List Token} (hbefore : Spacing before)
      (helement : ElementSpelled name (before ++ inner) tokens) (hafter : Spacing after) :
      MarkedUp fields inner → MarkedUp rest others →
      MarkedUp ((name, .record fields) :: rest) (tokens ++ (after ++ others))
  | noItems {name : String} {rest : Fields} {others : List Token} : MarkedUp rest others →
      MarkedUp ((name, .records []) :: rest) others
  | item {name : String} {item : Fields} {items : List Fields} {rest : Fields}
      {before inner tokens after others : List Token} (hbefore : Spacing before)
      (helement : ElementSpelled name (before ++ inner) tokens) (hafter : Spacing after) :
      MarkedUp item inner → MarkedUp ((name, .records items) :: rest) others →
      MarkedUp ((name, .records (item :: items)) :: rest) (tokens ++ (after ++ others))

namespace MarkedUp

variable {fields : Fields} {tokens : List Token}

/-- Marked-up fields begin with a token that begins an element, if with any. -/
theorem isStart (h : MarkedUp fields tokens) :
    ∀ token ∈ tokens.head?, token.isStart = true := by
  induction h with
  | nil => exact nofun
  | noItems _ ih => exact ih
  | text _ helement | record _ helement | item _ helement => exact helement.isStart _

/-- Marked-up fields start at a bracket. -/
theorem startsAtBracket (h : MarkedUp fields tokens) : StartsAtBracket tokens := by
  induction h with
  | nil => simp [StartsAtBracket]
  | noItems _ ih => exact ih
  | text _ helement | record _ helement | item _ helement => exact helement.startsAtBracket _

/-! ## Reading tokens off -/

/-- The elements of a plain record are read off what is written for them. -/
theorem isWritten (h : MarkedUp fields tokens) (hplain : arePlainFields fields = true) :
    IsWritten tokens := by
  -- An element can be followed by anything, white space by the next element or the end.
  have element {name : String} {content tokens after others : List Token} {rest : Fields}
      (helement : ElementSpelled name content tokens) (hname : IsPlainName name.toList)
      (hcontent : IsWritten content) (hafter : Spacing after) (hrest : MarkedUp rest others)
      (hothers : IsWritten others) : IsWritten (tokens ++ (after ++ others)) :=
    (helement.isClosed hname hcontent).append
      (isWritten_append hafter.isWritten hothers hrest.startsAtBracket)
  induction h with
  | nil => exact isWritten_nil
  | text hleaf helement hafter hrest ih =>
    obtain ⟨hname, -, hothers⟩ := arePlainFields_cons.mp hplain
    exact element helement hname hleaf.isWritten hafter hrest (ih hothers)
  | record hbefore helement hafter hfields hrest ihfields ih =>
    obtain ⟨hname, hinner, hothers⟩ := arePlainFields_cons.mp hplain
    exact element helement hname (isWritten_append hbefore.isWritten (ihfields hinner)
      hfields.startsAtBracket) hafter hrest (ih hothers)
  | noItems _ ih => exact ih (arePlainFields_cons.mp hplain).2.2
  | item hbefore helement hafter hitem hrest ihitem ih =>
    obtain ⟨hname, hitems, hothers⟩ := arePlainFields_cons.mp hplain
    rw [Value.isPlain, arePlainItems, Bool.and_eq_true] at hitems
    exact element helement hname (isWritten_append hbefore.isWritten (ihitem hitems.1)
      hitem.startsAtBracket) hafter hrest
      (ih (arePlainFields_cons.mpr ⟨hname, hitems.2, hothers⟩))

/-- Every element of a marked up record is closed. -/
theorem balanced (h : MarkedUp fields tokens) : Balanced tokens := by
  induction h with
  | nil => exact .nil
  | text hleaf helement hafter _ ih =>
    exact (helement.balanced hleaf.balanced).append (hafter.balanced.append ih)
  | record hbefore helement hafter _ _ ihfields ih =>
    exact (helement.balanced (hbefore.balanced.append ihfields)).append (hafter.balanced.append ih)
  | noItems _ ih => exact ih
  | item hbefore helement hafter _ _ ihitem ih =>
    exact (helement.balanced (hbefore.balanced.append ihitem)).append (hafter.balanced.append ih)

end MarkedUp

/-! ## Reading alike -/

/-- A run of elements that the schema declares. -/
def Run.IsDeclared (schema : Schema) (run : Option Run) : Prop :=
  ∀ r ∈ run, r.tagName = r.key.toList ∧ List.lookup r.key schema = some (.records r.fields)

/-- No run is a run of a declared name. -/
theorem Run.isDeclared_none (schema : Schema) : Run.IsDeclared schema none := by
  simp [Run.IsDeclared]

/-- Whether items are read alike, after whatever was read before. -/
def ReadAlike (schema : Schema) (items others : List Item) : Prop :=
  ∀ found run, Run.IsDeclared schema run →
    readItems schema found run items = readItems schema found run others

/-- Contents of an element that are read alike as a field of a kind. -/
inductive ContentAlike : Kind → List Item → List Item → Prop
  | leaf {kind : Kind} {content other : List Item} (hleaf : kind.isLeaf = true)
      (h : leafText? content = leafText? other) : ContentAlike kind content other
  | record {inner : Schema} {content other : List Item}
      (h : readItems inner [] none content = readItems inner [] none other) :
      ContentAlike (.record inner) content other
  | records {inner : Schema} {content other : List Item}
      (h : readItems inner [] none content = readItems inner [] none other) :
      ContentAlike (.records inner) content other

/-- Elements with contents that are read alike are read alike, if the elements behind them are. -/
theorem ReadAlike.cons {schema : Schema} {name : String} {kind : Kind}
    {content other items others : List Item} (h : ReadAlike schema items others)
    (hname : IsPlainName name.toList) (hkind : List.lookup name schema = some kind)
    (hcontent : ContentAlike kind content other) :
    ReadAlike schema (.element (fieldTag name) content true :: items)
      (.element (fieldTag name) other true :: others) := by
  intro found run hrun
  -- A run of this name goes on by its tag alone; without one, the schema says what to read.
  cases hcontinues : continues? run (fieldTag name) with
  | some r =>
    obtain ⟨rfl, htag⟩ := Option.filter_eq_some_iff.mp hcontinues
    obtain ⟨hkey, hdeclared⟩ := hrun r rfl
    have hsame : r.tagName = name.toList := beq_iff_eq.mp htag
    obtain rfl : name = r.key := String.toList_injective (hsame.symm.trans hkey)
    have hread : readItems r.fields [] none content = readItems r.fields [] none other := by
      rw [hkind] at hdeclared
      obtain rfl := Option.some.inj hdeclared
      cases hcontent with
      | records h => exact h
      | leaf hleaf => simp [Kind.isLeaf] at hleaf
    rw [readItems_continue hsame, readItems_continue hsame, hread]
    refine congrArg (Except.bind _) (funext fun item => h found _ fun next hnext => ?_)
    obtain rfl := Option.some.inj hnext
    exact hrun r rfl
  | none =>
    have hclosed := Run.isDeclared_none schema
    rw [readItems, readItems, hcontinues]
    dsimp only
    rw [ofList_localName hname, hkind]
    dsimp only
    split
    · rfl
    · cases hcontent with
      | @leaf _ _ _ hleaf htext =>
        have hread : readLeafElement kind content true = readLeafElement kind other true := by
          unfold readLeafElement
          rw [htext]
        cases kind with
        | text | integer | real =>
          dsimp only
          rw [hread]
          exact congrArg (Except.bind _) (funext fun value => h _ none hclosed)
        | record | records => simp [Kind.isLeaf] at hleaf
      | record hread =>
        dsimp only
        rw [readRecord_element, readRecord_element, hread]
        exact congrArg (Except.bind _) (funext fun item => h _ none hclosed)
      | @records inner _ _ hread =>
        dsimp only
        rw [readRecord_element, readRecord_element, hread]
        refine congrArg (Except.bind _) (funext fun item => h _ _ fun next hnext => ?_)
        obtain rfl := Option.some.inj hnext
        exact ⟨rfl, hkind⟩

/-! ## The items of marked up records -/

/-- What is read from a content as the fields of a record. -/
theorem readItems_content {schema : Schema} {content items : List Item}
    (h : content = items ∨ items = [] ∧ ∃ text, content = [.text (some text)]) :
    readItems schema [] none content = readItems schema [] none items := by
  rcases h with rfl | ⟨rfl, text, rfl⟩ <;> rfl

/-- Fields fit a schema just as the first one and the rest of them do. -/
theorem Fits.of_cons {schema : Schema} {name : String} {value : Value} {rest : Fields}
    (h : Fits schema ((name, value) :: rest)) :
    FitsKind Fits (List.lookup name schema) value ∧ Fits schema rest :=
  ⟨h.kind List.mem_cons_self, .mk (noRepeats_cons.mp h.noRepeats).2 fun _ _ hmem =>
    h.kind (List.mem_cons_of_mem _ hmem)⟩

/-- A repeated field fits without its first item. -/
theorem Fits.of_item {schema : Schema} {name : String} {item : Fields} {items : List Fields}
    {rest : Fields} (h : Fits schema ((name, .records (item :: items)) :: rest)) :
    ∃ inner, List.lookup name schema = some (.records inner) ∧ Fits inner item ∧
      Fits schema ((name, .records items) :: rest) := by
  have hkind := h.of_cons.1
  generalize hdeclared : List.lookup name schema = declared at hkind
  cases hkind with
  | @records inner _ hitems =>
    obtain ⟨hitem, hothers⟩ := List.forall_mem_cons.mp hitems
    refine ⟨inner, rfl, hitem, .mk h.noRepeats fun other held hmem => ?_⟩
    rcases List.mem_cons.mp hmem with hfirst | hmem
    · obtain ⟨rfl, rfl⟩ := Prod.mk.inj hfirst
      rw [hdeclared]
      exact .records hothers
    · exact h.kind (List.mem_cons_of_mem _ hmem)

/-- The elements of a marked up record are read as the record that is written. -/
theorem MarkedUp.exists_items {fields : Fields} {tokens : List Token} (h : MarkedUp fields tokens) :
    ∃ items, OutsideItems tokens items ∧ ∀ depth schema, areRegular depth schema = true →
      Fits schema fields → ReadAlike schema items (fieldsItems fields) := by
  -- An element and the white space behind it are one item in front of the items of the others.
  have element {name : String} {content tokens after others : List Token}
      {inside items : List Item} (helement : ElementSpelled name content tokens)
      (hcontent : InsideItems content inside) (hafter : Spacing after)
      (hitems : OutsideItems others items) : OutsideItems (tokens ++ (after ++ others))
        (.element (fieldTag name) inside true :: items) :=
    (helement.outsideItems hcontent).append (hafter.outsideItems.append hitems)
  induction h with
  | nil => exact ⟨[], outsideItems_nil, fun _ _ _ _ found run _ => rfl⟩
  | @text name content _ _ _ _ _ hleaf helement hafter _ ih =>
    obtain ⟨items, hitems, hread⟩ := ih
    obtain ⟨inside, hinside, htext⟩ := hleaf.exists_insideItems
    refine ⟨_, element helement hinside hafter hitems, fun depth schema hschema hfits => ?_⟩
    obtain ⟨hkind, hrest⟩ := hfits.of_cons
    generalize hdeclared : List.lookup name schema = declared at hkind
    cases hkind with
    | text hkind =>
      exact (hread depth schema hschema hrest).cons (isRegular_of_lookup hschema hdeclared).1
        hdeclared (.leaf hkind htext)
  | @record name _ _ _ _ _ _ _ hbefore helement hafter hfields _ ihfields ih =>
    obtain ⟨items, hitems, hread⟩ := ih
    obtain ⟨inner, hinner, hreadinner⟩ := ihfields
    obtain ⟨inside, hinside, hcontent⟩ := hinner.exists_insideItems hbefore hfields.isStart
    refine ⟨_, element helement hinside hafter hitems, fun depth schema hschema hfits => ?_⟩
    obtain ⟨hkind, hrest⟩ := hfits.of_cons
    generalize hdeclared : List.lookup name schema = declared at hkind
    cases hkind with
    | record hkind =>
      obtain ⟨hname, hregular⟩ := isRegular_of_lookup hschema hdeclared
      obtain ⟨below, -, hregular⟩ := Kind.isRegular_record hregular
      refine (hread depth schema hschema hrest).cons hname hdeclared (.record ?_)
      rw [readItems_content hcontent]
      exact hreadinner below _ hregular hkind [] none (Run.isDeclared_none _)
  | noItems _ ih =>
    obtain ⟨items, hitems, hread⟩ := ih
    exact ⟨items, hitems, fun depth schema hschema hfits =>
      hread depth schema hschema hfits.of_cons.2⟩
  | item hbefore helement hafter hitem _ ihitem ih =>
    obtain ⟨items, hitems, hread⟩ := ih
    obtain ⟨inner, hinner, hreadinner⟩ := ihitem
    obtain ⟨inside, hinside, hcontent⟩ := hinner.exists_insideItems hbefore hitem.isStart
    refine ⟨_, element helement hinside hafter hitems, fun depth schema hschema hfits => ?_⟩
    obtain ⟨declared, hdeclared, hfitsitem, hothers⟩ := hfits.of_item
    obtain ⟨hname, hregular⟩ := isRegular_of_lookup hschema hdeclared
    obtain ⟨below, -, hregular⟩ := Kind.isRegular_records hregular
    refine (hread depth schema hschema hothers).cons hname hdeclared (.records ?_)
    rw [readItems_content hcontent]
    exact hreadinner below _ hregular hfitsitem [] none (Run.isDeclared_none _)

/-! ## Documents -/

/-- Which documents spell a record: one element with its fields, and white space around it. -/
inductive SpelledDocument (root : String) (fields : Fields) : List Token → Prop
  | mk {before lead inner element after : List Token} (hbefore : Spacing before)
      (hlead : Spacing lead) (hfields : MarkedUp fields inner)
      (helement : ElementSpelled root (lead ++ inner) element) (hafter : Spacing after) :
      SpelledDocument root fields (before ++ (element ++ after))

namespace SpelledDocument

variable {root : String} {fields : Fields} {tokens : List Token}

/-- The document is read off what is written for it. -/
theorem isWritten (h : SpelledDocument root fields tokens) (hroot : IsPlainName root.toList)
    (hplain : arePlainFields fields = true) : IsWritten tokens := by
  obtain ⟨hbefore, hlead, hfields, helement, hafter⟩ := h
  have hinner := isWritten_append hlead.isWritten (hfields.isWritten hplain)
    hfields.startsAtBracket
  exact isWritten_append hbefore.isWritten
    ((helement.isClosed hroot hinner).append hafter.isWritten) (helement.startsAtBracket _)

/-- A spelled document closes what it opens. -/
theorem balanced (h : SpelledDocument root fields tokens) : Balanced tokens := by
  obtain ⟨hbefore, hlead, hfields, helement, hafter⟩ := h
  exact hbefore.balanced.append
    ((helement.balanced (hlead.balanced.append hfields.balanced)).append hafter.balanced)

/-- The document has no mark in front. -/
theorem dropMark_write (h : SpelledDocument root fields tokens) :
    dropMark (write tokens) = write tokens := by
  obtain ⟨hbefore, -, -, helement, -⟩ := h
  have hstart := helement.startsAtBracket
  cases hbefore with
  | none =>
    refine dropMark_of_head fun c hc => ?_
    rw [hstart _ c hc]
    decide
  | @space raw hne hspace =>
    rw [write_append, write_cons, Token.write_text, write_nil, List.append_nil,
      dropMark_append hne, dropMark_spaces hspace]

/-- The document is read as the record that is written. -/
theorem exists_kept (h : SpelledDocument root fields tokens) {depth : Nat} {schema : Schema}
    (hschema : areRegular depth schema = true) (hfits : Fits schema fields) :
    ∃ kept, keepLeafText tokens = some kept ∧
      ofItems schema (assemble (dropLeadingMark kept)) = collect (readWritten schema) fields := by
  obtain ⟨hbefore, hlead, hfields, helement, hafter⟩ := h
  obtain ⟨items, hitems, hread⟩ := hfields.exists_items
  obtain ⟨content, hinside, hcontent⟩ := hitems.exists_insideItems hlead hfields.isStart
  obtain ⟨kept, parts, hkept, hparts, hspaced⟩ := hbefore.outsideItems.append
    ((helement.outsideItems hinside).append hafter.outsideItems)
  refine ⟨kept, ?_, ?_⟩
  · have hall := hkept []
    have hnil : keepLeafText [] = some [] := rfl
    rwa [List.append_nil, hnil, Option.map_some, List.append_nil] at hall
  · rw [assemble_dropLeadingMark hparts hspaced, List.nil_append, List.append_nil, ofItems,
      readRecord_element, readItems_content hcontent,
      hread depth schema hschema hfits [] none (Run.isDeclared_none _), hfits.readItems hschema]

end SpelledDocument

end CallbackGateway.Record
