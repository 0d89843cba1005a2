import CallbackGateway.Proofs.Markup.Assembly
import CallbackGateway.Proofs.Markup.Writing

/-!
# Sections of a text

The contents that a text is cut into are found again by looking for the first end marker behind
each opening. A cut falls between `]]` and `>`, so a content may end in `]]` and the next one may
start with `>`; neither forms a marker with what is written around it.

An element that is written with these sections therefore holds the text and ends where it was
closed: what is written behind it is read as if it stood alone.
-/

namespace CallbackGateway.Markup

/-- A written section is read up to the end marker that was written for it. -/
theorem readSections_writeSection {content : List Char} (h : ¬ "]]>".toList <:+: content)
    (bound : Nat) (rest : List Char) : readSections (bound + 1) (writeSection content ++ rest) =
      (readSections bound rest).map (content :: ·) := by
  have hopening : writeSection content ++ rest =
      "<![CDATA[".toList ++ (content ++ ("]]>".toList ++ rest)) := by
    unfold writeSection
    rw [List.append_assoc, List.append_assoc]
  have hbreak : breakAt? "]]>".toList (content ++ ("]]>".toList ++ rest)) = some (content, rest) :=
    breakAt?_of_endsFirst (by simp) (endsFirst_of_infix_free h) rest
  have hprefix : "<![CDATA[".toList.isPrefixOf
      ("<![CDATA[".toList ++ (content ++ ("]]>".toList ++ rest))) = true :=
    List.isPrefixOf_iff_prefix.mpr (List.prefix_append _ _)
  have hdrop : ("<![CDATA[".toList ++ (content ++ ("]]>".toList ++ rest))).drop 9 =
      content ++ ("]]>".toList ++ rest) := List.drop_left' (by decide)
  rw [hopening, readSections.eq_3 _ _ (by simp), if_pos hprefix, hdrop, hbreak]

/-- Written sections are read one by one. -/
theorem readSections_flatMap {contents : List (List Char)}
    (h : ∀ content ∈ contents, ¬ "]]>".toList <:+: content) {bound : Nat}
    (hbound : contents.length ≤ bound) :
    readSections bound (contents.flatMap writeSection) = some contents := by
  induction contents generalizing bound with
  | nil => rw [List.flatMap_nil, readSections]
  | cons content contents ih =>
    obtain ⟨hcontent, hothers⟩ := List.forall_mem_cons.mp h
    obtain ⟨bound, rfl⟩ := Nat.exists_eq_add_one_of_ne_zero (Nat.ne_zero_of_lt hbound)
    rw [List.flatMap_cons, readSections_writeSection hcontent,
      ih hothers (Nat.le_of_succ_le_succ hbound), Option.map_some]

/-- An element with the sections of a text is written as its tags around the written sections. -/
theorem write_element_sections (name : String) (text : List Char) :
    write (element name (sections text)) =
      '<' :: name.toList ++ '>' :: writeSections text ++ '<' :: '/' :: name.toList ++ ['>'] := by
  have hsections : write (sections text) = writeSections text := by
    rw [write, sections, List.flatMap_map]
    rfl
  rw [element, List.cons_append, write_cons, write_append, hsections]
  simp

/-- A text is cut into contents that concatenate to it, of which none holds the end marker and
which are read back one by one. An element that is written with these sections is read as its two
tags and the sections, whatever is written behind it, and its content is the text. -/
theorem sections_hold_text (text : List Char) :
    chunks text ≠ [] ∧ (chunks text).flatten = text ∧
    (∀ chunk ∈ chunks text, ¬ "]]>".toList <:+: chunk) ∧
    (∀ bound, (chunks text).length ≤ bound →
      readSections bound (writeSections text) = some (chunks text)) ∧
    ∀ name : String, IsPlainName name.toList →
      write (element name (sections text)) =
        '<' :: name.toList ++ '>' :: writeSections text ++ '<' :: '/' :: name.toList ++ ['>'] ∧
      (∀ rest, (scan (write (element name (sections text)) ++ rest)).tokens =
          .openTag ⟨name.toList, []⟩ :: (chunks text).map .cdata ++
            .closeTag name.toList :: (scan rest).tokens ∧
        (scan (write (element name (sections text)) ++ rest)).complete = (scan rest).complete) ∧
      ∀ opened collected tokens,
        assembleFrom opened collected (.openTag ⟨name.toList, []⟩ :: (chunks text).map .cdata ++
            .closeTag name.toList :: tokens) =
          assembleFrom opened
            (.whole (.element ⟨name.toList, []⟩ [.text (some text)] true) :: collected) tokens := by
  have hfree : ∀ chunk ∈ chunks text, ¬ "]]>".toList <:+: chunk :=
    fun _ => not_infix_of_mem_chunks
  have htokens (name : String) (tokens : List Token) : element name (sections text) ++ tokens =
      .openTag ⟨name.toList, []⟩ :: (chunks text).map .cdata ++
        .closeTag name.toList :: tokens := by
    rw [element, sections, List.append_assoc, List.singleton_append]
  refine ⟨chunks_ne_nil text, flatten_chunks text, hfree,
    fun bound hbound => readSections_flatMap hfree hbound,
    fun name hname => ⟨write_element_sections name text, fun rest => ?_, ?_⟩⟩
  · have hscan := (isClosed_element hname (isWritten_sections text) rest).scan
    rwa [htokens] at hscan
  · intro opened collected tokens
    have hassemble := (content_element name (content_sections text)).assembleFrom opened collected
      tokens
    rwa [joinRuns_sections, htokens] at hassemble

/-- End markers that overlap, and cuts next to brackets, are no end of a section. -/
theorem sections_hold_text_overlapping :
    chunks "a]]]]>>b]]>".toList = ["a]]]]".toList, ">>b]]".toList, ">".toList] ∧
    readSections 3 (writeSections "a]]]]>>b]]>".toList) =
      some ["a]]]]".toList, ">>b]]".toList, ">".toList] ∧
    (scan "<Text><![CDATA[a]]]]]]><![CDATA[>>b]]]]><![CDATA[>]]></Text>&<x/>".toList).tokens =
      .openTag ⟨"Text".toList, []⟩ ::
        ["a]]]]".toList, ">>b]]".toList, ">".toList].map .cdata ++
        .closeTag "Text".toList :: (scan "&<x/>".toList).tokens := by
  have hchunks : chunks "a]]]]>>b]]>".toList = ["a]]]]".toList, ">>b]]".toList, ">".toList] := by
    decide
  obtain ⟨-, -, -, hread, helement⟩ := sections_hold_text "a]]]]>>b]]>".toList
  obtain ⟨hwrite, hscan, -⟩ := helement "Text" (by decide)
  have htokens := (hscan "&<x/>".toList).1
  rw [hwrite, hchunks] at htokens
  rw [hchunks] at hread
  exact ⟨hchunks, hread 3 (by decide), htokens⟩

end CallbackGateway.Markup
