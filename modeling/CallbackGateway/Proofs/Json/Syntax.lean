import CallbackGateway.Json.Tree

/-!
# The grammar of JSON trees

The tokens of a tree are those of its items or members with commas between them, inside their
brackets. A list of tokens is read as a tree if and only if it is the tokens of that tree.

The machine that reads keeps what it has seen on its stack: every position stands for the tokens
that led to it.
-/

namespace CallbackGateway.Json

mutual

/-- The tokens of a tree. -/
def Tree.tokens : Tree → List Token
  | .null => [.null]
  | .boolean value => [.boolean value]
  | .number numeral => [.number numeral]
  | .string quoted => [.string quoted]
  | .array items => .openArray :: (itemTokens items ++ [.closeArray])
  | .object members => .openObject :: (membersTokens members ++ [.closeObject])
termination_by structural tree => tree

/-- The tokens of items with commas between them. -/
def itemTokens : List Tree → List Token
  | [] => []
  | [last] => last.tokens
  | item :: rest => item.tokens ++ .comma :: itemTokens rest
termination_by structural items => items

/-- The tokens of members with commas between them. -/
def membersTokens : List (Quoted × Tree) → List Token
  | [] => []
  | [last] => memberTokens last
  | member :: rest => memberTokens member ++ .comma :: membersTokens rest
termination_by structural members => members

/-- The tokens of a member. -/
def memberTokens : Quoted × Tree → List Token
  | (key, tree) => .string key :: .colon :: tree.tokens
termination_by structural member => member

end

/-- Items are divided by a comma. -/
theorem itemTokens_cons_cons (item other : Tree) (rest : List Tree) :
    itemTokens (item :: other :: rest) = item.tokens ++ .comma :: itemTokens (other :: rest) :=
  rfl

/-- A comma stands between two members. -/
theorem membersTokens_cons_cons (member other : Quoted × Tree) (rest : List (Quoted × Tree)) :
    membersTokens (member :: other :: rest) =
      memberTokens member ++ .comma :: membersTokens (other :: rest) := rfl

/-! ## Reading gives no other tree -/

/-- The tokens of items that a comma follows. -/
def pendingItems (items : List Tree) : List Token :=
  items.flatMap fun item => item.tokens ++ [.comma]

/-- The tokens of members that a comma follows. -/
def pendingMembers (members : List (Quoted × Tree)) : List Token :=
  members.flatMap fun member => memberTokens member ++ [.comma]

/-- The last of several items has no comma after it. -/
theorem itemTokens_concat (items : List Tree) (last : Tree) :
    itemTokens (items ++ [last]) = pendingItems items ++ last.tokens := by
  induction items with
  | nil => rfl
  | cons item rest ih =>
    have hcons : itemTokens (item :: (rest ++ [last])) =
        item.tokens ++ .comma :: itemTokens (rest ++ [last]) := by
      cases rest <;> rfl
    rw [List.cons_append, hcons, ih]
    simp [pendingItems]

/-- Members in front of the last one are pending. -/
theorem membersTokens_concat (members : List (Quoted × Tree)) (last : Quoted × Tree) :
    membersTokens (members ++ [last]) = pendingMembers members ++ memberTokens last := by
  induction members with
  | nil => rfl
  | cons member rest ih =>
    have hcons : membersTokens (member :: (rest ++ [last])) =
        memberTokens member ++ .comma :: membersTokens (rest ++ [last]) := by
      cases rest <;> rfl
    rw [List.cons_append, hcons, ih]
    simp [pendingMembers]

/-- The tokens in front of the value that a frame waits for. -/
def Frame.tokens : Frame → List Token
  | .item latest => .openArray :: pendingItems latest.reverse
  | .member key latest =>
    .openObject :: (pendingMembers latest.reverse ++ [.string key, .colon])

/-- The tokens in front of the value that the innermost of several frames waits for. -/
def framesTokens : List Frame → List Token
  | [] => []
  | frame :: outer => framesTokens outer ++ frame.tokens

/-- The tokens that lead to a position. -/
def Position.tokens : Position → List Token
  | .value outer => framesTokens outer
  | .firstItem outer => framesTokens outer ++ [.openArray]
  | .firstKey outer => framesTokens outer ++ [.openObject]
  | .key latest outer => framesTokens outer ++ .openObject :: pendingMembers latest.reverse
  | .colon name latest outer =>
    framesTokens outer ++ .openObject :: (pendingMembers latest.reverse ++ [.string name])
  | .afterItem latest outer => framesTokens outer ++ .openArray :: itemTokens latest.reverse
  | .afterMember latest outer =>
    framesTokens outer ++ .openObject :: membersTokens latest.reverse
  | .finished tree => tree.tokens

/-- Something stands in front of a comma. -/
def Position.IsReached : Position → Prop
  | .afterItem latest _ => latest ≠ []
  | .afterMember latest _ => latest ≠ []
  | _ => True

/-- A complete value leads to what stands in front of it and its own tokens. -/
theorem tokens_complete (tree : Tree) (outer : List Frame) :
    (complete tree outer).tokens = framesTokens outer ++ tree.tokens ∧
      (complete tree outer).IsReached := by
  cases outer with
  | nil => exact ⟨rfl, trivial⟩
  | cons frame outer =>
    cases frame with
    | item latest =>
      refine ⟨?_, List.cons_ne_nil _ _⟩
      simp [complete, Position.tokens, framesTokens, Frame.tokens, itemTokens_concat]
    | member key latest =>
      refine ⟨?_, List.cons_ne_nil _ _⟩
      simp [complete, Position.tokens, framesTokens, Frame.tokens, membersTokens_concat,
        memberTokens]

/-- A comma after the last item makes every item pending. -/
theorem itemTokens_comma {items : List Tree} (h : items ≠ []) :
    itemTokens items ++ [.comma] = pendingItems items := by
  rcases List.eq_nil_or_concat items with rfl | ⟨items, last, rfl⟩
  · exact absurd rfl h
  · rw [List.concat_eq_append, itemTokens_concat]
    simp [pendingItems]

/-- Behind a comma all members are pending. -/
theorem membersTokens_comma {members : List (Quoted × Tree)} (h : members ≠ []) :
    membersTokens members ++ [.comma] = pendingMembers members := by
  rcases List.eq_nil_or_concat members with rfl | ⟨members, last, rfl⟩
  · exact absurd rfl h
  · rw [List.concat_eq_append, membersTokens_concat]
    simp [pendingMembers]

/-- A token that starts a value leads to what stood before and itself. -/
theorem tokens_valueStep {outer : List Frame} {token : Token} {next : Position}
    (h : valueStep outer token = some next) :
    next.tokens = framesTokens outer ++ [token] ∧ next.IsReached := by
  cases token with
  | null | boolean | number | string =>
    cases h
    exact tokens_complete _ outer
  | openArray | openObject =>
    cases h
    exact ⟨rfl, trivial⟩
  | closeArray | closeObject | comma | colon => cases h

/-- One token more leads one token further. -/
theorem tokens_step {position next : Position} {token : Token} (hreached : position.IsReached)
    (h : position.step token = some next) :
    next.tokens = position.tokens ++ [token] ∧ next.IsReached := by
  unfold Position.step at h
  split at h
  · exact tokens_valueStep h
  · cases h
    obtain ⟨htokens, hnext⟩ := tokens_complete (.array []) _
    exact ⟨by rw [htokens]; simp [Position.tokens, Tree.tokens, itemTokens], hnext⟩
  · obtain ⟨htokens, hnext⟩ := tokens_valueStep h
    exact ⟨htokens, hnext⟩
  · cases h
    obtain ⟨htokens, hnext⟩ := tokens_complete (.object []) _
    exact ⟨by rw [htokens]; simp [Position.tokens, Tree.tokens, membersTokens], hnext⟩
  · cases h
    exact ⟨by simp [Position.tokens, pendingMembers], trivial⟩
  · cases h
    exact ⟨by simp [Position.tokens], trivial⟩
  · cases h
    exact ⟨by simp [Position.tokens, framesTokens, Frame.tokens], trivial⟩
  · cases h
    rename_i latest outer
    have hcomma := itemTokens_comma (List.reverse_ne_nil_iff.mpr hreached)
    exact ⟨by simp [Position.tokens, framesTokens, Frame.tokens, ← hcomma], trivial⟩
  · cases h
    rename_i latest outer
    obtain ⟨htokens, hnext⟩ := tokens_complete (.array latest.reverse) outer
    exact ⟨by rw [htokens]; simp [Position.tokens, Tree.tokens], hnext⟩
  · cases h
    rename_i latest outer
    have hcomma := membersTokens_comma (List.reverse_ne_nil_iff.mpr hreached)
    exact ⟨by simp [Position.tokens, ← hcomma], trivial⟩
  · cases h
    rename_i latest outer
    obtain ⟨htokens, hnext⟩ := tokens_complete (.object latest.reverse) outer
    exact ⟨by rw [htokens]; simp [Position.tokens, Tree.tokens], hnext⟩
  · cases h

/-- Tokens lead to what stood before and themselves. -/
theorem tokens_run {position last : Position} {tokens : List Token}
    (hreached : position.IsReached) (h : position.run tokens = some last) :
    last.tokens = position.tokens ++ tokens := by
  induction tokens generalizing position with
  | nil =>
    cases h
    rw [List.append_nil]
  | cons token rest ih =>
    rw [Position.run] at h
    split at h
    · rename_i next hstep
      obtain ⟨htokens, hnext⟩ := tokens_step hreached hstep
      rw [ih hnext h, htokens, List.append_assoc, List.singleton_append]
    · cases h

/-- Tokens that are read as a tree are its tokens. -/
theorem eq_tokens_of_ofTokens? {tokens : List Token} {tree : Tree}
    (h : Tree.ofTokens? tokens = some tree) : tokens = tree.tokens := by
  obtain ⟨last, hrun, htree⟩ := Option.bind_eq_some_iff.mp h
  have hstart : (Position.value []).IsReached := trivial
  have htokens := tokens_run hstart hrun
  cases last with
  | finished found =>
    cases htree
    exact htokens.symm
  | value | firstItem | firstKey | key | colon | afterItem | afterMember => cases htree

/-! ## Every tree is read -/

/-- One token is followed by its step. -/
theorem run_cons (position : Position) (token : Token) {next : Position}
    (h : position.step token = some next) (rest : List Token) :
    position.run (token :: rest) = next.run rest := by
  rw [Position.run, h]

/-- A value may stand where the first item may. -/
theorem run_firstItem (outer : List Frame) (tree : Tree) (rest : List Token) :
    (Position.firstItem outer).run (tree.tokens ++ rest) =
      (Position.value (.item [] :: outer)).run (tree.tokens ++ rest) := by
  cases tree <;> rfl

mutual

/-- The tokens of a tree lead to where the complete tree leads. -/
theorem run_tokens (outer : List Frame) : (tree : Tree) → (rest : List Token) →
    (Position.value outer).run (tree.tokens ++ rest) = (complete tree outer).run rest
  | .null, rest | .boolean _, rest | .number _, rest | .string _, rest =>
    run_cons (.value outer) _ rfl rest
  | .array items, rest => by
    rw [Tree.tokens, List.cons_append, List.append_assoc,
      run_cons (.value outer) .openArray rfl]
    cases items with
    | nil => exact run_cons (.firstItem outer) .closeArray rfl rest
    | cons item others =>
      have hfirst :
          (Position.firstItem outer).run (itemTokens (item :: others) ++ .closeArray :: rest) =
          (Position.value (.item [] :: outer)).run
            (itemTokens (item :: others) ++ .closeArray :: rest) := by
        cases others with
        | nil => exact run_firstItem outer item _
        | cons other others =>
          rw [itemTokens_cons_cons, List.append_assoc]
          exact run_firstItem outer item _
      rw [List.singleton_append, hfirst]
      exact run_itemTokens outer [] (item :: others) rest (List.cons_ne_nil _ _)
  | .object members, rest => by
    rw [Tree.tokens, List.cons_append, List.append_assoc,
      run_cons (.value outer) .openObject rfl]
    cases members with
    | nil => exact run_cons (.firstKey outer) .closeObject rfl rest
    | cons member others =>
      have hfirst : (Position.firstKey outer).run
          (membersTokens (member :: others) ++ .closeObject :: rest) =
          (Position.key [] outer).run
            (membersTokens (member :: others) ++ .closeObject :: rest) := by
        obtain ⟨name, tree⟩ := member
        cases others <;> rfl
      rw [List.singleton_append, hfirst]
      exact run_membersTokens outer [] (member :: others) rest (List.cons_ne_nil _ _)
termination_by structural tree => tree

/-- The tokens of items lead to where the complete array leads. -/
theorem run_itemTokens (outer : List Frame) (latest : List Tree) : (items : List Tree) →
    (rest : List Token) → items ≠ [] →
    (Position.value (.item latest :: outer)).run (itemTokens items ++ .closeArray :: rest) =
      (complete (.array (latest.reverse ++ items)) outer).run rest
  | [], _, h => absurd rfl h
  | [last], rest, _ => by
    rw [itemTokens, run_tokens (.item latest :: outer) last, complete,
      run_cons (.afterItem (last :: latest) outer) .closeArray rfl, List.reverse_cons]
  | item :: other :: others, rest, _ => by
    rw [itemTokens_cons_cons, List.append_assoc, List.cons_append,
      run_tokens (.item latest :: outer) item, complete,
      run_cons (.afterItem (item :: latest) outer) .comma rfl,
      run_itemTokens outer (item :: latest) (other :: others) rest (List.cons_ne_nil _ _)]
    simp
termination_by structural items => items

/-- The tokens of members lead to where the complete object leads. -/
theorem run_membersTokens (outer : List Frame) (latest : List (Quoted × Tree)) :
    (members : List (Quoted × Tree)) → (rest : List Token) → members ≠ [] →
    (Position.key latest outer).run (membersTokens members ++ .closeObject :: rest) =
      (complete (.object (latest.reverse ++ members)) outer).run rest
  | [], _, h => absurd rfl h
  | [last], rest, _ => by
    rw [membersTokens, run_memberTokens outer latest last,
      run_cons (.afterMember (last :: latest) outer) .closeObject rfl, List.reverse_cons]
  | member :: other :: others, rest, _ => by
    rw [membersTokens_cons_cons, List.append_assoc, List.cons_append,
      run_memberTokens outer latest member,
      run_cons (.afterMember (member :: latest) outer) .comma rfl,
      run_membersTokens outer (member :: latest) (other :: others) rest (List.cons_ne_nil _ _)]
    simp
termination_by structural members => members

/-- The tokens of a member lead behind it. -/
theorem run_memberTokens (outer : List Frame) (latest : List (Quoted × Tree)) :
    (member : Quoted × Tree) → (rest : List Token) →
    (Position.key latest outer).run (memberTokens member ++ rest) =
      (Position.afterMember (member :: latest) outer).run rest
  | (name, tree), rest => by
    rw [memberTokens, List.cons_append, List.cons_append,
      run_cons (.key latest outer) (.string name) rfl,
      run_cons (.colon name latest outer) .colon rfl,
      run_tokens (.member name latest :: outer) tree]
    rfl
termination_by structural member => member

end

/-- Tokens are read as a tree exactly if they are its tokens. -/
theorem ofTokens?_eq_some_iff {tokens : List Token} {tree : Tree} :
    Tree.ofTokens? tokens = some tree ↔ tokens = tree.tokens := by
  constructor
  · exact eq_tokens_of_ofTokens?
  · rintro rfl
    have hrun := run_tokens [] tree []
    rw [List.append_nil] at hrun
    rw [Tree.ofTokens?, hrun]
    rfl

end CallbackGateway.Json
