import CallbackGateway.Proofs.Json.Members
import CallbackGateway.Proofs.Json.Written

/-!
# Values that are read back

A value is read back from what is written for it if its integers have 64 bits, the members of its
objects are sorted, and it does not nest too deep. Floating-point numbers are left out: they are
read with rounding.
-/

namespace CallbackGateway.Json

/-- Whether a value is read back as it is written, if it may nest to a depth. -/
inductive Stable : Nat → Value → Prop
  | null {depth : Nat} : Stable depth .null
  | boolean {depth : Nat} (value : Bool) : Stable depth (.boolean value)
  | integer {depth : Nat} {n : Int} (h : FitsInteger n) : Stable depth (.number (.integer n))
  | string {depth : Nat} (text : String) : Stable depth (.string text)
  | array {depth : Nat} {items : List Value} (h : ∀ item ∈ items, Stable depth item) :
      Stable (depth + 1) (.array items)
  | object {depth : Nat} {members : List (String × Value)} (hsorted : Sorted members)
      (h : ∀ key value, (key, value) ∈ members → Stable depth value) :
      Stable (depth + 1) (.object members)

/-- An object of one stable member is stable. -/
theorem Stable.sole {depth : Nat} {key : String} {value : Value} (h : Stable depth value) :
    Stable (depth + 1) (.object [(key, value)]) := by
  refine .object (List.pairwise_singleton _ _) fun other held hmem => ?_
  obtain ⟨rfl, rfl⟩ := Prod.mk.inj (List.mem_singleton.mp hmem)
  exact h

/-- An object is told from the names of its members, in order, and from their values. -/
theorem Stable.of_names {depth : Nat} {members : List (String × Value)} (names : List String)
    (hnames : members.map Prod.fst = names) (hsorted : names.Pairwise (· < ·))
    (h : ∀ member ∈ members, Stable depth member.2) : Stable (depth + 1) (.object members) := by
  subst hnames
  exact .object (List.pairwise_map.mp hsorted) fun key value hmem => h (key, value) hmem

/-- Whether a tree is written for a value and has this value. -/
def IsTreeOf (depth : Nat) (value : Value) (tree : Tree) : Prop :=
  HasTree value tree ∧ tree.value? depth = some value

/-- Items have trees together if each one has. -/
theorem exists_itemTrees {depth : Nat} {items : List Value}
    (h : ∀ item ∈ items, ∃ tree, IsTreeOf depth item tree) :
    ∃ trees, ItemsHaveTrees items trees ∧ itemValues? depth trees = some items := by
  induction items with
  | nil => exact ⟨[], .nil, rfl⟩
  | cons item items ih =>
    obtain ⟨hitem, hrest⟩ := List.forall_mem_cons.mp h
    obtain ⟨tree, htree, hvalue⟩ := hitem
    obtain ⟨trees, htrees, hvalues⟩ := ih hrest
    refine ⟨tree :: trees, .cons htree htrees, ?_⟩
    rw [itemValues?, hvalue, hvalues]
    rfl

/-- Members have trees together if each one has. -/
theorem exists_memberTrees {depth : Nat} {members : List (String × Value)}
    (h : ∀ key value, (key, value) ∈ members → ∃ tree, IsTreeOf depth value tree) :
    ∃ trees, MembersHaveTrees members trees ∧ memberValues? depth trees = some members := by
  induction members with
  | nil => exact ⟨[], .nil, rfl⟩
  | cons member members ih =>
    obtain ⟨key, value⟩ := member
    obtain ⟨tree, htree, hvalue⟩ := h key value List.mem_cons_self
    obtain ⟨trees, htrees, hvalues⟩ := ih fun other held hmem =>
      h other held (List.mem_cons_of_mem _ hmem)
    refine ⟨_, .cons htree htrees, ?_⟩
    rw [memberValues?, memberValue?, quotedText?_textParts, hvalue, hvalues, String.ofList_toList]
    rfl

/-- A stable value is the value of the tree that is written for it. -/
theorem Stable.exists_tree {depth : Nat} {value : Value} (h : Stable depth value) :
    ∃ tree, IsTreeOf depth value tree := by
  induction h with
  | null => exact ⟨.null, .null, rfl⟩
  | boolean value => exact ⟨_, .boolean value, rfl⟩
  | @integer depth n hfits =>
    refine ⟨_, .integer n, ?_⟩
    rw [Tree.value?, value?_integerNumeral hfits]
    rfl
  | string text =>
    refine ⟨_, .string text, ?_⟩
    rw [Tree.value?, quotedText?_textParts, String.ofList_toList]
    rfl
  | array _ ih =>
    obtain ⟨trees, htrees, hvalues⟩ := exists_itemTrees ih
    refine ⟨_, .array htrees, ?_⟩
    rw [Tree.value?, hvalues]
    rfl
  | object hsorted _ ih =>
    obtain ⟨trees, htrees, hvalues⟩ := exists_memberTrees ih
    refine ⟨_, .object htrees, ?_⟩
    rw [Tree.value?, hvalues, Option.map_some, hsorted.ofMembers_eq]

/-- A stable value is read back from its document. -/
theorem Stable.read?_toBytes {value : Value} (h : Stable deepest value) :
    Value.read? value.toBytes = some value := by
  obtain ⟨tree, htree, hvalue⟩ := h.exists_tree
  rw [Value.read?, Json.read?_toBytes htree, Option.bind_some, hvalue]

end CallbackGateway.Json
