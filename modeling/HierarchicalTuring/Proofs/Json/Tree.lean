import HierarchicalTuring.Proofs.Json.Token

/-! # Trees are read as they are written

* `Reader.run_tokens`: where a value is expected, the tokens of a tree complete that tree. The
  stack below is not touched.
* `Tree.apart_tokens`: the tokens of a tree can be told apart without blanks.
* `Tree.read?_compactText` and `Tree.read?_prettyText`: a tree is read back from both layouts.
-/

set_option autoImplicit false

namespace HierarchicalTuring.Json

namespace Tree

/-- Parts with a comma in front of each. -/
def commaEach (parts : List (List Token)) : List Token :=
  parts.flatMap (.comma :: ·)

theorem separated_cons (part : List Token) (rest : List (List Token)) :
    separated (part :: rest) = part ++ commaEach rest := by
  induction rest generalizing part with
  | nil => simp [separated, commaEach]
  | cons next rest ih =>
    show part ++ .comma :: separated (next :: rest) = _
    rw [ih]
    rfl

namespace Reader

theorem run_cons (r : Reader) (token : Token) (rest : List Token) :
    r.run (token :: rest) = (r.next token).bind (·.run rest) := by
  rw [run]
  cases r.next token <;> rfl

/-- A value does not begin with the end of an array. -/
theorem run_itemOrEnd (enclosing : List Enclosing) (item : Tree) (rest : List Token) :
    run ⟨enclosing, .itemOrEnd⟩ (item.tokens ++ rest) =
      run ⟨enclosing, .value⟩ (item.tokens ++ rest) := by
  cases item <;> rfl

mutual

/-- The tokens of a tree complete that tree. -/
theorem run_tokens (enclosing : List Enclosing) (tree : Tree) (rest : List Token) :
    run ⟨enclosing, .value⟩ (tree.tokens ++ rest) =
      (complete enclosing tree).bind (·.run rest) := by
  match tree with
  | .null => exact run_cons _ _ _
  | .bool value => exact run_cons _ _ _
  | .number numeral => exact run_cons _ _ _
  | .string text => exact run_cons _ _ _
  | .array [] => exact (run_cons _ .openArray _).trans (run_cons _ .closeArray rest)
  | .array (item :: items) =>
    -- The first item stands where the array might end, the others stand behind commas.
    have hitems := run_items enclosing [item] items rest
    have hitem := run_tokens (.array [] :: enclosing) item
      (commaEach (itemTokens items) ++ .closeArray :: rest)
    rw [tokens, itemTokens, separated_cons]
    simp only [List.cons_append, List.append_assoc, List.nil_append]
    rw [run_cons]
    show run ⟨.array [] :: enclosing, .itemOrEnd⟩ _ = _
    rw [run_itemOrEnd, hitem]
    exact hitems
  | .object [] => exact (run_cons _ .openObject _).trans (run_cons _ .closeObject rest)
  | .object ((key, value) :: members) =>
    have hmembers := run_members enclosing [(key, value)] members rest
    have hvalue := run_tokens (.member [] key :: enclosing) value
      (commaEach (memberTokens members) ++ .closeObject :: rest)
    rw [tokens, memberTokens, separated_cons]
    simp only [List.cons_append, List.append_assoc, List.nil_append]
    rw [run_cons]
    show run ⟨.member [] key :: enclosing, .value⟩ _ = _
    rw [hvalue]
    exact hmembers

theorem run_items (enclosing : List Enclosing) (done items : List Tree) (rest : List Token) :
    run ⟨.array done :: enclosing, .commaOrEnd⟩
        (commaEach (itemTokens items) ++ .closeArray :: rest) =
      (complete enclosing (.array (done.reverse ++ items))).bind (·.run rest) := by
  match items with
  | [] =>
    rw [List.append_nil]
    exact run_cons _ _ _
  | item :: items =>
    have hitem := run_tokens (.array done :: enclosing) item
      (commaEach (itemTokens items) ++ .closeArray :: rest)
    have hitems := run_items enclosing (item :: done) items rest
    rw [itemTokens, commaEach, List.flatMap_cons, List.append_assoc, List.cons_append, run_cons]
    show run ⟨.array done :: enclosing, .value⟩ _ = _
    refine hitem.trans (hitems.trans ?_)
    rw [List.reverse_cons, List.append_assoc, List.singleton_append]

theorem run_members (enclosing : List Enclosing) (done members : List (Option String × Tree))
    (rest : List Token) :
    run ⟨.object done :: enclosing, .commaOrEnd⟩
        (commaEach (memberTokens members) ++ .closeObject :: rest) =
      (complete enclosing (.object (done.reverse ++ members))).bind (·.run rest) := by
  match members with
  | [] =>
    rw [List.append_nil]
    exact run_cons _ _ _
  | (key, value) :: members =>
    have hvalue := run_tokens (.member done key :: enclosing) value
      (commaEach (memberTokens members) ++ .closeObject :: rest)
    have hmembers := run_members enclosing ((key, value) :: done) members rest
    rw [memberTokens, commaEach, List.flatMap_cons, List.append_assoc, List.cons_append, run_cons]
    show run ⟨.member done key :: enclosing, .value⟩ _ = _
    refine hvalue.trans (hmembers.trans ?_)
    rw [List.reverse_cons, List.append_assoc, List.singleton_append]

end

end Reader

theorem ofTokens?_tokens (tree : Tree) : ofTokens? tree.tokens = some tree := by
  have hrun := Reader.run_tokens [] tree []
  rw [List.append_nil] at hrun
  exact hrun

/-! ## Neighbours -/

/-- The tokens can be told apart from each other and from a numeral in front of them. -/
def Follows (tokens : List Token) : Prop :=
  tokens.IsChain Token.Apart ∧ ∀ token ∈ tokens.head?, token.isNumber = false

theorem Follows.nil : Follows [] :=
  ⟨.nil, nofun⟩

theorem Follows.cons {token : Token} {rest : List Token} (htoken : token.isNumber = false)
    (h : rest.IsChain Token.Apart) : Follows (token :: rest) := by
  refine ⟨List.isChain_cons.mpr ⟨fun _ _ => .inl htoken, h⟩, fun first hfirst => ?_⟩
  cases hfirst
  exact htoken

mutual

theorem apart_tokens_append (tree : Tree) {rest : List Token} (h : Follows rest) :
    (tree.tokens ++ rest).IsChain Token.Apart := by
  match tree with
  | .null => exact (Follows.cons rfl h.1).1
  | .bool _ => exact (Follows.cons rfl h.1).1
  | .string _ => exact (Follows.cons rfl h.1).1
  | .number _ => exact List.isChain_cons.mpr ⟨fun token htoken => .inr (h.2 token htoken), h.1⟩
  | .array [] => exact (Follows.cons rfl (Follows.cons rfl h.1).1).1
  | .array (item :: items) =>
    have hclose : Follows (.closeArray :: rest) := .cons rfl h.1
    have hitem := apart_tokens_append item (follows_items items hclose)
    rw [tokens, itemTokens, separated_cons]
    simp only [List.cons_append, List.append_assoc, List.nil_append]
    exact (Follows.cons rfl hitem).1
  | .object [] => exact (Follows.cons rfl (Follows.cons rfl h.1).1).1
  | .object ((key, value) :: members) =>
    have hclose : Follows (.closeObject :: rest) := .cons rfl h.1
    have hvalue := apart_tokens_append value (follows_members members hclose)
    rw [tokens, memberTokens, separated_cons]
    simp only [List.cons_append, List.append_assoc, List.nil_append]
    exact (Follows.cons rfl (Follows.cons rfl (Follows.cons rfl hvalue).1).1).1

theorem follows_items (items : List Tree) {rest : List Token} (h : Follows rest) :
    Follows (commaEach (itemTokens items) ++ rest) := by
  match items with
  | [] => exact h
  | item :: items =>
    have hitem := apart_tokens_append item (follows_items items h)
    rw [itemTokens, commaEach, List.flatMap_cons, List.append_assoc]
    exact Follows.cons rfl hitem

theorem follows_members (members : List (Option String × Tree)) {rest : List Token}
    (h : Follows rest) : Follows (commaEach (memberTokens members) ++ rest) := by
  match members with
  | [] => exact h
  | (key, value) :: members =>
    have hvalue := apart_tokens_append value (follows_members members h)
    rw [memberTokens, commaEach, List.flatMap_cons, List.append_assoc]
    exact Follows.cons rfl (Follows.cons rfl (Follows.cons rfl hvalue).1).1

end

theorem apart_tokens (tree : Tree) : tree.tokens.IsChain Token.Apart := by
  have h := apart_tokens_append tree Follows.nil
  rwa [List.append_nil] at h

/-! ## Texts -/

theorem read?_of_laidOut {tree : Tree} {cs : List Char} (h : LaidOut tree.tokens cs) :
    read? (String.ofList cs) = some tree := by
  unfold read?
  rw [String.toList_ofList, h.scan? tree.apart_tokens]
  exact ofTokens?_tokens tree

theorem read?_compactText (tree : Tree) : read? tree.compactText = some tree :=
  read?_of_laidOut (laidOut_compact tree.tokens)

theorem read?_prettyText (tree : Tree) : read? tree.prettyText = some tree :=
  read?_of_laidOut (laidOut_prettyFrom tree.tokens 0)

end Tree

end HierarchicalTuring.Json
