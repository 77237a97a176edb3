import SqliteMultimodal.Graph.Cypher.Printed

namespace SqliteMultimodal.Graph.Cypher.Written

section Patterns

structure Value where
  tokens : List CypherToken
  toAst : CypherAst
  reads : ∀ msg t k, Lexes t tokens k → nextType k ∈ [.comma, .rbrace] →
    Reads parseExpression msg t toAst k

def Value.ofExpr (e : Expr) : Value where
  tokens := e.tokens
  toAst := e.toAst
  reads msg _ k ht hk := by
    apply (e.readsEverywhere msg).and.reads ht
    revert hk
    cases nextType k <;> decide

structure Element where
  zVariable : Option Text
  zLabel : Option Text
  properties : Option (List (Text × Value))

inductive Arrow
  | right | left | none
  deriving DecidableEq

structure Hop where
  arrow : Arrow
  rel : Element
  node : Element

structure Pattern where
  start : Element
  hops : List Hop

end Patterns

section Tokens

def nameToken (zName : Text) : CypherToken := ⟨.identifier, zName⟩

def variableTokens : Option Text → List CypherToken
  | none => []
  | some zVariable => [nameToken zVariable]

def labelTokens : Option Text → List CypherToken
  | none => []
  | some zLabel => [⟨.colon, [':']⟩, nameToken zLabel]

def pairTokens : List (Text × Value) → List CypherToken
  | [] => []
  | [pair] => nameToken pair.1 :: ⟨.colon, [':']⟩ :: pair.2.tokens
  | pair :: pairs =>
    nameToken pair.1 :: ⟨.colon, [':']⟩ :: (pair.2.tokens ++ ⟨.comma, [',']⟩ :: pairTokens pairs)

def mapTokens : Option (List (Text × Value)) → List CypherToken
  | none => []
  | some pairs => ⟨.lbrace, ['\x7b']⟩ :: pairTokens pairs ++ [⟨.rbrace, ['\x7d']⟩]

def Element.tokens (element : Element) (rest : List CypherToken) : List CypherToken :=
  variableTokens element.zVariable ++
    (labelTokens element.zLabel ++ (mapTokens element.properties ++ rest))

def nodeTokens (node : Element) : List CypherToken :=
  ⟨.lparen, ['(']⟩ :: node.tokens [⟨.rparen, [')']⟩]

def Arrow.opening : Arrow → CypherToken
  | left => ⟨.arrowLeft, "<-".toList⟩
  | _ => ⟨.minus, ['-']⟩

def Arrow.closing : Arrow → CypherToken
  | right => ⟨.arrowRight, "->".toList⟩
  | _ => ⟨.minus, ['-']⟩

def Hop.tokens (hop : Hop) : List CypherToken :=
  hop.arrow.opening :: ⟨.lbracket, ['[']⟩ ::
    (hop.rel.tokens [⟨.rbracket, [']']⟩] ++ hop.arrow.closing :: nodeTokens hop.node)

theorem Hop.tokens_eq (hop : Hop) : hop.tokens =
    (hop.arrow.opening :: ⟨.lbracket, ['[']⟩ :: hop.rel.tokens [⟨.rbracket, [']']⟩]) ++
      hop.arrow.closing :: nodeTokens hop.node := rfl

def Pattern.tokens (pattern : Pattern) : List CypherToken :=
  nodeTokens pattern.start ++ pattern.hops.flatMap Hop.tokens

end Tokens

section Trees

def pairAst (pair : Text × Value) : CypherAst := .withValue .propertyPair pair.1 [pair.2.toAst]

def Element.children (element : Element) : List CypherAst :=
  (element.zVariable.map .createIdentifier).toList ++
    ((element.zLabel.map .createNodeLabel).toList ++
      (element.properties.map fun pairs => CypherAst.create .map (pairs.map pairAst)).toList)

def nodeAst (node : Element) : CypherAst := .create .nodePattern node.children

def Arrow.iFlags : Arrow → Int
  | right => 1
  | left => -1
  | none => 0

def relAst (hop : Hop) : CypherAst :=
  { CypherAst.create .relPattern hop.rel.children with iFlags := hop.arrow.iFlags }

def Hop.asts (hop : Hop) : List CypherAst := [relAst hop, nodeAst hop.node]

def Pattern.toAst (pattern : Pattern) : CypherAst :=
  .create .pattern (nodeAst pattern.start :: pattern.hops.flatMap Hop.asts)

def Pattern.query (pattern : Pattern) : CypherAst :=
  .create .query [.create .singleQuery [.create .match [pattern.toAst]]]

end Trees

section Elements

open ParserState Fuel

variable {t k k' : Text} {rest : List CypherToken} (msg : Option Text) (p : CypherAst)

def Begins (types : List CypherTokenType) (tokens : List CypherToken) : Prop :=
  ∃ token tokens', tokens = token :: tokens' ∧ token.type ∈ types

theorem Begins.nextType {types : List CypherTokenType} (h : Begins types rest)
    (ht : Lexes t rest k) : nextType t ∈ types := by
  obtain ⟨token, rest', rfl, htype⟩ := h
  obtain ⟨k₁, hnext, _⟩ := ht.of_cons
  rwa [nextType_eq hnext]

theorem Begins.mono {types types' : List CypherTokenType} (h : Begins types rest)
    (hsub : types ⊆ types') : Begins types' rest := by
  obtain ⟨token, rest', rfl, htype⟩ := h
  exact ⟨token, rest', rfl, hsub htype⟩

theorem addChildren_nil : addChildren p [] = p := by
  rw [addChildren, List.append_nil]
  cases p
  rfl

theorem addChildren_append (as bs : List CypherAst) :
    addChildren (addChildren p as) bs = addChildren p (as ++ bs) := by
  rw [addChildren, addChildren, addChildren, List.append_assoc]

theorem begins_map (properties : Option (List (Text × Value)))
    (h : Begins [.rparen, .rbracket] rest) :
    Begins [.lbrace, .rparen, .rbracket] (mapTokens properties ++ rest) := by
  cases properties with
  | none => exact h.mono (by decide)
  | some pairs => exact ⟨_, _, rfl, List.mem_cons_self⟩

theorem begins_label (zLabel : Option Text) (h : Begins [.lbrace, .rparen, .rbracket] rest) :
    Begins [.colon, .lbrace, .rparen, .rbracket] (labelTokens zLabel ++ rest) := by
  cases zLabel with
  | none => exact h.mono (by decide)
  | some zLabel => exact ⟨_, _, rfl, List.mem_cons_self⟩

theorem parseVariable_eq (zVariable : Option Text)
    (hrest : Begins [.colon, .lbrace, .rparen, .rbracket] rest)
    (ht : Lexes t (variableTokens zVariable ++ rest) k) :
    ∃ t', Lexes t' rest k ∧ parseVariable p ⟨t, msg⟩ =
      (addChildren p (zVariable.map .createIdentifier).toList, ⟨t', msg⟩) := by
  cases zVariable with
  | none =>
    refine ⟨t, ht, ?_⟩
    have hne : nextType t ≠ .identifier := fun heq => by
      have := hrest.nextType ht
      rw [heq] at this
      exact absurd this (by decide)
    exact (if_neg hne).trans (congrArg (·, _) (addChildren_nil p).symm)
  | some zVariable =>
    obtain ⟨t', hnext, ht'⟩ := Lexes.of_cons ht
    refine ⟨t', ht', ?_⟩
    rw [parseVariable, peek_type, nextType_eq hnext,
      if_pos (show (nameToken zVariable).type = .identifier from rfl), next_eq hnext,
      parserPeekToken, hnext]
    rfl

theorem parseNodeLabels_eq (zLabel : Option Text)
    (hrest : Begins [.lbrace, .rparen, .rbracket] rest)
    (ht : Lexes t (labelTokens zLabel ++ rest) k) :
    ∃ t', Lexes t' rest k ∧ parseNodeLabels ⟨t, msg⟩ =
      .ok (zLabel.map .createNodeLabel, ⟨t', msg⟩) := by
  cases zLabel with
  | none =>
    have hne : nextType t ≠ .colon := fun heq => by
      have := hrest.nextType ht
      rw [heq] at this
      exact absurd this (by decide)
    exact ⟨t, ht, if_neg hne⟩
  | some zLabel =>
    obtain ⟨k₁, hcolon, ht⟩ := Lexes.of_cons ht
    obtain ⟨t', hname, ht'⟩ := Lexes.of_cons ht
    refine ⟨t', ht', ?_⟩
    rw [parseNodeLabels, peek_type, if_pos (nextType_eq hcolon), next_eq hcolon]
    exact expect_of_next hname _ _

theorem parseRelType_eq (zLabel : Option Text)
    (hrest : Begins [.lbrace, .rparen, .rbracket] rest)
    (ht : Lexes t (labelTokens zLabel ++ rest) k) :
    ∃ t', Lexes t' rest k ∧ parseRelType p ⟨t, msg⟩ =
      found (addChildren p (zLabel.map .createNodeLabel).toList) ⟨t', msg⟩ := by
  cases zLabel with
  | none =>
    have hne : nextType t ≠ .colon := fun heq => by
      have := hrest.nextType ht
      rw [heq] at this
      exact absurd this (by decide)
    exact ⟨t, ht, (if_neg hne).trans (congrArg (found · _) (addChildren_nil p).symm)⟩
  | some zLabel =>
    obtain ⟨k₁, hcolon, ht⟩ := Lexes.of_cons ht
    obtain ⟨t', hname, ht'⟩ := Lexes.of_cons ht
    refine ⟨t', ht', ?_⟩
    rw [parseRelType, peek_type, if_pos (nextType_eq hcolon), next_eq hcolon]
    exact expect_of_next hname _ _

theorem reads_pair {pair : Text × Value} {a : CypherAst}
    (ht : Lexes t (nameToken pair.1 :: ⟨.colon, [':']⟩ :: pair.2.tokens) k)
    (hk : nextType k ∈ [.comma, .rbrace])
    (hrest : Reads (fun n s => if s.parserPeekToken.type = .comma then
      parsePropertyPairs n (p.addChild (pairAst pair)) s.next
      else found (p.addChild (pairAst pair)) s) msg k a k') :
    Reads (fun n => parsePropertyPairs n p) msg t a k' := by
  obtain ⟨k₁, hname, ht⟩ := Lexes.of_cons ht
  obtain ⟨k₂, hcolon, ht⟩ := Lexes.of_cons ht
  refine .of_step (fun n => (expect_of_next hname _ _).trans (expect_of_next hcolon _ _)) ?_
  exact (pair.2.reads msg k₂ k ht hk).andThen
    (parserSetError "Expected property value expression")
    (fun n pValue s => if s.parserPeekToken.type = .comma then
      parsePropertyPairs n (p.addChild (.withValue .propertyPair pair.1 [pValue])) s.next
      else found (p.addChild (.withValue .propertyPair pair.1 [pValue])) s) hrest

theorem reads_pairs {pairs : List (Text × Value)} (hne : pairs ≠ [])
    (ht : Lexes t (pairTokens pairs) k) (hk : nextType k = .rbrace) :
    Reads (fun n => parsePropertyPairs n p) msg t (addChildren p (pairs.map pairAst)) k := by
  induction pairs generalizing t p with
  | nil => exact absurd rfl hne
  | cons pair pairs ih =>
    cases pairs with
    | nil =>
      refine reads_pair msg p ht (by rw [hk]; decide) (.of_eq fun n => if_neg ?_)
      rw [peek_type, hk]
      decide
    | cons pair' pairs =>
      have htokens : pairTokens (pair :: pair' :: pairs) =
          (nameToken pair.1 :: ⟨.colon, [':']⟩ :: pair.2.tokens) ++
            ⟨.comma, [',']⟩ :: pairTokens (pair' :: pairs) := rfl
      rw [htokens] at ht
      obtain ⟨k₁, ht, hrest⟩ := ht.of_append
      obtain ⟨k₂, hcomma, hrest⟩ := hrest.of_cons
      have ih := ih (p.addChild (pairAst pair)) (List.cons_ne_nil pair' pairs) hrest
      rw [addChildren_cons] at ih
      refine reads_pair msg p ht (by rw [nextType_eq hcomma]; decide) (.congr (fun n => ?_) ih)
      refine (if_pos (nextType_eq hcomma)).trans ?_
      rw [next_eq hcomma]

theorem reads_map (pairs : List (Text × Value)) (ht : Lexes t (mapTokens (some pairs)) k) :
    Reads parsePropertyMap msg t (.create .map (pairs.map pairAst)) k := by
  obtain ⟨k₁, k₂, hopen, hpairs, hclose⟩ := lexes_brackets ht
  refine .congr (fun n => (expect_of_next hopen _ _).trans rfl) ?_
  by_cases hne : pairs = []
  · subst hne
    obtain rfl := hpairs.of_nil
    refine .of_eq fun n => (if_pos (nextType_eq hclose)).trans ?_
    rw [next_eq hclose]
    rfl
  · have hfirst : nextType k₁ ≠ .rbrace := by
      obtain ⟨pair, pairs, rfl⟩ := List.exists_cons_of_ne_nil hne
      have hbegins : Begins [.identifier] (pairTokens (pair :: pairs)) := by
        cases pairs with
        | nil => exact ⟨_, _, rfl, List.mem_cons_self⟩
        | cons => exact ⟨_, _, rfl, List.mem_cons_self⟩
      intro heq
      have := hbegins.nextType hpairs
      rw [heq] at this
      exact absurd this (by decide)
    refine .congr (fun n => if_neg hfirst) ?_
    exact (reads_pairs msg _ hne hpairs (nextType_eq hclose)).andThen id (fun _ pMap s =>
      expect .rbrace (parserSetError _) s fun _ s => found pMap s)
      (.of_eq fun _ => expect_of_next hclose _ _)

theorem found_andThen {α β : Type} (a : α) (s : ParserState) (onNull : ParserState → ParserState)
    (f : α → ParserState → Parsed β) : (found a s).andThen onNull f = f a s := rfl

theorem elim_addChild (pChild : Option CypherAst) :
    pChild.elim p p.addChild = addChildren p pChild.toList := by
  cases pChild with
  | none => exact (addChildren_nil p).symm
  | some pChild => rfl

theorem addChildren_children (element : Element) :
    addChildren (addChildren (addChildren p (element.zVariable.map .createIdentifier).toList)
      (element.zLabel.map .createNodeLabel).toList)
      (element.properties.map fun pairs => CypherAst.create .map (pairs.map pairAst)).toList =
    addChildren p element.children := by
  rw [addChildren_append, addChildren_append]
  rfl

theorem nodeProperties_settle (properties : Option (List (Text × Value)))
    (hrest : Begins [.rparen, .rbracket] rest)
    (ht : Lexes t (mapTokens properties ++ rest) k) :
    ∃ t', Lexes t' rest k ∧ Settles (fun n => parseNodeProperties n p ⟨t, msg⟩)
      (.ok (addChildren p (properties.map fun pairs =>
        CypherAst.create .map (pairs.map pairAst)).toList, ⟨t', msg⟩)) := by
  cases properties with
  | none =>
    have hne : nextType t ≠ .lbrace := fun heq => by
      have := hrest.nextType ht
      rw [heq] at this
      exact absurd this (by decide)
    refine ⟨t, ht, .of_eq fun n => (if_neg hne).trans ?_⟩
    rw [Option.map_none, Option.toList_none, addChildren_nil]
  | some pairs =>
    obtain ⟨t', ht, hrest⟩ := ht.of_append
    have hopen : nextType t = .lbrace := nextType_eq (Lexes.of_cons ht).choose_spec.1
    obtain ⟨n, hn⟩ := reads_map msg pairs ht
    refine ⟨t', hrest, n, fun m hm => (if_pos hopen).trans ?_⟩
    have hmap : parsePropertyMap m ⟨t, msg⟩ = found _ _ := hn m hm
    rw [hmap]
    rfl

theorem relProperties_read (properties : Option (List (Text × Value)))
    (hrest : Begins [.rparen, .rbracket] rest)
    (ht : Lexes t (mapTokens properties ++ rest) k) :
    ∃ t', Lexes t' rest k ∧ Reads (fun n => parseRelProperties n p) msg t
      (addChildren p (properties.map fun pairs =>
        CypherAst.create .map (pairs.map pairAst)).toList) t' := by
  cases properties with
  | none =>
    have hne : nextType t ≠ .lbrace := fun heq => by
      have := hrest.nextType ht
      rw [heq] at this
      exact absurd this (by decide)
    refine ⟨t, ht, .of_eq fun n => (if_neg hne).trans ?_⟩
    rw [Option.map_none, Option.toList_none, addChildren_nil]
  | some pairs =>
    obtain ⟨t', ht, hrest⟩ := ht.of_append
    have hopen : nextType t = .lbrace := nextType_eq (Lexes.of_cons ht).choose_spec.1
    obtain ⟨n, hn⟩ := reads_map msg pairs ht
    refine ⟨t', hrest, n, fun m hm => (if_pos hopen).trans ?_⟩
    have hmap : parsePropertyMap m ⟨t, msg⟩ = found _ _ := hn m hm
    rw [hmap]
    rfl

theorem reads_node (node : Element) (ht : Lexes t (nodeTokens node) k) :
    Reads parseNodePattern none t (nodeAst node) k := by
  obtain ⟨k₁, hopen, ht⟩ := Lexes.of_cons ht
  have hclose : Begins [.rparen, .rbracket] [⟨.rparen, [')']⟩] := ⟨_, _, rfl, by decide⟩
  obtain ⟨k₂, ht, hvariable⟩ := parseVariable_eq none (.create .nodePattern []) node.zVariable
    (begins_label _ (begins_map _ hclose)) ht
  obtain ⟨k₃, ht, hlabel⟩ := parseNodeLabels_eq none node.zLabel (begins_map _ hclose) ht
  obtain ⟨k₄, ht, hmap⟩ := nodeProperties_settle none
    (addChildren (addChildren (.create .nodePattern [])
      (node.zVariable.map .createIdentifier).toList) (node.zLabel.map .createNodeLabel).toList)
    node.properties hclose ht
  obtain ⟨k₅, hparen, ht⟩ := Lexes.of_cons ht
  obtain rfl := ht.of_nil
  rw [addChildren_children] at hmap
  obtain ⟨n, hn⟩ := hmap
  refine ⟨n, fun m hm => ?_⟩
  change parseNodePattern m ⟨t, none⟩ = _
  rw [parseNodePattern]
  refine (expect_of_next hopen _ _).trans ?_
  rw [hvariable]
  dsimp only
  rw [hlabel]
  have hcond : ¬((node.zLabel.map CypherAst.createNodeLabel).isNone &&
      (none : Option Text).isSome) = true := by
    rw [Option.isSome_none, Bool.and_false]
    exact Bool.false_ne_true
  have hmap := hn m hm
  dsimp only at hmap ⊢
  rw [if_neg hcond, elim_addChild, hmap]
  exact expect_of_next hparen _ _

theorem reads_direction (arrow : Arrow) (h : arrow ≠ .left)
    (hclose : cypherLexerNextToken t = (arrow.closing, k)) :
    parseDirection (arrow.opening.type = .arrowLeft) ⟨t, msg⟩ = (arrow.iFlags, ⟨k, msg⟩) := by
  rw [parseDirection, peek_type, nextType_eq hclose, next_eq hclose]
  cases arrow with
  | right => rfl
  | left => exact absurd rfl h
  | none => rfl

theorem rel_settles (hop : Hop)
    (ht : Lexes t (⟨.lbracket, ['[']⟩ :: hop.rel.tokens [⟨.rbracket, [']']⟩]) k) :
    Settles (fun n => parseRelPattern n (hop.arrow.opening.type = .arrowLeft) ⟨t, none⟩)
      (found { CypherAst.create .relPattern hop.rel.children with
        iFlags := (parseDirection (hop.arrow.opening.type = .arrowLeft) ⟨k, none⟩).1 }
        (parseDirection (hop.arrow.opening.type = .arrowLeft) ⟨k, none⟩).2) := by
  obtain ⟨k₁, hopen, ht⟩ := Lexes.of_cons ht
  have hclose : Begins [.rparen, .rbracket] [⟨.rbracket, [']']⟩] := ⟨_, _, rfl, by decide⟩
  obtain ⟨k₂, ht, hvariable⟩ := parseVariable_eq none (.create .relPattern []) hop.rel.zVariable
    (begins_label _ (begins_map _ hclose)) ht
  obtain ⟨k₃, ht, hlabel⟩ := parseRelType_eq none (addChildren (.create .relPattern [])
    (hop.rel.zVariable.map .createIdentifier).toList) hop.rel.zLabel (begins_map _ hclose) ht
  obtain ⟨k₄, ht, n, hn⟩ := relProperties_read none
    (addChildren (addChildren (.create .relPattern [])
      (hop.rel.zVariable.map .createIdentifier).toList) (hop.rel.zLabel.map .createNodeLabel).toList)
    hop.rel.properties hclose ht
  obtain ⟨k₅, hbracket, ht⟩ := Lexes.of_cons ht
  obtain rfl := ht.of_nil
  refine ⟨n, fun m hm => ?_⟩
  have hmap := hn m hm
  dsimp only at hmap ⊢
  rw [parseRelPattern]
  refine (expect_of_next hopen _ _).trans ?_
  rw [hvariable]
  dsimp only
  rw [hlabel]
  rw [found_andThen, hmap, found_andThen, addChildren_children]
  refine (expect_of_next hbracket _ _).trans ?_
  rfl

end Elements

section Chains

open ParserState Fuel

variable {t k : Text}

theorem relationships_step {hop : Hop} {p : CypherAst} {x : Parsed CypherAst}
    (ht : Lexes t (hop.arrow.opening :: ⟨.lbracket, ['[']⟩ :: hop.rel.tokens [⟨.rbracket, [']']⟩]) k)
    (hrest : Settles (fun n =>
      (parseNodePattern n (parseDirection (hop.arrow.opening.type = .arrowLeft) ⟨k, none⟩).2).andThen
        (parserSetError "Expected node pattern after relationship") fun pTargetNode s =>
          parseRelationships n ((p.addChild { CypherAst.create .relPattern hop.rel.children with
            iFlags := (parseDirection (hop.arrow.opening.type = .arrowLeft) ⟨k, none⟩).1 }).addChild
              pTargetNode) s) x) :
    Settles (fun n => parseRelationships n p ⟨t, none⟩) x := by
  obtain ⟨k₁, hopening, ht⟩ := Lexes.of_cons ht
  have hmem : hop.arrow.opening.type ∈ [.dash, .minus, .arrowLeft] := by
    cases hop.arrow <;> decide
  refine .of_step (fun n => ?_) (Settles.bind (q := fun x n => Parsed.andThen x id
    fun pRelPattern s => (parseNodePattern n s).andThen
      (parserSetError "Expected node pattern after relationship") fun pTargetNode s =>
        parseRelationships n ((p.addChild pRelPattern).addChild pTargetNode) s)
    (rel_settles hop ht) hrest)
  rw [parseRelationships, peek_type, nextType_eq hopening, if_pos hmem, next_eq hopening]

theorem reads_relationships {hops : List Hop} (h : ∀ hop ∈ hops, hop.arrow ≠ .left) (p : CypherAst)
    (ht : Lexes t (hops.flatMap Hop.tokens) k) (hk : nextType k = .eof) :
    Reads (fun n => parseRelationships n p) none t (addChildren p (hops.flatMap Hop.asts)) k := by
  induction hops generalizing t p with
  | nil =>
    obtain rfl := ht.of_nil
    have hne : ¬nextType t ∈ [.dash, .minus, .arrowLeft] := by
      rw [hk]
      decide
    refine .of_step (fun n => if_neg hne) (.of_eq fun n => ?_)
    rw [List.flatMap_nil, addChildren_nil]
  | cons hop hops ih =>
    obtain ⟨hhop, hhops⟩ := List.forall_mem_cons.mp h
    rw [List.flatMap_cons, Hop.tokens_eq] at ht
    obtain ⟨k₁, ht, hrest⟩ := ht.of_append
    obtain ⟨k₂, hrel, hclose⟩ := ht.of_append
    obtain ⟨k₃, hclose, hnode⟩ := hclose.of_cons
    refine relationships_step hrel ?_
    rw [reads_direction none hop.arrow hhop hclose]
    have ih := ih hhops ((p.addChild (relAst hop)).addChild (nodeAst hop.node)) hrest
    rw [addChildren_cons, addChildren_cons] at ih
    exact (reads_node hop.node hnode).andThen _ (fun n pTargetNode s => parseRelationships n
      ((p.addChild (relAst hop)).addChild pTargetNode) s) ih

theorem relationships_left {hops : List Hop} (h : ∃ hop ∈ hops, hop.arrow = .left) (p : CypherAst)
    (ht : Lexes t (hops.flatMap Hop.tokens) k) :
    ∃ s, Settles (fun n => parseRelationships n p ⟨t, none⟩) (null s) := by
  induction hops generalizing t p with
  | nil => exact absurd h (by simp)
  | cons hop hops ih =>
    rw [List.flatMap_cons, Hop.tokens_eq] at ht
    obtain ⟨k₁, ht, hrest⟩ := ht.of_append
    obtain ⟨k₂, hrel, hclose⟩ := ht.of_append
    obtain ⟨k₃, hclose, hnode⟩ := hclose.of_cons
    by_cases hleft : hop.arrow = .left
    · have hnull : ∀ n, parseNodePattern n ⟨k₂, none⟩ = null
          (parserSetError "Expected (" (ParserState.mk k₂ none).next) := by
        intro n
        rw [hleft] at hclose
        simp only [parseNodePattern, expect, parserConsumeToken, parserPeekToken, hclose,
          Arrow.closing, reduceCtorEq, if_false]
      refine ⟨parserSetError "Expected node pattern after relationship"
        (parserSetError "Expected (" (ParserState.mk k₂ none).next),
        relationships_step hrel (.of_eq fun n => ?_)⟩
      have hstay : (parseDirection (hop.arrow.opening.type = .arrowLeft) ⟨k₂, none⟩).2 =
          ⟨k₂, none⟩ := by
        rw [parseDirection, peek_type, nextType_eq hclose, hleft]
        rfl
      rw [hstay, hnull]
      rfl
    · have hlater : ∃ hop ∈ hops, hop.arrow = .left := by
        obtain ⟨hop', hmem, h'⟩ := h
        obtain rfl | hmem := List.mem_cons.mp hmem
        · exact absurd h' hleft
        · exact ⟨hop', hmem, h'⟩
      obtain ⟨s, hs⟩ := ih hlater ((p.addChild (relAst hop)).addChild (nodeAst hop.node)) hrest
      refine ⟨s, relationships_step hrel ?_⟩
      rw [reads_direction none hop.arrow hleft hclose]
      exact Settles.bind (q := fun x n => Parsed.andThen x _ fun pTargetNode s =>
        parseRelationships n ((p.addChild (relAst hop)).addChild pTargetNode) s)
        (reads_node hop.node hnode) hs

end Chains

section Queries

open ParserState Fuel

variable {zQuery zMatch t k : Text} {pattern : Pattern}

theorem reads_pattern (h : ∀ hop ∈ pattern.hops, hop.arrow ≠ .left) (ht : Lexes t pattern.tokens k)
    (hk : nextType k = .eof) : Reads parsePattern none t pattern.toAst k := by
  obtain ⟨k₁, hstart, hhops⟩ := ht.of_append
  exact (reads_node pattern.start hstart).andThen id
    (fun n pNodePattern s => parseRelationships n (.create .pattern [pNodePattern]) s)
    (reads_relationships h _ hhops hk)

theorem pattern_left (h : ∃ hop ∈ pattern.hops, hop.arrow = .left) (ht : Lexes t pattern.tokens k) :
    ∃ s, Settles (fun n => parsePattern n ⟨t, none⟩) (null s) := by
  obtain ⟨k₁, hstart, hhops⟩ := ht.of_append
  obtain ⟨s, hs⟩ := relationships_left h (.create .pattern [nodeAst pattern.start]) hhops
  exact ⟨s, Settles.bind (q := fun x n => Parsed.andThen x id fun pNodePattern s =>
    parseRelationships n (.create .pattern [pNodePattern]) s) (reads_node pattern.start hstart) hs⟩

theorem parseFirstClause_match (hmatch : cypherLexerNextToken zQuery = (⟨.match, zMatch⟩, t))
    (n : Nat) : parseFirstClause n ⟨zQuery, none⟩ =
      (parsePattern n ⟨t, none⟩).andThen id fun pPattern s =>
        found (CypherAst.create .match [pPattern]) s := by
  simp only [parseFirstClause, parserPeekToken, hmatch]
  rw [parseMatchClause, parsePatternClause]
  exact expect_of_next hmatch _ _

theorem cypherParse_clause {pClause : CypherAst}
    (h : Settles (fun n => parseFirstClause n ⟨zQuery, none⟩) (found pClause ⟨k, none⟩))
    (hk : nextType k = .eof) : Settles (fun n => cypherParse n zQuery)
      (found (.create .query [.create .singleQuery [pClause]]) (ParserState.mk k none).next) := by
  obtain ⟨n, hn⟩ := h
  refine ⟨n + 1, fun m hm => ?_⟩
  obtain ⟨m, rfl⟩ := Nat.exists_eq_add_of_le' ((Nat.le_add_left 1 n).trans hm)
  have hclause : parseFirstClause (m + 1) ⟨zQuery, none⟩ = found pClause ⟨k, none⟩ :=
    hn (m + 1) ((Nat.le_succ n).trans hm)
  have hwhere : parseOptionalWhere (m + 1) (.create .singleQuery [pClause]) ⟨k, none⟩ =
      .ok (.create .singleQuery [pClause], ⟨k, none⟩) := by
    rw [parseOptionalWhere, peek_type, hk]
    rfl
  have hreturn : parseOptionalReturn (m + 1) (.create .singleQuery [pClause]) ⟨k, none⟩ =
      found (.create .singleQuery [pClause]) ⟨k, none⟩ := by
    rw [parseOptionalReturn, peek_type, hk]
    rfl
  have hdrain : drainTokens (m + 1) ⟨k, none⟩ = .ok (.eof, (ParserState.mk k none).next) := by
    rw [drainTokens, peek_type, hk]
    rfl
  change cypherParse (m + 1) zQuery = _
  rw [cypherParse, parseQuery, parseSingleQuery, hclause, found_andThen, hwhere]
  dsimp only
  rw [hreturn, found_andThen, hdrain]
  rfl

theorem cypherParse_null {s : ParserState}
    (h : Settles (fun n => parseFirstClause n ⟨zQuery, none⟩) (null s)) :
    Settles (fun n => cypherParse n zQuery) (null s) := by
  obtain ⟨n, hn⟩ := h
  refine ⟨n, fun m hm => ?_⟩
  have hclause : parseFirstClause m ⟨zQuery, none⟩ = null s := hn m hm
  change cypherParse m zQuery = _
  rw [cypherParse, parseQuery, parseSingleQuery, hclause]
  rfl

def Pattern.IsParsed (pattern : Pattern) (zQuery : Text) : Prop :=
  ∃ s, Settles (fun n => cypherParse n zQuery) (found pattern.query s)

theorem not_parsed_of_left (ht : Lexes zQuery (⟨.match, zMatch⟩ :: pattern.tokens) k)
    (h : ∃ hop ∈ pattern.hops, hop.arrow = .left) : ¬pattern.IsParsed zQuery := by
  rintro ⟨s, hs⟩
  obtain ⟨t, hmatch, hpattern⟩ := ht.of_cons
  obtain ⟨s', hnull⟩ := pattern_left h hpattern
  have hclause : Settles (fun n => parseFirstClause n ⟨zQuery, none⟩) (null s') :=
    .congr (parseFirstClause_match hmatch) (Settles.bind (q := fun x _ =>
      Parsed.andThen x id fun pPattern s => found (CypherAst.create .match [pPattern]) s) hnull
      (.of_eq fun _ => rfl))
  cases hs.unique (cypherParse_null hclause)

def named (zVariable : String) : Element := ⟨some zVariable.toList, none, none⟩

def leftPattern : Pattern := ⟨named "a", [⟨.left, named "r", named "b"⟩]⟩

theorem leftPattern_lexes : Lexes "MATCH (a)<-[r]-(b)".toList
    (⟨.match, "MATCH".toList⟩ :: leftPattern.tokens) [] := by
  repeat' apply Lexes.cons rfl
  exact .nil

theorem not_parsed_leftPattern :
    Lexes "MATCH (a)<-[r]-(b)".toList (⟨.match, "MATCH".toList⟩ :: leftPattern.tokens) [] ∧
      ¬leftPattern.IsParsed "MATCH (a)<-[r]-(b)".toList :=
  ⟨leftPattern_lexes, not_parsed_of_left leftPattern_lexes ⟨_, List.mem_cons_self, rfl⟩⟩

/-- The query is parsed as it is written if and only if no relationship points to the left. -/
theorem parsed_iff (zQuery zMatch : Text) (pattern : Pattern)
    (ht : Lexes zQuery (⟨.match, zMatch⟩ :: pattern.tokens) k) (hk : nextType k = .eof) :
    pattern.IsParsed zQuery ↔ ∀ hop ∈ pattern.hops, hop.arrow ≠ .left := by
  constructor
  · intro h hop hmem hleft
    exact not_parsed_of_left ht ⟨hop, hmem, hleft⟩ h
  · intro h
    obtain ⟨t, hmatch, hpattern⟩ := ht.of_cons
    refine ⟨_, cypherParse_clause (.congr (parseFirstClause_match hmatch) ?_) hk⟩
    exact (reads_pattern h hpattern hk).andThen id
      (fun _ pPattern s => found (CypherAst.create .match [pPattern]) s) (.of_eq fun _ => rfl)

def mixedPattern : Pattern where
  start := ⟨some "a".toList, none, some [("age".toList,
    .ofExpr (.literal (.integer ['5'] (List.cons_ne_nil _ _)
      (List.all_eq_true.mp (rfl : ['5'].all Char.isDigit = true)))))]⟩
  hops := [⟨.right, ⟨none, some "KNOWS".toList, none⟩, ⟨none, none, none⟩⟩,
    ⟨.none, ⟨none, none, none⟩, named "c"⟩]

set_option maxRecDepth 2000 in
theorem mixedPattern_lexes : Lexes "MATCH (a \x7bage: 5\x7d)-[:KNOWS]->()-[]-(c)".toList
    (⟨.match, "MATCH".toList⟩ :: mixedPattern.tokens) [] := by
  repeat' apply Lexes.cons rfl
  exact .nil

theorem parsed_iff_mixedPattern :
    mixedPattern.IsParsed "MATCH (a \x7bage: 5\x7d)-[:KNOWS]->()-[]-(c)".toList ↔
      ∀ hop ∈ mixedPattern.hops, hop.arrow ≠ .left :=
  parsed_iff _ "MATCH".toList _ mixedPattern_lexes rfl

end Queries

end SqliteMultimodal.Graph.Cypher.Written
