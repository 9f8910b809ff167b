import PathQuery.Proofs.Expr.Faithful
import PathQuery.Proofs.Expr.Lexing
import PathQuery.Proofs.Parser.Language

namespace PathQuery

open PathQuery.Parser

namespace Parser

variable {ts mid rest : List TokenKind} {e e' left : Expr} {p q : Nat}

theorem Reads.star {us : List TokenKind}
    (h : Reads (.expression p) (.symbol .star :: .symbol .rightBracket :: us) e rest) :
    e = .projection (.objectValues .currentNode) .currentNode ∧
      rest = .symbol .rightBracket :: us := by
  cases h with
  | expression hhead hclimb =>
    cases hhead with
    | implicit h => cases h
    | values hbody =>
      cases hbody with
      | bodyBracket hstart => cases hstart
      | element =>
        cases hclimb with
        | stop => exact ⟨rfl, rfl⟩
        | step hpower => exact absurd hpower (Nat.not_lt_zero _)

theorem Reads.first_of_expression (h : Reads (.expression p) ts e rest) :
    (∀ n, first ts ≠ .number n) ∧ first ts ≠ .symbol .colon ∧ first ts ≠ .symbol .rightParen := by
  cases h with
  | expression hhead =>
    cases hhead with
    | implicit h => cases h <;> exact ⟨nofun, nofun, nofun⟩
    | _ => exact ⟨nofun, nofun, nofun⟩

/-- A list is told from a wildcard by its tokens, unless it has nothing but the values of an object
in it. -/
theorem Reads.opensList_of_items {items : List Expr}
    (h : Reads .items ts (.multiSelectList items) rest)
    (hitems : Expr.isStarList items = false) : opensList ts = true := by
  have hfirst : ∃ e rest', Reads (.expression 0) ts e rest' ∧
      (startsSymbol .rightBracket rest' = true → items = [e]) := by
    cases h with
    | lastItem h => exact ⟨_, _, h, fun _ ↦ rfl⟩
    | item h _ => exact ⟨_, _, h, nofun⟩
  obtain ⟨e, rest', hread, hlast⟩ := hfirst
  unfold opensList
  split
  · next n us => exact absurd rfl (hread.first_of_expression.1 n)
  · exact absurd rfl hread.first_of_expression.2.1
  · obtain ⟨rfl, rfl⟩ := hread.star
    rw [hlast rfl] at hitems
    cases hitems
  · rfl

theorem startsSymbol_of_first {s : Symbol} (h : first ts ≠ .symbol s) :
    startsSymbol s ts = false := by
  cases hs : startsSymbol s ts with
  | false => rfl
  | true =>
    obtain ⟨us, rfl⟩ := startsSymbol_iff.mp hs
    exact absurd rfl h

theorem Reads.startsParen_of_argument {f : String} {a : Expr} {args : List Expr}
    (h : Reads (.arguments f) ts (.functionCall f (a :: args)) rest) :
    startsSymbol .rightParen ts = false := by
  have harg : ∃ rest', Reads .argument ts a rest' := by
    cases h with
    | lastArgument h | nextArgument h => exact ⟨_, h⟩
  obtain ⟨_, harg⟩ := harg
  cases harg with
  | reference => rfl
  | plain h => exact startsSymbol_of_first h.first_of_expression.2.2

theorem startsName_append {us : List TokenKind} (h : startsName ts = true) :
    startsName (ts ++ us) = true := by
  cases ts with
  | nil => cases h
  | cons k ts =>
    rw [startsName_first] at h ⊢
    exact h

theorem startsBracket_append {us : List TokenKind} (h : startsBracket ts = true) :
    startsBracket (ts ++ us) = true := by
  cases ts with
  | nil => cases h
  | cons k ts =>
    rw [startsBracket_first] at h ⊢
    exact h

def ReadsBefore (φ : Phrase) (ts : List TokenKind) (e : Expr) : Prop :=
  ∀ us, power us = 0 → Reads φ (ts ++ us) e us

end Parser

namespace Expr

variable {e e' left right body : Expr} {ts mid rest : List TokenKind} {p q : Nat} {w : Bool}

def Rereads (e : Expr) : Prop :=
  ∀ (p : Nat) (mid : List TokenKind) (e' : Expr) (rest : List TokenKind), p < e.leftPower →
    power mid ≤ e.rightPower → startsSymbol .leftParen mid = false →
    Reads (.climb p e) mid e' rest → Reads (.expression p) (e.tokens ++ mid) e' rest

def RereadsAfterDot (e : Expr) : Prop :=
  ∀ (q : Nat) (mid : List TokenKind), AfterDot q e →
    (e.isList || e.isHash) = true ∨ power mid ≤ q ∧ power mid ≤ e.rightPower →
    startsSymbol .leftParen mid = false → Reads (.afterDot q) (e.tokens ++ mid) e mid

theorem Rereads.closed (h : Rereads e) (hp : p < e.leftPower) (hmid : power mid ≤ e.rightPower)
    (hparen : startsSymbol .leftParen mid = false) (hstop : power mid ≤ p) :
    Reads (.expression p) (e.tokens ++ mid) e mid :=
  h p mid e mid hp hmid hparen (.stop hstop)

/-- An operand in parentheses, or one that holds together without. -/
theorem Rereads.grouped (h : Rereads left) (hpos : 0 < left.leftPower)
    (hpower : w = false → p < left.leftPower ∧ power mid ≤ left.rightPower)
    (hparen : startsSymbol .leftParen mid = false) (hclimb : Reads (.climb p left) mid e' rest) :
    Reads (.expression p) (grouped w left.tokens ++ mid) e' rest := by
  cases w with
  | false => exact h p mid e' rest (hpower rfl).1 (hpower rfl).2 hparen hclimb
  | true =>
    rw [grouped_true, List.cons_append, List.append_assoc]
    exact .expression (.group (h.closed hpos (Nat.zero_le _) rfl (Nat.le_refl 0))) hclimb

theorem Rereads.source {source : Expr} (h : Rereads source) (hpos : 0 < source.leftPower)
    (most : Level) (hbracket : Reads (.bracket source) ts e mid)
    (hpower : source.isCurrentNode = false → p < power ts ∧
      (source.looserThan most = false →
        power ts ≤ source.leftPower ∧ power ts ≤ source.rightPower))
    (hparen : startsSymbol .leftParen ts = false)
    (hclimb : Reads (.climb p e) mid e' rest) :
    Reads (.expression p) (sourceTokens source most source.tokens ++ ts) e' rest := by
  cases hcurrent : source.isCurrentNode with
  | true =>
    obtain rfl := eq_currentNode hcurrent
    exact .expression (.implicit hbracket) hclimb
  | false =>
    obtain ⟨hp, hmost⟩ := hpower hcurrent
    rw [sourceTokens_of_ne hcurrent]
    refine h.grouped hpos (fun hw ↦ ?_) hparen (.step hp (.explicit hbracket) hclimb)
    obtain ⟨hleft, hright⟩ := hmost hw
    exact ⟨Nat.lt_of_lt_of_le hp hleft, hright⟩

theorem leftPower_pos (e : Expr) : 0 < e.leftPower := by
  cases e with
  | subexpression left right =>
    rw [leftPower]
    split <;> decide
  | projection source body =>
    cases source with
    | objectValues | slice => exact (by decide : 0 < 60)
    | flatten inner =>
      rw [leftPower]
      split <;> decide
    | currentNode => exact (by decide : 0 < 60)
    | _ => exact (by decide : 0 < 55)
  | filterProjection source _ _ =>
    rw [leftPower]
    split <;> decide
  | _ => exact Nat.succ_pos _

theorem reads_items {α : Type} {f : α → List TokenKind} {g : α → Expr} {as : List α} (hne : as ≠ [])
    (h : ∀ a ∈ as, ReadsBefore (.expression 0) (f a) (g a)) (rest : List TokenKind) :
    Reads .items (separated (as.map f) ++ .symbol .rightBracket :: rest)
      (.multiSelectList (as.map g)) rest := by
  induction as with
  | nil => exact absurd rfl hne
  | cons a as ih =>
    have ha := h a List.mem_cons_self
    cases as with
    | nil =>
      rw [List.map_singleton, separated, List.intercalate_singleton]
      exact .lastItem (ha _ rfl)
    | cons b as =>
      have ih := ih (List.cons_ne_nil _ _) fun x hx ↦ h x (List.mem_cons_of_mem _ hx)
      rw [List.map_cons, List.map_cons, separated, List.intercalate_cons_cons, List.append_assoc,
        List.append_assoc]
      exact .item (ha _ rfl) ih

theorem name?_nameToken (key : String) : name? (nameToken key) = some key := by
  rw [nameToken]
  split <;> rfl

theorem reads_name (name : String) (h : startsSymbol .leftParen ts = false) :
    Reads .head (nameToken name :: ts) (.field name) ts := by
  rw [nameToken]
  split
  · exact .identifier
  · exact .quotedIdentifier h

theorem reads_pairs {α : Type} {k : α → String} {f : α → List TokenKind} {g : α → Expr}
    {as : List α} (hne : as ≠ []) (h : ∀ a ∈ as, ReadsBefore (.expression 0) (f a) (g a))
    (rest : List TokenKind) :
    Reads .pairs (separated (as.map fun a ↦ nameToken (k a) :: .symbol .colon :: f a) ++
      .symbol .rightBrace :: rest) (.multiSelectHash (as.map fun a ↦ (k a, g a))) rest := by
  induction as with
  | nil => exact absurd rfl hne
  | cons a as ih =>
    have ha := h a List.mem_cons_self
    have hkey := name?_nameToken (k a)
    cases as with
    | nil =>
      rw [List.map_singleton, separated, List.intercalate_singleton]
      exact .lastPair hkey (ha _ rfl)
    | cons b as =>
      have ih := ih (List.cons_ne_nil _ _) fun x hx ↦ h x (List.mem_cons_of_mem _ hx)
      rw [List.map_cons, List.map_cons, separated, List.intercalate_cons_cons, List.append_assoc,
        List.append_assoc]
      exact .pair hkey (ha _ rfl) ih

theorem reads_arguments (name : String) {α : Type} {f : α → List TokenKind} {g : α → Expr}
    {as : List α} (h : ∀ a ∈ as, ReadsBefore .argument (f a) (g a)) (rest : List TokenKind) :
    Reads (.arguments name) (separated (as.map f) ++ .symbol .rightParen :: rest)
      (.functionCall name (as.map g)) rest := by
  induction as with
  | nil => exact .noArguments
  | cons a as ih =>
    have ha := h a List.mem_cons_self
    have ih := ih fun b hb ↦ h b (List.mem_cons_of_mem _ hb)
    cases as with
    | nil =>
      rw [List.map_singleton, separated, List.intercalate_singleton]
      exact .lastArgument (ha _ rfl)
    | cons b as =>
      rw [List.map_cons, List.map_cons, separated, List.intercalate_cons_cons, List.append_assoc,
        List.append_assoc]
      exact .nextArgument (ha _ rfl) ih.startsParen_of_argument ih

theorem Rereads.readsBefore (h : Rereads e) : ReadsBefore (.expression 0) e.tokens e :=
  fun _ hus ↦ h.closed e.leftPower_pos (hus ▸ Nat.zero_le _) (startsParen_of_power hus)
    (Nat.le_of_eq hus)

theorem readsBefore_argument (h : Rereads e.referent) : ReadsBefore .argument e.tokens e := by
  intro us hus
  have hread := h.readsBefore us hus
  cases e with
  | expressionRef inner => exact .reference hread
  | _ => exact .plain hread

theorem Shaped.startsParen (h : Shaped e) (hgrouped : e.startsGrouped = false) :
    startsSymbol .leftParen e.tokens = false := by
  cases hparen : startsSymbol .leftParen e.tokens with
  | false => rfl
  | true =>
    rw [startsGrouped, h.heads.paren_iff.2 hparen] at hgrouped
    cases hgrouped

theorem Rereads.afterDot (h : Rereads e) (hshaped : Shaped e)
    (hlist : (e.isList || e.isHash) = false) (hgrouped : e.startsGrouped = false) :
    RereadsAfterDot e := by
  intro q mid hdot hmid hparen
  rw [hlist] at hmid
  obtain ⟨hq, hmid⟩ := hmid.resolve_left Bool.false_ne_true
  cases hdot with
  | list | hash => cases hlist
  | name hp hstart => exact .dotName (startsName_append hstart) (h.closed hp hmid hparen hq)
  | paren _ hfirst =>
    have hstart := hshaped.startsParen hgrouped
    change (first e.tokens).isSymbol .leftParen = false at hstart
    rw [hfirst] at hstart
    cases hstart

theorem isFaithful_true (h : e.isFaithful false = true) : e.isFaithful true = true := by
  cases e with
  | multiSelectList items =>
    rw [isFaithful, Bool.false_or, Bool.and_eq_true] at h
    rw [isFaithful, Bool.true_or, Bool.true_and]
    exact h.2
  | _ => exact h

theorem reads_body (hbody : Body q body) (hq : q < 60) (hread : Rereads body)
    (hafter : RereadsAfterDot body) (hmid : power mid ≤ bodyPower q body body.rightPower)
    (hparen : startsSymbol .leftParen mid = false) :
    Reads (.body q) (bodyTokens body body.tokens ++ mid) body mid := by
  rw [bodyPower] at hmid
  rw [bodyTokens]
  cases hcurrent : body.isCurrentNode with
  | true =>
    obtain rfl := eq_currentNode hcurrent
    exact .element (Nat.lt_succ_of_le hmid)
  | false =>
    rw [hcurrent, if_neg Bool.false_ne_true] at hmid
    rw [if_neg Bool.false_ne_true]
    cases hbracket : startsBracket body.tokens with
    | true =>
      have hhash : body.isHash = false := by
        cases body with
        | multiSelectHash => cases hbracket
        | _ => rfl
      rw [hhash, if_neg Bool.false_ne_true, Nat.le_min] at hmid
      rw [if_pos rfl]
      exact .bodyBracket (startsBracket_append hbracket)
        (hread.closed (hbody.lt_leftPower hq) hmid.2 hparen hmid.1)
    | false =>
      rw [if_neg Bool.false_ne_true, List.cons_append]
      refine .bodyDot ?_
      have hdot : AfterDot q body := by
        cases hbody with
        | element => cases hcurrent
        | dot h => exact h
        | bracket _ h => exact absurd (hbracket.symm.trans h) Bool.false_ne_true
      refine hafter q mid hdot ?_ hparen
      cases hhash : body.isHash with
      | true => exact .inl (Bool.or_true _)
      | false =>
        rw [hhash, if_neg Bool.false_ne_true, Nat.le_min] at hmid
        exact .inr hmid

theorem startsParen_binary {s : Symbol} {tree : Expr → Expr → Expr} (hs : binary? s = some tree)
    (ts : List TokenKind) : startsSymbol .leftParen (.symbol s :: ts) = false := by
  cases s <;> cases hs <;> rfl

/-- A binary operator goes on with its left operand, and its right operand ends where it does. -/
theorem Rereads.binary {s : Symbol} {tree : Expr → Expr → Expr} {wl wr : Bool}
    (hleft : Rereads left) (hright : Rereads right) (hs : binary? s = some tree)
    (htokens : (tree left right).tokens =
      Expr.grouped wl left.tokens ++ .symbol s :: Expr.grouped wr right.tokens)
    (hpower : (tree left right).rightPower = s.leftPower)
    (hwl : wl = false → s.leftPower ≤ left.leftPower ∧ s.leftPower ≤ left.rightPower)
    (hwr : wr = false → s.leftPower < right.leftPower ∧ s.leftPower ≤ right.rightPower) :
    Rereads (tree left right) := by
  intro p mid e' rest hp hmid hparen hclimb
  rw [leftPower_binary hs] at hp
  rw [hpower] at hmid
  rw [htokens, List.append_assoc, List.cons_append]
  have hoperand :
      Reads (.expression s.leftPower) (Expr.grouped wr right.tokens ++ mid) right mid := by
    refine hright.grouped right.leftPower_pos (fun hw ↦ ?_) hparen (.stop hmid)
    exact ⟨(hwr hw).1, Nat.le_trans hmid (hwr hw).2⟩
  refine hleft.grouped left.leftPower_pos (fun hw ↦ ?_) (startsParen_binary hs _)
    (.step hp (.binary hs hoperand) hclimb)
  exact ⟨Nat.lt_of_lt_of_le hp (hwl hw).1, (hwl hw).2⟩

theorem access_of_ne (h : left.isCurrentNode = false) (step : Expr) :
    Parser.access left step = subexpression left step := by
  rw [Parser.access, h, if_neg Bool.false_ne_true]

/-- What holds of an expression whose printed text is to be read as it is, where the text starts an
expression and where it stands behind a dot. -/
structure RereadsIfFaithful (e : Expr) : Prop where
  start : e.isFaithful false = true → Rereads e
  behindDot : e.isFaithful true = true → e.startsGrouped = false → RereadsAfterDot e

theorem RereadsIfFaithful.of_rereads (hshaped : Shaped e)
    (hlist : (e.isList || e.isHash) = false)
    (hflag : e.isFaithful true = e.isFaithful false) (h : e.isFaithful false = true → Rereads e) :
    RereadsIfFaithful e :=
  ⟨h, fun hfaithful ↦ (h (hflag ▸ hfaithful)).afterDot hshaped hlist⟩

theorem areFaithful_iff {es : List Expr} :
    areFaithful es = true ↔ ∀ e ∈ es, e.isFaithful false = true := by
  induction es with
  | nil => exact ⟨nofun, fun _ ↦ rfl⟩
  | cons e es ih => rw [areFaithful, Bool.and_eq_true, ih, List.forall_mem_cons]

theorem arePairsFaithful_iff {ps : List (String × Expr)} :
    arePairsFaithful ps = true ↔ ∀ x ∈ ps, x.2.isFaithful false = true := by
  induction ps with
  | nil => exact ⟨nofun, fun _ ↦ rfl⟩
  | cons x ps ih => rw [arePairsFaithful, Bool.and_eq_true, ih, List.forall_mem_cons]

theorem isFaithful_referent {a : Expr} (h : a.isFaithful false = true) :
    a.referent.isFaithful false = true := by
  cases a <;> exact h

theorem sliceTokens_eq (start stop step : Option Int64) :
    ∃ inner, sliceTokens start stop step =
        .symbol .leftBracket :: (inner ++ [.symbol .rightBracket]) ∧
      SliceTokens ⟨start, stop, step⟩ inner := by
  cases step with
  | none => exact ⟨_, by simp [sliceTokens, stepTokens], .short start stop⟩
  | some n => exact ⟨_, by simp [sliceTokens, stepTokens, numberTokens], .long start stop (some n)⟩

theorem reads_slice (left : Expr) (start stop : Option Int64) {step : Option Int64}
    (hstep : step ≠ some 0) (hbody : Reads (.body 20) ts body rest) :
    Reads (.bracket left) (sliceTokens start stop step ++ ts)
      (projection (Parser.access left (slice start stop step)) body) rest := by
  obtain ⟨inner, heq, hinner⟩ := sliceTokens_eq start stop step
  rw [heq, List.cons_append, List.append_assoc]
  exact .slice hinner hstep hbody

theorem RereadsIfFaithful.readsBody (h : RereadsIfFaithful body) (hbody : Body q body) (hq : q < 60)
    (hfaithful : body.isFaithful false = true) (hgrouped : body.startsGrouped = false)
    (hmid : power mid ≤ bodyPower q body body.rightPower)
    (hparen : startsSymbol .leftParen mid = false) :
    Reads (.body q) (bodyTokens body body.tokens ++ mid) body mid :=
  reads_body hbody hq (h.start hfaithful)
    (h.behindDot (isFaithful_true hfaithful) hgrouped) hmid hparen

theorem Shaped.rereadsIfFaithful (h : Shaped e) : RereadsIfFaithful e := by
  induction h with
  | field name =>
    refine .of_rereads (.field name) rfl rfl fun _ p mid e' rest hp hmid hparen hclimb ↦ ?_
    rw [tokens]
    exact .expression (reads_name name hparen) hclimb
  | current =>
    exact .of_rereads .current rfl rfl fun _ p mid e' rest _ _ _ hclimb ↦
      .expression .current hclimb
  | literal v =>
    exact .of_rereads (.literal v) rfl rfl fun _ p mid e' rest _ _ _ hclimb ↦
      .expression .literal hclimb
  | index i =>
    exact .of_rereads (.index i) rfl rfl fun _ p mid e' rest _ _ _ hclimb ↦
      .expression (.implicit .index) hclimb
  | @step left i hleft hcurrent ih =>
    refine .of_rereads (.step i hleft hcurrent) rfl rfl fun hf p mid e' rest hp _ _ hclimb ↦ ?_
    simp only [isFaithful, Bool.and_eq_true] at hf
    have hread := ih.start hf.1.1
    have hindex :
        Reads (.bracket left) (indexTokens i ++ mid) (subexpression left (.index i)) mid :=
      access_of_ne hcurrent _ ▸ .index
    rw [tokens_step _ rfl, tokens, ← sourceTokens_of_ne hcurrent, List.append_assoc]
    exact hread.source left.leftPower_pos .primary hindex (fun _ ↦ ⟨hp, hleft.primary⟩) rfl hclimb
  | @dot left right hleft hright hdot ih ih' =>
    refine .of_rereads (.dot hleft hright hdot) rfl rfl ?_
    intro hf p mid e' rest hp hmid hparen hclimb
    have hnot := hdot.not_bracket
    simp only [isFaithful, hnot, Bool.false_or, Bool.and_eq_true, Bool.not_eq_true'] at hf
    obtain ⟨⟨hfleft, hfright⟩, hopen, hgrouped⟩ := hf
    have hindex := (Bool.or_eq_false_iff.1 hnot).1
    rw [leftPower, hindex, if_neg Bool.false_ne_true] at hp
    rw [rightPower, hindex, Bool.false_or] at hmid
    rw [tokens_dot _ hnot, List.append_assoc]
    have hafter : Reads (.afterDot 40) (right.tokens ++ mid) right mid := by
      refine ih'.behindDot hfright hgrouped 40 mid hdot ?_ hparen
      cases hlist : right.isList || right.isHash with
      | true => exact .inl rfl
      | false =>
        rw [hlist, if_neg Bool.false_ne_true, Nat.le_min] at hmid
        exact .inr hmid
    refine (ih.start hfleft).grouped left.leftPower_pos (fun hw ↦ ?_) rfl
      (.step hp (.dot hafter) hclimb)
    obtain ⟨hpower, hclosed⟩ := hleft.chain hw
    exact ⟨Nat.lt_of_lt_of_le hp hpower, hclosed hopen⟩
  | @values body hshaped hbody ih =>
    refine .of_rereads (.values hshaped hbody) rfl rfl ?_
    intro hf p mid e' rest hp hmid hparen hclimb
    simp only [isFaithful, Bool.and_eq_true, Bool.not_eq_true'] at hf
    have hread := ih.readsBody hbody (by decide) hf.1.2 hf.2 hmid hparen
    exact .expression (.values hread) hclimb
  | @flatten inner body hinner hshaped hbody ih ih' =>
    refine .of_rereads (.flatten hinner hshaped hbody) rfl rfl
      fun hf p mid e' rest hp hmid hparen hclimb ↦ ?_
    simp only [isFaithful, Bool.and_eq_true, Bool.not_eq_true'] at hf
    have hread := ih'.readsBody hbody (by decide) hf.1.2 hf.2 hmid hparen
    rw [tokens, projectedTokens_flatten, tokens, List.append_assoc, List.append_assoc]
    refine (ih.start hf.1.1).source inner.leftPower_pos .projection (.flatten hread)
      (fun hcurrent ↦ ⟨?_, hinner.nine_le⟩) rfl hclimb
    rwa [leftPower, hcurrent] at hp
  | @slice start stop step body hstep hshaped hbody ih =>
    refine .of_rereads (.slice hstep hshaped hbody) rfl rfl
      fun hf p mid e' rest hp hmid hparen hclimb ↦ ?_
    simp only [isFaithful, Bool.and_eq_true, Bool.not_eq_true'] at hf
    have hread := ih.readsBody hbody (by decide) hf.1.2 hf.2 hmid hparen
    rw [tokens, List.append_assoc]
    exact .expression (.implicit (reads_slice .currentNode start stop hstep hread)) hclimb
  | @stepSlice left start stop step body hleft hcurrent hstep hshaped hbody ih ih' =>
    refine .of_rereads (.stepSlice hleft hcurrent hstep hshaped hbody) rfl rfl
      fun hf p mid e' rest hp hmid hparen hclimb ↦ ?_
    simp only [isFaithful, Bool.and_eq_true, Bool.not_eq_true'] at hf
    have hread := ih'.readsBody hbody (by decide) hf.1.2 hf.2 hmid hparen
    have hslice := reads_slice left start stop hstep hread
    rw [access_of_ne hcurrent] at hslice
    rw [tokens, projectedTokens_stepSlice hcurrent, tokens_step _ rfl, tokens,
      ← sourceTokens_of_ne hcurrent, List.append_assoc, List.append_assoc]
    exact (ih.start hf.1.1.1.1).source left.leftPower_pos .primary hslice
      (fun _ ↦ ⟨hp, hleft.primary⟩) rfl hclimb
  | @wildcard source body hsource hshaped hbody ih ih' =>
    refine .of_rereads (.wildcard hsource hshaped hbody) rfl rfl
      fun hf p mid e' rest hp hmid hparen hclimb ↦ ?_
    simp only [isFaithful, Bool.and_eq_true, Bool.not_eq_true'] at hf
    rw [rightPower, hsource.not_flatten, if_neg Bool.false_ne_true] at hmid
    have hread := ih'.readsBody hbody (by decide) hf.1.2 hf.2 hmid hparen
    rw [tokens, hsource.projectedTokens, List.append_assoc, List.append_assoc]
    refine (ih.start hf.1.1).source source.leftPower_pos .primary (.wildcard hread)
      (fun hcurrent ↦ ⟨?_, hsource.primary⟩) rfl hclimb
    rwa [hsource.leftPower_projection, hcurrent] at hp
  | @filter source predicate body hsource hpredicate hshaped hbody ih ih' ih'' =>
    refine .of_rereads (.filter hsource hpredicate hshaped hbody) rfl rfl
      fun hf p mid e' rest hp hmid hparen hclimb ↦ ?_
    simp only [isFaithful, Bool.and_eq_true, Bool.not_eq_true'] at hf
    obtain ⟨⟨⟨⟨hfsource, hopen⟩, hfpredicate⟩, hfbody⟩, hgrouped⟩ := hf
    have hread := ih''.readsBody hbody (by decide) hfbody hgrouped hmid hparen
    have hclose : power (.symbol .rightBracket :: (bodyTokens body body.tokens ++ mid)) = 0 := rfl
    have hinner := (ih'.start hfpredicate).closed predicate.leftPower_pos
      (hclose ▸ Nat.zero_le _) rfl (Nat.le_of_eq hclose)
    rw [tokens, List.append_assoc, List.cons_append, List.append_assoc, List.cons_append]
    refine (ih.start hfsource).source source.leftPower_pos .chain (.filter hinner hread)
      (fun hcurrent ↦ ⟨?_, fun hw ↦ ?_⟩) rfl hclimb
    · rwa [leftPower, hcurrent] at hp
    · obtain ⟨hpower, hclosed⟩ := hsource.chain hw
      exact ⟨Nat.le_trans (by decide : 21 ≤ 40) hpower,
        Nat.le_trans (by decide : 21 ≤ 40) (hclosed hopen)⟩
  | @list items hne hitems ih =>
    have hread (hf : areFaithful items = true) (mid : List TokenKind) :
        Reads .items (separated (itemTokens items) ++ .symbol .rightBracket :: mid)
          (multiSelectList items) mid := by
      have hread := reads_items (g := id) hne
        (fun x hx ↦ ((ih x hx).start (areFaithful_iff.1 hf x hx)).readsBefore) mid
      rwa [List.map_id, ← itemTokens_eq] at hread
    refine ⟨fun hf p mid e' rest _ _ _ hclimb ↦ ?_, fun hf _ q mid _ _ _ ↦ ?_⟩
    · rw [isFaithful, Bool.false_or, Bool.and_eq_true, Bool.not_eq_true'] at hf
      have hread := hread hf.2 mid
      rw [tokens, List.cons_append, List.append_assoc]
      exact .expression (.list (hread.opensList_of_items hf.1) hread) hclimb
    · rw [isFaithful, Bool.true_or, Bool.true_and] at hf
      rw [tokens, List.cons_append, List.append_assoc]
      exact .dotList (hread hf mid)
  | @hash pairs hne hpairs ih =>
    have hread (hf : arePairsFaithful pairs = true) (mid : List TokenKind) :
        Reads .pairs (separated (pairTokens pairs) ++ .symbol .rightBrace :: mid)
          (multiSelectHash pairs) mid := by
      have hread := reads_pairs (k := Prod.fst) hne
        (fun x hx ↦ ((ih x hx).start (arePairsFaithful_iff.1 hf x hx)).readsBefore) mid
      have hpairs : (pairs.map fun x ↦ (x.1, x.2)) = pairs := List.map_id pairs
      rwa [hpairs, ← pairTokens_eq] at hread
    refine ⟨fun hf p mid e' rest _ _ _ hclimb ↦ ?_, fun hf _ q mid _ _ _ ↦ ?_⟩
    · rw [tokens, List.cons_append, List.append_assoc]
      exact .expression (.hash (hread hf mid)) hclimb
    · rw [tokens, List.cons_append, List.append_assoc]
      exact .dotHash (hread hf mid)
  | @pipe left right hleft hright ih ih' =>
    refine .of_rereads (.pipe hleft hright) rfl rfl fun hf ↦ ?_
    simp only [isFaithful, Bool.and_eq_true] at hf
    have htokens : (Expr.pipe left right).tokens = Expr.grouped false left.tokens ++
        .symbol .pipe :: Expr.grouped right.isPipe right.tokens := by
      rw [tokens, grouped_false]
    exact (ih.start hf.1).binary (s := .pipe) (ih'.start hf.2) rfl htokens rfl
      (fun _ ↦ hleft.besidePipe) hright.behindPipe
  | @or left right hleft hright ih ih' =>
    refine .of_rereads (.or hleft hright) rfl rfl fun hf ↦ ?_
    simp only [isFaithful, Bool.and_eq_true] at hf
    exact (ih.start hf.1).binary (s := .or) (ih'.start hf.2) rfl (by rw [tokens]) rfl
      hleft.besideOr hright.behindOr
  | @and left right hleft hright ih ih' =>
    refine .of_rereads (.and hleft hright) rfl rfl fun hf ↦ ?_
    simp only [isFaithful, Bool.and_eq_true] at hf
    exact (ih.start hf.1).binary (s := .and) (ih'.start hf.2) rfl (by rw [tokens]) rfl
      hleft.besideAnd hright.behindAnd
  | @comparison left right op hleft hright ih ih' =>
    refine .of_rereads (.comparison op hleft hright) rfl rfl fun hf ↦ ?_
    simp only [isFaithful, Bool.and_eq_true] at hf
    exact (ih.start hf.1).binary (s := .comparator op) (ih'.start hf.2) rfl (by rw [tokens]) rfl
      hleft.besideComparison hright.behindComparison
  | @not inner hinner ih =>
    refine .of_rereads (.not hinner) rfl rfl fun hf p mid e' rest _ hmid hparen hclimb ↦ ?_
    rw [tokens, List.cons_append]
    refine .expression (.not ?_) hclimb
    refine (ih.start hf).grouped inner.leftPower_pos (fun hw ↦ ?_) hparen (.stop hmid)
    obtain ⟨hpower, hright⟩ := hinner.primary hw
    exact ⟨Nat.lt_of_lt_of_le (by decide) hpower,
      Nat.le_trans hmid (Nat.le_trans (by decide : 45 ≤ 55) hright)⟩
  | @call name args hname hargs ih =>
    refine .of_rereads (.call hname hargs) rfl rfl fun hf p mid e' rest hp _ _ hclimb ↦ ?_
    have hread := reads_arguments name (g := id) (fun a ha ↦ readsBefore_argument
      ((ih a ha).start (isFaithful_referent (areFaithful_iff.1 hf a ha)))) mid
    rw [List.map_id] at hread
    rw [tokens, itemTokens_eq, List.cons_append, List.cons_append, List.append_assoc]
    exact .expression .identifier (.step hp (.call hname hread) hclimb)

end Expr

end PathQuery
