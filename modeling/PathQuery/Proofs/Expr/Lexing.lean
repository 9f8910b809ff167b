import PathQuery.Proofs.Expr.Spelling

namespace PathQuery.Expr

open PathQuery.Parser Lexer

variable {e body : Expr} {cs : List Char} {ts : List TokenKind} {p : Nat}

theorem spells_separated {α : Type} {f : α → List Char} {g : α → List TokenKind} {as : List α}
    (h : ∀ a ∈ as, Spells (f a) (g a)) :
    Spells ([',', ' '].intercalate (as.map f)) (separated (as.map g)) := by
  induction as with
  | nil => exact spells_nil
  | cons a as ih =>
    have ha := h a List.mem_cons_self
    have ih := ih fun b hb ↦ h b (List.mem_cons_of_mem _ hb)
    cases as with
    | nil =>
      rw [List.map_cons, List.map_cons, List.map_nil, List.map_nil, separated,
        List.intercalate_singleton, List.intercalate_singleton]
      exact ha
    | cons b as =>
      rw [List.map_cons, List.map_cons, separated, List.map_cons, List.map_cons,
        List.intercalate_cons_cons, List.intercalate_cons_cons, List.append_assoc,
        List.append_assoc]
      refine ha.followedBy (by decide) ?_
      exact ih.blank.symbol .comma [','] rfl fun _ ↦ rfl

theorem itemTokens_eq (es : List Expr) : itemTokens es = es.map tokens := by
  induction es with
  | nil => rfl
  | cons e es ih => rw [itemTokens, ih, List.map_cons]

theorem pairTokens_eq (ps : List (String × Expr)) :
    pairTokens ps = ps.map fun x ↦ nameToken x.1 :: .symbol .colon :: x.2.tokens := by
  induction ps with
  | nil => rfl
  | cons x ps ih => rw [pairTokens, ih, List.map_cons]

theorem texts_eq (es : List Expr) : texts es = es.map text := by
  induction es with
  | nil => rfl
  | cons e es ih => rw [texts, ih, List.map_cons]

theorem pairTexts_eq (ps : List (String × Expr)) :
    pairTexts ps = ps.map fun x ↦ fieldName x.1 ++ ": " ++ x.2.text := by
  induction ps with
  | nil => rfl
  | cons x ps ih => rw [pairTexts, ih, List.map_cons]

theorem Spells.source (h : Spells e.text.toList e.tokens) (most : Level) {c : Char}
    (hc : isNameChar c = false) (hbracket : Spells (c :: cs) ts) :
    Spells ((sourceText e most e.text).toList ++ c :: cs) (sourceTokens e most e.tokens ++ ts) := by
  rw [toList_sourceText, sourceTokens]
  split
  · exact hbracket
  · exact h.grouped.followedBy hc hbracket

theorem Body.not_flatten (h : Body p e) : first e.tokens ≠ .symbol .flatten := by
  intro hfirst
  cases h with
  | element => cases hfirst
  | dot h =>
    cases h with
    | list | hash => cases hfirst
    | name _ hstart =>
      rw [startsName_first, hfirst] at hstart
      cases hstart
    | paren _ hparen => cases hparen.symm.trans hfirst
  | bracket _ hstart =>
    rw [startsBracket_first, hfirst] at hstart
    cases hstart

/-- Only a symbol starts with a character that is no part of a name and no quote. -/
theorem Opens.eq_iff {c d : Char} {k : TokenKind} (h : Opens c k)
    (hd : isNameStart d = false ∧ d ≠ '"' ∧ d ≠ '\x60') :
    c = d ↔ ∃ s : Symbol, k = .symbol s ∧ s.text.toList.head? = some d := by
  cases k with
  | symbol s =>
    constructor
    · rintro rfl
      exact ⟨s, rfl, h.2⟩
    · rintro ⟨_, ⟨⟩, hs⟩
      exact Option.some.inj (h.2.symm.trans hs)
  | identifier =>
    refine ⟨?_, nofun⟩
    rintro rfl
    exact absurd h (by simp [Opens, hd.1])
  | quotedIdentifier => exact ⟨fun hc ↦ absurd (hc.symm.trans h) hd.2.1, nofun⟩
  | literal => exact ⟨fun hc ↦ absurd (hc.symm.trans h) hd.2.2, nofun⟩
  | number | rawString | endOfInput => cases h

theorem Symbol.startsBracket_iff {s : Symbol} (hs : s ≠ .flatten) :
    s.text.toList.head? = some '[' ↔ startsBracket [.symbol s] = true := by
  cases s with
  | flatten => exact absurd rfl hs
  | comparator op => cases op <;> decide
  | _ => decide

theorem Symbol.startsParen_iff {s : Symbol} :
    s.text.toList.head? = some '(' ↔ startsSymbol .leftParen [.symbol s] = true := by
  cases s with
  | comparator op => cases op <;> decide
  | _ => decide

/-- The printer tells by the first character whether the body of a projection needs a dot. -/
theorem Heads.bracket_iff (h : Heads cs ts) (hflatten : first ts ≠ .symbol .flatten) :
    cs.head? = some '[' ↔ startsBracket ts = true := by
  obtain ⟨c, cs, k, ts, rfl, rfl, h⟩ := h
  rw [startsBracket_first, List.head?_cons, Option.some_inj, h.eq_iff (by decide)]
  change _ ↔ startsBracket [k] = true
  constructor
  · rintro ⟨s, rfl, hs⟩
    exact (Symbol.startsBracket_iff fun heq ↦ hflatten (heq ▸ rfl)).1 hs
  · intro hk
    cases k with
    | symbol s =>
      exact ⟨s, rfl, (Symbol.startsBracket_iff fun heq ↦ hflatten (heq ▸ rfl)).2 hk⟩
    | _ => cases hk

/-- A text starts with a parenthesis where its tokens do. -/
theorem Heads.paren_iff (h : Heads cs ts) :
    cs.head? = some '(' ↔ startsSymbol .leftParen ts = true := by
  obtain ⟨c, cs, k, ts, rfl, rfl, h⟩ := h
  rw [List.head?_cons, Option.some_inj, h.eq_iff (by decide)]
  constructor
  · rintro ⟨s, rfl, hs⟩
    exact Symbol.startsParen_iff.1 hs
  · intro hk
    cases k with
    | symbol s => exact ⟨s, rfl, Symbol.startsParen_iff.2 hk⟩
    | _ => cases hk

theorem spells_body (hshaped : Shaped body) (hbody : Body p body)
    (h : Spells body.text.toList body.tokens) :
    Spells (bodyText body body.text).toList (bodyTokens body body.tokens) := by
  have hiff := hshaped.heads.bracket_iff hbody.not_flatten
  rw [bodyText, bodyTokens]
  split
  · exact spells_nil
  · by_cases hbracket : startsBracket body.tokens = true
    · rw [if_pos (hiff.2 hbracket), if_pos hbracket]
      exact h
    · rw [if_neg (mt hiff.1 hbracket), if_neg hbracket, String.toList_append]
      exact h.symbol .dot ['.'] rfl fun _ ↦ rfl

theorem apart_body {rest : List Char} (hshaped : Shaped body) (hrest : Apart rest) :
    Apart ((bodyText body body.text).toList ++ rest) := by
  rw [bodyText]
  split
  · exact hrest
  · split
    · next h =>
      obtain ⟨c, cs, _, _, hcs, -, -⟩ := hshaped.heads
      rw [hcs] at h ⊢
      cases h
      exact apart_cons (by decide) _
    · rw [String.toList_append]
      exact apart_cons (by decide) _

theorem allLiterals_of_mem {P : Value → Prop} {es : List Expr} (h : AllLiteralsItems P es) :
    ∀ e ∈ es, AllLiterals P e := by
  induction es with
  | nil => nofun
  | cons e es ih => exact List.forall_mem_cons.2 ⟨h.1, ih h.2⟩

theorem allLiterals_of_mem_pairs {P : Value → Prop} {ps : List (String × Expr)}
    (h : AllLiteralsPairs P ps) : ∀ x ∈ ps, AllLiterals P x.2 := by
  induction ps with
  | nil => nofun
  | cons x ps ih => exact List.forall_mem_cons.2 ⟨h.1, ih h.2⟩

theorem allLiterals_referent {P : Value → Prop} (h : AllLiterals P e) :
    AllLiterals P e.referent := by
  cases e <;> exact h

theorem spells_projection {source : Expr} (hshaped : Shaped body)
    (hsource : Spells (projectedText source source.text).toList
      (projectedTokens source source.tokens))
    (hbody : Spells (bodyText body body.text).toList (bodyTokens body body.tokens)) :
    Spells (projection source body).text.toList (projection source body).tokens := by
  rw [text, tokens, String.toList_append]
  exact hsource.append (fun _ ↦ apart_body hshaped) hbody

theorem toList_text_list (items : List Expr) : (multiSelectList items).text.toList =
    '[' :: ([',', ' '].intercalate (items.map fun e ↦ e.text.toList) ++ [']']) := by
  rw [text, String.toList_append, String.toList_append, String.toList_intercalate, texts_eq,
    List.map_map]
  rfl

theorem toList_text_hash (pairs : List (String × Expr)) : (multiSelectHash pairs).text.toList =
    '\x7b' :: ([',', ' '].intercalate (pairs.map fun x ↦
      (fieldName x.1).toList ++ ':' :: ' ' :: x.2.text.toList) ++ ['\x7d']) := by
  have hpair : (String.toList ∘ fun x : String × Expr ↦ fieldName x.1 ++ ": " ++ x.2.text) =
      fun x ↦ (fieldName x.1).toList ++ ':' :: ' ' :: x.2.text.toList := by
    funext x
    simp
  rw [text, String.toList_append, String.toList_append, String.toList_intercalate, pairTexts_eq,
    List.map_map, hpair]
  rfl

theorem toList_text_call (name : String) (args : List Expr) :
    (functionCall name args).text.toList = name.toList ++
      '(' :: ([',', ' '].intercalate (args.map fun e ↦ e.text.toList) ++ [')']) := by
  rw [text, String.toList_append, String.toList_append, String.toList_append,
    String.toList_intercalate, texts_eq, List.map_map, List.append_assoc, List.append_assoc]
  rfl

theorem symbol?_items {items : List Expr} (hne : items ≠ []) (h : ∀ e ∈ items, Shaped e)
    (rest : List Char) :
    symbol? ('[' :: ([',', ' '].intercalate (items.map fun e ↦ e.text.toList) ++ rest)) =
      some .leftBracket := by
  cases items with
  | nil => exact absurd rfl hne
  | cons e items =>
    obtain ⟨c, cs, k, ts, hcs, -, hopens⟩ := (h e List.mem_cons_self).heads
    rw [List.map_cons, hcs, List.intercalate_cons_cons_left]
    refine symbol?_leftBracket fun c' hc ↦ ?_
    cases hc
    exact ⟨hopens.ne.1, hopens.ne.2.1⟩

theorem spells_argument (hshaped : Shaped e.referent)
    (h : Spells e.referent.text.toList e.referent.tokens) : Spells e.text.toList e.tokens := by
  cases e with
  | expressionRef inner =>
    obtain ⟨c, cs, k, ts, hcs, -, hopens⟩ := hshaped.heads
    change Spells inner.text.toList inner.tokens at h
    change inner.text.toList = c :: cs at hcs
    rw [text, tokens, String.toList_append]
    rw [hcs] at h ⊢
    refine h.symbol .ampersand ['&'] rfl fun rest ↦ symbol?_ampersand fun c' hc ↦ ?_
    cases hc
    exact hopens.ne.2.2.1
  | _ => exact h

/-- Both operands of a binary operator stand apart from it. -/
theorem Spells.operator {s : Symbol} {cs' : List Char} {ts' : List TokenKind} (h : Spells cs ts)
    (hs : ∀ rest, symbol? (s.text.toList ++ ' ' :: rest) = some s) (h' : Spells cs' ts') :
    Spells (cs ++ ' ' :: (s.text.toList ++ ' ' :: cs')) (ts ++ .symbol s :: ts') := by
  refine h.followedBy (by decide) (.blank ?_)
  exact h'.blank.symbol s s.text.toList String.length_toList.symm fun rest ↦ hs (cs' ++ rest)

theorem symbol?_comparator (op : Comparator) (rest : List Char) :
    symbol? ((Symbol.comparator op).text.toList ++ ' ' :: rest) = some (.comparator op) := by
  cases op <;> rfl

theorem Shaped.spells (h : Shaped e)
    (hliterals : e.AllLiterals (Value.Canonical Json.Read.maxDepth)) :
    Spells e.text.toList e.tokens := by
  induction h with
  | field name =>
    rw [text, tokens]
    exact spells_fieldName name
  | current => exact spells_sign .current fun _ ↦ rfl
  | literal v => exact spells_literal hliterals
  | index i => exact spells_index i
  | step i _ _ ih =>
    rw [toList_text_step _ rfl, tokens_step _ rfl]
    obtain ⟨cs, hcs⟩ := toList_text_index i
    have hindex := spells_index i
    rw [hcs] at hindex ⊢
    exact (ih hliterals.1).grouped.followedBy (by decide) hindex
  | dot _ _ hright ih ih' =>
    rw [toList_text_dot _ hright.not_bracket, tokens_dot _ hright.not_bracket]
    refine (ih hliterals.1).grouped.followedBy (by decide) ?_
    exact (ih' hliterals.2).symbol .dot ['.'] rfl fun _ ↦ rfl
  | values hshaped hbody ih =>
    refine spells_projection hshaped ?_ (spells_body hshaped hbody (ih hliterals.2))
    exact spells_sign .star fun _ ↦ rfl
  | flatten _ hshaped hbody ih ih' =>
    refine spells_projection hshaped ?_ (spells_body hshaped hbody (ih' hliterals.2))
    rw [Expr.projectedText, projectedTokens_flatten, text, tokens, String.toList_append]
    exact (ih hliterals.1).source _ (by decide) (spells_sign .flatten fun _ ↦ rfl)
  | slice _ hshaped hbody ih =>
    refine spells_projection hshaped ?_ (spells_body hshaped hbody (ih hliterals.2))
    exact spells_slice _ _ _
  | @stepSlice _ start stop step _ _ hcurrent _ hshaped hbody ih ih' =>
    refine spells_projection hshaped ?_ (spells_body hshaped hbody (ih' hliterals.2))
    obtain ⟨cs, hcs⟩ := toList_sliceText start stop step
    have hslice := spells_slice start stop step
    rw [projectedText_stepSlice hcurrent, projectedTokens_stepSlice hcurrent,
      toList_text_step _ rfl, tokens_step _ rfl, text, tokens, hcs]
    rw [hcs] at hslice
    exact (ih hliterals.1.1).grouped.followedBy (by decide) hslice
  | wildcard hsource hshaped hbody ih ih' =>
    refine spells_projection hshaped ?_ (spells_body hshaped hbody (ih' hliterals.2))
    rw [hsource.projectedText, hsource.projectedTokens, String.toList_append]
    exact (ih hliterals.1).source _ (by decide) spells_wildcard
  | filter _ _ hshaped hbody ih ih' ih'' =>
    have hbody := spells_body hshaped hbody (ih'' hliterals.2.2)
    have hclose : Spells [']'] [.symbol .rightBracket] := spells_sign .rightBracket fun _ ↦ rfl
    rw [text, tokens]
    simp only [String.toList_append, List.append_assoc]
    refine (ih hliterals.1).source _ (by decide) ?_
    refine Spells.symbol .filter ['[', '?'] rfl ?_ fun _ ↦ rfl
    refine (ih' hliterals.2.1).followedBy (by decide) ?_
    exact hclose.append (fun _ ↦ apart_body hshaped) hbody
  | list hne hitems ih =>
    have hclose : Spells [']'] [.symbol .rightBracket] := spells_sign .rightBracket fun _ ↦ rfl
    have hitem := spells_separated fun e he ↦ ih e he (allLiterals_of_mem hliterals e he)
    rw [toList_text_list, tokens, itemTokens_eq]
    refine (hitem.followedBy (by decide) hclose).symbol .leftBracket ['['] rfl
      fun rest ↦ ?_
    change symbol? ('[' :: (([',', ' '].intercalate _ ++ [']']) ++ rest)) = _
    rw [List.append_assoc]
    exact symbol?_items hne hitems _
  | hash hne hpairs ih =>
    have hclose : Spells ['\x7d'] [.symbol .rightBrace] := spells_sign .rightBrace fun _ ↦ rfl
    have hitem := spells_separated fun x hx ↦ (spells_fieldName x.1).followedBy (by decide)
      ((ih x hx (allLiterals_of_mem_pairs hliterals x hx)).blank.symbol .colon [':']
        rfl fun _ ↦ rfl)
    rw [toList_text_hash, tokens, pairTokens_eq]
    exact (hitem.followedBy (by decide) hclose).symbol .leftBrace ['\x7b'] rfl
      fun _ ↦ rfl
  | pipe _ _ ih ih' =>
    rw [text, tokens]
    simp only [String.toList_append, List.append_assoc, toList_parens]
    exact (ih hliterals.1).operator (s := .pipe) (fun _ ↦ rfl) (ih' hliterals.2).grouped
  | or _ _ ih ih' =>
    rw [text, tokens]
    simp only [String.toList_append, List.append_assoc, toList_parens]
    exact (ih hliterals.1).grouped.operator (s := .or) (fun _ ↦ rfl) (ih' hliterals.2).grouped
  | and _ _ ih ih' =>
    rw [text, tokens]
    simp only [String.toList_append, List.append_assoc, toList_parens]
    exact (ih hliterals.1).grouped.operator (s := .and) (fun _ ↦ rfl) (ih' hliterals.2).grouped
  | @comparison left right op _ _ ih ih' =>
    have hleft := (ih hliterals.1).grouped (w := !left.isComparison && left.looserThan .projection)
    have hright := (ih' hliterals.2).grouped (w := right.looserThan .projection)
    have hspells := hleft.operator (symbol?_comparator op) hright
    rw [text, tokens]
    simp only [String.toList_append, List.append_assoc, toList_parens]
    exact hspells
  | @not inner hinner ih =>
    have hgrouped := (ih hliterals).grouped (w := inner.looserThan .primary)
    obtain ⟨c, cs, k, ts, hcs, -, hopens⟩ :=
      hinner.heads.grouped (w := inner.looserThan .primary)
    rw [text, tokens, String.toList_append, toList_parens]
    rw [hcs] at hgrouped ⊢
    refine hgrouped.symbol .not ['!'] rfl fun rest ↦ symbol?_not fun c' hc ↦ ?_
    cases hc
    exact hopens.ne.2.2.2
  | @call name args hname hargs ih =>
    have hclose : Spells [')'] [.symbol .rightParen] := spells_sign .rightParen fun _ ↦ rfl
    have hitem := spells_separated fun e he ↦ spells_argument (hargs e he)
      (ih e he (allLiterals_referent (allLiterals_of_mem hliterals e he)))
    have hfield := spells_fieldName name
    rw [fieldName, nameToken, isName_of_builtin hname, if_pos rfl, if_pos rfl] at hfield
    rw [toList_text_call, tokens, itemTokens_eq]
    refine hfield.followedBy (by decide) ?_
    exact (hitem.followedBy (by decide) hclose).symbol .leftParen ['('] rfl
      fun _ ↦ rfl

end PathQuery.Expr
