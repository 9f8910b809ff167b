import PathQuery.Proofs.Parser.Soundness

namespace PathQuery.Parser

variable {ts mid rest : List TokenKind} {e : Expr}

theorem Reads.starts_of_head {s : Symbol} (hs : s = .ampersand ∨ s = .rightParen)
    (h : Reads .head ts e rest) : startsSymbol s ts = false := by
  cases h with
  | implicit h => cases h <;> rcases hs with rfl | rfl <;> rfl
  | _ => rcases hs with rfl | rfl <;> rfl

theorem Reads.starts_of_expression {s : Symbol} {p : Nat} (hs : s = .ampersand ∨ s = .rightParen)
    (h : Reads (.expression p) ts e rest) : startsSymbol s ts = false := by
  cases h with
  | expression hhead _ => exact hhead.starts_of_head hs

theorem Reads.ne_nil {φ : Phrase} (h : Reads φ ts e rest) (hφ : φ.takesToken = true) : ts ≠ [] := by
  rintro rfl
  have := h.length_le
  rw [hφ] at this
  simp at this

def SliceGives (i : Nat) (parts : SliceParts) (ts : List TokenKind) (r : Nat × SliceParts)
    (rest : List TokenKind) : Prop :=
  ∀ (o : Opening) (n : Nat), ts.length < n → Gives (sliceParts o n i parts) ts r rest

namespace SliceGives

variable {i : Nat} {parts : SliceParts} {r : Nat × SliceParts}

theorem close : SliceGives i parts (.symbol .rightBracket :: rest) (i, parts) rest := by
  intro o n hn
  obtain ⟨n, rfl⟩ := Nat.exists_eq_add_of_lt hn
  refine .current fun t ht ↦ ?_
  rw [ht]
  exact .advance .pure

theorem number {k : Int64} (hk : parts.get? i = some none)
    (h : SliceGives i (parts.set i k) ts r rest) :
    SliceGives i parts (.number k :: ts) r rest := by
  intro o n hn
  cases n with
  | zero => omega
  | succ n =>
    refine .current fun t ht ↦ ?_
    rw [ht]
    refine .slicePart ?_
    rw [hk]
    exact .advance (h o n (by simpa using hn))

theorem colon (hi : i + 1 ≤ 2) (h : SliceGives (i + 1) parts ts r rest) :
    SliceGives i parts (.symbol .colon :: ts) r rest := by
  intro o n hn
  cases n with
  | zero => omega
  | succ n =>
    refine .current fun t ht ↦ ?_
    rw [ht]
    change Gives (if 2 < i + 1 then fail .tooManyColons else _) _ _ _
    rw [if_neg (Nat.not_lt_of_le hi)]
    exact .advance (h o n (by simpa using hn))

theorem start {k : Option Int64} (h : SliceGives 0 ⟨k, none, none⟩ ts r rest) :
    SliceGives 0 ⟨none, none, none⟩ (numberTokens k ++ ts) r rest := by
  cases k with
  | none => exact h
  | some k => exact number rfl h

theorem stop {a k : Option Int64} (h : SliceGives 1 ⟨a, k, none⟩ ts r rest) :
    SliceGives 1 ⟨a, none, none⟩ (numberTokens k ++ ts) r rest := by
  cases k with
  | none => exact h
  | some k => exact number rfl h

theorem step {a b k : Option Int64} (h : SliceGives 2 ⟨a, b, k⟩ ts r rest) :
    SliceGives 2 ⟨a, b, none⟩ (numberTokens k ++ ts) r rest := by
  cases k with
  | none => exact h
  | some k => exact number rfl h

end SliceGives

theorem SliceTokens.gives {parts : SliceParts} {inner : List TokenKind}
    (h : SliceTokens parts inner) (rest : List TokenKind) :
    ∃ i, i ≠ 0 ∧ SliceGives 0 ⟨none, none, none⟩ (inner ++ .symbol .rightBracket :: rest)
      (i, parts) rest := by
  cases h with
  | short a b =>
    refine ⟨1, by decide, ?_⟩
    simp only [List.append_assoc, List.cons_append]
    exact .start (.colon (Nat.le_succ 1) (.stop .close))
  | long a b c =>
    refine ⟨2, by decide, ?_⟩
    simp only [List.append_assoc, List.cons_append]
    exact .start (.colon (Nat.le_succ 1) (.stop (.colon (Nat.le_refl 2) (.step .close))))

theorem SliceTokens.head {parts : SliceParts} {inner : List TokenKind}
    (h : SliceTokens parts inner) :
    ∃ k inner', inner = k :: inner' ∧ (k = .symbol .colon ∨ ∃ n, k = .number n) := by
  cases h with
  | short a b =>
    cases a with
    | none => exact ⟨_, _, rfl, .inl rfl⟩
    | some a => exact ⟨_, _, rfl, .inr ⟨a, rfl⟩⟩
  | long a b c =>
    cases a with
    | none => exact ⟨_, _, rfl, .inl rfl⟩
    | some a => exact ⟨_, _, rfl, .inr ⟨a, rfl⟩⟩

/-- What it means that the rule for a phrase takes `ts` to `e` and `rest`, whatever bounds above
the number of tokens its loops are given. -/
def Runs : Phrase → List TokenKind → Expr → List TokenKind → Prop
  | .expression p, ts, e, rest => ∀ n, ts.length < n → Gives (expressionWithin n p) ts e rest
  | .climb p left, ts, e, rest => ∀ n fuel, ts.length ≤ n → ts.length < fuel →
    Gives (climb (expressionWithin n) p fuel left) ts e rest
  | .head, ts, e, rest => ∀ n, ts.length ≤ n → Gives (head (expressionWithin n)) ts e rest
  | .extend left, ts, e, rest => ∀ n, ts.length ≤ n →
    Gives (extend (expressionWithin n) left) ts e rest
  | .bracket left, ts, e, rest => ∀ n, ts.length ≤ n →
    Gives (extend (expressionWithin n) left) ts e rest ∧
      (left = .currentNode → Gives (head (expressionWithin n)) ts e rest)
  | .afterDot p, ts, e, rest => ∀ n, ts.length < n →
    Gives (afterDot (expressionWithin n) p) ts e rest
  | .body p, ts, e, rest => ∀ n, ts.length < n →
    Gives (projectionBody (expressionWithin n) p) ts e rest
  | .items, ts, e, rest => ∃ items, e = .multiSelectList items ∧ ∀ n o fuel, ts.length < n →
    ts.length < fuel → o.symbol.closer = .rightBracket →
      Gives (listItems (expressionWithin n) o fuel) ts items rest
  | .pairs, ts, e, rest => ∃ pairs, e = .multiSelectHash pairs ∧ ∀ n o fuel isFirst,
    ts.length < n → ts.length < fuel → o.symbol.closer = .rightBrace →
      Gives (hashPairs (expressionWithin n) o fuel isFirst) ts pairs rest
  | .arguments name, ts, e, rest => ∃ args, e = .functionCall name args ∧ ∀ n o fuel,
    ts.length < n → ts.length < fuel → Gives (arguments (expressionWithin n) o fuel) ts args rest
  | .argument, ts, e, rest => ∀ n o, ts.length < n →
    Gives (argument (expressionWithin n) o) ts e rest

section

variable {n : Nat}

theorem gives_grouped {o : Opening} (hts : ts ≠ [])
    (h : Runs (.expression 0) ts e rest) (hn : ts.length < n) :
    Gives (grouped (expressionWithin n) o) ts e rest := by
  refine .currentEnd fun t ht ↦ ?_
  have hend : t.kind.isEnd = false := by rw [ht]; simpa using hts
  rw [hend]
  exact h n hn

theorem gives_multiSelectList {o : Opening} (ho : o.symbol.closer = .rightBracket)
    (h : Runs .items ts e rest) (hn : ts.length < n) :
    Gives (multiSelectList (expressionWithin n) o) ts e rest := by
  obtain ⟨items, rfl, h⟩ := h
  exact .turns (.map (h n o _ hn (Nat.lt_succ_self _) ho))

theorem gives_multiSelectHash {o : Opening} (ho : o.symbol.closer = .rightBrace)
    (h : Runs .pairs ts e rest) (hn : ts.length < n) :
    Gives (multiSelectHash (expressionWithin n) o) ts e rest := by
  obtain ⟨pairs, rfl, h⟩ := h
  exact .turns (.map (h n o _ true hn (Nat.lt_succ_self _) ho))

theorem gives_index {left : Expr} {o : Opening} {i : Int64} :
    Gives (indexOrSlice (expressionWithin n) left o) (.number i :: .symbol .rightBracket :: ts)
      (access left (.index i)) ts := by
  have h : SliceGives 0 ⟨none, none, none⟩ (.number i :: .symbol .rightBracket :: ts)
    (0, ⟨some i, none, none⟩) ts := .number rfl .close
  exact .turns (.bind (h o _ (Nat.lt_succ_self _)) .pure)

theorem gives_slice {left body : Expr} {o : Opening} {parts : SliceParts}
    {inner : List TokenKind} (hinner : SliceTokens parts inner) (hstep : parts.step ≠ some 0)
    (hbody : Runs (.body 20) ts body rest) (hn : ts.length < n) :
    Gives (indexOrSlice (expressionWithin n) left o) (inner ++ .symbol .rightBracket :: ts)
      (.projection (access left (.slice parts.start parts.stop parts.step)) body) rest := by
  obtain ⟨i, hi, h⟩ := hinner.gives ts
  refine .turns (.bind (h o _ (Nat.lt_succ_self _)) ?_)
  dsimp only
  rw [if_neg hi, if_neg hstep]
  exact .bind (hbody n hn) .pure

end

theorem gives_list {n : Nat} (hlist : opensList ts = true) (h : Runs .items ts e rest)
    (hn : ts.length < n) :
    Gives (head (expressionWithin n)) (.symbol .leftBracket :: ts) e rest := by
  refine .current fun t ht ↦ ?_
  rw [ht]
  refine .advance (.current fun t' ht' ↦ ?_)
  split
  case h_1 k hk =>
    obtain ⟨ts, rfl⟩ := eq_cons_of_head (hk ▸ ht') rfl
    cases hlist
  case h_2 hk =>
    obtain ⟨ts, rfl⟩ := eq_cons_of_head (hk ▸ ht') rfl
    cases hlist
  case h_3 hk =>
    obtain ⟨ts, rfl⟩ := eq_cons_of_head (hk ▸ ht') rfl
    refine .peek fun t'' ht'' ↦ ?_
    rw [opensList_star] at hlist
    rw [ht'', if_neg (by simpa using hlist)]
    exact gives_multiSelectList rfl h hn
  case h_4 => exact gives_multiSelectList rfl h hn

theorem gives_bracketNumber {n : Nat} {left : Expr} {k : TokenKind}
    (hk : k = .symbol .colon ∨ ∃ n, k = .number n)
    (h : ∀ o, Gives (indexOrSlice (expressionWithin n) left o) (k :: ts) e rest) :
    Gives (extend (expressionWithin n) left) (.symbol .leftBracket :: k :: ts) e rest ∧
      (left = .currentNode →
        Gives (head (expressionWithin n)) (.symbol .leftBracket :: k :: ts) e rest) := by
  constructor
  · refine .current fun t ht ↦ ?_
    rw [ht]
    refine .advance (.current fun t' ht' ↦ ?_)
    rw [ht']
    rcases hk with rfl | ⟨_, rfl⟩ <;> exact h _
  · rintro rfl
    refine .current fun t ht ↦ ?_
    rw [ht]
    refine .advance (.current fun t' ht' ↦ ?_)
    rw [ht']
    rcases hk with rfl | ⟨_, rfl⟩ <;> exact h _

theorem gives_climb_step {n fuel p : Nat} {left left' : Expr} (hp : p < power ts)
    (hextend : Reads (.extend left) ts left' mid) (hleft : Runs (.extend left) ts left' mid)
    (h : Runs (.climb p left') mid e rest) (hn : ts.length ≤ n) (hfuel : ts.length < fuel) :
    Gives (climb (expressionWithin n) p fuel left) ts e rest := by
  have hmid : mid.length + 1 ≤ ts.length := hextend.length_le
  cases fuel with
  | zero => omega
  | succ fuel =>
    refine .current fun t ht ↦ ?_
    rw [ht]
    refine (if_pos (c := p < power ts) hp).symm ▸ ?_
    exact .bind (hleft n hn) (h n fuel (by omega) (by omega))

theorem gives_climb_stop {n fuel p : Nat} {left : Expr} (hp : power ts ≤ p)
    (hfuel : ts.length < fuel) : Gives (climb (expressionWithin n) p fuel left) ts left ts := by
  cases fuel with
  | zero => omega
  | succ fuel =>
    refine .current fun t ht ↦ ?_
    rw [ht, if_neg (show ¬p < (ts.headD .endOfInput).leftPower from Nat.not_lt_of_le hp)]
    exact .pure

theorem gives_binary {n : Nat} {s : Symbol} {tree : Expr → Expr → Expr} {left right : Expr}
    (hs : binary? s = some tree) (h : Runs (.expression s.leftPower) ts right rest)
    (hn : ts.length < n) :
    Gives (extend (expressionWithin n) left) (.symbol s :: ts) (tree left right) rest := by
  refine .current fun t ht ↦ ?_
  rw [ht]
  cases s <;> cases hs <;> exact .advance (.map (h n hn))

theorem gives_call {n : Nat} {name : String} (hname : (Builtin.ofName? name).isSome)
    (h : Runs (.arguments name) ts e rest) (hn : ts.length < n) :
    Gives (extend (expressionWithin n) (.field name)) (.symbol .leftParen :: ts) e rest := by
  obtain ⟨args, rfl, h⟩ := h
  have hnone : ¬(Builtin.ofName? name).isNone = true := by
    rw [Option.isNone_iff_eq_none]
    exact Option.isSome_iff_ne_none.mp hname
  refine .current fun t ht ↦ ?_
  rw [ht]
  refine .previousPosition fun _ ↦ .advance ?_
  rw [functionCall, if_neg hnone]
  exact .turns (.map (h n _ _ hn (Nat.lt_succ_self _)))

theorem runs_flatten {left body : Expr} (h : Runs (.body 9) ts body rest) :
    Runs (.bracket left) (.symbol .flatten :: ts) (.projection (.flatten left) body) rest := by
  intro n hn
  constructor
  · refine .current fun t ht ↦ ?_
    rw [ht]
    exact .advance (.map (h n hn))
  · rintro rfl
    refine .current fun t ht ↦ ?_
    rw [ht]
    exact .advance (.bind (h n hn) .pure)

theorem runs_filter {left predicate body : Expr}
    (hpredicate : Reads (.expression 0) ts predicate (.symbol .rightBracket :: mid))
    (ihPredicate : Runs (.expression 0) ts predicate (.symbol .rightBracket :: mid))
    (ihBody : Runs (.body 21) mid body rest) :
    Runs (.bracket left) (.symbol .filter :: ts) (.filterProjection left predicate body) rest := by
  intro n hn
  have hmid : mid.length + 1 + 1 ≤ ts.length := hpredicate.length_le
  have h : ∀ position, Gives (filter (expressionWithin n) left ⟨.filter, position⟩) ts
      (.filterProjection left predicate body) rest := by
    intro position
    refine .bind (gives_grouped (hpredicate.ne_nil rfl) ihPredicate hn) ?_
    exact .expectCloser (o := ⟨.filter, position⟩)
      (.bind (ihBody n (by simp only [List.length_cons] at hn; omega)) .pure)
  constructor
  · refine .current fun t ht ↦ ?_
    rw [ht]
    exact .advance (h _)
  · rintro rfl
    refine .current fun t ht ↦ ?_
    rw [ht]
    exact .advance (h _)

theorem runs_wildcard {left body : Expr} (h : Runs (.body 20) ts body rest) :
    Runs (.bracket left) (.symbol .leftBracket :: .symbol .star :: .symbol .rightBracket :: ts)
      (.projection left body) rest := by
  intro n hn
  have hts : ts.length < n := by
    simp only [List.length_cons] at hn
    omega
  constructor
  · refine .current fun t ht ↦ ?_
    rw [ht]
    refine .advance (.current fun t' ht' ↦ ?_)
    rw [ht']
    exact .advance (.expectCloser (o := ⟨.leftBracket, _⟩) (.map (h n hts)))
  · rintro rfl
    refine .current fun t ht ↦ ?_
    rw [ht]
    refine .advance (.current fun t' ht' ↦ ?_)
    rw [ht']
    refine .peek fun t'' ht'' ↦ ?_
    rw [ht'']
    exact .advance (.advance (.bind (h n hts) .pure))

theorem runs_lastItem (hne : ts ≠ [])
    (h : Runs (.expression 0) ts e (.symbol .rightBracket :: rest)) :
    Runs .items ts (.multiSelectList [e]) rest := by
  refine ⟨_, rfl, fun n o fuel hn hfuel ho ↦ ?_⟩
  cases fuel with
  | zero => omega
  | succ fuel =>
    refine .bind (gives_grouped hne h hn) (.check _ ?_)
    change Gives (do expectCloser o; pure [e]) _ _ _
    rw [← ho]
    exact .expectCloser .pure

theorem runs_item {es : List Expr} (hne : ts ≠ [])
    (h : Runs (.expression 0) ts e (.symbol .comma :: mid)) (hmid : mid.length < ts.length)
    (hs : Runs .items mid (.multiSelectList es) rest) :
    Runs .items ts (.multiSelectList (e :: es)) rest := by
  obtain ⟨items, hitems, hs⟩ := hs
  cases hitems
  refine ⟨_, rfl, fun n o fuel hn hfuel ho ↦ ?_⟩
  cases fuel with
  | zero => omega
  | succ fuel =>
    refine .bind (gives_grouped hne h hn) (.check _ (.advance ?_))
    exact .bind (hs n o fuel (by omega) (by omega) ho) .pure

theorem gives_hashKey {o : Opening} {isFirst : Bool} {k : TokenKind} {key : String}
    (hk : name? k = some key) : Gives (hashKey o isFirst) (k :: ts) key ts := by
  refine .current fun t ht ↦ ?_
  rw [ht]
  cases k <;> cases hk <;> exact .advance .pure

theorem runs_lastPair {k : TokenKind} {key : String} (hne : ts ≠ []) (hk : name? k = some key)
    (h : Runs (.expression 0) ts e (.symbol .rightBrace :: rest)) :
    Runs .pairs (k :: .symbol .colon :: ts) (.multiSelectHash [(key, e)]) rest := by
  refine ⟨_, rfl, fun n o fuel isFirst hn hfuel ho ↦ ?_⟩
  simp only [List.length_cons] at hn hfuel
  cases fuel with
  | zero => omega
  | succ fuel =>
    refine .bind (gives_hashKey hk) (.check _ (.advance ?_))
    refine .bind (gives_grouped hne h (by omega)) (.check _ ?_)
    change Gives (do expectCloser o; pure [(key, e)]) _ _ _
    rw [← ho]
    exact .expectCloser .pure

theorem runs_pair {k : TokenKind} {key : String} {ps : List (String × Expr)} (hne : ts ≠ [])
    (hk : name? k = some key) (h : Runs (.expression 0) ts e (.symbol .comma :: mid))
    (hmid : mid.length < ts.length) (hs : Runs .pairs mid (.multiSelectHash ps) rest) :
    Runs .pairs (k :: .symbol .colon :: ts) (.multiSelectHash ((key, e) :: ps)) rest := by
  obtain ⟨pairs, hpairs, hs⟩ := hs
  cases hpairs
  refine ⟨_, rfl, fun n o fuel isFirst hn hfuel ho ↦ ?_⟩
  simp only [List.length_cons] at hn hfuel
  cases fuel with
  | zero => omega
  | succ fuel =>
    refine .bind (gives_hashKey hk) (.check _ (.advance ?_))
    refine .bind (gives_grouped hne h (by omega)) (.check _ (.advance ?_))
    exact .bind (hs n o fuel false (by omega) (by omega) ho) .pure

theorem runs_noArguments {f : String} :
    Runs (.arguments f) (.symbol .rightParen :: ts) (.functionCall f []) ts := by
  refine ⟨_, rfl, fun n o fuel _ hfuel ↦ ?_⟩
  cases fuel with
  | zero => omega
  | succ fuel => exact .check _ (.advance .pure)

theorem runs_lastArgument {f : String} (hstart : startsSymbol .rightParen ts = false)
    (h : Runs .argument ts e (.symbol .rightParen :: rest)) :
    Runs (.arguments f) ts (.functionCall f [e]) rest := by
  refine ⟨_, rfl, fun n o fuel hn hfuel ↦ ?_⟩
  cases fuel with
  | zero => omega
  | succ fuel =>
    refine .check _ ?_
    rw [hstart]
    exact .bind (h n o hn) (.check _ (.check _ (.advance .pure)))

theorem runs_nextArgument {f : String} {args : List Expr}
    (hstart : startsSymbol .rightParen ts = false)
    (h : Runs .argument ts e (.symbol .comma :: mid)) (hmid : mid.length < ts.length)
    (hparen : startsSymbol .rightParen mid = false)
    (hs : Runs (.arguments f) mid (.functionCall f args) rest) :
    Runs (.arguments f) ts (.functionCall f (e :: args)) rest := by
  obtain ⟨args', hargs, hs⟩ := hs
  cases hargs
  refine ⟨_, rfl, fun n o fuel hn hfuel ↦ ?_⟩
  cases fuel with
  | zero => omega
  | succ fuel =>
    refine .check _ ?_
    rw [hstart]
    refine .bind (h n o hn) (.check _ (.advance (.check _ ?_)))
    rw [hparen]
    exact .bind (hs n o fuel (by omega) (by omega)) .pure

theorem runs_reference (hne : ts ≠ []) (h : Runs (.expression 0) ts e rest) :
    Runs .argument (.symbol .ampersand :: ts) (.expressionRef e) rest := by
  intro n o hn
  exact .check _ (.advance (.map (gives_grouped hne h (Nat.lt_of_succ_lt hn))))

theorem runs_plain (hne : ts ≠ []) (hstart : startsSymbol .ampersand ts = false)
    (h : Runs (.expression 0) ts e rest) : Runs .argument ts e rest := by
  intro n o hn
  refine .check _ ?_
  rw [hstart]
  exact gives_grouped hne h hn

theorem Reads.starts_of_argument (h : Reads .argument ts e rest) :
    startsSymbol .rightParen ts = false := by
  cases h with
  | reference => rfl
  | plain h => exact h.starts_of_expression (.inr rfl)

theorem Reads.runs {φ : Phrase} (h : Reads φ ts e rest) : Runs φ ts e rest := by
  induction h with
  | expression hhead hclimb ihHead ihClimb =>
    intro n hn
    have hmid : _ + 1 ≤ _ := hhead.length_le
    cases n with
    | zero => omega
    | succ n =>
      refine .bind (ihHead n (by omega)) (.turns ?_)
      exact ihClimb n _ (by omega) (Nat.lt_succ_self _)
  | stop hp => exact fun n fuel _ hfuel ↦ gives_climb_stop hp hfuel
  | step hp hextend _ ihExtend ihClimb =>
    exact fun n fuel hn hfuel ↦ gives_climb_step hp hextend ihExtend ihClimb hn hfuel
  | current | identifier | literal | rawString =>
    intro n _
    refine .current fun t ht ↦ ?_
    rw [ht]
    exact .advance .pure
  | quotedIdentifier hparen =>
    intro n _
    refine .current fun t ht ↦ ?_
    rw [ht]
    refine .advance (.check _ ?_)
    rw [hparen]
    exact .pure
  | values _ ih =>
    intro n hn
    refine .current fun t ht ↦ ?_
    rw [ht]
    exact .advance (.bind (ih n hn) .pure)
  | implicit _ ih => exact fun n hn ↦ (ih n hn).2 rfl
  | list hlist _ ih => exact fun n hn ↦ gives_list hlist ih hn
  | hash _ ih =>
    intro n hn
    refine .current fun t ht ↦ ?_
    rw [ht]
    exact .advance (gives_multiSelectHash rfl ih hn)
  | not _ ih =>
    intro n hn
    refine .current fun t ht ↦ ?_
    rw [ht]
    exact .advance (.map (ih n hn))
  | group h ih =>
    intro n hn
    refine .current fun t ht ↦ ?_
    rw [ht]
    exact .advance (.bind (gives_grouped (h.ne_nil rfl) ih hn)
      (.expectCloser (o := ⟨.leftParen, _⟩) .pure))
  | dot _ ih =>
    intro n hn
    refine .current fun t ht ↦ ?_
    rw [ht]
    exact .advance (.map (ih n hn))
  | binary hs _ ih => exact fun n hn ↦ gives_binary hs ih hn
  | explicit _ ih => exact fun n hn ↦ (ih n hn).1
  | call hname _ ih => exact fun n hn ↦ gives_call hname ih hn
  | flatten _ ih => exact runs_flatten ih
  | filter hpredicate _ ihPredicate ihBody => exact runs_filter hpredicate ihPredicate ihBody
  | index => exact fun n _ ↦ gives_bracketNumber (.inr ⟨_, rfl⟩) fun _ ↦ gives_index
  | slice hinner hstep _ ih =>
    intro n hn
    obtain ⟨k, inner, rfl, hk⟩ := hinner.head
    simp only [List.length_cons, List.length_append] at hn
    exact gives_bracketNumber hk fun _ ↦ gives_slice hinner hstep ih (by omega)
  | wildcard _ ih => exact runs_wildcard ih
  | dotList _ ih =>
    intro n hn
    refine .current fun t ht ↦ ?_
    rw [ht]
    exact .advance (gives_multiSelectList rfl ih (Nat.lt_of_succ_lt hn))
  | dotHash _ ih =>
    intro n hn
    refine .current fun t ht ↦ ?_
    rw [ht]
    exact .advance (gives_multiSelectHash rfl ih (Nat.lt_of_succ_lt hn))
  | dotName hname _ ih =>
    intro n hn
    refine .current fun t ht ↦ ?_
    rw [ht]
    unfold startsName at hname
    split at hname
    · exact ih n hn
    · exact ih n hn
    · exact ih n hn
    · cases hname
  | @element p ts hp =>
    intro n _
    refine .current fun t ht ↦ ?_
    rw [ht, if_pos (show (ts.headD .endOfInput).leftPower < projectionStop from hp)]
    exact .pure
  | bodyDot _ ih =>
    intro n hn
    refine .current fun t ht ↦ ?_
    rw [ht]
    exact .advance (ih n (Nat.lt_of_succ_lt hn))
  | bodyBracket hbracket _ ih =>
    intro n hn
    refine .current fun t ht ↦ ?_
    rw [ht]
    unfold startsBracket at hbracket
    split at hbracket
    · exact ih n hn
    · exact ih n hn
    · cases hbracket
  | lastItem h ih => exact runs_lastItem (h.ne_nil rfl) ih
  | item h _ ih ihItems => exact runs_item (h.ne_nil rfl) ih (Nat.lt_of_succ_lt h.length_le) ihItems
  | lastPair hk h ih => exact runs_lastPair (h.ne_nil rfl) hk ih
  | pair hk h _ ih ihPairs =>
    exact runs_pair (h.ne_nil rfl) hk ih (Nat.lt_of_succ_lt h.length_le) ihPairs
  | noArguments => exact runs_noArguments
  | lastArgument h ih => exact runs_lastArgument h.starts_of_argument ih
  | nextArgument h hparen _ ih ihArguments =>
    exact runs_nextArgument h.starts_of_argument ih (Nat.lt_of_succ_lt h.length_le) hparen
      ihArguments
  | reference h ih => exact runs_reference (h.ne_nil rfl) ih
  | plain h ih => exact runs_plain (h.ne_nil rfl) (h.starts_of_expression (.inl rfl)) ih

theorem Reads.complete (h : Reads (.expression 0) ts e []) : Gives complete ts e [] :=
  .bind (.turns (h.runs _ (Nat.lt_succ_self _))) (.current fun t ht ↦ by rw [ht]; exact .pure)

/-- What a list of tokens spells, where the end of the text is the last token and no other. -/
theorem ofTokens_eq_ok_iff {tokens : List Token} {kinds : List TokenKind}
    (hkinds : tokens.map Token.kind = kinds ++ [.endOfInput]) (hend : .endOfInput ∉ kinds) :
    Expr.ofTokens tokens = .ok e ↔ Reads (.expression 0) kinds e [] := by
  have hshows : (TokenCursor.ofTokens tokens).Shows kinds := by
    cases tokens with
    | nil => simp at hkinds
    | cons t tokens => exact ⟨hkinds, hend⟩
  unfold Expr.ofTokens EStateM.run
  constructor
  · intro h
    cases hrun : (Parser.complete : ParseM Expr) (TokenCursor.ofTokens tokens) with
    | ok e' c' =>
      rw [hrun] at h
      cases h
      obtain ⟨_, _, _, hreads⟩ := ensures_complete _ _ _ hshows hrun
      exact hreads
    | error f c' => rw [hrun] at h; cases h
  · intro h
    obtain ⟨c', hrun, _⟩ := h.complete _ hshows
    rw [hrun]

end PathQuery.Parser
