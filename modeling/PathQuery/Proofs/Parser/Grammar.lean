import PathQuery.Proofs.Parser.Reading

namespace PathQuery.Parser

/-- Whether a chain of steps ends in a projection, so that a list in brackets can follow. -/
inductive Openness where
  | closed
  | opened

inductive Nonterminal where
  | expression
  | unary
  | chain (o : Openness)
  | head (o : Openness)
  /-- A step behind a chain, and what it makes of it. -/
  | step (before after : Openness)
  | opener
  | items
  | pairs
  /-- A name, in parentheses or not. -/
  | name (n : String)
  | callee (n : String)
  | arguments
  | argumentList
  | argument

/-- The query language: the lists of tokens that each nonterminal derives. -/
inductive Derives : Nonterminal → List TokenKind → Prop
  | unary {ts : List TokenKind} : Derives .unary ts → Derives .expression ts
  | operator {s : Symbol} {ts us : List TokenKind} :
    (binary? s).isSome → Derives .expression ts → Derives .unary us →
    Derives .expression (ts ++ .symbol s :: us)
  | not {ts : List TokenKind} : Derives .unary ts → Derives .unary (.symbol .not :: ts)
  | chain {o : Openness} {ts : List TokenKind} : Derives (.chain o) ts → Derives .unary ts
  | head {o : Openness} {ts : List TokenKind} : Derives (.head o) ts → Derives (.chain o) ts
  | step {o o' : Openness} {ts us : List TokenKind} :
    Derives (.chain o) ts → Derives (.step o o') us → Derives (.chain o') (ts ++ us)
  | current : Derives (.head .closed) [.symbol .current]
  | literal (v : Value) : Derives (.head .closed) [.literal v]
  | rawString (s : String) : Derives (.head .closed) [.rawString s]
  | identifier (n : String) : Derives (.head .closed) [.identifier n]
  | quotedIdentifier (n : String) : Derives (.head .closed) [.quotedIdentifier n]
  | call {n : String} {ts us : List TokenKind} :
    Derives (.callee n) ts → (Builtin.ofName? n).isSome → Derives .arguments us →
    Derives (.head .closed) (ts ++ .symbol .leftParen :: (us ++ [.symbol .rightParen]))
  | group {ts : List TokenKind} :
    Derives .expression ts →
    Derives (.head .closed) (.symbol .leftParen :: (ts ++ [.symbol .rightParen]))
  | hash {ts : List TokenKind} :
    Derives .pairs ts →
    Derives (.head .closed) (.symbol .leftBrace :: (ts ++ [.symbol .rightBrace]))
  | headIndex (i : Int64) :
    Derives (.head .closed) [.symbol .leftBracket, .number i, .symbol .rightBracket]
  | headList {ts : List TokenKind} :
    Derives .items ts → ts ≠ [.symbol .star] →
    Derives (.head .closed) (.symbol .leftBracket :: (ts ++ [.symbol .rightBracket]))
  | headStar : Derives (.head .opened) [.symbol .star]
  | headOpener {ts : List TokenKind} : Derives .opener ts → Derives (.head .opened) ts
  | dotIdentifier (o : Openness) (n : String) :
    Derives (.step o .closed) [.symbol .dot, .identifier n]
  | dotQuotedIdentifier (o : Openness) (n : String) :
    Derives (.step o .closed) [.symbol .dot, .quotedIdentifier n]
  | dotCall (o : Openness) {n : String} {ts : List TokenKind} :
    (Builtin.ofName? n).isSome → Derives .arguments ts →
    Derives (.step o .closed)
      (.symbol .dot :: .identifier n :: .symbol .leftParen :: (ts ++ [.symbol .rightParen]))
  | dotList (o : Openness) {ts : List TokenKind} :
    Derives .items ts →
    Derives (.step o .closed)
      (.symbol .dot :: .symbol .leftBracket :: (ts ++ [.symbol .rightBracket]))
  | dotHash (o : Openness) {ts : List TokenKind} :
    Derives .pairs ts →
    Derives (.step o .closed)
      (.symbol .dot :: .symbol .leftBrace :: (ts ++ [.symbol .rightBrace]))
  | dotStar (o : Openness) : Derives (.step o .opened) [.symbol .dot, .symbol .star]
  | index (o : Openness) (i : Int64) :
    Derives (.step o .closed) [.symbol .leftBracket, .number i, .symbol .rightBracket]
  | opener (o : Openness) {ts : List TokenKind} :
    Derives .opener ts → Derives (.step o .opened) ts
  | list {ts : List TokenKind} :
    Derives .items ts → ts ≠ [.symbol .star] →
    Derives (.step .opened .closed) (.symbol .leftBracket :: (ts ++ [.symbol .rightBracket]))
  | wildcard :
    Derives .opener [.symbol .leftBracket, .symbol .star, .symbol .rightBracket]
  | slice {parts : SliceParts} {ts : List TokenKind} :
    SliceTokens parts ts → parts.step ≠ some 0 →
    Derives .opener (.symbol .leftBracket :: (ts ++ [.symbol .rightBracket]))
  | flatten : Derives .opener [.symbol .flatten]
  | filter {ts : List TokenKind} :
    Derives .expression ts → Derives .opener (.symbol .filter :: (ts ++ [.symbol .rightBracket]))
  | lastItem {ts : List TokenKind} : Derives .expression ts → Derives .items ts
  | item {ts us : List TokenKind} :
    Derives .expression ts → Derives .items us → Derives .items (ts ++ .symbol .comma :: us)
  | lastPair {k : TokenKind} {key : String} {ts : List TokenKind} :
    name? k = some key → Derives .expression ts → Derives .pairs (k :: .symbol .colon :: ts)
  | pair {k : TokenKind} {key : String} {ts us : List TokenKind} :
    name? k = some key → Derives .expression ts → Derives .pairs us →
    Derives .pairs (k :: .symbol .colon :: (ts ++ .symbol .comma :: us))
  | bareName {k : TokenKind} {n : String} : name? k = some n → Derives (.name n) [k]
  | groupedName {n : String} {ts : List TokenKind} :
    Derives (.name n) ts →
    Derives (.name n) (.symbol .leftParen :: (ts ++ [.symbol .rightParen]))
  | bareCallee (n : String) : Derives (.callee n) [.identifier n]
  | groupedCallee {n : String} {ts : List TokenKind} :
    Derives (.name n) ts →
    Derives (.callee n) (.symbol .leftParen :: (ts ++ [.symbol .rightParen]))
  | noArguments : Derives .arguments []
  | someArguments {ts : List TokenKind} : Derives .argumentList ts → Derives .arguments ts
  | lastArgument {ts : List TokenKind} : Derives .argument ts → Derives .argumentList ts
  | nextArgument {ts us : List TokenKind} :
    Derives .argument ts → Derives .argumentList us →
    Derives .argumentList (ts ++ .symbol .comma :: us)
  | reference {ts : List TokenKind} :
    Derives .expression ts → Derives .argument (.symbol .ampersand :: ts)
  | value {ts : List TokenKind} : Derives .expression ts → Derives .argument ts

inductive Stage where
  | start
  | after (o : Openness)

/-- The tokens that lead from a place in an expression to an end of it, read from left to right
where the grammar builds chains and operators from the left. -/
inductive Leads : Stage → List TokenKind → Prop
  | done (o : Openness) : Leads (.after o) []
  | not {ts : List TokenKind} : Leads .start ts → Leads .start (.symbol .not :: ts)
  | head {o : Openness} {ts us : List TokenKind} :
    Derives (.head o) ts → Leads (.after o) us → Leads .start (ts ++ us)
  | operator {o : Openness} {s : Symbol} {ts : List TokenKind} :
    (binary? s).isSome → Leads .start ts → Leads (.after o) (.symbol s :: ts)
  | step {o o' : Openness} {ts us : List TokenKind} :
    Derives (.step o o') ts → Leads (.after o') us → Leads (.after o) (ts ++ us)

def Contributes : Nonterminal → List TokenKind → Prop
  | .expression, ts => ∃ o, ∀ us, Leads (.after o) us → Leads .start (ts ++ us)
  | .unary, ts => ∃ o, ∀ us, Leads (.after o) us → Leads .start (ts ++ us)
  | .chain o, ts => ∀ us, Leads (.after o) us → Leads .start (ts ++ us)
  | _, _ => True

theorem Derives.contributes {x : Nonterminal} {ts : List TokenKind} (h : Derives x ts) :
    Contributes x ts := by
  induction h with
  | unary _ ih => exact ih
  | operator hs _ _ ih ihRight =>
    obtain ⟨o, ih⟩ := ih
    obtain ⟨o', ihRight⟩ := ihRight
    refine ⟨o', fun us hus ↦ ?_⟩
    rw [List.append_assoc]
    exact ih _ (.operator hs (ihRight us hus))
  | not _ ih =>
    obtain ⟨o, ih⟩ := ih
    exact ⟨o, fun us hus ↦ .not (ih us hus)⟩
  | chain _ ih => exact ⟨_, ih⟩
  | head h => exact fun us hus ↦ .head h hus
  | step _ hstep ih =>
    intro us hus
    rw [List.append_assoc]
    exact ih _ (.step hstep hus)
  | _ => trivial

theorem Derives.leads {ts : List TokenKind} (h : Derives .expression ts) : Leads .start ts := by
  obtain ⟨o, ho⟩ := h.contributes
  simpa using ho [] (.done o)

theorem Derives.not_expression {ts : List TokenKind} (h : Derives .expression ts) :
    Derives .expression (.symbol .not :: ts) := by
  generalize hx : Nonterminal.expression = x at h
  induction h with
  | unary h => exact .unary (.not h)
  | operator hs _ hus ih => exact .operator hs (ih hx) hus
  | _ => cases hx

theorem Derives.operator_expression {s : Symbol} {ts us : List TokenKind}
    (hs : (binary? s).isSome) (hts : Derives .unary ts) (h : Derives .expression us) :
    Derives .expression (ts ++ .symbol s :: us) := by
  generalize hx : Nonterminal.expression = x at h
  induction h with
  | unary h => exact .operator hs (.unary hts) h
  | operator hs' _ hus ih =>
    have := Derives.operator hs' (ih hx) hus
    simpa using this
  | _ => cases hx

def Completes : Stage → List TokenKind → Prop
  | .start, ts => Derives .expression ts
  | .after o, ts => ∀ us, Derives (.chain o) us → Derives .expression (us ++ ts)

theorem Leads.completes {g : Stage} {ts : List TokenKind} (h : Leads g ts) : Completes g ts := by
  induction h with
  | done o =>
    intro us hus
    rw [List.append_nil]
    exact .unary (.chain hus)
  | not _ ih => exact Derives.not_expression ih
  | head h _ ih => exact ih _ (.head h)
  | operator hs _ ih => exact fun us hus ↦ Derives.operator_expression hs (.chain hus) ih
  | step h _ ih =>
    intro us hus
    rw [← List.append_assoc]
    exact ih _ (.step hus h)

theorem leads_iff {ts : List TokenKind} : Leads .start ts ↔ Derives .expression ts :=
  ⟨Leads.completes, Derives.leads⟩

end PathQuery.Parser
