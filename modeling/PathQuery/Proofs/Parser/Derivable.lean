import PathQuery.Proofs.Parser.Grammar

namespace PathQuery.Parser

variable {ts us pre rest mid : List TokenKind} {e left : Expr} {o o' : Openness}

def Fits (g : Stage) (pre : List TokenKind) (o : Openness) : Prop :=
  ∀ us, Leads (.after o) us → Leads g (pre ++ us)

theorem Fits.append {g : Stage} (h : Fits g pre o) (h' : Fits (.after o) us o') :
    Fits g (pre ++ us) o' := by
  intro ws hws
  rw [List.append_assoc]
  exact h _ (h' ws hws)

theorem Fits.derives (h : Fits .start pre o) : Derives .expression pre := by
  have := h [] (.done o)
  rw [List.append_nil] at this
  exact leads_iff.mp this

theorem fits_nil (g : Openness) : Fits (.after g) [] g := fun _ h ↦ h

theorem fits_of_step (h : Derives (.step o o') ts) : Fits (.after o) ts o' :=
  fun _ hus ↦ .step h hus

theorem fits_of_head (h : Derives (.head o) ts) : Fits .start ts o := fun _ hus ↦ .head h hus

/-- `pre` can stand wherever the parser reads an expression that starts like `ts`: at the start of
one, behind a dot, or as the body of a projection. -/
structure Enters (ts pre : List TokenKind) (o : Openness) : Prop where
  start : Fits .start pre o
  dot : startsName ts = true → ∀ a, Fits (.after a) (.symbol .dot :: pre) o
  bracket : startsBracket ts = true → Fits (.after .opened) pre o

theorem Enters.append (h : Enters ts pre o) (h' : Fits (.after o) us o') :
    Enters ts (pre ++ us) o' where
  start := h.start.append h'
  dot hts a := (h.dot hts a).append h'
  bracket hts := (h.bracket hts).append h'

theorem Enters.of_start (h : Fits .start pre o) (hname : startsName ts = false)
    (hbracket : startsBracket ts = false) : Enters ts pre o where
  start := h
  dot hts := by rw [hname] at hts; cases hts
  bracket hts := by rw [hbracket] at hts; cases hts

def callTokens (args : List TokenKind) : List TokenKind :=
  .symbol .leftParen :: (args ++ [.symbol .rightParen])

def Callable (left : Expr) (ts pre : List TokenKind) : Prop :=
  ∀ n, left = .field n → (Builtin.ofName? n).isSome → ∀ args, Derives .arguments args →
    Enters ts (pre ++ callTokens args) .closed

/-- What the tokens taken by the rule for a phrase are in the grammar. -/
def Fitting : Phrase → List TokenKind → Expr → List TokenKind → Prop
  | .expression _, ts, e, rest => ∃ pre o, ts = pre ++ rest ∧ Enters ts pre o ∧
    ∀ n, e = .field n → Derives (.name n) pre
  | .climb _ left, ts, e, rest => ∃ pre, ts = pre ++ rest ∧
    (∀ ts₀ pre₀ o, Enters ts₀ pre₀ o →
      (startsSymbol .leftParen ts = true → Callable left ts₀ pre₀) →
      ∃ o', Enters ts₀ (pre₀ ++ pre) o') ∧
    ∀ n, e = .field n → left = .field n ∧ pre = []
  | .head, ts, e, rest => ∃ pre o, ts = pre ++ rest ∧ Enters ts pre o ∧
    (startsSymbol .leftParen rest = true → Callable e ts pre) ∧
    ∀ n, e = .field n → Derives (.name n) pre
  | .extend left, ts, e, rest => ∃ pre, ts = pre ++ rest ∧
    (∀ ts₀ pre₀ o, Enters ts₀ pre₀ o →
      (startsSymbol .leftParen ts = true → Callable left ts₀ pre₀) →
      ∃ o', Enters ts₀ (pre₀ ++ pre) o') ∧
    ∀ n, e ≠ .field n
  | .bracket _, ts, e, rest => ∃ pre o, ts = pre ++ rest ∧ startsName ts = false ∧
    Fits .start pre o ∧ (∀ a, Fits (.after a) pre o) ∧ ∀ n, e ≠ .field n
  | .afterDot _, ts, _, rest => ∃ pre o, ts = pre ++ rest ∧
    ∀ a, Fits (.after a) (.symbol .dot :: pre) o
  | .body _, ts, _, rest => ∃ pre o, ts = pre ++ rest ∧ Fits (.after .opened) pre o
  | .items, ts, e, rest => ∃ pre, ts = pre ++ .symbol .rightBracket :: rest ∧ Derives .items pre ∧
    ∀ n, e ≠ .field n
  | .pairs, ts, e, rest => ∃ pre, ts = pre ++ .symbol .rightBrace :: rest ∧ Derives .pairs pre ∧
    ∀ n, e ≠ .field n
  | .arguments _, ts, e, rest => ∃ pre, ts = pre ++ .symbol .rightParen :: rest ∧
    Derives .arguments pre ∧ (startsSymbol .rightParen ts = false → Derives .argumentList pre) ∧
    ∀ n, e ≠ .field n
  | .argument, ts, _, rest => ∃ pre, ts = pre ++ rest ∧ Derives .argument pre

theorem Fitting.derives {p : Nat} (h : Fitting (.expression p) ts e rest) :
    ∃ pre, ts = pre ++ rest ∧ Derives .expression pre ∧
      ∀ n, e = .field n → Derives (.name n) pre := by
  obtain ⟨pre, o, hts, henters, hname⟩ := h
  exact ⟨pre, hts, henters.start.derives, hname⟩

theorem fitting_expression {p : Nat} (hhead : Fitting .head ts left mid)
    (hclimb : Fitting (.climb p left) mid e rest) : Fitting (.expression p) ts e rest := by
  obtain ⟨pre, o, rfl, henters, hcall, hname⟩ := hhead
  obtain ⟨pre', rfl, hclimb, hfield⟩ := hclimb
  obtain ⟨o', ho'⟩ := hclimb _ _ _ henters hcall
  refine ⟨pre ++ pre', o', by rw [List.append_assoc], ho', fun n hn ↦ ?_⟩
  obtain ⟨hleft, rfl⟩ := hfield n hn
  rw [List.append_nil]
  exact hname n hleft

theorem fitting_step {p : Nat} {left' : Expr} (hextend : Fitting (.extend left) ts left' mid)
    (hclimb : Fitting (.climb p left') mid e rest) : Fitting (.climb p left) ts e rest := by
  obtain ⟨pre, rfl, hextend, hne⟩ := hextend
  obtain ⟨pre', rfl, hclimb, hfield⟩ := hclimb
  refine ⟨pre ++ pre', by rw [List.append_assoc], fun ts₀ pre₀ o henters hcall ↦ ?_, fun n hn ↦ ?_⟩
  · obtain ⟨o', ho'⟩ := hextend ts₀ pre₀ o henters hcall
    rw [← List.append_assoc]
    exact hclimb ts₀ _ o' ho' fun _ n hn ↦ absurd hn (hne n)
  · exact absurd (hfield n hn).1 (hne n)

theorem fitting_head (hts : ts = pre ++ rest) (henters : Enters ts pre o)
    (hne : ∀ n, e ≠ .field n) : Fitting .head ts e rest := by
  refine ⟨pre, o, hts, henters, ?_, ?_⟩
  · intro _ n hn
    exact absurd hn (hne n)
  · intro n hn
    exact absurd hn (hne n)

theorem fitting_extend (hts : ts = pre ++ rest) (hfits : ∀ o, Fits (.after o) pre o')
    (hne : ∀ n, e ≠ .field n) : Fitting (.extend left) ts e rest := by
  refine ⟨pre, hts, ?_, hne⟩
  intro ts₀ pre₀ o₀ henters _
  exact ⟨o', henters.append (hfits o₀)⟩

theorem fitting_leaf {k : TokenKind} (hhead : Derives (.head .closed) [k])
    (hname : startsName (k :: ts) = false) (hbracket : startsBracket (k :: ts) = false)
    (hne : ∀ n, e ≠ .field n) : Fitting .head (k :: ts) e ts := by
  have henters : Enters (k :: ts) [k] .closed := .of_start (fits_of_head hhead) hname hbracket
  exact fitting_head rfl henters hne

theorem fitting_identifier {n : String} :
    Fitting .head (.identifier n :: ts) (.field n) ts := by
  refine ⟨[.identifier n], .closed, rfl, ?_, ?_, ?_⟩
  · refine ⟨fits_of_head (.identifier n), ?_, by rintro ⟨⟩⟩
    intro _ a
    exact fits_of_step (.dotIdentifier a n)
  · rintro _ _ ⟨⟩ hname args hargs
    refine ⟨fits_of_head (.call (.bareCallee n) hname hargs), ?_, by rintro ⟨⟩⟩
    intro _ a
    exact fits_of_step (.dotCall a hname hargs)
  · rintro _ ⟨⟩
    exact .bareName rfl

theorem fitting_quotedIdentifier {n : String} (hparen : startsSymbol .leftParen ts = false) :
    Fitting .head (.quotedIdentifier n :: ts) (.field n) ts := by
  refine ⟨[.quotedIdentifier n], .closed, rfl, ?_, ?_, ?_⟩
  · refine ⟨fits_of_head (.quotedIdentifier n), ?_, by rintro ⟨⟩⟩
    intro _ a
    exact fits_of_step (.dotQuotedIdentifier a n)
  · intro h
    rw [hparen] at h
    cases h
  · rintro _ ⟨⟩
    exact .bareName rfl

theorem fitting_group (h : Fitting (.expression 0) ts e (.symbol .rightParen :: rest)) :
    Fitting .head (.symbol .leftParen :: ts) e rest := by
  obtain ⟨pre, rfl, hpre, hname⟩ := h.derives
  refine ⟨.symbol .leftParen :: (pre ++ [.symbol .rightParen]), .closed, by simp, ?_, ?_, ?_⟩
  · exact .of_start (fits_of_head (.group hpre)) rfl rfl
  · rintro _ n rfl hsome args hargs
    have hcallee := Derives.groupedCallee (hname n rfl)
    exact .of_start (fits_of_head (.call hcallee hsome hargs)) rfl rfl
  · rintro n rfl
    exact .groupedName (hname n rfl)

theorem fitting_values {body : Expr} {p : Nat} (h : Fitting (.body p) ts body rest) :
    Fitting .head (.symbol .star :: ts) (.projection (.objectValues .currentNode) body) rest := by
  obtain ⟨pre, o, rfl, hpre⟩ := h
  have henters : Enters (.symbol .star :: (pre ++ rest)) (.symbol .star :: pre) o := by
    refine ⟨(fits_of_head .headStar).append hpre, ?_, by rintro ⟨⟩⟩
    intro _ a
    exact (fits_of_step (.dotStar a)).append hpre
  exact fitting_head rfl henters nofun

theorem fitting_implicit (h : Fitting (.bracket left) ts e rest) : Fitting .head ts e rest := by
  obtain ⟨pre, o, hts, hname, hstart, hafter, hne⟩ := h
  refine fitting_head hts ⟨hstart, ?_, fun _ ↦ hafter .opened⟩ hne
  intro h
  rw [hname] at h
  cases h

theorem fitting_list (hlist : opensList ts = true) (h : Fitting .items ts e rest) :
    Fitting .head (.symbol .leftBracket :: ts) e rest := by
  obtain ⟨pre, rfl, hpre, hne⟩ := h
  have hstar : pre ≠ [.symbol .star] := by
    rintro rfl
    cases hlist
  have hstart := fits_of_head (.headList hpre hstar)
  have hafter := fits_of_step (.list hpre hstar)
  exact fitting_head (by simp) ⟨hstart, by rintro ⟨⟩, fun _ ↦ hafter⟩ hne

theorem fitting_hash (h : Fitting .pairs ts e rest) :
    Fitting .head (.symbol .leftBrace :: ts) e rest := by
  obtain ⟨pre, rfl, hpre, hne⟩ := h
  exact fitting_head (by simp) (.of_start (fits_of_head (.hash hpre)) rfl rfl) hne

theorem fitting_not {p : Nat} (h : Fitting (.expression p) ts e rest) :
    Fitting .head (.symbol .not :: ts) (.not e) rest := by
  obtain ⟨pre, o, rfl, henters, _⟩ := h
  have hstart : Fits .start (.symbol .not :: pre) o := by
    intro us hus
    exact .not (henters.start us hus)
  exact fitting_head rfl (.of_start hstart rfl rfl) nofun

theorem fitting_binary {s : Symbol} {tree : Expr → Expr → Expr} {right : Expr} {p : Nat}
    (hs : binary? s = some tree) (h : Fitting (.expression p) ts right rest) :
    Fitting (.extend left) (.symbol s :: ts) (tree left right) rest := by
  obtain ⟨pre, o, rfl, henters, _⟩ := h
  have hafter (a : Openness) : Fits (.after a) (.symbol s :: pre) o := by
    intro us hus
    exact .operator (by rw [hs]; rfl) (henters.start us hus)
  refine fitting_extend rfl hafter ?_
  intro n hn
  cases s <;> cases hs <;> cases hn

theorem fitting_dot {p : Nat} (h : Fitting (.afterDot p) ts e rest) :
    Fitting (.extend left) (.symbol .dot :: ts) (.subexpression left e) rest := by
  obtain ⟨pre, o, rfl, hpre⟩ := h
  exact fitting_extend rfl hpre nofun

theorem fitting_explicit (h : Fitting (.bracket left) ts e rest) :
    Fitting (.extend left) ts e rest := by
  obtain ⟨pre, o, hts, _, _, hafter, hne⟩ := h
  exact fitting_extend hts hafter hne

theorem fitting_call {n : String} (hname : (Builtin.ofName? n).isSome)
    (h : Fitting (.arguments n) ts e rest) :
    Fitting (.extend (.field n)) (.symbol .leftParen :: ts) e rest := by
  obtain ⟨pre, rfl, hpre, -, hne⟩ := h
  refine ⟨callTokens pre, by simp [callTokens], ?_, hne⟩
  intro ts₀ pre₀ o₀ _ hcall
  exact ⟨.closed, hcall rfl n rfl hname pre hpre⟩

theorem fitting_opener (left : Expr) {inner : List TokenKind} {p : Nat} {body : Expr}
    (hinner : Derives .opener inner) (hname : startsName (inner ++ ts) = false)
    (hne : ∀ n, e ≠ .field n) (h : Fitting (.body p) ts body rest) :
    Fitting (.bracket left) (inner ++ ts) e rest := by
  obtain ⟨pre, o, rfl, hpre⟩ := h
  refine ⟨inner ++ pre, o, by rw [List.append_assoc], hname, ?_, ?_, hne⟩
  · exact (fits_of_head (.headOpener hinner)).append hpre
  · intro a
    exact (fits_of_step (.opener a hinner)).append hpre

theorem fitting_filter {predicate body : Expr}
    (hpredicate : Fitting (.expression 0) ts predicate (.symbol .rightBracket :: mid))
    (hbody : Fitting (.body 21) mid body rest) :
    Fitting (.bracket left) (.symbol .filter :: ts) (.filterProjection left predicate body)
      rest := by
  obtain ⟨pre, rfl, hpre, -⟩ := hpredicate.derives
  have h := fitting_opener left (e := .filterProjection left predicate body)
    (.filter hpre) rfl (by simp) hbody
  simpa using h

theorem fitting_index {i : Int64} :
    Fitting (.bracket left) (.symbol .leftBracket :: .number i :: .symbol .rightBracket :: ts)
      (access left (.index i)) ts := by
  refine ⟨[.symbol .leftBracket, .number i, .symbol .rightBracket], .closed, rfl, rfl, ?_, ?_, ?_⟩
  · exact fits_of_head (.headIndex i)
  · intro a
    exact fits_of_step (.index a i)
  · intro n
    unfold access
    split <;> simp

theorem fitting_slice {parts : SliceParts} {inner : List TokenKind} {source body : Expr}
    (hinner : SliceTokens parts inner) (hstep : parts.step ≠ some 0)
    (hbody : Fitting (.body 20) ts body rest) :
    Fitting (.bracket left) (.symbol .leftBracket :: (inner ++ .symbol .rightBracket :: ts))
      (.projection source body) rest := by
  have h := fitting_opener left (e := .projection source body)
    (.slice hinner hstep) rfl (by simp) hbody
  simpa using h

theorem Reads.fitting {φ : Phrase} (h : Reads φ ts e rest) : Fitting φ ts e rest := by
  induction h with
  | expression _ _ ihHead ihClimb => exact fitting_expression ihHead ihClimb
  | stop =>
    refine ⟨[], rfl, ?_, ?_⟩
    · intro ts₀ pre₀ o henters _
      rw [List.append_nil]
      exact ⟨o, henters⟩
    · intro n hn
      exact ⟨hn, rfl⟩
  | step _ _ _ ihExtend ihClimb => exact fitting_step ihExtend ihClimb
  | current => exact fitting_leaf .current rfl rfl nofun
  | identifier => exact fitting_identifier
  | quotedIdentifier hparen => exact fitting_quotedIdentifier hparen
  | literal => exact fitting_leaf (.literal _) rfl rfl nofun
  | rawString => exact fitting_leaf (.rawString _) rfl rfl nofun
  | values _ ih => exact fitting_values ih
  | implicit _ ih => exact fitting_implicit ih
  | list hlist _ ih => exact fitting_list hlist ih
  | hash _ ih => exact fitting_hash ih
  | not _ ih => exact fitting_not ih
  | group _ ih => exact fitting_group ih
  | dot _ ih => exact fitting_dot ih
  | binary hs _ ih => exact fitting_binary hs ih
  | explicit _ ih => exact fitting_explicit ih
  | call hname _ ih => exact fitting_call hname ih
  | flatten _ ih => exact fitting_opener _ .flatten rfl (by simp) ih
  | filter _ _ ihPredicate ihBody => exact fitting_filter ihPredicate ihBody
  | index => exact fitting_index
  | slice hinner hstep _ ih => exact fitting_slice hinner hstep ih
  | wildcard _ ih => exact fitting_opener _ .wildcard rfl (by simp) ih
  | dotList _ ih =>
    obtain ⟨pre, rfl, hpre, _⟩ := ih
    refine ⟨.symbol .leftBracket :: (pre ++ [.symbol .rightBracket]), .closed, by simp, ?_⟩
    intro a
    exact fits_of_step (.dotList a hpre)
  | dotHash _ ih =>
    obtain ⟨pre, rfl, hpre, _⟩ := ih
    refine ⟨.symbol .leftBrace :: (pre ++ [.symbol .rightBrace]), .closed, by simp, ?_⟩
    intro a
    exact fits_of_step (.dotHash a hpre)
  | dotName hname _ ih =>
    obtain ⟨pre, o, hts, henters, _⟩ := ih
    exact ⟨pre, o, hts, henters.dot hname⟩
  | element => exact ⟨[], .opened, rfl, fits_nil _⟩
  | bodyDot _ ih =>
    obtain ⟨pre, o, rfl, hpre⟩ := ih
    exact ⟨.symbol .dot :: pre, o, rfl, hpre .opened⟩
  | bodyBracket hbracket _ ih =>
    obtain ⟨pre, o, hts, henters, _⟩ := ih
    exact ⟨pre, o, hts, henters.bracket hbracket⟩
  | lastItem _ ih =>
    obtain ⟨pre, rfl, hpre, _⟩ := Fitting.derives ih
    have hitems := Derives.lastItem hpre
    exact ⟨pre, rfl, hitems, nofun⟩
  | item _ _ ih ihItems =>
    obtain ⟨pre, rfl, hpre, _⟩ := Fitting.derives ih
    obtain ⟨pre', rfl, hpre', _⟩ := ihItems
    have hitems := Derives.item hpre hpre'
    exact ⟨_, by simp, hitems, nofun⟩
  | lastPair hk _ ih =>
    obtain ⟨pre, rfl, hpre, _⟩ := Fitting.derives ih
    have hpairs := Derives.lastPair hk hpre
    exact ⟨_, rfl, hpairs, nofun⟩
  | pair hk _ _ ih ihPairs =>
    obtain ⟨pre, rfl, hpre, _⟩ := Fitting.derives ih
    obtain ⟨pre', rfl, hpre', _⟩ := ihPairs
    have hpairs := Derives.pair hk hpre hpre'
    exact ⟨_, by simp, hpairs, nofun⟩
  | noArguments => exact ⟨[], rfl, .noArguments, nofun, nofun⟩
  | lastArgument _ ih =>
    obtain ⟨pre, rfl, hpre⟩ := ih
    have hlist := Derives.lastArgument hpre
    exact ⟨pre, rfl, .someArguments hlist, fun _ ↦ hlist, nofun⟩
  | nextArgument _ hparen _ ih ihArguments =>
    obtain ⟨pre, rfl, hpre⟩ := ih
    obtain ⟨pre', rfl, _, hpre', _⟩ := ihArguments
    have hlist := Derives.nextArgument hpre (hpre' hparen)
    exact ⟨_, by simp, .someArguments hlist, fun _ ↦ hlist, nofun⟩
  | reference _ ih =>
    obtain ⟨pre, rfl, hpre, _⟩ := Fitting.derives ih
    exact ⟨_, rfl, .reference hpre⟩
  | plain _ ih =>
    obtain ⟨pre, rfl, hpre, _⟩ := Fitting.derives ih
    exact ⟨pre, rfl, .value hpre⟩

end PathQuery.Parser
