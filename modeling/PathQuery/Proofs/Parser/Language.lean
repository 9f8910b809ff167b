import PathQuery.Proofs.Parser.Completeness
import PathQuery.Proofs.Parser.Derivable

namespace PathQuery

namespace Parser

variable {ts us mid rest : List TokenKind} {e left : Expr} {o o' : Openness} {n p : Nat}

theorem Reads.power_le_of_climb (h : Reads (.climb p left) ts e rest) : power rest ≤ p := by
  generalize hφ : Phrase.climb p left = φ at h
  induction h generalizing left with
  | stop hp => cases hφ; exact hp
  | step _ _ _ _ ih => cases hφ; exact ih rfl
  | _ => cases hφ

theorem Reads.power_le (h : Reads (.expression p) ts e rest) : power rest ≤ p := by
  cases h with
  | expression _ hclimb => exact hclimb.power_le_of_climb

theorem power_append (hne : ts ≠ []) : power (ts ++ rest) = power ts := by
  cases ts with
  | nil => exact absurd rfl hne
  | cons k ts => rfl

theorem leftPower_pos_of_binary {s : Symbol} (h : (binary? s).isSome) : 0 < s.leftPower := by
  cases s <;> first | cases h; done | decide | exact Nat.succ_pos _

theorem leftPower_le_of_binary {s : Symbol} (h : (binary? s).isSome) : s.leftPower ≤ 5 := by
  cases s <;> first | cases h; done | decide | exact Nat.le_refl _

theorem Derives.power_pos_of_step (h : Derives (.step o o') ts) : 0 < power ts := by
  cases h with
  | opener _ h => cases h <;> exact Nat.succ_pos _
  | _ => exact Nat.succ_pos _

theorem Derives.step_ne_nil (h : Derives (.step o o') ts) : ts ≠ [] := by
  rintro rfl
  exact Nat.lt_irrefl 0 h.power_pos_of_step

theorem Leads.power_pos (h : Leads (.after o) ts) (hne : ts ≠ []) : 0 < power ts := by
  cases h with
  | done => exact absurd rfl hne
  | operator hs _ => exact leftPower_pos_of_binary hs
  | step hstep _ =>
    rw [power_append hstep.step_ne_nil]
    exact hstep.power_pos_of_step

theorem Derives.startsParen_of_step (h : Derives (.step o o') ts) :
    startsSymbol .leftParen (ts ++ rest) = false := by
  cases h with
  | opener _ h => cases h <;> rfl
  | _ => rfl

theorem startsParen_of_power (h : power rest = 0) : startsSymbol .leftParen rest = false := by
  cases hparen : startsSymbol .leftParen rest with
  | false => rfl
  | true =>
    obtain ⟨ts, rfl⟩ := startsSymbol_iff.mp hparen
    cases h

theorem Leads.startsParen (h : Leads (.after o) ts) (hrest : power rest = 0) :
    startsSymbol .leftParen (ts ++ rest) = false := by
  cases h with
  | done => exact startsParen_of_power hrest
  | @operator _ s _ hs _ => cases s <;> first | rfl | cases hs
  | step hstep _ =>
    rw [List.append_assoc]
    exact hstep.startsParen_of_step

theorem opensList_of_leads (h : Leads .start ts)
    (hrest : ts = [.symbol .star] → startsSymbol .rightBracket rest = false) :
    opensList (ts ++ rest) = true := by
  cases h with
  | not => rfl
  | @head _ _ us hhead hleads =>
    cases hhead with
    | call hcallee => cases hcallee <;> rfl
    | headOpener h => cases h <;> rfl
    | headStar =>
      change opensList (.symbol .star :: (us ++ rest)) = true
      rw [opensList_star, Bool.not_eq_true']
      cases us with
      | nil => exact hrest rfl
      | cons k us =>
        have hk : 0 < k.leftPower := hleads.power_pos (List.cons_ne_nil _ _)
        cases hk' : k.isSymbol .rightBracket with
        | false => exact hk'
        | true =>
          obtain ⟨_, hk'⟩ := (startsSymbol_iff (s := .rightBracket)).mp
            (show startsSymbol .rightBracket [k] = true from hk')
          cases hk'
          cases hk
    | _ => rfl

theorem Derives.opensList_of_items (h : Derives .items ts) (hne : ts ≠ [.symbol .star]) :
    opensList (ts ++ .symbol .rightBracket :: rest) = true := by
  cases h with
  | lastItem h => exact opensList_of_leads h.leads fun hts ↦ absurd hts hne
  | item h _ =>
    rw [List.append_assoc]
    exact opensList_of_leads h.leads fun _ ↦ rfl

/-- A step that binds looser than a dot does not need the projection before it. -/
theorem Derives.of_opened (h : Derives (.step .opened o) ts) (hpower : power ts < projectionStop) :
    Derives (.step .closed o) ts := by
  cases h with
  | opener _ h => exact .opener _ h
  | _ =>
    exact absurd hpower
      (by simp [power, TokenKind.leftPower, Symbol.leftPower, projectionStop])

/-- The rule for a phrase can read a first part of `ts`, from behind which a closed chain leads to
the end. -/
def Reaches (φ : Phrase) (ts rest : List TokenKind) : Prop :=
  ∃ e mid, Reads φ (ts ++ rest) e (mid ++ rest) ∧ Leads (.after .closed) mid

theorem Reaches.of_reads {φ : Phrase} {ws : List TokenKind} (h : Reads φ ws e (mid ++ rest))
    (hws : ws = ts ++ rest) (hmid : Leads (.after .closed) mid) : Reaches φ ts rest :=
  ⟨e, mid, hws ▸ h, hmid⟩

theorem length_le_of_reads {φ : Phrase} (h : Reads φ (ts ++ rest) e (mid ++ rest)) :
    mid.length + φ.takesToken.toNat ≤ ts.length := by
  have := h.length_le
  simp only [List.length_append] at this
  omega

structure ReachesBelow (n : Nat) : Prop where
  start : ∀ {ts rest p}, Leads .start ts → ts.length < n → power rest = 0 → p < 60 →
    Reaches (.expression p) ts rest
  closed : ∀ {ts rest p}, Leads (.after .closed) ts → ts.length < n → power rest = 0 → p < 60 →
    ∀ left, Reaches (.climb p left) ts rest
  opened : ∀ {ts rest p}, Leads (.after .opened) ts → ts.length < n → power rest = 0 → p < 60 →
    Reaches (.body p) ts rest

theorem Reaches.reads (h : Reaches (.expression 0) ts rest) :
    ∃ e, Reads (.expression 0) (ts ++ rest) e rest := by
  obtain ⟨e, mid, hreads, hmid⟩ := h
  cases mid with
  | nil => exact ⟨e, hreads⟩
  | cons k mid =>
    have hpos := hmid.power_pos (List.cons_ne_nil _ _)
    have hle := hreads.power_le
    rw [power_append (List.cons_ne_nil _ _)] at hle
    omega

theorem Derives.reads_name {f : String} (h : Derives (.name f) ts) :
    Reads (.expression 0) (ts ++ .symbol .rightParen :: rest) (.field f)
      (.symbol .rightParen :: rest) := by
  generalize hx : Nonterminal.name f = x at h
  induction h generalizing rest with
  | @bareName k _ hk =>
    cases hx
    cases k <;> cases hk
    · exact .expression .identifier (.stop (Nat.zero_le 0))
    · exact .expression (.quotedIdentifier rfl) (.stop (Nat.zero_le 0))
  | groupedName _ ih =>
    cases hx
    simp only [List.cons_append, List.append_assoc]
    exact .expression (.group (ih rfl)) (.stop (Nat.zero_le 0))
  | _ => cases hx

theorem Derives.reads_callee {f : String} (h : Derives (.callee f) ts) :
    Reads .head (ts ++ .symbol .leftParen :: rest) (.field f) (.symbol .leftParen :: rest) := by
  cases h with
  | bareCallee => exact .identifier
  | groupedCallee h =>
    simp only [List.cons_append, List.append_assoc]
    exact .group h.reads_name

namespace ReachesBelow

variable (ih : ReachesBelow n)

include ih

theorem expression (h : Derives .expression ts) (hn : ts.length < n) (rest : List TokenKind)
    (hrest : power rest = 0) : ∃ e, Reads (.expression 0) (ts ++ rest) e rest :=
  (ih.start h.leads hn hrest (by omega)).reads

theorem items (h : Derives .items ts) (hn : ts.length < n) (rest : List TokenKind) :
    ∃ es, Reads .items (ts ++ .symbol .rightBracket :: rest) (.multiSelectList es) rest := by
  generalize hx : Nonterminal.items = x at h
  induction h with
  | lastItem h =>
    obtain ⟨e, he⟩ := ih.expression h hn (.symbol .rightBracket :: rest) rfl
    exact ⟨[e], .lastItem he⟩
  | @item ts us h _ _ ihItems =>
    simp only [List.length_append, List.length_cons] at hn
    obtain ⟨es, hes⟩ := ihItems (by omega) hx
    obtain ⟨e, he⟩ := ih.expression h (by omega)
      (.symbol .comma :: (us ++ .symbol .rightBracket :: rest)) rfl
    rw [List.append_assoc]
    exact ⟨e :: es, .item he hes⟩
  | _ => cases hx

theorem pairs (h : Derives .pairs ts) (hn : ts.length < n) (rest : List TokenKind) :
    ∃ ps, Reads .pairs (ts ++ .symbol .rightBrace :: rest) (.multiSelectHash ps) rest := by
  generalize hx : Nonterminal.pairs = x at h
  induction h with
  | @lastPair k key ts hk h =>
    simp only [List.length_cons] at hn
    obtain ⟨e, he⟩ := ih.expression h (by omega) (.symbol .rightBrace :: rest) rfl
    exact ⟨[(key, e)], .lastPair hk he⟩
  | @pair k key ts us hk h _ _ ihPairs =>
    simp only [List.length_append, List.length_cons] at hn
    obtain ⟨ps, hps⟩ := ihPairs (by omega) hx
    obtain ⟨e, he⟩ := ih.expression h (by omega)
      (.symbol .comma :: (us ++ .symbol .rightBrace :: rest)) rfl
    refine ⟨(key, e) :: ps, ?_⟩
    simp only [List.cons_append, List.append_assoc]
    exact .pair hk he hps
  | _ => cases hx

theorem argument (h : Derives .argument ts) (hn : ts.length < n) (rest : List TokenKind)
    (hrest : power rest = 0) :
    ∃ e, Reads .argument (ts ++ rest) e rest := by
  cases h with
  | reference h =>
    obtain ⟨e, he⟩ := ih.expression h (Nat.lt_of_succ_lt hn) rest hrest
    exact ⟨_, .reference he⟩
  | value h =>
    obtain ⟨e, he⟩ := ih.expression h hn rest hrest
    exact ⟨e, .plain he⟩

theorem argumentList (f : String) (h : Derives .argumentList ts) (hn : ts.length < n)
    (rest : List TokenKind) :
    startsSymbol .rightParen (ts ++ .symbol .rightParen :: rest) = false ∧
      ∃ args, Reads (.arguments f) (ts ++ .symbol .rightParen :: rest) (.functionCall f args)
        rest := by
  generalize hx : Nonterminal.argumentList = x at h
  induction h with
  | lastArgument h =>
    obtain ⟨e, he⟩ := ih.argument h hn (.symbol .rightParen :: rest) rfl
    exact ⟨he.starts_of_argument, [e], .lastArgument he⟩
  | @nextArgument ts us h _ _ ihArguments =>
    simp only [List.length_append, List.length_cons] at hn
    obtain ⟨hparen, args, hargs⟩ := ihArguments (by omega) hx
    obtain ⟨e, he⟩ := ih.argument h (by omega)
      (.symbol .comma :: (us ++ .symbol .rightParen :: rest)) rfl
    rw [List.append_assoc]
    exact ⟨he.starts_of_argument, e :: args, .nextArgument he hparen hargs⟩
  | _ => cases hx

theorem arguments (f : String) (h : Derives .arguments ts) (hn : ts.length < n)
    (rest : List TokenKind) :
    ∃ args, Reads (.arguments f) (ts ++ .symbol .rightParen :: rest) (.functionCall f args)
      rest := by
  cases h with
  | noArguments => exact ⟨[], .noArguments⟩
  | someArguments h => exact (ih.argumentList f h hn rest).2

theorem behindHead (hhead : Reads .head (ts ++ rest) left (mid ++ rest))
    (hmid : Leads (.after .closed) mid) (hn : ts.length ≤ n) (hrest : power rest = 0)
    (hp : p < 60) : Reaches (.expression p) ts rest := by
  have hlength : mid.length + 1 ≤ ts.length := length_le_of_reads hhead
  obtain ⟨e, mid', he, hmid'⟩ := ih.closed hmid (by omega) hrest hp left
  exact ⟨e, mid', .expression hhead he, hmid'⟩

theorem behindExtend (hpower : p < power (ts ++ rest))
    (hextend : Reads (.extend left) (ts ++ rest) e (mid ++ rest))
    (hmid : Leads (.after .closed) mid) (hn : ts.length ≤ n) (hrest : power rest = 0)
    (hp : p < 60) : Reaches (.climb p left) ts rest := by
  have hlength : mid.length + 1 ≤ ts.length := length_le_of_reads hextend
  obtain ⟨e', mid', he', hmid'⟩ := ih.closed hmid (by omega) hrest hp e
  exact ⟨e', mid', .step hpower hextend he', hmid'⟩

theorem behindCallee {f : String} (cs : List TokenKind) {args : List TokenKind}
    (hf : (Builtin.ofName? f).isSome)
    (hcallee : ∀ rest, Reads .head (cs ++ .symbol .leftParen :: rest) (.field f)
      (.symbol .leftParen :: rest))
    (hargs : Derives .arguments args) (hus : Leads (.after .closed) us)
    (hn : (cs ++ callTokens args ++ us).length ≤ n) (hrest : power rest = 0) (hp : p < 60) :
    Reaches (.expression p) (cs ++ callTokens args ++ us) rest := by
  simp only [callTokens, List.length_append, List.length_cons, List.length_nil] at hn
  obtain ⟨as, has⟩ := ih.arguments f hargs (by omega) (us ++ rest)
  obtain ⟨e, mid, he, hmid⟩ := ih.closed (p := p) hus (by omega) hrest hp (.functionCall f as)
  have hhead := hcallee (args ++ .symbol .rightParen :: (us ++ rest))
  have hcall := Reads.step (show p < power (.symbol .leftParen :: _) from hp) (.call hf has) he
  exact .of_reads (.expression hhead hcall) (by simp [callTokens]) hmid

theorem opener (h : Derives .opener ts) (hus : Leads (.after .opened) us)
    (hn : (ts ++ us).length ≤ n) (hrest : power rest = 0) (left : Expr) :
    Reaches (.bracket left) (ts ++ us) rest := by
  cases h with
  | wildcard =>
    simp only [List.length_append, List.length_cons] at hn
    obtain ⟨e, mid, he, hmid⟩ := ih.opened (p := 20) hus (by omega) hrest (by omega)
    exact .of_reads (.wildcard he) rfl hmid
  | slice hinner hstep =>
    simp only [List.length_append, List.length_cons] at hn
    obtain ⟨e, mid, he, hmid⟩ := ih.opened (p := 20) hus (by omega) hrest (by omega)
    exact .of_reads (.slice hinner hstep he) (by simp) hmid
  | flatten =>
    obtain ⟨e, mid, he, hmid⟩ := ih.opened (p := 9) hus (Nat.lt_of_succ_le hn) hrest (by omega)
    exact .of_reads (.flatten he) rfl hmid
  | filter h =>
    simp only [List.length_append, List.length_cons] at hn
    obtain ⟨predicate, hpredicate⟩ := ih.expression h (by omega)
      (.symbol .rightBracket :: (us ++ rest)) rfl
    obtain ⟨e, mid, he, hmid⟩ := ih.opened (p := 21) hus (by omega) hrest (by omega)
    exact .of_reads (.filter hpredicate he) (by simp) hmid

theorem headList (h : Derives .items ts) (hne : ts ≠ [.symbol .star])
    (hus : Leads (.after .closed) us)
    (hn : (TokenKind.symbol .leftBracket :: (ts ++ [.symbol .rightBracket]) ++ us).length ≤ n) :
    Reaches .head (.symbol .leftBracket :: (ts ++ [.symbol .rightBracket]) ++ us) rest := by
  simp only [List.length_append, List.length_cons] at hn
  obtain ⟨es, hes⟩ := ih.items h (by omega) (us ++ rest)
  exact .of_reads (.list (h.opensList_of_items hne) hes) (by simp) hus

theorem headGroup (h : Derives .expression ts) (hus : Leads (.after .closed) us)
    (hn : (TokenKind.symbol .leftParen :: (ts ++ [.symbol .rightParen]) ++ us).length ≤ n) :
    Reaches .head (.symbol .leftParen :: (ts ++ [.symbol .rightParen]) ++ us) rest := by
  simp only [List.length_append, List.length_cons] at hn
  obtain ⟨e, he⟩ := ih.expression h (by omega) (.symbol .rightParen :: (us ++ rest)) rfl
  exact .of_reads (.group he) (by simp) hus

theorem headHash (h : Derives .pairs ts) (hus : Leads (.after .closed) us)
    (hn : (TokenKind.symbol .leftBrace :: (ts ++ [.symbol .rightBrace]) ++ us).length ≤ n) :
    Reaches .head (.symbol .leftBrace :: (ts ++ [.symbol .rightBrace]) ++ us) rest := by
  simp only [List.length_append, List.length_cons] at hn
  obtain ⟨ps, hps⟩ := ih.pairs h (by omega) (us ++ rest)
  exact .of_reads (.hash hps) (by simp) hus

theorem dotName {k : TokenKind} (hk : startsName (k :: us ++ rest) = true)
    (hhead : Reads .head (k :: us ++ rest) left (mid ++ rest)) (hmid : Leads (.after .closed) mid)
    (hn : (k :: us).length ≤ n) (hrest : power rest = 0) (hp : p < 60) :
    Reaches (.afterDot p) (k :: us) rest := by
  obtain ⟨e, mid', he, hmid'⟩ := ih.behindHead hhead hmid hn hrest hp
  exact ⟨e, mid', .dotName hk he, hmid'⟩

/-- A step behind a chain: behind a dot, in brackets, or a list that only a projection takes. -/
theorem step (h : Derives (.step o o') ts) (hus : Leads (.after o') us)
    (hn : (ts ++ us).length ≤ n) (hrest : power rest = 0) :
    (∃ ts', ts = .symbol .dot :: ts' ∧ ∀ p < 60, Reaches (.afterDot p) (ts' ++ us) rest) ∨
      ((startsBracket (ts ++ us ++ rest) = true ∨ power (ts ++ us ++ rest) = 9) ∧
        ∀ left, Reaches (.bracket left) (ts ++ us) rest) ∨
      (o = .opened ∧ startsBracket (ts ++ us ++ rest) = true ∧ Reaches .head (ts ++ us) rest) := by
  cases h with
  | dotIdentifier =>
    refine .inl ⟨_, rfl, fun p hp ↦ ?_⟩
    exact ih.dotName rfl .identifier hus (Nat.le_of_succ_le hn) hrest hp
  | dotQuotedIdentifier =>
    refine .inl ⟨_, rfl, fun p hp ↦ ?_⟩
    exact ih.dotName rfl (.quotedIdentifier (hus.startsParen hrest)) hus (Nat.le_of_succ_le hn)
      hrest hp
  | @dotCall _ f args hf hargs =>
    refine .inl ⟨_, rfl, fun p hp ↦ ?_⟩
    obtain ⟨e, mid, he, hmid⟩ := ih.behindCallee [.identifier f] hf
      (fun _ ↦ .identifier) hargs hus (Nat.le_of_succ_le hn) hrest hp
    exact .of_reads (.dotName rfl he) rfl hmid
  | dotList _ h =>
    refine .inl ⟨_, rfl, fun p _ ↦ ?_⟩
    simp only [List.length_append, List.length_cons] at hn
    obtain ⟨es, hes⟩ := ih.items h (by omega) (us ++ rest)
    exact .of_reads (.dotList hes) (by simp) hus
  | dotHash _ h =>
    refine .inl ⟨_, rfl, fun p _ ↦ ?_⟩
    simp only [List.length_append, List.length_cons] at hn
    obtain ⟨ps, hps⟩ := ih.pairs h (by omega) (us ++ rest)
    exact .of_reads (.dotHash hps) (by simp) hus
  | dotStar =>
    refine .inl ⟨_, rfl, fun p hp ↦ ?_⟩
    simp only [List.length_append, List.length_cons] at hn
    obtain ⟨e, mid, he, hmid⟩ := ih.opened (p := 20) hus (by omega) hrest (by omega)
    exact ih.dotName rfl (.values he) hmid (by simp; omega) hrest hp
  | index => exact .inr (.inl ⟨.inl rfl, fun left ↦ .of_reads .index rfl hus⟩)
  | opener _ h =>
    refine .inr (.inl ⟨?_, ih.opener h hus hn hrest⟩)
    cases h with
    | flatten => exact .inr rfl
    | _ => exact .inl rfl
  | list h hne => exact .inr (.inr ⟨rfl, rfl, ih.headList h hne hus hn⟩)

theorem start_of_leads (h : Leads .start ts) (hn : ts.length ≤ n) (hrest : power rest = 0)
    (hp : p < 60) : Reaches (.expression p) ts rest := by
  cases h with
  | not h =>
    obtain ⟨e, mid, he, hmid⟩ := ih.start (p := 45) h hn hrest (by omega)
    exact ih.behindHead (.not he) hmid hn hrest hp
  | @head o hs us h hus =>
    cases h with
    | current => exact ih.behindHead .current hus hn hrest hp
    | literal => exact ih.behindHead .literal hus hn hrest hp
    | rawString => exact ih.behindHead .rawString hus hn hrest hp
    | identifier => exact ih.behindHead .identifier hus hn hrest hp
    | quotedIdentifier =>
      exact ih.behindHead (.quotedIdentifier (hus.startsParen hrest)) hus hn hrest hp
    | call hcallee hf hargs =>
      exact ih.behindCallee _ hf (fun _ ↦ hcallee.reads_callee) hargs hus hn hrest hp
    | group h =>
      obtain ⟨e, mid, he, hmid⟩ := ih.headGroup h hus hn
      exact ih.behindHead he hmid hn hrest hp
    | hash h =>
      obtain ⟨e, mid, he, hmid⟩ := ih.headHash h hus hn
      exact ih.behindHead he hmid hn hrest hp
    | headIndex => exact ih.behindHead (.implicit .index) hus hn hrest hp
    | headList h hne =>
      obtain ⟨e, mid, he, hmid⟩ := ih.headList h hne hus hn
      exact ih.behindHead he hmid hn hrest hp
    | headStar =>
      obtain ⟨e, mid, he, hmid⟩ := ih.opened (p := 20) hus hn hrest (by omega)
      exact ih.behindHead (.values he) hmid hn hrest hp
    | headOpener h =>
      obtain ⟨e, mid, he, hmid⟩ := ih.opener h hus hn hrest .currentNode
      exact ih.behindHead (.implicit he) hmid hn hrest hp

theorem closed_of_leads (h : Leads (.after .closed) ts) (hn : ts.length ≤ n)
    (hrest : power rest = 0) (hp : p < 60) (left : Expr) : Reaches (.climb p left) ts rest := by
  by_cases hpower : power (ts ++ rest) ≤ p
  · exact ⟨left, ts, .stop hpower, h⟩
  · have hpower : p < power (ts ++ rest) := Nat.lt_of_not_le hpower
    cases h with
    | done => rw [List.nil_append, hrest] at hpower; omega
    | @operator _ s us hs hus =>
      have hs' := leftPower_le_of_binary hs
      obtain ⟨tree, htree⟩ := Option.isSome_iff_exists.mp hs
      obtain ⟨e, mid, he, hmid⟩ := ih.start (p := s.leftPower) hus hn hrest (by omega)
      exact ih.behindExtend hpower (.binary htree he) hmid hn hrest hp
    | step hstep hus =>
      rcases ih.step hstep hus hn hrest with ⟨ts', rfl, h⟩ | ⟨-, h⟩ | ⟨ho, -⟩
      · obtain ⟨e, mid, he, hmid⟩ := h 40 (by omega)
        exact ih.behindExtend hpower (.dot he) hmid hn hrest hp
      · obtain ⟨e, mid, he, hmid⟩ := h left
        exact ih.behindExtend hpower (.explicit he) hmid hn hrest hp
      · cases ho

theorem opened_of_leads (h : Leads (.after .opened) ts) (hn : ts.length ≤ n)
    (hrest : power rest = 0) (hp : p < 60) : Reaches (.body p) ts rest := by
  cases h with
  | done => exact .of_reads (.element (hrest ▸ Nat.succ_pos 9)) rfl (.done _)
  | operator hs hus =>
    have := leftPower_le_of_binary hs
    exact .of_reads (.element (Nat.lt_of_le_of_lt this (by decide))) rfl (.operator hs hus)
  | @step _ _ ts us hstep hus =>
    by_cases hpower : power (ts ++ us ++ rest) < projectionStop
    · exact .of_reads (.element hpower) rfl (.step (hstep.of_opened (by
        rwa [List.append_assoc, power_append hstep.step_ne_nil] at hpower)) hus)
    · rcases ih.step hstep hus hn hrest with ⟨ts', rfl, h⟩ | ⟨hbracket, h⟩ | ⟨-, hbracket, h⟩
      · obtain ⟨e, mid, he, hmid⟩ := h p hp
        exact .of_reads (.bodyDot he) rfl hmid
      · have hbracket : startsBracket (ts ++ us ++ rest) = true := by
          refine hbracket.resolve_right fun h9 ↦ hpower ?_
          rw [h9]
          decide
        obtain ⟨e, mid, he, hmid⟩ := h .currentNode
        obtain ⟨e', mid', he', hmid'⟩ := ih.behindHead (.implicit he) hmid hn hrest hp
        exact .of_reads (.bodyBracket hbracket he') rfl hmid'
      · obtain ⟨e, mid, he, hmid⟩ := h
        obtain ⟨e', mid', he', hmid'⟩ := ih.behindHead he hmid hn hrest hp
        exact .of_reads (.bodyBracket hbracket he') rfl hmid'

end ReachesBelow

theorem reachesBelow (n : Nat) : ReachesBelow n := by
  induction n with
  | zero => exact ⟨by intros; omega, by intros; omega, by intros; omega⟩
  | succ n ih =>
    exact ⟨fun h hn hrest hp ↦ ih.start_of_leads h (Nat.le_of_lt_succ hn) hrest hp,
      fun h hn hrest hp left ↦ ih.closed_of_leads h (Nat.le_of_lt_succ hn) hrest hp left,
      fun h hn hrest hp ↦ ih.opened_of_leads h (Nat.le_of_lt_succ hn) hrest hp⟩

theorem Reads.derives (h : Reads (.expression p) ts e []) : Derives .expression ts := by
  obtain ⟨pre, hts, hpre, -⟩ := h.fitting.derives
  rwa [hts, List.append_nil]

theorem Derives.reads (h : Derives .expression ts) : ∃ e, Reads (.expression 0) ts e [] := by
  have := (reachesBelow (ts.length + 1)).expression h (Nat.lt_succ_self _) [] rfl
  rwa [List.append_nil] at this

end Parser

open PathQuery.Parser

/-- Exactly the texts of the query language have a tree. -/
theorem accepts_iff_derives {tokens : List Token} {kinds : List TokenKind}
    (hkinds : tokens.map Token.kind = kinds ++ [.endOfInput]) (hend : .endOfInput ∉ kinds) :
    (∃ e, Expr.ofTokens tokens = .ok e) ↔ Derives .expression kinds := by
  constructor
  · rintro ⟨e, he⟩
    exact ((ofTokens_eq_ok_iff hkinds hend).mp he).derives
  · intro h
    obtain ⟨e, he⟩ := h.reads
    exact ⟨e, (ofTokens_eq_ok_iff hkinds hend).mpr he⟩

theorem accepts_iff_derives_wildcard :
    (∃ e, Expr.ofTokens [⟨.identifier "a", "a", 0⟩, ⟨.symbol .leftBracket, "[", 1⟩,
        ⟨.symbol .star, "*", 2⟩, ⟨.symbol .rightBracket, "]", 3⟩, ⟨.endOfInput, "", 4⟩] = .ok e) ↔
      Derives .expression
        [.identifier "a", .symbol .leftBracket, .symbol .star, .symbol .rightBracket] :=
  accepts_iff_derives rfl (by simp)

end PathQuery
