import PathQuery.Proofs.Function.Ordering
import PathQuery.Proofs.Query.Embedding

namespace PathQuery

open PathQuery.Parser PathQuery.Expr

inductive GroupOpener where
  | paren
  | list
  | filter
  | hash (key : String)
  | call (function : Builtin)

namespace GroupOpener

def symbol : GroupOpener → Symbol
  | paren => .leftParen
  | list => .leftBracket
  | filter => .filter
  | hash _ => .leftBrace
  | call _ => .leftParen

def before : GroupOpener → String
  | call function => function.name
  | _ => ""

def behind : GroupOpener → String
  | hash key => fieldName key ++ ":"
  | _ => ""

def text (o : GroupOpener) : String := o.before ++ o.symbol.text ++ o.behind

def tokens (p : Nat) : GroupOpener → List Token
  | paren => [⟨.symbol .leftParen, "(", p⟩]
  | list => [⟨.symbol .leftBracket, "[", p⟩]
  | filter => [⟨.symbol .filter, "[?", p⟩]
  | hash key => [⟨.symbol .leftBrace, "\x7b", p⟩, ⟨nameToken key, fieldName key, p + 1⟩,
      ⟨.symbol .colon, ":", p + 1 + (fieldName key).length⟩]
  | call function => [⟨.identifier function.name, function.name, p⟩,
      ⟨.symbol .leftParen, "(", p + function.name.length⟩]

def allTokens (p : Nat) : List GroupOpener → List Token
  | [] => []
  | o :: os => o.tokens p ++ allTokens (p + o.text.length) os

def opening (p : Nat) (o : GroupOpener) : Opening := ⟨o.symbol, p + o.before.length⟩

theorem length_tokens_pos (p : Nat) (o : GroupOpener) : 0 < (o.tokens p).length := by
  cases o <;> exact Nat.succ_pos _

theorem length_le_allTokens (p : Nat) (os : List GroupOpener) :
    os.length ≤ (allTokens p os).length := by
  induction os generalizing p with
  | nil => exact Nat.le_refl 0
  | cons o os ih =>
    rw [allTokens, List.length_append, List.length_cons, Nat.add_comm]
    exact Nat.add_le_add (o.length_tokens_pos p) (ih _)

end GroupOpener

def Opening.unclosed (o : Opening) : SyntaxError :=
  ⟨o.position, .unclosed o.symbol (.closer o.symbol.closer)⟩

namespace Parser

variable {α β : Type} {m : ParseM α} {f : α → ParseM β} {a : α} {x : SyntaxError} {t : Token}
  {ts : List Token} {kinds mid : List TokenKind} {o : Opening} {n p : Nat} {e : Expr}

def Fails (m : ParseM α) (ts : List Token) (x : SyntaxError) : Prop :=
  ∀ c : TokenCursor, c.current :: c.following = ts → ∃ c', m c = .error x c'

namespace Fails

theorem bind (h : Fails m ts x) : Fails (m >>= f) ts x := by
  intro c hc
  obtain ⟨c', h⟩ := h c hc
  refine ⟨c', ?_⟩
  change EStateM.bind m f c = _
  rw [EStateM.bind, h]

/-- A rule that gives a result fails with what follows. -/
theorem after (hm : Gives m kinds a mid) (hkinds : ts.map Token.kind = kinds ++ [.endOfInput])
    (hend : .endOfInput ∉ kinds)
    (hf : ∀ us : List Token, us.map Token.kind = mid ++ [.endOfInput] → Fails (f a) us x) :
    Fails (m >>= f) ts x := by
  rintro c rfl
  obtain ⟨c₁, hm, hc₁⟩ := hm c ⟨hkinds, hend⟩
  obtain ⟨c₂, hf⟩ := hf _ hc₁.kinds c₁ rfl
  refine ⟨c₂, ?_⟩
  change EStateM.bind m f c = _
  rw [EStateM.bind, hm]
  exact hf

theorem assoc {γ : Type} {g : β → ParseM γ} (h : Fails (m >>= fun a ↦ f a >>= g) ts x) :
    Fails (m >>= f >>= g) ts x := by
  rwa [bind_assoc]

theorem current {f : Token → ParseM β} (h : Fails (f t) (t :: ts) x) :
    Fails (current >>= f) (t :: ts) x := by
  intro c hc
  obtain ⟨rfl, -⟩ := List.cons.inj hc
  exact h c hc

theorem peek {f : Token → ParseM β} (h : Fails (f (ts.headD t)) (t :: ts) x) :
    Fails (peek >>= f) (t :: ts) x := by
  intro c hc
  obtain ⟨rfl, rfl⟩ := List.cons.inj hc
  exact h c hc

theorem previousPosition {f : Nat → ParseM β} (h : ∀ n, Fails (f n) ts x) :
    Fails (previousPosition >>= f) ts x :=
  fun c hc ↦ h c.previous c hc

theorem turns {f : Nat → ParseM β} (h : Fails (f (ts.length + 1)) (t :: ts) x) :
    Fails (turns >>= f) (t :: ts) x := by
  intro c hc
  obtain ⟨-, rfl⟩ := List.cons.inj hc
  exact h c hc

theorem check {f : Bool → ParseM β} (s : Symbol) (h : Fails (f (t.kind.isSymbol s)) (t :: ts) x) :
    Fails (check s >>= f) (t :: ts) x := by
  intro c hc
  obtain ⟨rfl, -⟩ := List.cons.inj hc
  exact h c hc

theorem advance {f : Unit → ParseM β} (hne : ts ≠ []) (h : Fails (f ()) ts x) :
    Fails (advance >>= f) (t :: ts) x := by
  rintro ⟨previous, current, following⟩ hc
  obtain ⟨rfl, rfl⟩ := List.cons.inj hc
  cases following with
  | nil => exact absurd rfl hne
  | cons t' following => exact h _ rfl

theorem missingCloser (ht : t.kind = .endOfInput) :
    Fails (missingCloser o : ParseM α) [t] o.unclosed := by
  refine current ?_
  rw [ht]
  exact fun c _ ↦ ⟨c, rfl⟩

theorem expectCloser (ht : t.kind = .endOfInput) : Fails (expectCloser o) [t] o.unclosed := by
  refine check _ ?_
  rw [ht]
  exact missingCloser ht

theorem hashKey {f : String → ParseM β} {isFirst : Bool} {key : String}
    (hk : name? t.kind = some key) (hne : ts ≠ []) (h : Fails (f key) ts x) :
    Fails (hashKey o isFirst >>= f) (t :: ts) x := by
  refine assoc (current ?_)
  cases hkind : t.kind <;> rw [hkind] at hk <;> cases hk
  · exact assoc (advance hne h)
  · exact assoc (advance hne h)

end Fails

/-- In a group of which the opener was read the text goes on with `ts`, and the first expression
fails with the error or is followed by the end of the text, of which the error is the report. -/
def FailsInGroup (n : Nat) (o : Opening) (ts : List Token) (x : SyntaxError) : Prop :=
  ∀ {β : Type} (f : Expr → ParseM β), (∀ e t, t.kind = .endOfInput → Fails (f e) [t] o.unclosed) →
    Fails (grouped (expressionWithin n) o >>= f) ts x

theorem failsInGroup_of_reads (h : Reads (.expression 0) kinds e []) (hn : kinds.length < n)
    (hkinds : ts.map Token.kind = kinds ++ [.endOfInput]) (hend : .endOfInput ∉ kinds) :
    FailsInGroup n o ts o.unclosed := by
  intro β f hf
  refine .after (gives_grouped (h.ne_nil rfl) h.runs hn) hkinds hend fun us hus ↦ ?_
  obtain ⟨t, rfl, ht⟩ := List.map_eq_singleton_iff.1 hus
  exact hf e t ht

namespace FailsInGroup

theorem multiSelectList (h : FailsInGroup n o (t :: ts) x) :
    Fails (multiSelectList (expressionWithin n) o) (t :: ts) x := by
  refine .turns (.bind (h _ fun e t ht ↦ .check _ ?_))
  rw [ht]
  exact .bind (.expectCloser ht)

theorem argument (h : FailsInGroup n o (t :: ts) x) (ht : t.kind.isSymbol .ampersand = false)
    (f : Expr → ParseM β) (hf : ∀ e t, t.kind = .endOfInput → Fails (f e) [t] o.unclosed) :
    Fails (argument (expressionWithin n) o >>= f) (t :: ts) x := by
  refine .assoc (.check _ ?_)
  rw [ht]
  exact h f hf

theorem arguments (h : FailsInGroup n o (t :: ts) x) (ht : t.kind.isSymbol .ampersand = false)
    (ht' : t.kind.isSymbol .rightParen = false) (r : Nat) :
    Fails (arguments (expressionWithin n) o (r + 1)) (t :: ts) x := by
  refine .check _ ?_
  rw [ht']
  refine h.argument ht _ fun e u hu ↦ .check _ ?_
  rw [hu]
  refine .check _ ?_
  rw [hu]
  exact .missingCloser hu

end FailsInGroup

structure Startable (ts : List TokenKind) : Prop where
  starts : (first ts).startsExpression = true
  opensList : opensList ts = true

theorem Startable.exists_cons {us : List Token} (h : Startable (us.map Token.kind)) :
    ∃ t ts, us = t :: ts ∧ t.kind.startsExpression = true := by
  cases us with
  | nil => cases h.starts
  | cons t ts => exact ⟨t, ts, rfl, h.starts⟩

theorem isEnd_of_starts {k : TokenKind} (hk : k.startsExpression = true) : k.isEnd = false := by
  cases k <;> first | rfl | cases hk

theorem not_isSymbol_of_starts {k : TokenKind} {s : Symbol} (hk : k.startsExpression = true)
    (hs : (TokenKind.symbol s).startsExpression = false) : k.isSymbol s = false := by
  cases hsymbol : k.isSymbol s with
  | false => rfl
  | true =>
    rw [eq_symbol_of_isSymbol hsymbol, hs] at hk
    cases hk

theorem Reads.startable (h : Reads (.expression 0) kinds e []) :
    Startable (kinds ++ [.endOfInput]) := by
  have hread := h.beforeEnd
  refine ⟨hread.startsExpression, ?_⟩
  unfold Parser.opensList
  split
  · next hts => exact absurd (by rw [hts]; rfl) (hread.first_of_expression.1 _)
  · next hts => exact absurd (by rw [hts]; rfl) hread.first_of_expression.2.1
  · next hts =>
    rw [hts] at hread
    cases hread.star.2
  · rfl

theorem startable_opener (g : GroupOpener) (p : Nat) (us : List Token) :
    Startable ((g.tokens p ++ us).map Token.kind) := by
  cases g <;> exact ⟨rfl, rfl⟩

theorem startable_openers (outer : List GroupOpener) (o : GroupOpener) (p q : Nat)
    (us : List Token) :
    Startable ((GroupOpener.allTokens p outer ++ (o.tokens q ++ us)).map Token.kind) := by
  cases outer with
  | nil => exact startable_opener o q us
  | cons g outer =>
    rw [GroupOpener.allTokens, List.append_assoc]
    exact startable_opener g p _

theorem fails_list (h : FailsInGroup n ⟨.leftBracket, p⟩ ts x)
    (hts : Startable (ts.map Token.kind)) :
    Fails (head (expressionWithin n)) (⟨.symbol .leftBracket, "[", p⟩ :: ts) x := by
  obtain ⟨t, us, rfl, ht⟩ := hts.exists_cons
  refine .current (.advance (List.cons_ne_nil _ _) (.current ?_))
  split
  · next hk => rw [hk] at ht; cases ht
  · next hk => rw [hk] at ht; cases ht
  · next hk =>
    refine .peek ?_
    have hopens := hts.opensList
    rw [List.map_cons, hk, opensList_star, Bool.not_eq_true'] at hopens
    have hpeek : (us.headD t).kind.isSymbol .rightBracket = false := by
      cases us with
      | nil =>
        change t.kind.isSymbol .rightBracket = false
        rw [hk]
        rfl
      | cons u us => exact hopens
    rw [hpeek]
    exact h.multiSelectList
  · exact h.multiSelectList

/-- Where a group fails, so does the expression that starts with its opener. -/
theorem fails_opener (g : GroupOpener) (h : FailsInGroup n (g.opening p) ts x)
    (hts : Startable (ts.map Token.kind)) :
    Fails (expressionWithin (n + 1) 0) (g.tokens p ++ ts) x := by
  obtain ⟨t, us, rfl, ht⟩ := hts.exists_cons
  have hne : t :: us ≠ [] := List.cons_ne_nil t us
  cases g with
  | paren =>
    refine .bind (.current (.advance hne (h _ fun e t ht ↦ .bind (.expectCloser ht))))
  | list => exact .bind (fails_list h hts)
  | filter =>
    refine .bind (.current (.advance hne (h _ fun e t ht ↦ .bind (.expectCloser ht))))
  | hash key =>
    refine .bind (.current (.advance (List.cons_ne_nil _ _) (.turns (.bind ?_))))
    refine .hashKey (name?_nameToken key) (List.cons_ne_nil _ _) (.check _ (.advance hne ?_))
    refine h _ fun e t ht ↦ .check _ ?_
    rw [ht]
    exact .bind (.expectCloser ht)
  | call function =>
    refine .assoc (.current (.assoc (.advance (List.cons_ne_nil _ _) ?_)))
    rw [pure_bind]
    refine .turns (.current (.bind (.current (.previousPosition fun q ↦ .advance hne ?_))))
    rw [functionCall, Builtin.ofName?_name]
    exact .turns (.bind (h.arguments (not_isSymbol_of_starts ht rfl)
      (not_isSymbol_of_starts ht rfl) _))

theorem failsInGroup_of_fails (hts : Startable (ts.map Token.kind))
    (h : Fails (expressionWithin n 0) ts x) : FailsInGroup n o ts x := by
  obtain ⟨t, us, rfl, ht⟩ := hts.exists_cons
  intro β f _
  refine .assoc (.current ?_)
  rw [isEnd_of_starts ht]
  exact h.bind

/-- In whatever groups it stands, the last one is reported that was opened. -/
theorem fails_openers (outer : List GroupOpener) (o : GroupOpener)
    (h : Reads (.expression 0) kinds e []) (hkinds : ts.map Token.kind = kinds ++ [.endOfInput])
    (hend : .endOfInput ∉ kinds) (hn : outer.length + kinds.length + 1 < n) :
    Fails (expressionWithin n 0)
      (GroupOpener.allTokens p outer ++
        (o.tokens (p + (String.join (outer.map GroupOpener.text)).length) ++ ts))
      (o.opening (p + (String.join (outer.map GroupOpener.text)).length)).unclosed := by
  induction outer generalizing p n with
  | nil =>
    obtain ⟨n, rfl⟩ := Nat.exists_eq_add_one.2 (Nat.zero_lt_of_lt hn)
    rw [List.length_nil, Nat.zero_add] at hn
    exact fails_opener o (failsInGroup_of_reads h (Nat.lt_of_succ_lt_succ hn) hkinds hend)
      (hkinds ▸ h.startable)
  | cons g outer ih =>
    obtain ⟨n, rfl⟩ := Nat.exists_eq_add_one.2 (Nat.zero_lt_of_lt hn)
    rw [List.length_cons] at hn
    have hinner := ih (p := p + g.text.length) (n := n) (by omega)
    rw [List.map_cons, String.join_cons, String.length_append, ← Nat.add_assoc,
      GroupOpener.allTokens, List.append_assoc]
    have hstart := startable_openers outer o (p + g.text.length)
      (p + g.text.length + (String.join (outer.map GroupOpener.text)).length) ts
    exact fails_opener g (failsInGroup_of_fails hstart hinner) hstart

theorem Fails.complete (h : Fails (expressionWithin (t :: ts).length 0) (t :: ts) x) :
    Fails complete (t :: ts) x :=
  .bind (.turns h)

theorem Fails.ofTokens (h : Fails Parser.complete (t :: ts) x) :
    Expr.ofTokens (t :: ts) = .error x := by
  obtain ⟨c, hc⟩ := h (TokenCursor.ofTokens (t :: ts)) rfl
  rw [Expr.ofTokens, EStateM.run, hc]

theorem ofTokens_openers (outer : List GroupOpener) (o : GroupOpener)
    (h : Reads (.expression 0) kinds e []) (hkinds : ts.map Token.kind = kinds ++ [.endOfInput])
    (hend : .endOfInput ∉ kinds) :
    Expr.ofTokens (GroupOpener.allTokens p outer ++
        (o.tokens (p + (String.join (outer.map GroupOpener.text)).length) ++ ts)) =
      .error (o.opening (p + (String.join (outer.map GroupOpener.text)).length)).unclosed := by
  have hfails (n : Nat) (hn : outer.length + kinds.length + 1 < n) :=
    fails_openers (p := p) outer o h hkinds hend hn
  have hlength := congrArg List.length hkinds
  rw [List.length_map, List.length_append, List.length_singleton] at hlength
  have houter := GroupOpener.length_le_allTokens p outer
  have hopener := o.length_tokens_pos (p + (String.join (outer.map GroupOpener.text)).length)
  obtain ⟨t, us, hall, -⟩ := (startable_openers outer o p _ ts).exists_cons
  rw [hall] at hfails ⊢
  refine Fails.ofTokens (.complete (hfails _ ?_))
  rw [← hall, List.length_append, List.length_append]
  omega

end Parser

end PathQuery
