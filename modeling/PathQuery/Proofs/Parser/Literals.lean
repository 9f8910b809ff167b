import PathQuery.Proofs.Parser.Completeness
import PathQuery.Proofs.Token.Lexing

namespace PathQuery

namespace Expr

mutual

def AllLiterals (P : Value → Prop) : Expr → Prop
  | flatten inner => AllLiterals P inner
  | objectValues inner => AllLiterals P inner
  | subexpression left right => AllLiterals P left ∧ AllLiterals P right
  | pipe left right => AllLiterals P left ∧ AllLiterals P right
  | projection source body => AllLiterals P source ∧ AllLiterals P body
  | filterProjection source predicate body =>
    AllLiterals P source ∧ AllLiterals P predicate ∧ AllLiterals P body
  | multiSelectList items => AllLiteralsItems P items
  | multiSelectHash pairs => AllLiteralsPairs P pairs
  | or left right => AllLiterals P left ∧ AllLiterals P right
  | and left right => AllLiterals P left ∧ AllLiterals P right
  | not inner => AllLiterals P inner
  | comparison _ left right => AllLiterals P left ∧ AllLiterals P right
  | functionCall _ args => AllLiteralsItems P args
  | expressionRef inner => AllLiterals P inner
  | literal v => P v
  | _ => True
termination_by structural e => e

def AllLiteralsItems (P : Value → Prop) : List Expr → Prop
  | [] => True
  | e :: es => AllLiterals P e ∧ AllLiteralsItems P es
termination_by structural es => es

def AllLiteralsPairs (P : Value → Prop) : List (String × Expr) → Prop
  | [] => True
  | (_, e) :: ps => AllLiterals P e ∧ AllLiteralsPairs P ps
termination_by structural ps => ps

end

end Expr

namespace Parser

open PathQuery.Expr

variable {P : Value → Prop} {ts rest : List TokenKind} {e left right : Expr}

def LiteralTokens (P : Value → Prop) (ts : List TokenKind) : Prop :=
  (∀ v, .literal v ∈ ts → P v) ∧ ∀ s, .rawString s ∈ ts → P (.string s)

theorem LiteralTokens.of_suffix (h : LiteralTokens P ts) (hrest : rest <:+ ts) :
    LiteralTokens P rest :=
  ⟨fun v hv ↦ h.1 v (hrest.mem hv), fun s hs ↦ h.2 s (hrest.mem hs)⟩

theorem allLiterals_access (hleft : left.AllLiterals P) (hright : right.AllLiterals P) :
    (access left right).AllLiterals P := by
  unfold access
  split
  · exact hright
  · exact ⟨hleft, hright⟩

theorem allLiterals_binary {s : Symbol} {tree : Expr → Expr → Expr} (hs : binary? s = some tree)
    (hleft : left.AllLiterals P) (hright : right.AllLiterals P) :
    (tree left right).AllLiterals P := by
  cases s <;> cases hs <;> exact ⟨hleft, hright⟩

def Phrase.left? : Phrase → Option Expr
  | climb _ left => some left
  | extend left => some left
  | bracket left => some left
  | _ => none

theorem Reads.suffix {φ : Phrase} (h : Reads φ ts e rest) : rest <:+ ts := by
  induction h with
  | stop | element => exact List.suffix_refl _
  | current | identifier | quotedIdentifier | literal | rawString | noArguments =>
    exact List.suffix_cons ..
  | expression _ _ ih ih' => exact ih'.trans ih
  | step _ _ _ ih ih' => exact ih'.trans ih
  | implicit _ ih | explicit _ ih | dotName _ _ ih | bodyBracket _ _ ih | plain _ ih => exact ih
  | values _ ih | hash _ ih | not _ ih | dot _ ih | flatten _ ih | dotList _ ih | dotHash _ ih
  | bodyDot _ ih | reference _ ih | list _ _ ih | binary _ _ ih | call _ _ ih =>
    exact ih.trans (List.suffix_cons ..)
  | group _ ih => exact (List.suffix_cons ..).trans (ih.trans (List.suffix_cons ..))
  | filter _ _ ih ih' =>
    exact ih'.trans ((List.suffix_cons ..).trans (ih.trans (List.suffix_cons ..)))
  | @index _ i ts => exact List.suffix_append [_, .number i, .symbol .rightBracket] ts
  | @slice _ _ _ inner ts _ _ _ _ ih =>
    exact ih.trans ((List.suffix_cons ..).trans
      ((List.suffix_append inner _).trans (List.suffix_cons ..)))
  | @wildcard _ _ ts _ _ ih =>
    have hsuffix : ts <:+ .symbol .leftBracket :: .symbol .star :: .symbol .rightBracket :: ts :=
      ⟨[.symbol .leftBracket, .symbol .star, .symbol .rightBracket], rfl⟩
    exact ih.trans hsuffix
  | lastItem _ ih | lastArgument _ ih => exact (List.suffix_cons ..).trans ih
  | item _ _ ih ih' => exact ih'.trans ((List.suffix_cons ..).trans ih)
  | nextArgument _ _ _ ih ih' => exact ih'.trans ((List.suffix_cons ..).trans ih)
  | @lastPair k _ _ ts _ _ _ ih =>
    exact (List.suffix_cons ..).trans (ih.trans (List.suffix_append [k, .symbol .colon] ts))
  | @pair k _ _ _ ts _ _ _ _ _ ih ih' =>
    exact ih'.trans ((List.suffix_cons ..).trans
      (ih.trans (List.suffix_append [k, .symbol .colon] ts)))

theorem Reads.allLiterals {φ : Phrase} (h : Reads φ ts e rest) (hts : LiteralTokens P ts)
    (hφ : ∀ left ∈ φ.left?, left.AllLiterals P) : e.AllLiterals P := by
  induction h with
  | expression hhead _ ih ih' =>
    exact ih' (hts.of_suffix hhead.suffix) fun left hleft ↦ by
      cases hleft
      exact ih hts nofun
  | stop => exact hφ _ rfl
  | step _ hextend _ ih ih' =>
    exact ih' (hts.of_suffix hextend.suffix) fun left hleft ↦ by
      cases hleft
      exact ih hts hφ
  | current | identifier | quotedIdentifier | element | noArguments => trivial
  | literal => exact hts.1 _ List.mem_cons_self
  | rawString => exact hts.2 _ List.mem_cons_self
  | values _ ih => exact ⟨trivial, ih (hts.of_suffix (List.suffix_cons ..)) nofun⟩
  | implicit _ ih =>
    exact ih hts fun left hleft ↦ by
      cases hleft
      trivial
  | list _ _ ih => exact ih (hts.of_suffix (List.suffix_cons ..)) nofun
  | hash _ ih | not _ ih | dotList _ ih | dotHash _ ih | bodyDot _ ih | reference _ ih
  | group _ ih =>
    exact ih (hts.of_suffix (List.suffix_cons ..)) nofun
  | dotName _ _ ih | bodyBracket _ _ ih | plain _ ih => exact ih hts nofun
  | dot _ ih => exact ⟨hφ _ rfl, ih (hts.of_suffix (List.suffix_cons ..)) nofun⟩
  | binary hs _ ih =>
    exact allLiterals_binary hs (hφ _ rfl) (ih (hts.of_suffix (List.suffix_cons ..)) nofun)
  | explicit _ ih => exact ih hts hφ
  | call _ _ ih => exact ih (hts.of_suffix (List.suffix_cons ..)) nofun
  | @flatten left _ _ _ _ ih => exact ⟨hφ left rfl, ih (hts.of_suffix (List.suffix_cons ..)) nofun⟩
  | filter hpredicate _ ih ih' =>
    have hts := hts.of_suffix (List.suffix_cons ..)
    exact ⟨hφ _ rfl, ih hts nofun,
      ih' ((hts.of_suffix hpredicate.suffix).of_suffix (List.suffix_cons ..)) nofun⟩
  | index => exact allLiterals_access (hφ _ rfl) trivial
  | @slice _ _ _ inner ts _ _ _ _ ih =>
    refine ⟨allLiterals_access (hφ _ rfl) trivial, ih (hts.of_suffix ?_) nofun⟩
    exact (List.suffix_cons ..).trans ((List.suffix_append inner _).trans (List.suffix_cons ..))
  | @wildcard _ _ ts _ _ ih =>
    have hsuffix : ts <:+ .symbol .leftBracket :: .symbol .star :: .symbol .rightBracket :: ts :=
      ⟨[.symbol .leftBracket, .symbol .star, .symbol .rightBracket], rfl⟩
    exact ⟨hφ _ rfl, ih (hts.of_suffix hsuffix) nofun⟩
  | lastItem _ ih | lastArgument _ ih => exact ⟨ih hts nofun, trivial⟩
  | item hitem _ ih ih' =>
    exact ⟨ih hts nofun, ih' ((hts.of_suffix hitem.suffix).of_suffix (List.suffix_cons ..)) nofun⟩
  | nextArgument harg _ _ ih ih' =>
    exact ⟨ih hts nofun, ih' ((hts.of_suffix harg.suffix).of_suffix (List.suffix_cons ..)) nofun⟩
  | @lastPair k _ _ ts _ _ _ ih =>
    exact ⟨ih (hts.of_suffix (List.suffix_append [k, .symbol .colon] ts)) nofun, trivial⟩
  | @pair k _ _ _ ts _ _ _ hvalue _ ih ih' =>
    have hts := hts.of_suffix (List.suffix_append [k, .symbol .colon] ts)
    exact ⟨ih hts nofun,
      ih' ((hts.of_suffix hvalue.suffix).of_suffix (List.suffix_cons ..)) nofun⟩

end Parser

open PathQuery.Parser

/-- The trees of a text are those that its tokens are read as. -/
theorem Expr.ofString_eq_ok_iff {text : String} {e : Expr} :
    ofString text = .ok e ↔
      ∃ kinds, Lexes text.toList kinds ∧ Reads (.expression 0) kinds e [] := by
  constructor
  · intro h
    cases htokens : Token.ofString text with
    | error x => rw [ofString, htokens] at h; cases h
    | ok tokens =>
      obtain ⟨kinds, hkinds, hlexes⟩ := Token.lexes_of_ofString htokens
      rw [ofString, htokens] at h
      exact ⟨kinds, hlexes, (ofTokens_eq_ok_iff hkinds (Token.not_end_of_lexes hlexes)).mp h⟩
  · rintro ⟨kinds, hlexes, h⟩
    obtain ⟨tokens, htokens, hkinds⟩ := Token.ofString_of_lexes hlexes
    rw [ofString, htokens]
    exact (ofTokens_eq_ok_iff hkinds (Token.not_end_of_lexes hlexes)).mpr h

theorem Expr.allLiterals_of_ofString {P : Value → Prop} {text : String} {e : Expr}
    (h : ofString text = .ok e)
    (hdocument : ∀ d : Json, d.Nests Json.Read.maxDepth → P (.ofJson d.sorted))
    (hstring : ∀ s, P (.string s)) : e.AllLiterals P := by
  obtain ⟨kinds, hlexes, hreads⟩ := ofString_eq_ok_iff.mp h
  refine hreads.allLiterals ⟨fun v hv ↦ ?_, fun s _ ↦ hstring s⟩ nofun
  obtain ⟨d, hd, rfl⟩ := Token.literal_of_lexes hlexes hv
  exact hdocument d hd

end PathQuery
