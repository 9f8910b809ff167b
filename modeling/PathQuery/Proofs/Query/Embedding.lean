import Mathlib.Tactic.Choose
import PathQuery.Proofs.Expr.WellFormed
import PathQuery.Proofs.Parser.Framing

namespace PathQuery

open PathQuery.Parser Lexer PathQuery.Expr

def TokenKind.startsExpression : TokenKind → Bool
  | number _ => false
  | endOfInput => false
  | symbol s =>
    s ∈ [.current, .star, .leftBracket, .flatten, .filter, .leftBrace, .not, .leftParen]
  | _ => true

namespace Parser

variable {ts us rest : List TokenKind} {e : Expr} {p : Nat} {x : Nonterminal}

def EndsWhole (ts : List TokenKind) : Prop := ∃ us k, ts = us ++ [k] ∧ k.isWhole = true

theorem endsWhole_concat {k : TokenKind} (hk : k.isWhole = true) (ts : List TokenKind) :
    EndsWhole (ts ++ [k]) := ⟨ts, k, rfl, hk⟩

theorem EndsWhole.append (h : EndsWhole us) (ts : List TokenKind) : EndsWhole (ts ++ us) := by
  obtain ⟨us, k, rfl, hk⟩ := h
  exact ⟨ts ++ us, k, (List.append_assoc ..).symm, hk⟩

theorem EndsWhole.cons (h : EndsWhole us) (k : TokenKind) : EndsWhole (k :: us) := h.append [k]

theorem isWhole_of_name? {k : TokenKind} {n : String} (h : name? k = some n) :
    k.isWhole = true := by
  cases k with
  | symbol => cases h
  | _ => rfl

/-- All that a grammar rule derives ends in a whole token; only the arguments of a function may be
nothing at all. -/
theorem Derives.endsWhole (h : Derives x ts) (hx : x ≠ .arguments) : EndsWhole ts := by
  induction h with
  | unary _ ih | chain _ ih | head _ ih | headOpener _ ih | opener _ _ ih | lastItem _ ih
  | lastArgument _ ih | value _ ih => exact ih nofun
  | not _ ih | reference _ ih => exact (ih nofun).cons _
  | operator _ _ _ _ ih | item _ _ _ ih | nextArgument _ _ _ ih =>
    exact ((ih nofun).cons _).append _
  | step _ _ _ ih => exact (ih nofun).append _
  | lastPair _ _ ih => exact ((ih nofun).cons _).cons _
  | pair _ _ _ _ ih => exact ((((ih nofun).cons _).append _).cons _).cons _
  | bareName hk => exact endsWhole_concat (isWhole_of_name? hk) []
  | noArguments | someArguments => exact absurd rfl hx
  | current | literal | rawString | identifier | quotedIdentifier | headStar | bareCallee =>
    exact endsWhole_concat rfl []
  | dotIdentifier | dotQuotedIdentifier | dotStar => exact endsWhole_concat rfl [_]
  | headIndex | index | wildcard => exact endsWhole_concat rfl [_, _]
  | flatten => exact endsWhole_concat rfl []
  | group | hash | headList | list | filter | groupedName | groupedCallee =>
    exact (endsWhole_concat rfl _).cons _
  | slice => exact (endsWhole_concat rfl _).cons _
  | dotList | dotHash => exact ((endsWhole_concat rfl _).cons _).cons _
  | call => exact ((endsWhole_concat rfl _).cons _).append _
  | dotCall => exact (((endsWhole_concat rfl _).cons _).cons _).cons _

theorem Reads.startsExpression_of_head (h : Reads .head ts e rest) :
    (first ts).startsExpression = true := by
  cases h with
  | implicit h => cases h <;> rfl
  | _ => rfl

theorem Reads.startsExpression (h : Reads (.expression p) ts e rest) :
    (first ts).startsExpression = true := by
  cases h with
  | expression hhead => exact hhead.startsExpression_of_head

end Parser

namespace Lexer

variable {cs : List Char} {ts : List TokenKind} {s : Symbol}

theorem first_of_lexes (h : Lexes cs ts) (hs : symbol? cs = some s) : first ts = .symbol s := by
  have htrim : Text.trimLeft cs = cs := by
    cases cs with
    | nil => rfl
    | cons c cs => exact List.dropWhile_cons_of_neg (by simp [not_isBlank_of_symbol? hs])
  cases h with
  | done hnil =>
    rw [htrim] at hnil
    subst hnil
    cases hs
  | token hscan =>
    rw [htrim, scan_symbol hs] at hscan
    cases hscan
    rfl

theorem not_lexes_questionMark (h : Lexes ('?' :: cs) ts) : False := by
  have htrim : Text.trimLeft ('?' :: cs) = '?' :: cs := List.dropWhile_cons_of_neg (by decide)
  cases h with
  | done hnil => cases htrim.symm.trans hnil
  | token hscan =>
    rw [htrim] at hscan
    cases hscan

/-- A text whose first token starts an expression does not go on with an opening bracket or with an
ampersand. -/
theorem head_of_lexes (h : Lexes cs ts) (hts : (first ts).startsExpression = true) :
    ∃ c cs', cs = c :: cs' ∧ c ≠ ']' ∧ c ≠ '?' ∧ c ≠ '&' := by
  have hsymbol {s : Symbol} (hs : symbol? cs = some s) :
      (TokenKind.symbol s).startsExpression = true := first_of_lexes h hs ▸ hts
  cases cs with
  | nil =>
    rw [h.eq_nil] at hts
    cases hts
  | cons c cs =>
    refine ⟨c, cs, rfl, ?_, ?_, ?_⟩
    · rintro rfl
      exact absurd (hsymbol (s := .rightBracket) rfl) (by decide)
    · rintro rfl
      exact not_lexes_questionMark h
    · rintro rfl
      by_cases hcs : cs.head? = some '&'
      · obtain ⟨cs, rfl⟩ := List.head?_eq_some_iff.1 hcs
        exact absurd (hsymbol (s := .and) rfl) (by decide)
      · have hs := symbol?_ampersand fun c hc heq ↦ hcs (heq ▸ hc)
        exact absurd (hsymbol hs) (by decide)

end Lexer

/-- The characters spell tokens that are read as the expression, whatever they stand between. -/
structure Embeds (cs : List Char) (ts : List TokenKind) (e : Expr) : Prop where
  spells : Spells cs ts
  head : ∃ c cs', cs = c :: cs' ∧ c ≠ ']' ∧ c ≠ '?' ∧ c ≠ '&'
  reads : ReadsBefore (.expression 0) ts e

theorem toList_group (text : String) :
    ("(" ++ text ++ ")").toList = '(' :: (text.toList ++ [')']) := by
  rw [String.toList_append, String.toList_append]
  rfl

namespace Embeds

variable {cs : List Char} {ts us : List TokenKind} {e : Expr}

theorem reads_end (h : Embeds cs ts e) : Reads (.expression 0) ts e [] := by
  have hreads := h.reads [] rfl
  rwa [List.append_nil] at hreads

theorem spells_group (h : Embeds cs ts e) :
    Spells ('(' :: (cs ++ [')'])) (.symbol .leftParen :: (ts ++ [.symbol .rightParen])) :=
  h.spells.grouped (w := true)

theorem reads_group (h : Embeds cs ts e) (us : List TokenKind) :
    Reads .head (.symbol .leftParen :: (ts ++ .symbol .rightParen :: us)) e us :=
  .group (h.reads _ rfl)

end Embeds

namespace Query

variable {text : String} {e : Expr} {ts : List TokenKind} {qs : List Query}

def Compiles (text : String) (e : Expr) : Prop := compile text = .ok ⟨text, e⟩

theorem Compiles.embeds (h : Compiles text e) : ∃ ts, Embeds text.toList ts e := by
  obtain ⟨ts, hlexes, hreads⟩ := ofString_eq_ok_iff.mp (ofString_of_compile h).2
  refine ⟨ts, fun rest more hrest hmore ↦ ?_, head_of_lexes hlexes hreads.startsExpression,
    fun us hus ↦ hreads.append fun _ ↦ Nat.le_of_eq hus⟩
  refine hlexes.append (fun k hk ↦ ?_) hrest hmore
  obtain ⟨us, k', rfl, hwhole⟩ := hreads.derives.endsWhole nofun
  rw [List.getLast?_concat] at hk
  cases hk
  exact hwhole

theorem embeds_of_compiles (h : ∀ q ∈ qs, Compiles q.text q.expr) :
    ∃ ts : Query → List TokenKind, ∀ q ∈ qs, Embeds q.text.toList (ts q) q.expr := by
  have hts (q : Query) : ∃ ts, q ∈ qs → Embeds q.text.toList ts q.expr := by
    by_cases hq : q ∈ qs
    · obtain ⟨ts, hts⟩ := (h q hq).embeds
      exact ⟨ts, fun _ ↦ hts⟩
    · exact ⟨[], fun hq' ↦ absurd hq' hq⟩
  choose ts hts using hts
  exact ⟨ts, hts⟩

theorem compiles_of_spells {cs : List Char} (htext : text.toList = cs) (h : Spells cs ts)
    (hreads : Reads (.expression 0) ts e []) : Compiles text e := by
  have hlexes := h [] [] apart_nil (.done rfl)
  rw [List.append_nil, List.append_nil, ← htext] at hlexes
  rw [Compiles, compile, ofString_eq_ok_iff.mpr ⟨ts, hlexes, hreads⟩]
  rfl

end Query

end PathQuery
