import PathQuery.Proofs.Expr.Shape
import PathQuery.Proofs.Parser.Literals
import PathQuery.Proofs.Token.Boundary

namespace PathQuery

open PathQuery.Parser Lexer

namespace Expr

def Opens (c : Char) : TokenKind → Prop
  | .identifier _ => isNameStart c = true
  | .quotedIdentifier _ => c = '"'
  | .literal _ => c = '\x60'
  | .symbol s =>
    s ∈ [.leftBracket, .leftBrace, .leftParen, .flatten, .filter, .star, .not, .current] ∧
      s.text.toList.head? = some c
  | _ => False

def Heads (cs : List Char) (ts : List TokenKind) : Prop :=
  ∃ c cs' k ts', cs = c :: cs' ∧ ts = k :: ts' ∧ Opens c k

variable {e left right : Expr} {cs cs' : List Char} {ts ts' : List TokenKind} {w : Bool}

theorem Heads.append (h : Heads cs ts) (cs' : List Char) (ts' : List TokenKind) :
    Heads (cs ++ cs') (ts ++ ts') := by
  obtain ⟨c, ds, k, us, rfl, rfl, h⟩ := h
  exact ⟨c, ds ++ cs', k, us ++ ts', rfl, rfl, h⟩

theorem Heads.symbol {s : Symbol} {c : Char} (h : Opens c (.symbol s)) (cs : List Char)
    (ts : List TokenKind) : Heads (c :: cs) (.symbol s :: ts) :=
  ⟨c, cs, _, ts, rfl, rfl, h⟩

def parensChars (wrapped : Bool) (cs : List Char) : List Char :=
  if wrapped then '(' :: (cs ++ [')']) else cs

theorem toList_parens (wrapped : Bool) (text : String) :
    (parens wrapped text).toList = parensChars wrapped text.toList := by
  cases wrapped with
  | false => rfl
  | true => simp [parens, parensChars]

theorem toList_sourceText (e : Expr) (most : Level) (text : String) :
    (sourceText e most text).toList =
      if e.isCurrentNode then [] else parensChars (e.looserThan most) text.toList := by
  rw [sourceText]
  split
  · rfl
  · exact toList_parens _ _

theorem Heads.grouped (h : Heads cs ts) : Heads (parensChars w cs) (grouped w ts) := by
  cases w with
  | false => exact h
  | true => exact .symbol ⟨by decide, by decide⟩ _ _

theorem heads_fieldName (name : String) : Heads (fieldName name).toList [nameToken name] := by
  rw [fieldName, nameToken]
  split
  · next h =>
    cases hname : name.toList with
    | nil =>
      rw [hname] at h
      cases h
    | cons c cs =>
      rw [hname, isName, Bool.and_eq_true] at h
      exact ⟨c, cs, _, _, rfl, rfl, h.1⟩
  · exact ⟨'"', _, _, _, String.toList_ofList, rfl, rfl⟩

theorem toList_text_step (left : Expr) (h : (right.isIndex || right.isSlice) = true) :
    (subexpression left right).text.toList =
      parensChars (left.looserThan .primary) left.text.toList ++ right.text.toList := by
  rw [text, if_pos h, String.toList_append, toList_parens]

theorem toList_text_dot (left : Expr) (h : (right.isIndex || right.isSlice) = false) :
    (subexpression left right).text.toList =
      parensChars (left.looserThan .chain) left.text.toList ++ '.' :: right.text.toList := by
  rw [text, h, if_neg Bool.false_ne_true, String.toList_append, String.toList_append, toList_parens,
    List.append_assoc]
  rfl

theorem toList_sliceText (start stop step : Option Int64) :
    ∃ cs, (sliceText start stop step).toList = '[' :: cs := by
  rw [sliceText, String.toList_append, String.toList_append, String.toList_append,
    String.toList_append, String.toList_append]
  exact ⟨_, rfl⟩

theorem heads_sliceText (start stop step : Option Int64) :
    Heads (sliceText start stop step).toList (sliceTokens start stop step) := by
  obtain ⟨cs, hcs⟩ := toList_sliceText start stop step
  rw [hcs]
  exact .symbol ⟨by decide, by decide⟩ _ _

theorem Heads.source (h : Heads e.text.toList e.tokens) (most : Level) (hbracket : Heads cs ts) :
    Heads ((sourceText e most e.text).toList ++ cs) (sourceTokens e most e.tokens ++ ts) := by
  rw [toList_sourceText, sourceTokens]
  split
  · exact hbracket
  · exact h.grouped.append _ _

theorem Shaped.projectedText {source : Expr} (h : Shaped source) (text : String) :
    projectedText source text = sourceText source .primary text ++ "[*]" := by
  unfold Expr.projectedText
  split
  · cases h
  · cases h
  · cases h
  · exact absurd h.not_stepSlice id
  · rfl

theorem Shaped.heads (h : Shaped e) : Heads e.text.toList e.tokens := by
  induction h with
  | field name =>
    rw [text, tokens]
    exact heads_fieldName name
  | current => exact .symbol ⟨by decide, by decide⟩ _ _
  | literal v =>
    rw [text, tokens, toList_literalText]
    exact ⟨_, _, _, _, rfl, rfl, rfl⟩
  | index i =>
    rw [text, String.toList_append, String.toList_append]
    exact .symbol ⟨by decide, by decide⟩ _ _
  | step i _ _ ih =>
    rw [toList_text_step _ rfl, tokens_step _ rfl]
    exact ih.grouped.append _ _
  | dot _ _ hright ih =>
    rw [toList_text_dot _ hright.not_bracket, tokens_dot _ hright.not_bracket]
    exact ih.grouped.append _ _
  | values _ _ _ =>
    rw [text, tokens, String.toList_append]
    exact (Heads.symbol ⟨by decide, by decide⟩ _ _).append _ _
  | flatten _ _ _ ih =>
    rw [text, tokens, String.toList_append, Expr.projectedText, projectedTokens_flatten, text,
      tokens, String.toList_append]
    have hbracket : Heads "[]".toList [.symbol .flatten] := .symbol ⟨by decide, by decide⟩ _ _
    exact (ih.source _ hbracket).append _ _
  | slice _ _ _ _ =>
    rw [text, tokens, String.toList_append]
    exact (heads_sliceText ..).append _ _
  | stepSlice _ hcurrent _ _ _ ih _ =>
    rw [text, tokens, String.toList_append, projectedText_stepSlice hcurrent,
      projectedTokens_stepSlice hcurrent, toList_text_step _ rfl, tokens_step _ rfl]
    exact (ih.grouped.append _ _).append _ _
  | wildcard hsource _ _ ih _ =>
    rw [text, tokens, String.toList_append, hsource.projectedText, hsource.projectedTokens,
      String.toList_append]
    exact (ih.source _ (.symbol ⟨by decide, by decide⟩ _ _)).append _ _
  | filter _ _ _ _ ih _ _ =>
    rw [text, tokens, String.toList_append, String.toList_append, String.toList_append,
      String.toList_append, List.append_assoc, List.append_assoc, List.append_assoc]
    exact ih.source _ (.symbol ⟨by decide, by decide⟩ _ _)
  | list _ _ _ =>
    rw [text, String.toList_append, String.toList_append]
    exact .symbol ⟨by decide, by decide⟩ _ _
  | hash _ _ _ =>
    rw [text, String.toList_append, String.toList_append]
    exact .symbol ⟨by decide, by decide⟩ _ _
  | pipe _ _ ih _ =>
    rw [text, tokens, String.toList_append, String.toList_append, List.append_assoc]
    exact ih.append _ _
  | or _ _ ih _ | and _ _ ih _ =>
    rw [text, tokens, String.toList_append, String.toList_append, List.append_assoc, toList_parens]
    exact ih.grouped.append _ _
  | comparison _ _ _ ih _ =>
    rw [text, tokens]
    simp only [String.toList_append, List.append_assoc, toList_parens]
    exact ih.grouped.append _ _
  | not _ _ =>
    rw [text, String.toList_append]
    exact .symbol ⟨by decide, by decide⟩ _ _
  | @call name _ hname _ _ =>
    rw [text, String.toList_append, String.toList_append, String.toList_append, List.append_assoc,
      List.append_assoc]
    have hheads := heads_fieldName name
    rw [fieldName, nameToken, isName_of_builtin hname, if_pos rfl, if_pos rfl] at hheads
    exact hheads.append _ _

/-- The characters spell the tokens before whatever a name can end before. -/
def Spells (cs : List Char) (ts : List TokenKind) : Prop :=
  ∀ rest more, Apart rest → Lexes rest more → Lexes (cs ++ rest) (ts ++ more)

theorem spells_nil : Spells [] [] := fun _ _ _ h ↦ h

theorem Spells.append (h : Spells cs ts) (hapart : ∀ rest, Apart rest → Apart (cs' ++ rest))
    (h' : Spells cs' ts') : Spells (cs ++ cs') (ts ++ ts') := by
  intro rest more hrest hmore
  rw [List.append_assoc, List.append_assoc]
  exact h _ _ (hapart rest hrest) (h' rest more hrest hmore)

/-- What starts with no character of a name can follow anything. -/
theorem Spells.followedBy {c : Char} (h : Spells cs ts) (hc : isNameChar c = false)
    (h' : Spells (c :: cs') ts') : Spells (cs ++ c :: cs') (ts ++ ts') :=
  h.append (fun _ _ ↦ apart_cons hc _) h'

theorem Spells.symbol (s : Symbol) (sign : List Char) (hn : s.text.length = sign.length)
    (h : Spells cs ts) (hs : ∀ rest, symbol? (sign ++ (cs ++ rest)) = some s) :
    Spells (sign ++ cs) (.symbol s :: ts) := by
  intro rest more hrest hmore
  rw [List.append_assoc]
  refine .symbol (hs rest) hn ?_
  rw [List.drop_left]
  exact h rest more hrest hmore

theorem Spells.blank (h : Spells cs ts) : Spells (' ' :: cs) ts := by
  intro rest more hrest hmore
  exact (h rest more hrest hmore).blank (by decide)

theorem spells_sign (s : Symbol) (hs : ∀ rest, symbol? (s.text.toList ++ rest) = some s) :
    Spells s.text.toList [.symbol s] := by
  have h := Spells.symbol s s.text.toList String.length_toList.symm spells_nil hs
  rwa [List.append_nil] at h

theorem isEnd_nameToken (name : String) : (nameToken name).isEnd = false := by
  rw [nameToken]
  split <;> rfl

theorem scan_fieldName (name : String) {rest : List Char} (hrest : Apart rest) :
    scan ((fieldName name).toList ++ rest) =
      ⟨(fieldName name).toList.length, .ok (nameToken name)⟩ := by
  rw [fieldName, nameToken]
  split
  · next h => exact scan_name h hrest
  · exact scan_quotedIdentifier name rest

theorem spells_fieldName (name : String) : Spells (fieldName name).toList [nameToken name] :=
  fun _ _ hrest hmore ↦ .cons (scan_fieldName name hrest) (isEnd_nameToken name) hmore

theorem spells_number (n : Int64) : Spells (toString n.toInt).toList [.number n] := by
  intro rest more hrest hmore
  exact .cons (scan_number n hrest.not_isDigit) rfl hmore

theorem spells_literal {v : Value} (h : v.Canonical Json.Read.maxDepth) :
    Spells (literalText v).toList [.literal v] :=
  fun rest _ _ hmore ↦ .cons (scan_literal h rest) rfl hmore

theorem Spells.grouped (h : Spells cs ts) : Spells (parensChars w cs) (grouped w ts) := by
  cases w with
  | false => exact h
  | true =>
    have hclose : Spells [')'] [.symbol .rightParen] := spells_sign .rightParen fun _ ↦ rfl
    exact (h.followedBy (by decide) hclose).symbol .leftParen ['('] rfl fun _ ↦ rfl

theorem symbol?_leftBracket (h : ∀ c ∈ cs.head?, c ≠ ']' ∧ c ≠ '?') :
    symbol? ('[' :: cs) = some .leftBracket := by
  rw [symbol?]
  · rintro _ rfl
    exact (h _ rfl).1 rfl
  · rintro _ rfl
    exact (h _ rfl).2 rfl

theorem symbol?_ampersand (h : ∀ c ∈ cs.head?, c ≠ '&') :
    symbol? ('&' :: cs) = some .ampersand := by
  rw [symbol?]
  rintro _ rfl
  exact h _ rfl rfl

theorem symbol?_not (h : ∀ c ∈ cs.head?, c ≠ '=') : symbol? ('!' :: cs) = some .not := by
  rw [symbol?]
  rintro _ rfl
  exact h _ rfl rfl

theorem Opens.ne {c : Char} {k : TokenKind} (h : Opens c k) :
    c ≠ ']' ∧ c ≠ '?' ∧ c ≠ '&' ∧ c ≠ '=' := by
  cases k with
  | identifier =>
    refine ⟨?_, ?_, ?_, ?_⟩ <;> rintro rfl <;> cases h
  | quotedIdentifier | literal =>
    cases h
    decide
  | symbol s =>
    obtain ⟨hs, hc⟩ := h
    simp only [List.mem_cons, List.not_mem_nil, or_false] at hs
    obtain rfl | rfl | rfl | rfl | rfl | rfl | rfl | rfl := hs <;> cases hc <;> decide
  | number | rawString | endOfInput => cases h

theorem head?_number (n : Int64) (rest : List Char) :
    ∀ c ∈ ((toString n.toInt).toList ++ rest).head?, c ≠ ']' ∧ c ≠ '?' := by
  intro c hc
  obtain h | h := Int.lt_or_le n.toInt 0
  · rw [Number.toList_toString_of_neg h] at hc
    cases hc
    decide
  · rw [Number.toList_toString_of_nonneg h] at hc
    cases hds : Number.digits n.toInt.toNat with
    | nil => exact absurd hds Nat.toDigits_ne_nil
    | cons d ds =>
      rw [hds] at hc
      cases hc
      have hd := Number.isDigit_of_mem (hds ▸ List.mem_cons_self)
      constructor <;> rintro rfl <;> cases hd

theorem toList_text_index (i : Int64) : ∃ cs, (index i).text.toList = '[' :: cs := by
  rw [text, String.toList_append, String.toList_append]
  exact ⟨_, rfl⟩

theorem spells_index (i : Int64) : Spells (index i).text.toList (index i).tokens := by
  have hclose : Spells [']'] [.symbol .rightBracket] := spells_sign .rightBracket fun _ ↦ rfl
  rw [text, String.toList_append, String.toList_append, List.append_assoc]
  refine ((spells_number i).followedBy (by decide) hclose).symbol .leftBracket ['[']
    rfl fun rest ↦ ?_
  rw [List.append_assoc]
  exact symbol?_leftBracket (head?_number i _)

theorem spells_part (n : Option Int64) :
    Spells ((n.map fun n ↦ toString n.toInt).getD "").toList (numberTokens n) := by
  cases n with
  | none => exact spells_nil
  | some n => exact spells_number n

theorem spells_stepPart (step : Option Int64) :
    Spells (((step.map fun n ↦ ":" ++ toString n.toInt).getD "").toList ++ [']'])
      (stepTokens step ++ [.symbol .rightBracket]) := by
  have hclose : Spells [']'] [.symbol .rightBracket] := spells_sign .rightBracket fun _ ↦ rfl
  cases step with
  | none => exact hclose
  | some n =>
    rw [Option.map_some, Option.getD_some, String.toList_append, List.append_assoc]
    exact ((spells_number n).followedBy (by decide) hclose).symbol .colon [':'] rfl
      fun _ ↦ rfl

theorem spells_slice (start stop step : Option Int64) :
    Spells (sliceText start stop step).toList (sliceTokens start stop step) := by
  have hstep := spells_stepPart step
  have hapart : ∀ rest, Apart rest →
      Apart ((((step.map fun n ↦ ":" ++ toString n.toInt).getD "").toList ++ [']']) ++ rest) := by
    intro rest _
    cases step with
    | none => exact apart_cons (by decide) _
    | some n =>
      rw [Option.map_some, Option.getD_some, String.toList_append]
      exact apart_cons (by decide) _
  have hstop := ((spells_part stop).append hapart hstep).symbol .colon [':'] rfl
    fun _ ↦ rfl
  have hstart := (spells_part start).followedBy (by decide) hstop
  simp only [sliceText, String.toList_append, List.append_assoc]
  refine hstart.symbol .leftBracket ['['] rfl fun rest ↦ ?_
  refine symbol?_leftBracket fun c hc ↦ ?_
  cases start with
  | none =>
    cases hc
    decide
  | some n =>
    rw [List.append_assoc] at hc
    exact head?_number n _ c hc

theorem spells_wildcard : Spells "[*]".toList wildcardTokens := by
  have hclose : Spells [']'] [.symbol .rightBracket] := spells_sign .rightBracket fun _ ↦ rfl
  have hstar := hclose.symbol .star ['*'] rfl fun _ ↦ rfl
  exact hstar.symbol .leftBracket ['['] rfl fun _ ↦ rfl

end Expr

end PathQuery
