import PathQuery.Proofs.Parser.InRange
import PathQuery.Proofs.Token.Positions
import PathQuery.Replay

namespace PathQuery

inductive ParserCall where
  | expression (power : Nat)
  | complete

def ParserCall.run {m : Type → Type} [Monad m] [MonadExceptOf SyntaxError m] [Parser m] :
    ParserCall → m Expr
  | expression power => Parser.expression power
  | complete => Parser.complete

structure CallRecord where
  before : Nat
  outcome : Except SyntaxError Expr
  after : Nat

def Indexed.replay (fuel : Nat) (tokens : List Token) :
    List ParserCall → Nat → Option (List CallRecord)
  | [], _ => some []
  | call :: calls, i => do
    let (outcome, j) ← (call.run : IndexedM Expr) ⟨tokens, fuel⟩ i
    let records ← replay fuel tokens calls j
    return ⟨i, outcome, j⟩ :: records

/-- The index does not go back and stays at a token, a tree takes at least one token, and an error
is reported at a token. -/
structure CallRecord.InRange (r : CallRecord) (tokens : List Token) : Prop where
  before_le : r.before ≤ r.after
  after_lt : r.after < tokens.length
  before_lt : ∀ e, r.outcome = .ok e → r.before < r.after
  position_mem : ∀ e, r.outcome = .error e → e.position ∈ tokens.map Token.position

variable {tokens : List Token} {text : String} {c : TokenCursor} {i : Nat}

namespace Parser

section

variable (hlast : ∀ u ∈ tokens.getLast?, u.kind.isEnd = true)

include hlast

theorem follows_call {n fuel : Nat} (hfuel : n ≤ fuel) (call : ParserCall) :
    Follows ⟨tokens, fuel⟩ n 1 call.run call.run := by
  cases call with
  | expression power => exact follows_expression hlast hfuel power
  | complete => exact follows_complete hlast hfuel

/-- From any token, whatever left the parser there, one call does the same over the index as over
the cursor. -/
theorem inRange_call (hc : c.At tokens i) (call : ParserCall) :
    ∃ (r : CallRecord) (c' : TokenCursor), r.before = i ∧
      (∀ fuel, tokens.length ≤ fuel →
        (call.run : IndexedM Expr) ⟨tokens, fuel⟩ i = some (r.outcome, r.after)) ∧
      c'.At tokens r.after ∧ r.InRange tokens ∧
      ∀ calls, replay (call.run :: calls) c = r.outcome :: replay calls c' := by
  have hagrees (fuel : Nat) (hfuel : tokens.length ≤ fuel) :=
    follows_call hlast hfuel call _ c i hc rfl hc.length_following_lt
  cases hm : (call.run : ParseM Expr) c with
  | ok e c' =>
    rw [hm] at hagrees
    obtain ⟨-, hc', hlt⟩ := (hagrees _ (Nat.le_refl _)).of_ok
    refine ⟨⟨i, .ok e, c'.index tokens⟩, c', rfl, fun fuel hfuel ↦ (hagrees fuel hfuel).of_ok.1,
      hc', ⟨Nat.le_of_succ_le hlt, hc'.lt_length, fun _ _ ↦ hlt, nofun⟩, fun calls ↦ ?_⟩
    rw [replay, EStateM.run, hm]
  | error e c' =>
    rw [hm] at hagrees
    obtain ⟨-, hc', hle, he⟩ := (hagrees _ (Nat.le_refl _)).of_error
    refine ⟨⟨i, .error e, c'.index tokens⟩, c', rfl,
      fun fuel hfuel ↦ (hagrees fuel hfuel).of_error.1, hc',
      ⟨hle, hc'.lt_length, nofun, fun _ houtcome ↦ Except.error.inj houtcome ▸ he⟩,
      fun calls ↦ ?_⟩
    rw [replay, EStateM.run, hm]

/-- A sequence of calls keeps to the tokens, since each of them leaves off at a token. -/
theorem inRange_replay (hc : c.At tokens i) (calls : List ParserCall) :
    ∃ records, (∀ fuel, tokens.length ≤ fuel →
        Indexed.replay fuel tokens calls i = some records) ∧
      records.map CallRecord.outcome = replay (calls.map ParserCall.run) c ∧
      ∀ r ∈ records, r.InRange tokens := by
  induction calls generalizing c i with
  | nil => exact ⟨[], fun _ _ ↦ rfl, rfl, nofun⟩
  | cons call calls ih =>
    obtain ⟨r, c', rfl, hrun, hc', hr, hreplay⟩ := inRange_call hlast hc call
    obtain ⟨records, hrecords, houtcomes, hall⟩ := ih hc'
    refine ⟨r :: records, fun fuel hfuel ↦ ?_, ?_, List.forall_mem_cons.2 ⟨hr, hall⟩⟩
    · rw [Indexed.replay, hrun fuel hfuel]
      change (Indexed.replay fuel tokens calls r.after).bind _ = _
      rw [hrecords fuel hfuel]
      rfl
    · rw [List.map_cons, List.map_cons, hreplay, houtcomes]

end

/-- However often and for whatever a parser is called, errors or not, every call returns and looks
at nothing but tokens of the text and the three parts of a slice. More turns and more nesting than
there are tokens are never asked for. -/
theorem replay_inRange (h : Token.ofString text = .ok tokens) (calls : List ParserCall) :
    tokens.getLast? = some ⟨.endOfInput, "", text.length⟩ ∧
      ∃ records, (∀ fuel, tokens.length ≤ fuel →
          Indexed.replay fuel tokens calls 0 = some records) ∧
        records.map CallRecord.outcome =
          replay (calls.map ParserCall.run) (TokenCursor.ofTokens tokens) ∧
        ∀ r ∈ records, r.before ≤ r.after ∧ r.after < tokens.length ∧
          (∀ i t, i < r.after → tokens[i]? = some t → t.kind.isEnd = false) ∧
          (∀ e, r.outcome = .ok e → r.before < r.after) ∧
          ∀ e, r.outcome = .error e → e.position ≤ text.length := by
  have hlast := Token.getLast?_of_ofString h
  have hend : ∀ u ∈ tokens.getLast?, u.kind.isEnd = true := by
    rw [hlast]
    rintro _ ⟨⟩
    rfl
  have hne : tokens ≠ [] := by
    rintro rfl
    cases hlast
  obtain ⟨records, hreplay, houtcomes, hall⟩ := inRange_replay hend (.ofTokens hne) calls
  refine ⟨hlast, records, hreplay, houtcomes, fun r hr ↦ ?_⟩
  obtain ⟨hle, hlt, hpast, hposition⟩ := hall r hr
  refine ⟨hle, hlt, fun i t hi ht ↦ ?_, hpast, fun e he ↦ ?_⟩
  · exact Token.isEnd_of_ofString h ht (Nat.lt_of_le_of_lt hi hlt)
  · obtain ⟨t, ht, hp⟩ := List.mem_map.1 (hposition e he)
    exact hp ▸ Token.position_le_of_ofString h t ht

/-- The first call fails within an index, the second goes on there, and the third finds the end. -/
theorem replay_inRange_within_index :
    Token.ofString "a[0 b" = .ok [⟨.identifier "a", "a", 0⟩, ⟨.symbol .leftBracket, "[", 1⟩,
      ⟨.number 0, "0", 2⟩, ⟨.identifier "b", "b", 4⟩, ⟨.endOfInput, "", 5⟩] ∧
    ∃ tokens records, Indexed.replay 5 tokens [.expression 0, .complete, .expression 7] 0 =
        some records ∧
      records.map CallRecord.outcome = [.error ⟨4, .unexpected (.identifier "b") .inIndexOrSlice⟩,
        .ok (.field "b"), .error ⟨5, .endOfExpression⟩] := by
  have htokens : Token.ofString "a[0 b" = .ok [⟨.identifier "a", "a", 0⟩,
      ⟨.symbol .leftBracket, "[", 1⟩, ⟨.number 0, "0", 2⟩, ⟨.identifier "b", "b", 4⟩,
      ⟨.endOfInput, "", 5⟩] := rfl
  obtain ⟨-, records, hreplay, houtcomes, -⟩ :=
    replay_inRange htokens [.expression 0, .complete, .expression 7]
  exact ⟨htokens, _, records, hreplay 5 (Nat.le_refl 5), houtcomes⟩

end Parser

end PathQuery
