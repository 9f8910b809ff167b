import PathQuery.Proofs.Parser.Unclosed
import PathQuery.Proofs.Query.Spacing

namespace PathQuery

open PathQuery.Parser PathQuery.Expr Lexer

namespace GroupOpener

def KeepsBracket (rest : List Char) : Prop := ∀ c ∈ rest.head?, c ≠ ']' ∧ c ≠ '?'

variable {rest : List Char} {p : Nat}

theorem toList_text_hash (key : String) :
    (hash key).text.toList = '\x7b' :: ((fieldName key).toList ++ [':']) := by
  simp [text, before, behind, symbol, Symbol.text, String.toList_append]

theorem toList_text_call (function : Builtin) :
    (call function).text.toList = function.name.toList ++ ['('] := by
  simp [text, before, behind, symbol, Symbol.text, String.toList_append]

theorem keepsBracket (o : GroupOpener) (rest : List Char) :
    KeepsBracket (o.text.toList ++ rest) := by
  cases o with
  | call function => cases function <;> rintro _ ⟨⟩ <;> decide
  | hash key =>
    rw [toList_text_hash]
    rintro _ ⟨⟩
    decide
  | _ =>
    rintro _ ⟨⟩
    decide

theorem run_tokens (o : GroupOpener) (h : KeepsBracket rest) :
    Token.Run ⟨p, o.text.toList ++ rest⟩ (o.tokens p) ⟨p + o.text.length, rest⟩ := by
  cases o with
  | paren => exact .token "(" rest rfl rfl
  | list => exact .token "[" rest (scan_symbol (symbol?_leftBracket h)) rfl
  | filter => exact .token "[?" rest rfl rfl
  | hash key =>
    have hkey := scan_fieldName key (apart_cons (c := ':') rfl rest)
    rw [String.length_toList] at hkey
    have hbrace := Token.Run.token (p := p) "\x7b" ((fieldName key).toList ++ ':' :: rest) rfl rfl
    have hrun := hbrace.append
      ((Token.Run.token _ _ hkey (isEnd_nameToken key)).append (.token ":" rest rfl rfl))
    have htext : (hash key).text.toList ++ rest =
        "\x7b".toList ++ ((fieldName key).toList ++ ':' :: rest) := by
      rw [toList_text_hash, List.cons_append, List.append_assoc]
      rfl
    have hlength : (hash key).text.length = 1 + (fieldName key).length + 1 := by
      rw [← String.length_toList, toList_text_hash, List.length_cons, List.length_append,
        String.length_toList, List.length_singleton]
      omega
    rw [htext, hlength, ← Nat.add_assoc, ← Nat.add_assoc]
    exact hrun
  | call function =>
    have hname : isName function.name.toList = true := by cases function <;> rfl
    have hscan := scan_name hname (apart_cons (c := '(') rfl rest)
    rw [String.length_toList] at hscan
    have hfunction := Token.Run.token (p := p) function.name _ hscan rfl
    have hrun := hfunction.append (.token "(" rest rfl rfl)
    have htext : (call function).text.toList ++ rest = function.name.toList ++ '(' :: rest := by
      rw [toList_text_call, List.append_assoc]
      rfl
    have hlength : (call function).text.length = function.name.length + 1 := by
      rw [← String.length_toList, toList_text_call, List.length_append, String.length_toList]
      rfl
    rw [htext, hlength, ← Nat.add_assoc]
    exact hrun

theorem run_openers (outer : List GroupOpener) (h : KeepsBracket rest) :
    Token.Run ⟨p, (String.join (outer.map text)).toList ++ rest⟩ (allTokens p outer)
      ⟨p + (String.join (outer.map text)).length, rest⟩ := by
  induction outer generalizing p with
  | nil => exact .nil _
  | cons o outer ih =>
    rw [List.map_cons, String.join_cons, String.toList_append, List.append_assoc,
      String.length_append, ← Nat.add_assoc, allTokens]
    refine (o.run_tokens ?_).append ih
    cases outer with
    | nil => exact h
    | cons o' outer =>
      rw [List.map_cons, String.join_cons, String.toList_append, List.append_assoc]
      exact o'.keepsBracket _

end GroupOpener

theorem SyntaxFault.prefix_message_unclosed (opener : Symbol) (missing : Missing) :
    "unclosed".toList <+: (unclosed opener missing).message.toList := by
  have hprefix : "unclosed".toList <+: "unclosed '".toList := by decide
  change _ <+: ("unclosed '" ++ opener.text ++ "': expected " ++ missing.text).toList
  rw [String.append_assoc, String.append_assoc, String.toList_append]
  exact hprefix.trans (List.prefix_append _ _)

namespace Query

variable {text : String} {q : Query} {tokens : List Token}

/-- Openers before a text that goes on with no opening bracket are read as their own tokens, and
those of the text are the same behind them. -/
theorem ofString_openers (h : Token.ofString text = .ok tokens)
    (htext : GroupOpener.KeepsBracket text.toList) (outer : List GroupOpener) (o : GroupOpener) :
    ∃ ts, Token.ofString (String.join (outer.map GroupOpener.text) ++ o.text ++ text) =
        .ok (GroupOpener.allTokens 0 outer ++
          (o.tokens (0 + (String.join (outer.map GroupOpener.text)).length) ++ ts)) ∧
      ts.map Token.kind = tokens.map Token.kind := by
  obtain ⟨us, c, hrun, hblank, rfl⟩ := Token.run_of_ofString h
  have hopeners := GroupOpener.run_openers (p := 0) outer (o.keepsBracket text.toList)
  have hwhole := hopeners.append ((o.run_tokens htext).append (hrun.shift _))
  have hstart : TextCursor.ofString (String.join (outer.map GroupOpener.text) ++ o.text ++ text) =
      ⟨0, (String.join (outer.map GroupOpener.text)).toList ++ (o.text.toList ++ text.toList)⟩ := by
    rw [TextCursor.ofString, String.toList_append, String.toList_append, List.append_assoc]
  rw [← hstart] at hwhole
  rw [Token.ofString_of_run hwhole hblank, List.append_assoc, List.append_assoc]
  refine ⟨_, rfl, ?_⟩
  rw [List.map_append, List.map_append, List.map_map]
  rfl

/-- A text behind openers of groups is not a query, since the last of the groups is not closed. -/
theorem compile_unclosed (h : compile text = .ok q) (outer : List GroupOpener) (o : GroupOpener) :
    compile (String.join (outer.map GroupOpener.text) ++ o.text ++ text) =
        .error ⟨(String.join (outer.map GroupOpener.text) ++ o.before).length,
          .unclosed o.symbol (.closer o.symbol.closer)⟩ ∧
      "unclosed".toList <+:
        (SyntaxFault.unclosed o.symbol (.closer o.symbol.closer)).message.toList := by
  obtain ⟨kinds, hlexes, hreads⟩ := ofString_eq_ok_iff.mp (ofString_of_compile h).2
  obtain ⟨tokens, htokens, hkinds⟩ := Token.ofString_of_lexes hlexes
  obtain ⟨c, cs, hhead, hbracket, hquestion, -⟩ := head_of_lexes hlexes hreads.startsExpression
  have htext : GroupOpener.KeepsBracket text.toList := by
    rw [hhead]
    rintro _ ⟨⟩
    exact ⟨hbracket, hquestion⟩
  obtain ⟨ts, hall, hts⟩ := ofString_openers htokens htext outer o
  rw [hkinds] at hts
  refine ⟨?_, ?_⟩
  · rw [compile_eq_of_tokens hall, ofTokens_openers outer o hreads hts
      (Token.not_end_of_lexes hlexes), Nat.zero_add]
    rw [String.length_append]
    rfl
  · exact SyntaxFault.prefix_message_unclosed _ _

theorem compile_unclosed_filter :
    compile "a[*]" = .ok ⟨"a[*]", .projection (.field "a") .currentNode⟩ ∧
    compile "sort(\x7bk:[?a[*]" = .error ⟨8, .unclosed .filter (.closer .rightBracket)⟩ := by
  have hcompile : compile "a[*]" = .ok ⟨"a[*]", .projection (.field "a") .currentNode⟩ := by cbv
  exact ⟨hcompile, (compile_unclosed hcompile [.call .sort, .hash "k"] .filter).1⟩

end Query

end PathQuery
