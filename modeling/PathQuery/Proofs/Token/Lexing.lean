import PathQuery.Proofs.Json.Nesting
import PathQuery.Token.Lexer

namespace PathQuery

namespace Lexer

variable {cs : List Char} {k : TokenKind} {what : Delimited}

def Content (k : TokenKind) : Prop :=
  k.isEnd = false ∧
    ∀ v, k = .literal v → ∃ d : Json, d.Nests Json.Read.maxDepth ∧ v = Value.ofJson d.sorted

theorem content_of_decode {body : List Char} (h : decode what body = .ok k) : Content k := by
  cases what with
  | quotedIdentifier =>
    simp only [decode] at h
    split at h
    · cases h
      exact ⟨rfl, nofun⟩
    · cases h
  | rawString =>
    cases h
    exact ⟨rfl, nofun⟩
  | literal =>
    simp only [decode] at h
    split at h
    · next document hread =>
      cases h
      exact ⟨rfl, fun v hv ↦ ⟨document, Json.nests_of_readChars hread,
        (TokenKind.literal.inj hv).symm⟩⟩
    · cases h

theorem content_of_scanDelimited (h : (scanDelimited what cs).outcome = .ok k) :
    0 < (scanDelimited what cs).width ∧ Content k := by
  unfold scanDelimited at h ⊢
  cases hbody : body? what.delimiter cs with
  | none => rw [hbody] at h; cases h
  | some body =>
    rw [hbody] at h
    exact ⟨Nat.succ_pos _, content_of_decode h⟩

theorem content_of_scanNumber {sign : List Char} (h : (scanNumber sign cs).outcome = .ok k) :
    0 < (scanNumber sign cs).width ∧ Content k := by
  simp only [scanNumber] at h ⊢
  cases hdigits : (cs.takeWhile Number.isDigit).isEmpty with
  | true => rw [hdigits] at h; cases h
  | false =>
    rw [hdigits, if_neg Bool.false_ne_true] at h
    cases hn : Number.readInt64? (sign ++ cs.takeWhile Number.isDigit) with
    | none => rw [hn] at h; cases h
    | some n =>
      rw [hn] at h
      cases h
      refine ⟨?_, rfl, nofun⟩
      change 0 < (sign ++ cs.takeWhile Number.isDigit).length
      rw [List.length_append]
      have := List.length_pos_iff.2 (List.isEmpty_eq_false_iff.1 hdigits)
      omega

theorem symbol_text_length_pos (s : Symbol) : 0 < s.text.length := by
  cases s with
  | comparator op => cases op <;> decide
  | _ => decide

/-- Only the empty text has no token but its end. -/
theorem content_of_scan (cs : List Char) (h : (scan cs).outcome = .ok k) :
    cs = [] ∧ k = .endOfInput ∨ 0 < (scan cs).width ∧ Content k := by
  unfold scan at h ⊢
  split at h
  · cases h
    exact .inl ⟨rfl, rfl⟩
  · exact .inr (content_of_scanDelimited h)
  · exact .inr (content_of_scanDelimited h)
  · exact .inr (content_of_scanDelimited h)
  · exact .inr (content_of_scanNumber h)
  · next c cs _ _ _ _ =>
    refine .inr ?_
    cases hs : symbol? (c :: cs) with
    | some s =>
      simp only [hs] at h ⊢
      cases h
      exact ⟨symbol_text_length_pos s, rfl, nofun⟩
    | none =>
      simp only [hs] at h ⊢
      split at h
      · next hdigit =>
        rw [if_pos hdigit]
        exact content_of_scanNumber h
      · next hdigit =>
        rw [if_neg hdigit]
        split at h
        · next hstart =>
          cases h
          rw [if_pos hstart, List.takeWhile_cons, if_pos (by simp [isNameChar, hstart])]
          exact ⟨Nat.succ_pos _, rfl, nofun⟩
        · split at h <;> cases h

end Lexer

open Lexer

/-- `Lexes cs kinds`: the characters spell the tokens, up to the end of the text. -/
inductive Lexes : List Char → List TokenKind → Prop
  | done {cs : List Char} : Text.trimLeft cs = [] → Lexes cs []
  | token {cs : List Char} {n : Nat} {k : TokenKind} {kinds : List TokenKind} :
    scan (Text.trimLeft cs) = ⟨n, .ok k⟩ → k.isEnd = false →
    Lexes ((Text.trimLeft cs).drop n) kinds → Lexes cs (k :: kinds)

theorem TextCursor.rest_skipBlanks (c : TextCursor) : c.skipBlanks.rest = Text.trimLeft c.rest := by
  rw [skipBlanks, advance, Text.trimLeft]
  induction c.rest with
  | nil => rfl
  | cons a cs ih =>
    rw [List.takeWhile_cons, List.dropWhile_cons]
    split
    · exact ih
    · rfl

theorem Text.length_trimLeft_le (cs : List Char) : (trimLeft cs).length ≤ cs.length :=
  (List.dropWhile_sublist _).length_le

namespace Token

variable {c c' : TextCursor} {t : Token} {ts tokens : List Token} {text : String}
  {kinds : List TokenKind}

theorem next_eq (c : TextCursor) : next c =
    match (scan (Text.trimLeft c.rest)).outcome with
    | .ok kind => .ok ⟨kind, String.ofList ((Text.trimLeft c.rest).take
        (scan (Text.trimLeft c.rest)).width), c.skipBlanks.position⟩
        (c.skipBlanks.advance (scan (Text.trimLeft c.rest)).width)
    | .error fault => .error ⟨c.skipBlanks.position, fault⟩
        (c.skipBlanks.advance (scan (Text.trimLeft c.rest)).width) := by
  rw [← TextCursor.rest_skipBlanks]
  rfl

theorem upToEnd_succ (n : Nat) (c : TextCursor) : upToEnd (n + 1) c =
    match next c with
    | .ok t c' =>
      if t.kind.isEnd then .ok [t] c'
      else match upToEnd n c' with
        | .ok ts c'' => .ok (t :: ts) c''
        | .error e c'' => .error e c''
    | .error e c' => .error e c' := by
  rw [upToEnd]
  change EStateM.bind next _ c = _
  rw [EStateM.bind]
  cases next c with
  | error e c' => rfl
  | ok t c' =>
    dsimp only
    split
    · rfl
    · change EStateM.bind (upToEnd n) _ c' = _
      rw [EStateM.bind]
      cases upToEnd n c' <;> rfl

theorem length_drop_lt {cs : List Char} {width : Nat} {k : TokenKind}
    (hscan : scan (Text.trimLeft cs) = ⟨width, .ok k⟩) (hend : k.isEnd = false) :
    ((Text.trimLeft cs).drop width).length < cs.length := by
  obtain ⟨-, rfl⟩ | ⟨hwidth, -⟩ :=
    content_of_scan (Text.trimLeft cs) (k := k) (by rw [hscan])
  · cases hend
  · have hne : Text.trimLeft cs ≠ [] := by
      intro hnil
      rw [hnil] at hscan
      cases hscan
      cases hend
    have hle := Text.length_trimLeft_le cs
    have hpos := List.length_pos_iff.2 hne
    rw [hscan] at hwidth
    change 0 < width at hwidth
    rw [List.length_drop]
    omega

theorem lexes_of_upToEnd {n : Nat} (hn : c.rest.length < n) (h : upToEnd n c = .ok tokens c') :
    ∃ kinds, tokens.map kind = kinds ++ [.endOfInput] ∧ Lexes c.rest kinds := by
  induction n generalizing c tokens with
  | zero => simp at hn
  | succ n ih =>
    rw [upToEnd_succ, next_eq] at h
    cases hscan : scan (Text.trimLeft c.rest) with
    | mk width outcome =>
      rw [hscan] at h
      cases outcome with
      | error fault => cases h
      | ok k =>
        dsimp only at h
        obtain ⟨hnil, rfl⟩ | ⟨-, hend, -⟩ :=
          content_of_scan (Text.trimLeft c.rest) (k := k) (by rw [hscan])
        · cases h
          exact ⟨[], rfl, .done hnil⟩
        · rw [hend, if_neg Bool.false_ne_true] at h
          have hrest : (c.skipBlanks.advance width).rest = (Text.trimLeft c.rest).drop width := by
            rw [TextCursor.advance, TextCursor.rest_skipBlanks]
          cases hmore : upToEnd n (c.skipBlanks.advance width) with
          | error e c'' => rw [hmore] at h; cases h
          | ok ts c'' =>
            rw [hmore] at h
            cases h
            have hlt : (c.skipBlanks.advance width).rest.length < n :=
              Nat.lt_of_lt_of_le (hrest ▸ length_drop_lt hscan hend) (Nat.le_of_lt_succ hn)
            obtain ⟨kinds, hkinds, hlexes⟩ := ih hlt hmore
            rw [hrest] at hlexes
            exact ⟨k :: kinds, congrArg (k :: ·) hkinds, .token hscan hend hlexes⟩

theorem upToEnd_of_lexes {n : Nat} (hn : c.rest.length < n) (h : Lexes c.rest kinds) :
    ∃ tokens c', upToEnd n c = .ok tokens c' ∧ tokens.map kind = kinds ++ [.endOfInput] := by
  induction n generalizing c kinds with
  | zero => simp at hn
  | succ n ih =>
    rw [upToEnd_succ, next_eq]
    cases h with
    | done hnil =>
      rw [hnil]
      exact ⟨_, _, rfl, rfl⟩
    | @token _ width k kinds hscan hend hlexes =>
      have hrest : (c.skipBlanks.advance width).rest = (Text.trimLeft c.rest).drop width := by
        rw [TextCursor.advance, TextCursor.rest_skipBlanks]
      rw [hscan]
      dsimp only
      rw [hend, if_neg Bool.false_ne_true]
      rw [← hrest] at hlexes
      have hlt : (c.skipBlanks.advance width).rest.length < n :=
        Nat.lt_of_lt_of_le (hrest ▸ length_drop_lt hscan hend) (Nat.le_of_lt_succ hn)
      obtain ⟨tokens, c', hmore, hkinds⟩ := ih hlt hlexes
      rw [hmore]
      exact ⟨_, c', rfl, congrArg (k :: ·) hkinds⟩

theorem lexes_of_ofString (h : ofString text = .ok tokens) :
    ∃ kinds, tokens.map kind = kinds ++ [.endOfInput] ∧ Lexes text.toList kinds := by
  rw [ofString, EStateM.run] at h
  cases hrun : upToEnd (text.toList.length + 1) (TextCursor.ofString text) with
  | error e c' => rw [hrun] at h; cases h
  | ok ts c' =>
    rw [hrun] at h
    cases h
    exact lexes_of_upToEnd (Nat.lt_succ_self _) hrun

theorem ofString_of_lexes (h : Lexes text.toList kinds) :
    ∃ tokens, ofString text = .ok tokens ∧ tokens.map kind = kinds ++ [.endOfInput] := by
  obtain ⟨tokens, c', hrun, hkinds⟩ :=
    upToEnd_of_lexes (c := TextCursor.ofString text) (n := text.toList.length + 1)
      (Nat.lt_succ_self _) h
  refine ⟨tokens, ?_, hkinds⟩
  rw [ofString, EStateM.run, hrun]

theorem not_end_of_lexes {cs : List Char} (h : Lexes cs kinds) : .endOfInput ∉ kinds := by
  induction h with
  | done => exact List.not_mem_nil
  | token _ hend _ ih =>
    intro hmem
    obtain rfl | hmem := List.mem_cons.1 hmem
    · cases hend
    · exact ih hmem

theorem literal_of_lexes {cs : List Char} {v : Value} (h : Lexes cs kinds)
    (hv : .literal v ∈ kinds) :
    ∃ d : Json, d.Nests Json.Read.maxDepth ∧ v = Value.ofJson d.sorted := by
  induction h with
  | done => cases hv
  | @token cs n k _ hscan hend _ ih =>
    obtain rfl | hmem := List.mem_cons.1 hv
    · obtain ⟨-, hk⟩ | ⟨-, -, hk⟩ :=
        content_of_scan (Text.trimLeft cs) (k := .literal v) (by rw [hscan])
      · cases hk
      · exact hk v rfl
    · exact ih hmem

end Token

end PathQuery
