import PathQuery.Proofs.Token.Boundary

namespace PathQuery

open Lexer

namespace Text

theorem not_isBlank_of_trimLeft {cs tail : List Char} {c : Char} (h : trimLeft cs = c :: tail) :
    isBlank c = false := by
  apply not_of_head?_dropWhile isBlank cs
  rw [show cs.dropWhile isBlank = c :: tail from h]
  rfl

theorem trimLeft_of_blank {cs : List Char} (h : ∀ c ∈ cs, isBlank c = true) : trimLeft cs = [] :=
  List.dropWhile_eq_nil_iff.2 h

theorem blank_of_trimLeft {cs : List Char} (h : trimLeft cs = []) : ∀ c ∈ cs, isBlank c = true :=
  List.dropWhile_eq_nil_iff.1 h

/-- Other white space can stand before the first character that is none. -/
theorem trimLeft_blank_append {blanks cs tail rest : List Char} {c : Char}
    (hblanks : ∀ c ∈ blanks, isBlank c = true) (h : trimLeft cs = c :: tail) :
    trimLeft (blanks ++ c :: rest) = c :: rest := by
  rw [trimLeft_append, if_pos (trimLeft_of_blank hblanks)]
  exact List.dropWhile_cons_of_neg (by simp [not_isBlank_of_trimLeft h])

end Text

namespace TextCursor

variable {c : TextCursor} {text : List Char} {n : Nat}

theorem exists_blanks (c : TextCursor) : ∃ blanks : List Char,
    (∀ x ∈ blanks, Text.isBlank x = true) ∧ c.rest = blanks ++ Text.trimLeft c.rest ∧
      c.skipBlanks.position = c.position + blanks.length :=
  ⟨c.rest.takeWhile Text.isBlank, fun _ hx ↦ List.mem_takeWhile_imp hx,
    List.takeWhile_append_dropWhile.symm, rfl⟩

theorem position_skipBlanks {blanks cs : List Char} (hsplit : c.rest = blanks ++ cs)
    (htrim : Text.trimLeft c.rest = cs) : c.skipBlanks.position = c.position + blanks.length := by
  obtain ⟨skipped, -, hskipped, hposition⟩ := c.exists_blanks
  rw [htrim, hsplit] at hskipped
  rw [hposition, List.append_cancel_right hskipped]

theorem position_le_skipBlanks (c : TextCursor) : c.position ≤ c.skipBlanks.position :=
  Nat.le_add_right _ _

def call (c : TextCursor) : TextCursor :=
  match Token.next c with
  | .ok _ after => after
  | .error _ after => after

theorem call_eq (c : TextCursor) :
    c.call = c.skipBlanks.advance (scan (Text.trimLeft c.rest)).width := by
  rw [call, Token.next_eq]
  cases (scan (Text.trimLeft c.rest)).outcome <;> rfl

structure Within (c : TextCursor) (text : List Char) : Prop where
  position_le : c.position ≤ text.length
  rest_eq : c.rest = text.drop c.position

theorem within_ofString (text : String) : (ofString text).Within text.toList :=
  ⟨Nat.zero_le _, rfl⟩

namespace Within

theorem advance (h : c.Within text) (hn : n ≤ c.rest.length) : (c.advance n).Within text where
  position_le := by
    have hle := h.position_le
    rw [h.rest_eq, List.length_drop] at hn
    change c.position + n ≤ text.length
    omega
  rest_eq := by
    change c.rest.drop n = text.drop (c.position + n)
    rw [h.rest_eq, List.drop_drop]

theorem skipBlanks (h : c.Within text) : c.skipBlanks.Within text :=
  h.advance (List.takeWhile_sublist _).length_le

theorem call (h : c.Within text) : c.call.Within text := by
  rw [call_eq]
  refine h.skipBlanks.advance ?_
  rw [rest_skipBlanks]
  exact width_scan_le _

end Within

theorem position_le_call (c : TextCursor) : c.position ≤ c.call.position := by
  rw [call_eq]
  exact Nat.le_trans c.position_le_skipBlanks (Nat.le_add_right _ _)

end TextCursor

namespace Token

variable {c c' c'' d : TextCursor} {t : Token} {ts tokens : List Token} {e : SyntaxError} {n : Nat}
  {rest : List Char}

def stop (t : Token) : Nat := t.position + t.text.length

theorem next_eq_ok_iff : next c = .ok t c' ↔
    scan (Text.trimLeft c.rest) = ⟨t.text.length, .ok t.kind⟩ ∧
      Text.trimLeft c.rest = t.text.toList ++ c'.rest ∧ t.position = c.skipBlanks.position ∧
      c'.position = t.stop := by
  have hle := width_scan_le (Text.trimLeft c.rest)
  rw [next_eq]
  constructor
  · intro h
    cases hscan : scan (Text.trimLeft c.rest) with
    | mk width outcome =>
      rw [hscan] at h hle
      cases outcome with
      | error fault => cases h
      | ok k =>
        cases h
        have hlength : (String.ofList ((Text.trimLeft c.rest).take width)).length = width := by
          rw [String.length_ofList, List.length_take, Nat.min_eq_left hle]
        refine ⟨by rw [hlength], ?_, rfl, ?_⟩
        · rw [String.toList_ofList, TextCursor.advance, TextCursor.rest_skipBlanks,
            List.take_append_drop]
        · rw [stop, hlength]
          rfl
  · rintro ⟨hscan, hrest, hposition, hstop⟩
    obtain ⟨kind, tokenText, position⟩ := t
    obtain ⟨stopped, after⟩ := c'
    dsimp only at hscan hrest hposition hstop
    have hlength : tokenText.toList.length = tokenText.length := String.length_toList
    rw [hscan]
    dsimp only
    rw [TextCursor.advance, TextCursor.rest_skipBlanks, hrest, ← hlength, List.take_left,
      List.drop_left, String.ofList_toList, ← hposition, hlength, hstop]
    rfl

theorem next_error (h : next c = .error e c') : e.position = c.skipBlanks.position ∧
    ∃ x tail, Text.trimLeft c.rest = x :: tail := by
  rw [next_eq] at h
  cases hrest : Text.trimLeft c.rest with
  | nil =>
    rw [hrest] at h
    cases h
  | cons x tail =>
    cases hscan : (scan (Text.trimLeft c.rest)).outcome with
    | ok k =>
      rw [hscan] at h
      cases h
    | error fault =>
      rw [hscan] at h
      cases h
      exact ⟨rfl, x, tail, rfl⟩

theorem call_of_next (h : next c = .ok t c') : c.call = c' := by
  rw [TextCursor.call, h]

theorem next_of_blank (h : Text.trimLeft c.rest = []) :
    ∃ c', next c = .ok ⟨.endOfInput, "", c.position + c.rest.length⟩ c' := by
  have hposition := TextCursor.position_skipBlanks (List.append_nil c.rest).symm h
  refine ⟨⟨c.position + c.rest.length, []⟩, next_eq_ok_iff.2 ⟨?_, h, hposition.symm, rfl⟩⟩
  rw [h]
  rfl

theorem eq_of_isEnd (h : next c = .ok t c') (hend : t.kind.isEnd = true) :
    Text.trimLeft c.rest = [] ∧ t = ⟨.endOfInput, "", c.position + c.rest.length⟩ := by
  obtain ⟨hscan, -⟩ := next_eq_ok_iff.1 h
  obtain ⟨hnil, -⟩ | ⟨-, hnot, -⟩ :=
    content_of_scan (Text.trimLeft c.rest) (k := t.kind) (by rw [hscan])
  · obtain ⟨c'', hnext⟩ := next_of_blank hnil
    rw [h] at hnext
    cases hnext
    exact ⟨hnil, rfl⟩
  · rw [hend] at hnot
    cases hnot

theorem exists_cons_of_next (h : next c = .ok t c') (hend : t.kind.isEnd = false) :
    ∃ x tail, t.text.toList = x :: tail := by
  obtain ⟨hscan, -⟩ := next_eq_ok_iff.1 h
  obtain ⟨-, hk⟩ | ⟨hpos, -⟩ :=
    content_of_scan (Text.trimLeft c.rest) (k := t.kind) (by rw [hscan])
  · rw [hk] at hend
    cases hend
  · rw [hscan] at hpos
    exact List.exists_cons_of_length_pos (String.length_toList ▸ hpos)

/-- The same token is read wherever its characters stand before a text before which it ends. -/
theorem next_of_endsAlike (h : next c = .ok t c') (hend : t.kind.isEnd = false)
    (hd : Text.trimLeft d.rest = t.text.toList ++ rest) (hrest : EndsAlike rest c'.rest) :
    next d = .ok { t with position := d.skipBlanks.position }
      ⟨d.skipBlanks.position + t.text.length, rest⟩ := by
  obtain ⟨hscan, htrim, -⟩ := next_eq_ok_iff.1 h
  refine next_eq_ok_iff.2 ⟨?_, hd, rfl, rfl⟩
  rw [htrim] at hscan
  have hends : EndsAlike rest ((t.text.toList ++ c'.rest).drop t.text.length) := by
    rwa [← String.length_toList, List.drop_left]
  have hsame := scan_take_append hscan hend (.inl hends)
  rwa [← String.length_toList, List.take_left, ← hd] at hsame

/-- A token is read from its text before anything that it does not run into. -/
theorem next_of_scan {k : TokenKind} {p : Nat} (text : String) (rest : List Char)
    (h : scan (text.toList ++ rest) = ⟨text.length, .ok k⟩) (hend : k.isEnd = false) :
    next ⟨p, text.toList ++ rest⟩ = .ok ⟨k, text, p⟩ ⟨p + text.length, rest⟩ := by
  have htrim : Text.trimLeft (text.toList ++ rest) = text.toList ++ rest := by
    cases hcs : text.toList ++ rest with
    | nil =>
      rw [hcs] at h
      obtain ⟨-, hk⟩ := Scan.mk.inj h
      cases hk
      cases hend
    | cons x cs =>
      rw [hcs] at h
      exact List.dropWhile_cons_of_neg (by simp [not_isBlank_of_scan h])
  refine next_eq_ok_iff.2 ⟨by rw [htrim, h], htrim, ?_, rfl⟩
  exact (TextCursor.position_skipBlanks (c := ⟨p, _⟩) (List.nil_append _).symm htrim).symm

inductive Run : TextCursor → List Token → TextCursor → Prop
  | nil (c : TextCursor) : Run c [] c
  | cons {c c' c'' : TextCursor} {t : Token} {ts : List Token} :
    next c = .ok t c' → t.kind.isEnd = false → Run c' ts c'' → Run c (t :: ts) c''

theorem length_rest_lt (h : next c = .ok t c') (hend : t.kind.isEnd = false) :
    c'.rest.length < c.rest.length := by
  obtain ⟨-, hrest, -⟩ := next_eq_ok_iff.1 h
  obtain ⟨x, tail, htext⟩ := exists_cons_of_next h hend
  have hle := Text.length_trimLeft_le c.rest
  rw [hrest, htext, List.cons_append, List.length_cons, List.length_append] at hle
  omega

theorem run_of_upToEnd (hn : c.rest.length < n) (h : upToEnd n c = .ok tokens c'') :
    ∃ ts t c', Run c ts c' ∧ next c' = .ok t c'' ∧ t.kind.isEnd = true ∧ tokens = ts ++ [t] := by
  induction n generalizing c tokens with
  | zero => simp at hn
  | succ n ih =>
    rw [upToEnd_succ] at h
    cases hnext : next c with
    | error e c' =>
      rw [hnext] at h
      cases h
    | ok t c' =>
      rw [hnext] at h
      dsimp only at h
      cases hend : t.kind.isEnd with
      | true =>
        rw [hend, if_pos rfl] at h
        cases h
        exact ⟨[], t, c, .nil c, hnext, hend, rfl⟩
      | false =>
        rw [hend, if_neg Bool.false_ne_true] at h
        cases hmore : upToEnd n c' with
        | error e c'' =>
          rw [hmore] at h
          cases h
        | ok more c'' =>
          rw [hmore] at h
          cases h
          have hlt := length_rest_lt hnext hend
          obtain ⟨ts, last, c₁, hrun, hlast, hisEnd, rfl⟩ := ih (by omega) hmore
          exact ⟨t :: ts, last, c₁, .cons hnext hend hrun, hlast, hisEnd, rfl⟩

theorem run_of_upToEnd_error (h : upToEnd n c = .error e c'') :
    ∃ ts c', Run c ts c' ∧ next c' = .error e c'' := by
  induction n generalizing c with
  | zero => cases h
  | succ n ih =>
    rw [upToEnd_succ] at h
    cases hnext : next c with
    | error e c' =>
      rw [hnext] at h
      cases h
      exact ⟨[], c, .nil c, hnext⟩
    | ok t c' =>
      rw [hnext] at h
      dsimp only at h
      cases hend : t.kind.isEnd with
      | true =>
        rw [hend, if_pos rfl] at h
        cases h
      | false =>
        rw [hend, if_neg Bool.false_ne_true] at h
        cases hmore : upToEnd n c' with
        | ok more c'' =>
          rw [hmore] at h
          cases h
        | error e c'' =>
          rw [hmore] at h
          cases h
          obtain ⟨ts, c₁, hrun, hfail⟩ := ih hmore
          exact ⟨t :: ts, c₁, .cons hnext hend hrun, hfail⟩

theorem upToEnd_of_run (hn : c.rest.length < n) (h : Run c ts c') (hlast : next c' = .ok t c'')
    (hend : t.kind.isEnd = true) : upToEnd n c = .ok (ts ++ [t]) c'' := by
  induction h generalizing n with
  | nil c =>
    cases n with
    | zero => simp at hn
    | succ n =>
      rw [upToEnd_succ, hlast]
      dsimp only
      rw [if_pos hend]
      rfl
  | cons hnext hnot hrun ih =>
    cases n with
    | zero => simp at hn
    | succ n =>
      have hlt := length_rest_lt hnext hnot
      rw [upToEnd_succ, hnext]
      dsimp only
      rw [hnot, if_neg Bool.false_ne_true, ih (by omega) hlast]
      rfl

variable {text : String}

theorem ofString_eq_ok_iff : ofString text = .ok tokens ↔
    ∃ ts t c c', Run (.ofString text) ts c ∧ next c = .ok t c' ∧ t.kind.isEnd = true ∧
      tokens = ts ++ [t] := by
  have hn : (TextCursor.ofString text).rest.length < text.toList.length + 1 := Nat.lt_succ_self _
  rw [ofString, EStateM.run]
  constructor
  · intro h
    cases hrun : upToEnd (text.toList.length + 1) (.ofString text) with
    | error e c' =>
      rw [hrun] at h
      cases h
    | ok more c'' =>
      rw [hrun] at h
      cases h
      obtain ⟨ts, t, c, hts, ht, hend, heq⟩ := run_of_upToEnd hn hrun
      exact ⟨ts, t, c, c'', hts, ht, hend, heq⟩
  · rintro ⟨ts, t, c, c', hts, ht, hend, rfl⟩
    rw [upToEnd_of_run hn hts ht hend]

theorem run_of_ofString_error (h : ofString text = .error e) :
    ∃ ts c c', Run (.ofString text) ts c ∧ next c = .error e c' := by
  rw [ofString, EStateM.run] at h
  cases hrun : upToEnd (text.toList.length + 1) (.ofString text) with
  | ok more c'' =>
    rw [hrun] at h
    cases h
  | error e' c'' =>
    rw [hrun] at h
    cases h
    obtain ⟨ts, c, hts, hfail⟩ := run_of_upToEnd_error hrun
    exact ⟨ts, c, c'', hts, hfail⟩

end Token

end PathQuery
