import PathQuery.Proofs.Token.Calls

namespace PathQuery

open Lexer

namespace TextCursor.Within

variable {c : TextCursor} {text : List Char} {i : Nat} {x : Char}

theorem blank_of_lt (h : c.Within text) (hi : c.position ≤ i) (hlt : i < c.skipBlanks.position)
    (hx : text[i]? = some x) : Text.isBlank x = true := by
  obtain ⟨blanks, hblanks, hsplit, hskip⟩ := c.exists_blanks
  obtain ⟨j, rfl⟩ := Nat.exists_eq_add_of_le hi
  have hrest : c.rest[j]? = some x := by rw [h.rest_eq, List.getElem?_drop, hx]
  rw [hsplit, List.getElem?_append_left (by omega)] at hrest
  exact hblanks x (List.mem_of_getElem? hrest)

end TextCursor.Within

/-- No number of calls leaves the text, faults on the way or not. -/
theorem TextCursor.within_iterate_call (text : String) (n : Nat) :
    (call^[n] (ofString text)).Within text.toList := by
  induction n with
  | zero => exact within_ofString text
  | succ n ih =>
    rw [Function.iterate_succ_apply']
    exact ih.call

namespace Token

variable {c c' : TextCursor} {t : Token} {ts tokens : List Token} {text rest : List Char}
  {e : SyntaxError}

def SliceOf (t : Token) (text : List Char) : Prop :=
  t.text.toList = (text.drop t.position).take t.text.length ∧ t.stop ≤ text.length

def Covers (t : Token) (i : Nat) : Prop := t.position ≤ i ∧ i < t.stop

theorem sliceOf_of_next (h : next c = .ok t c') (hc : c.Within text) : t.SliceOf text := by
  obtain ⟨-, hrest, hposition, hstop⟩ := next_eq_ok_iff.1 h
  constructor
  · have hskip := hc.skipBlanks.rest_eq
    rw [TextCursor.rest_skipBlanks, hrest, ← hposition] at hskip
    rw [← hskip, ← String.length_toList, List.take_left]
  · have hwithin := hc.call
    rw [call_of_next h] at hwithin
    exact hstop ▸ hwithin.position_le

namespace Run

theorem token {k : TokenKind} {p : Nat} (text : String) (rest : List Char)
    (h : scan (text.toList ++ rest) = ⟨text.length, .ok k⟩) (hend : k.isEnd = false) :
    Run ⟨p, text.toList ++ rest⟩ [⟨k, text, p⟩] ⟨p + text.length, rest⟩ :=
  .cons (next_of_scan text rest h hend) hend (.nil _)

theorem append {c'' : TextCursor} {us : List Token} (h : Run c ts c') (h' : Run c' us c'') :
    Run c (ts ++ us) c'' := by
  induction h with
  | nil => exact h'
  | cons hnext hend _ ih => exact .cons hnext hend (ih h')

theorem within (h : Run c ts c') (hc : c.Within text) : c'.Within text := by
  induction h with
  | nil => exact hc
  | cons hnext _ _ ih => exact ih (call_of_next hnext ▸ hc.call)

theorem position_le (h : Run c ts c') : c.position ≤ c'.position := by
  induction h with
  | nil => exact Nat.le_refl _
  | cons hnext _ _ ih => exact Nat.le_trans (call_of_next hnext ▸ TextCursor.position_le_call _) ih

theorem not_isEnd (h : Run c ts c') : ∀ t ∈ ts, t.kind.isEnd = false := by
  induction h with
  | nil => exact nofun
  | cons _ hend _ ih => exact List.forall_mem_cons.2 ⟨hend, ih⟩

theorem sliceOf (h : Run c ts c') (hc : c.Within text) : ∀ t ∈ ts, t.SliceOf text := by
  induction h with
  | nil => exact nofun
  | cons hnext _ _ ih =>
    exact List.forall_mem_cons.2
      ⟨sliceOf_of_next hnext hc, ih (call_of_next hnext ▸ hc.call)⟩

theorem between (h : Run c ts c') :
    ∀ t ∈ ts, c.position ≤ t.position ∧ t.stop ≤ c'.position := by
  induction h with
  | nil => exact nofun
  | @cons c c' c'' t ts hnext _ hrun ih =>
    obtain ⟨-, -, hposition, hstop⟩ := next_eq_ok_iff.1 hnext
    have hle := c.position_le_skipBlanks
    have hmore := hrun.position_le
    refine List.forall_mem_cons.2 ⟨⟨by omega, by omega⟩, fun u hu ↦ ?_⟩
    have hu := ih u hu
    have hlength : t.position ≤ t.stop := Nat.le_add_right _ _
    omega

theorem pairwise (h : Run c ts c') : ts.Pairwise fun t u ↦ t.stop ≤ u.position := by
  induction h with
  | nil => exact .nil
  | cons hnext _ hrun ih =>
    obtain ⟨-, -, -, hstop⟩ := next_eq_ok_iff.1 hnext
    exact .cons (fun u hu ↦ hstop ▸ (hrun.between u hu).1) ih

theorem blank_of_not_covers (h : Run c ts c') (hc : c.Within text) {i : Nat} {x : Char}
    (hi : c.position ≤ i) (hlt : i < c'.position) (hx : text[i]? = some x)
    (hcovers : ∀ t ∈ ts, ¬ t.Covers i) : Text.isBlank x = true := by
  induction h with
  | nil => omega
  | @cons c c' c'' t ts hnext _ _ ih =>
    obtain ⟨-, -, hposition, hstop⟩ := next_eq_ok_iff.1 hnext
    obtain ⟨hnot, hmore⟩ := List.forall_mem_cons.1 hcovers
    by_cases hbefore : i < c.skipBlanks.position
    · exact hc.blank_of_lt hi hbefore hx
    · have hge : c'.position ≤ i := by
        rw [hstop]
        by_contra hin
        exact hnot ⟨by omega, by omega⟩
      exact ih (call_of_next hnext ▸ hc.call) hge hlt hmore

/-- The same tokens are read from the characters of the run alone, before any text before which the
last of them ends. -/
theorem frame (h : Run c ts c') :
    ∃ mid, c.rest = mid ++ c'.rest ∧ c'.position = c.position + mid.length ∧
      ∀ rest, EndsAlike rest c'.rest → Run ⟨c.position, mid ++ rest⟩ ts ⟨c'.position, rest⟩ := by
  induction h with
  | nil c => exact ⟨[], rfl, rfl, fun rest _ ↦ .nil _⟩
  | @cons c c' c'' t ts hnext hend _ ih =>
    obtain ⟨mid, hmid, hposition, hframe⟩ := ih
    obtain ⟨-, htrim, ht, hstop⟩ := next_eq_ok_iff.1 hnext
    obtain ⟨x, tail, htext⟩ := exists_cons_of_next hnext hend
    obtain ⟨blanks, hblanks, hsplit, hskip⟩ := c.exists_blanks
    rw [htrim] at hsplit
    refine ⟨blanks ++ (t.text.toList ++ mid), ?_, ?_, fun rest hrest ↦ ?_⟩
    · rw [hsplit, hmid]
      simp only [List.append_assoc]
    · rw [hposition, hstop, stop, ht, hskip]
      simp only [List.length_append, String.length_toList]
      omega
    · have hends : EndsAlike (mid ++ rest) c'.rest := by
        cases mid with
        | nil => exact hmid ▸ hrest
        | cons y mid =>
          rintro _ ⟨⟩
          exact .inr (hmid ▸ rfl)
      have hd : Text.trimLeft (blanks ++ (t.text.toList ++ mid) ++ rest) =
          t.text.toList ++ (mid ++ rest) := by
        rw [htext, List.append_assoc, List.append_assoc, List.cons_append]
        exact Text.trimLeft_blank_append hblanks (by rw [htrim, htext]; rfl)
      have hagain := next_of_endsAlike (d := ⟨c.position, _⟩) hnext hend hd hends
      have hsplit : blanks ++ (t.text.toList ++ mid) ++ rest =
          blanks ++ (t.text.toList ++ (mid ++ rest)) := by
        simp only [List.append_assoc]
      rw [TextCursor.position_skipBlanks (c := ⟨c.position, _⟩) hsplit hd, ← hskip, ← ht, ← stop,
        ← hstop] at hagain
      exact .cons hagain hend (hframe rest hrest)

end Run

theorem ofString_of_run {text : String} (h : Run (.ofString text) ts c)
    (hblank : Text.trimLeft c.rest = []) :
    ofString text = .ok (ts ++ [⟨.endOfInput, "", text.length⟩]) := by
  have hwithin := h.within (TextCursor.within_ofString text)
  have hlength : c.position + c.rest.length = text.length := by
    have hle := hwithin.position_le
    rw [String.length_toList] at hle
    rw [hwithin.rest_eq, List.length_drop, String.length_toList]
    omega
  obtain ⟨c', hlast⟩ := next_of_blank hblank
  rw [hlength] at hlast
  exact ofString_eq_ok_iff.2 ⟨ts, _, c, c', h, hlast, rfl, rfl⟩

theorem run_of_ofString {text : String} (h : ofString text = .ok tokens) :
    ∃ ts c, Run (.ofString text) ts c ∧ Text.trimLeft c.rest = [] ∧
      tokens = ts ++ [⟨.endOfInput, "", text.length⟩] := by
  obtain ⟨ts, t, c, c', hrun, hlast, hend, rfl⟩ := ofString_eq_ok_iff.1 h
  obtain ⟨hblank, -⟩ := eq_of_isEnd hlast hend
  rw [ofString_of_run hrun hblank] at h
  exact ⟨ts, c, hrun, hblank, (Except.ok.inj h).symm⟩

theorem getLast?_of_ofString {text : String} (h : ofString text = .ok tokens) :
    tokens.getLast? = some ⟨.endOfInput, "", text.length⟩ := by
  obtain ⟨ts, c, -, -, rfl⟩ := run_of_ofString h
  exact List.getLast?_concat

theorem position_le_of_ofString {text : String} (h : ofString text = .ok tokens) :
    ∀ t ∈ tokens, t.position ≤ text.length := by
  obtain ⟨ts, c, hrun, -, rfl⟩ := run_of_ofString h
  refine List.forall_mem_append.2 ⟨fun t ht ↦ ?_, List.forall_mem_singleton.2 (Nat.le_refl _)⟩
  have hle := (hrun.sliceOf (TextCursor.within_ofString text) t ht).2
  rw [String.length_toList] at hle
  exact Nat.le_trans (Nat.le_add_right _ _) hle

theorem isEnd_of_ofString {text : String} {i : Nat} (h : ofString text = .ok tokens)
    (ht : tokens[i]? = some t) (hi : i + 1 < tokens.length) : t.kind.isEnd = false := by
  obtain ⟨ts, c, hrun, -, rfl⟩ := run_of_ofString h
  rw [List.length_append, List.length_singleton] at hi
  rw [List.getElem?_append_left (Nat.lt_of_succ_lt_succ hi)] at ht
  exact hrun.not_isEnd t (List.mem_of_getElem? ht)

/-- Where a fault is found, the text has a character that is no white space, and what stands before
it spells the tokens that were read. -/
theorem ofString_take_of_error {text : String} (h : ofString text = .error e) :
    (∃ x, text.toList[e.position]? = some x ∧ Text.isBlank x = false) ∧
      ∃ ts c c', Run (.ofString text) ts c ∧ next c = .error e c' ∧
        ofString (String.ofList (text.toList.take e.position)) =
          .ok (ts ++ [⟨.endOfInput, "", e.position⟩]) := by
  obtain ⟨ts, c, c', hrun, hfail⟩ := run_of_ofString_error h
  obtain ⟨hposition, x, tail, htrim⟩ := next_error hfail
  have hwithin := (hrun.within (TextCursor.within_ofString text)).skipBlanks
  have hrest := hwithin.rest_eq
  rw [TextCursor.rest_skipBlanks, htrim, ← hposition] at hrest
  refine ⟨⟨x, ?_, Text.not_isBlank_of_trimLeft htrim⟩, ts, c, c', hrun, hfail, ?_⟩
  · rw [← List.head?_drop, ← hrest]
    rfl
  obtain ⟨mid, hmid, hlength, hframe⟩ := hrun.frame
  obtain ⟨blanks, hblanks, hsplit, hskip⟩ := c.exists_blanks
  have htake : text.toList.take e.position = mid ++ blanks := by
    have htext : text.toList = (mid ++ blanks) ++ Text.trimLeft c.rest := by
      rw [List.append_assoc, ← hsplit]
      exact hmid
    have hcount : e.position = (mid ++ blanks).length := by
      change c.position = 0 + mid.length at hlength
      rw [List.length_append]
      omega
    rw [htext, hcount, List.take_left]
  have hends : EndsAlike blanks c.rest := fun y hy ↦
    .inl (hblanks y (List.mem_of_mem_head? hy))
  have hagain : Run (.ofString (String.ofList (text.toList.take e.position))) ts
      ⟨c.position, blanks⟩ := by
    rw [htake, TextCursor.ofString, String.toList_ofList]
    exact hframe blanks hends
  have hread := ofString_of_run hagain (Text.trimLeft_of_blank hblanks)
  rw [String.length_ofList, List.length_take] at hread
  have hle := hwithin.position_le
  rw [← hposition] at hle
  rwa [Nat.min_eq_left hle] at hread

/-- Lexing loses nothing. Calls never go back and never leave the text, faults on the way or not,
and give slices of it. What stands between the tokens of a text is white space. A fault is found at
a character, before which the tokens are those of the text up to there. -/
theorem lossless (text : String) :
    (∀ n, (TextCursor.call^[n] (.ofString text)).position ≤
        (TextCursor.call^[n + 1] (.ofString text)).position ∧
      (TextCursor.call^[n] (.ofString text)).position ≤ text.length ∧
      ∀ t c, next (TextCursor.call^[n] (.ofString text)) = .ok t c → t.SliceOf text.toList) ∧
    (∀ tokens, ofString text = .ok tokens →
      tokens.Pairwise (fun t u ↦ t.stop ≤ u.position) ∧
      (∀ t ∈ tokens, t.SliceOf text.toList) ∧
      (∀ i x, text.toList[i]? = some x → (∀ t ∈ tokens, ¬ t.Covers i) → Text.isBlank x = true) ∧
      ∃ ts, tokens = ts ++ [⟨.endOfInput, "", text.length⟩] ∧ ∀ t ∈ ts, t.kind.isEnd = false) ∧
    ∀ e, ofString text = .error e →
      (∃ x, text.toList[e.position]? = some x ∧ Text.isBlank x = false) ∧
      ∃ ts c c', Run (.ofString text) ts c ∧ next c = .error e c' ∧
        ofString (String.ofList (text.toList.take e.position)) =
          .ok (ts ++ [⟨.endOfInput, "", e.position⟩]) := by
  have hstart := TextCursor.within_ofString text
  refine ⟨fun n ↦ ?_, fun tokens h ↦ ?_, fun e h ↦ ofString_take_of_error h⟩
  · have hwithin := TextCursor.within_iterate_call text n
    rw [Function.iterate_succ_apply']
    refine ⟨TextCursor.position_le_call _, ?_, fun t c h ↦ sliceOf_of_next h hwithin⟩
    exact String.length_toList ▸ hwithin.position_le
  · obtain ⟨ts, c, hrun, hblank, rfl⟩ := run_of_ofString h
    have hwithin := hrun.within hstart
    refine ⟨?_, ?_, fun i x hx hcovers ↦ ?_, ts, rfl, hrun.not_isEnd⟩
    · refine List.pairwise_append.2 ⟨hrun.pairwise, List.pairwise_singleton _ _, ?_⟩
      intro t ht u hu
      obtain rfl := List.mem_singleton.1 hu
      have hle := hwithin.position_le
      rw [String.length_toList] at hle
      exact Nat.le_trans (hrun.between t ht).2 hle
    · refine List.forall_mem_append.2 ⟨hrun.sliceOf hstart, List.forall_mem_singleton.2 ?_⟩
      refine ⟨List.take_zero.symm, ?_⟩
      exact Nat.le_of_eq String.length_toList.symm
    · by_cases hlt : i < c.position
      · refine hrun.blank_of_not_covers hstart (Nat.zero_le i) hlt hx fun t ht ↦ ?_
        exact hcovers t (List.mem_append_left _ ht)
      · refine Text.blank_of_trimLeft hblank x ?_
        rw [hwithin.rest_eq]
        obtain ⟨j, rfl⟩ := Nat.exists_eq_add_of_le (Nat.le_of_not_lt hlt)
        rw [← List.getElem?_drop] at hx
        exact List.mem_of_getElem? hx

/-- A text of three tokens, and one with a character that starts none. -/
theorem lossless_of_stray :
    ofString "b | c" = .ok [⟨.identifier "b", "b", 0⟩, ⟨.symbol .pipe, "|", 2⟩,
      ⟨.identifier "c", "c", 4⟩, ⟨.endOfInput, "", 5⟩] ∧
    (∀ i x, "b | c".toList[i]? = some x → (i ≠ 0 ∧ i ≠ 2 ∧ i ≠ 4) → Text.isBlank x = true) ∧
    ofString "b | é" = .error ⟨4, .unexpectedCharacter 'é'⟩ ∧
    ∃ ts, ofString "b | " = .ok (ts ++ [⟨.endOfInput, "", 4⟩]) := by
  have hread : ofString "b | c" = .ok [⟨.identifier "b", "b", 0⟩, ⟨.symbol .pipe, "|", 2⟩,
      ⟨.identifier "c", "c", 4⟩, ⟨.endOfInput, "", 5⟩] := by cbv
  have hstray : ofString "b | é" = .error ⟨4, .unexpectedCharacter 'é'⟩ := by cbv
  obtain ⟨-, -, hblank, -⟩ := (lossless "b | c").2.1 _ hread
  obtain ⟨-, ts, c, c', -, -, htake⟩ := (lossless "b | é").2.2 _ hstray
  refine ⟨hread, fun i x hx hi ↦ hblank i x hx fun t ht hcovers ↦ ?_, hstray, ts, htake⟩
  simp only [List.mem_cons, List.not_mem_nil, or_false] at ht
  obtain ⟨hle, hlt⟩ := hcovers
  obtain rfl | rfl | rfl | rfl := ht
  · change i < 0 + 1 at hlt
    omega
  · change i < 2 + 1 at hlt
    change 2 ≤ i at hle
    omega
  · change i < 4 + 1 at hlt
    change 4 ≤ i at hle
    omega
  · change i < 5 + 0 at hlt
    change 5 ≤ i at hle
    omega

end Token

end PathQuery
