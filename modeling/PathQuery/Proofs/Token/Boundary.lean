import PathQuery.Proofs.Token.Spelling

namespace PathQuery

def Symbol.isWhole : Symbol → Bool
  | leftBracket => false
  | pipe => false
  | ampersand => false
  | not => false
  | comparator .less => false
  | comparator .greater => false
  | _ => true

def TokenKind.isWhole : TokenKind → Bool
  | symbol s => s.isWhole
  | _ => true

namespace Lexer

variable {cs rest following body sign : List Char} {c d : Char} {n : Nat} {k : TokenKind}
  {s : Symbol} {what : Delimited}

def Apart (rest : List Char) : Prop := ∀ c ∈ rest.head?, isNameChar c = false

theorem apart_cons (hc : isNameChar c = false) (rest : List Char) : Apart (c :: rest) := by
  rintro _ ⟨⟩
  exact hc

theorem apart_nil : Apart [] := nofun

theorem not_isDigit_of_not_isNameChar (h : isNameChar c = false) : Number.isDigit c = false := by
  rw [isNameChar, Bool.or_eq_false_iff] at h
  exact h.2

theorem Apart.not_isDigit (h : Apart rest) : ∀ c ∈ rest.head?, Number.isDigit c = false :=
  fun c hc ↦ not_isDigit_of_not_isNameChar (h c hc)

/-- Where a token ends before the one text it ends before the other: that is empty, or it starts
with white space or as the first does. -/
def EndsAlike (rest following : List Char) : Prop :=
  ∀ c ∈ rest.head?, Text.isBlank c = true ∨ following.head? = some c

theorem EndsAlike.ne (h : EndsAlike rest following) (hd : Text.isBlank d = false)
    (hfollowing : ∀ tail, following = d :: tail → False) : ∀ tail, rest = d :: tail → False := by
  rintro tail rfl
  obtain hblank | hhead := h d rfl
  · rw [hd] at hblank
    cases hblank
  · obtain ⟨tail, rfl⟩ := List.head?_eq_some_iff.1 hhead
    exact hfollowing tail rfl

theorem symbol?_take_append (h : symbol? cs = some s)
    (hrest : EndsAlike rest (cs.drop s.text.length) ∨ s.isWhole = true) :
    symbol? (cs.take s.text.length ++ rest) = some s := by
  unfold symbol? at h
  split at h
  case h_25 => cases h
  case h_3 tail hclose hquestion =>
    cases h
    have hends := hrest.resolve_right Bool.false_ne_true
    change symbol? ('[' :: rest) = _
    rw [symbol?]
    · exact hends.ne (by decide) hclose
    · exact hends.ne (by decide) hquestion
  case h_5 tail hnext | h_7 tail hnext | h_9 tail hnext | h_11 tail hnext | h_13 tail hnext =>
    cases h
    have hends := hrest.resolve_right Bool.false_ne_true
    change symbol? (_ :: rest) = _
    rw [symbol?]
    exact hends.ne (by decide) hnext
  all_goals
    cases h
    rfl

theorem body?_cons (hc : c ≠ '\\') (cs : List Char) :
    body? d (c :: cs) = if c = d then some [] else (body? d cs).map (c :: ·) := by
  rw [body?]
  · exact fun heq _ ↦ hc heq
  · exact fun _ _ heq _ ↦ hc heq

theorem not_backslash (hlone : c = '\\' → cs = [] → False)
    (hpair : ∀ d ds, c = '\\' → cs = d :: ds → False) : c ≠ '\\' := by
  intro hc
  cases cs with
  | nil => exact hlone hc rfl
  | cons d ds => exact hpair d ds hc rfl

theorem body?_append (h : body? d cs = some body) (rest : List Char) :
    body? d (cs ++ rest) = some body := by
  fun_induction body? d cs generalizing body with
  | case1 | case2 => cases h
  | case3 c cs ih =>
    obtain ⟨inner, hinner, rfl⟩ := Option.map_eq_some_iff.1 h
    rw [List.cons_append, List.cons_append, body?, ih hinner]
    rfl
  | case4 cs hlone hpair =>
    rw [List.cons_append, body?_cons (not_backslash hlone hpair), if_pos rfl]
    exact h
  | case5 c cs hlone hpair hc ih =>
    obtain ⟨inner, hinner, rfl⟩ := Option.map_eq_some_iff.1 h
    rw [List.cons_append, body?_cons (not_backslash hlone hpair), if_neg hc, ih hinner]
    rfl

theorem body?_take (h : body? d cs = some body) :
    body? d (cs.take (body.length + 1)) = some body := by
  fun_induction body? d cs generalizing body with
  | case1 | case2 => cases h
  | case3 c cs ih =>
    obtain ⟨inner, hinner, rfl⟩ := Option.map_eq_some_iff.1 h
    rw [List.length_cons, List.length_cons, List.take_succ_cons, List.take_succ_cons, body?,
      ih hinner]
    rfl
  | case4 cs hlone hpair =>
    cases h
    rw [List.take_succ_cons, body?_cons (not_backslash hlone hpair), if_pos rfl]
  | case5 c cs hlone hpair hc ih =>
    obtain ⟨inner, hinner, rfl⟩ := Option.map_eq_some_iff.1 h
    rw [List.length_cons, List.take_succ_cons, body?_cons (not_backslash hlone hpair), if_neg hc,
      ih hinner]
    rfl

theorem scanDelimited_take_append (h : scanDelimited what cs = ⟨n + 1, .ok k⟩)
    (rest : List Char) : scanDelimited what (cs.take n ++ rest) = ⟨n + 1, .ok k⟩ := by
  unfold scanDelimited at h ⊢
  cases hbody : body? what.delimiter cs with
  | none =>
    rw [hbody] at h
    cases h
  | some body =>
    rw [hbody] at h
    obtain ⟨hn, hk⟩ := Scan.mk.inj h
    obtain rfl := Nat.succ.inj hn
    rw [body?_append (body?_take hbody) rest]
    exact h

theorem takeWhile_take_append {p : Char → Bool}
    (hrest : ∀ c ∈ rest.head?, p c = false ∨ (cs.drop (cs.takeWhile p).length).head? = some c) :
    (cs.take (cs.takeWhile p).length ++ rest).takeWhile p = cs.takeWhile p := by
  have hsplit : cs.takeWhile p ++ cs.dropWhile p = cs := List.takeWhile_append_dropWhile
  have htake : cs.take (cs.takeWhile p).length = cs.takeWhile p :=
    (congrArg _ hsplit.symm).trans List.take_left
  have hdrop : cs.drop (cs.takeWhile p).length = cs.dropWhile p :=
    (congrArg _ hsplit.symm).trans List.drop_left
  rw [htake]
  have hall : ∀ c ∈ cs.takeWhile p, p c = true := fun c hc ↦ List.mem_takeWhile_imp hc
  refine (Text.takeWhile_dropWhile_append hall fun c hc ↦ (hrest c hc).elim id fun hhead ↦ ?_).1
  rw [hdrop] at hhead
  exact Text.not_of_head?_dropWhile p cs c hhead

theorem not_isNameChar_of_ends (h : EndsAlike rest following ∨ Apart rest) :
    ∀ c ∈ rest.head?, isNameChar c = false ∨ following.head? = some c := by
  intro c hc
  obtain hends | hapart := h
  · refine (hends c hc).imp_left fun hblank ↦ ?_
    rw [← Bool.not_eq_true]
    intro hname
    rw [not_isBlank_of_isNameChar hname] at hblank
    cases hblank
  · exact .inl (hapart c hc)

theorem scanNumber_take_append {m : Nat} (h : scanNumber sign cs = ⟨n, .ok k⟩)
    (hn : n = sign.length + m) (hrest : EndsAlike rest (cs.drop m) ∨ Apart rest) :
    scanNumber sign (cs.take m ++ rest) = ⟨n, .ok k⟩ := by
  have hm : m = (cs.takeWhile Number.isDigit).length := by
    simp only [scanNumber] at h
    split at h
    · cases h
    · split at h
      · obtain ⟨hlength, -⟩ := Scan.mk.inj h
        rw [List.length_append] at hlength
        omega
      · cases h
  rw [hm] at hrest ⊢
  have hdigits := takeWhile_take_append fun c hc ↦
    (not_isNameChar_of_ends hrest c hc).imp_left not_isDigit_of_not_isNameChar
  rw [scanNumber, hdigits]
  exact h

/-- A token depends on its own characters and on whether it ends before what follows them. -/
theorem scan_take_append (h : scan cs = ⟨n, .ok k⟩) (hend : k.isEnd = false)
    (hrest : EndsAlike rest (cs.drop n) ∨ k.isWhole = true ∧ Apart rest) :
    scan (cs.take n ++ rest) = ⟨n, .ok k⟩ := by
  have hn : ∃ m, n = m + 1 := by
    obtain ⟨-, rfl⟩ | ⟨hpos, -⟩ := content_of_scan cs (k := k) (by rw [h])
    · cases hend
    · rw [h] at hpos
      exact Nat.exists_eq_add_one.2 hpos
  obtain ⟨m, rfl⟩ := hn
  unfold scan at h
  split at h
  · cases h
  · exact scanDelimited_take_append h rest
  · exact scanDelimited_take_append h rest
  · exact scanDelimited_take_append h rest
  · exact scanNumber_take_append h (Nat.add_comm m 1) (hrest.imp_right And.right)
  · next c cs _ _ _ _ =>
    cases hs : symbol? (c :: cs) with
    | some s =>
      rw [hs] at h
      obtain ⟨hlength, hk⟩ := Scan.mk.inj h
      rw [← hlength] at hrest ⊢
      cases hk
      exact scan_symbol (symbol?_take_append hs (hrest.imp_right And.left))
    | none =>
      simp only [hs] at h
      split at h
      · next hdigit =>
        have hnumber :=
          scanNumber_take_append h (Nat.zero_add _).symm (hrest.imp_right And.right)
        rw [List.take_succ_cons, List.cons_append,
          scan_of_isNameChar (isNameChar_of_isDigit hdigit), if_pos hdigit]
        exact hnumber
      · next hdigit =>
        split at h
        · next hstart =>
          obtain ⟨hlength, hk⟩ := Scan.mk.inj h
          rw [← hlength] at hrest
          have hname := takeWhile_take_append
            (not_isNameChar_of_ends (hrest.imp_right And.right))
          rw [hlength, List.take_succ_cons, List.cons_append] at hname
          rw [List.take_succ_cons, List.cons_append,
            scan_of_isNameChar (isNameChar_of_isNameStart hstart), if_neg hdigit, if_pos hstart,
            hname]
          exact h
        · split at h <;> cases h

/-- A token is read alike before more characters, unless these go on with it. -/
theorem scan_append (h : scan cs = ⟨n, .ok k⟩) (hend : k.isEnd = false)
    (hrest : n < cs.length ∨ k.isWhole = true ∧ Apart rest) :
    scan (cs ++ rest) = ⟨n, .ok k⟩ := by
  have heq : cs ++ rest = cs.take n ++ (cs.drop n ++ rest) := by
    rw [← List.append_assoc, List.take_append_drop]
  rw [heq]
  refine scan_take_append h hend ?_
  cases hdrop : cs.drop n with
  | nil => exact .inr (hrest.resolve_left (Nat.not_lt.2 (List.drop_eq_nil_iff.1 hdrop)))
  | cons c tail =>
    left
    rintro _ ⟨⟩
    exact .inr rfl

theorem length_le_of_symbol? (h : symbol? cs = some s) : s.text.length ≤ cs.length := by
  unfold symbol? at h
  split at h
  case h_25 => cases h
  all_goals
    cases h
    exact Nat.le_add_left _ _

theorem length_lt_of_body? (h : body? d cs = some body) : body.length < cs.length := by
  fun_induction body? d cs generalizing body with
  | case1 | case2 => cases h
  | case3 c cs ih =>
    obtain ⟨inner, hinner, rfl⟩ := Option.map_eq_some_iff.1 h
    have := ih hinner
    simp only [List.length_cons]
    omega
  | case4 cs =>
    cases h
    exact Nat.succ_pos _
  | case5 c cs _ _ _ ih =>
    obtain ⟨inner, hinner, rfl⟩ := Option.map_eq_some_iff.1 h
    exact Nat.succ_lt_succ (ih hinner)

theorem width_scanDelimited_le (what : Delimited) (cs : List Char) :
    (scanDelimited what cs).width ≤ cs.length + 1 := by
  rw [scanDelimited]
  cases hbody : body? what.delimiter cs with
  | none => exact Nat.le_refl _
  | some body => exact Nat.succ_le_succ (length_lt_of_body? hbody)

theorem width_scanNumber_le (sign cs : List Char) :
    (scanNumber sign cs).width ≤ sign.length + cs.length := by
  have hdigits : (sign ++ cs.takeWhile Number.isDigit).length ≤ sign.length + cs.length := by
    rw [List.length_append]
    exact Nat.add_le_add_left (List.takeWhile_sublist _).length_le _
  simp only [scanNumber]
  split
  · exact Nat.le_add_right _ _
  · split <;> exact hdigits

theorem width_scan_le (cs : List Char) : (scan cs).width ≤ cs.length := by
  unfold scan
  split
  · exact Nat.zero_le _
  · exact width_scanDelimited_le _ _
  · exact width_scanDelimited_le _ _
  · exact width_scanDelimited_le _ _
  · next cs =>
    have hle := width_scanNumber_le ['-'] cs
    rwa [List.length_singleton, Nat.add_comm] at hle
  · next c cs _ _ _ _ =>
    cases hs : symbol? (c :: cs) with
    | some s => exact length_le_of_symbol? hs
    | none =>
      dsimp only
      split
      · have hle := width_scanNumber_le [] (c :: cs)
        rwa [List.length_nil, Nat.zero_add] at hle
      · split
        · exact (List.takeWhile_sublist _).length_le
        · split <;> exact Nat.zero_le _

theorem width_le_of_scan (h : scan cs = ⟨n, .ok k⟩) : n ≤ cs.length := by
  have hle := width_scan_le cs
  rwa [h] at hle

end Lexer

theorem Text.trimLeft_append (cs rest : List Char) : trimLeft (cs ++ rest) =
    if trimLeft cs = [] then trimLeft rest else trimLeft cs ++ rest := by
  rw [trimLeft, List.dropWhile_append]
  split
  · next h => exact (if_pos (List.isEmpty_iff.1 h)).symm
  · next h => exact (if_neg (mt List.isEmpty_iff.2 h)).symm

open Lexer

namespace Lexes

variable {cs rest : List Char} {k : TokenKind} {kinds more : List TokenKind}

theorem of_trimLeft {cs' : List Char} (heq : Text.trimLeft cs = Text.trimLeft cs')
    (h : Lexes cs' kinds) : Lexes cs kinds := by
  cases h with
  | done h => exact .done (heq.trans h)
  | token hscan hend h => exact .token (heq ▸ hscan) hend (heq ▸ h)

theorem eq_nil (h : Lexes [] kinds) : kinds = [] := by
  cases h with
  | done => rfl
  | token hscan hend =>
    cases hscan
    cases hend

/-- The tokens of a text are those of its two parts, where the characters of the second make the
last token of the first no longer. -/
theorem append (h : Lexes cs kinds) (hlast : ∀ k ∈ kinds.getLast?, k.isWhole = true)
    (hrest : Apart rest) (hmore : Lexes rest more) : Lexes (cs ++ rest) (kinds ++ more) := by
  induction h with
  | @done cs hnil =>
    refine of_trimLeft ?_ hmore
    rw [Text.trimLeft_append, if_pos hnil]
  | @token cs n k kinds hscan hend h ih =>
    have hne : Text.trimLeft cs ≠ [] := by
      intro hnil
      rw [hnil] at hscan
      cases hscan
      cases hend
    have hle := width_le_of_scan hscan
    have htail : ∀ k ∈ kinds.getLast?, k.isWhole = true := by
      cases kinds with
      | nil => nofun
      | cons _ _ => exact hlast
    have hgoes : n < (Text.trimLeft cs).length ∨ k.isWhole = true ∧ Apart rest := by
      refine (Nat.lt_or_eq_of_le hle).imp_right fun heq ↦ ⟨?_, hrest⟩
      rw [heq, List.drop_length] at h
      obtain rfl := h.eq_nil
      exact hlast k rfl
    refine .token (n := n) ?_ hend ?_
    · rw [Text.trimLeft_append, if_neg hne]
      exact scan_append hscan hend hgoes
    · rw [Text.trimLeft_append, if_neg hne, List.drop_append_of_le_length hle]
      exact ih htail

end Lexes

end PathQuery
