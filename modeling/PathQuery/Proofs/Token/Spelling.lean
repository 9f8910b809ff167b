import PathQuery.Expr.Printer
import PathQuery.Proofs.Json.Locality
import PathQuery.Proofs.Token.Lexing
import PathQuery.Proofs.Value.Rereading

namespace PathQuery

namespace Lexer

theorem plain_of_mem_hex {n : Nat} (hn : n < 0xA0) : ∀ c ∈ Text.hex 4 n, c ≠ '\\' ∧ c ≠ '"' := by
  have hall : ((List.range 0xA0).all fun n ↦
      (Text.hex 4 n).all fun c ↦ c != '\\' && c != '"') = true := by decide +kernel
  intro c hc
  have hplain := List.all_eq_true.1 (List.all_eq_true.1 hall n (List.mem_range.2 hn)) c hc
  simpa using hplain

theorem enclosable_documentEscape (c : Char) :
    Enclosable '"' ((Text.documentEscape c).getD [c]) := by
  unfold Text.documentEscape
  split
  case h_8 hquote hbackslash _ _ _ _ _ =>
    split
    · next hc => exact .pair (.of_forall (plain_of_mem_hex (by omega)))
    · exact .plain hbackslash hquote .nil
  all_goals exact .pair .nil

variable {rest : List Char}

theorem scan_quotedIdentifier (name : String) (rest : List Char) :
    scan ((Json.quoted name).toList ++ rest) =
      ⟨(Json.quoted name).toList.length, .ok (.quotedIdentifier name)⟩ := by
  have henclosable : Enclosable '"' (Text.escape Text.documentEscape name.toList) := by
    induction name.toList with
    | nil => exact .nil
    | cons c cs ih =>
      rw [Text.escape, List.flatMap_cons]
      exact (enclosable_documentEscape c).append ih
  have hread : Json.Read.run (do Json.Read.skip; Json.Read.stringBody)
      ('"' :: (Text.escape Text.documentEscape name.toList ++ ['"'])) = .ok name :=
    (Json.Read.Gives.skip
      (Json.Read.gives_stringBody Json.Read.unescapes_documentEscape name [])).run
  have hdecode : decode .quotedIdentifier (Text.escape Text.documentEscape name.toList) =
      .ok (.quotedIdentifier name) := by
    rw [decode, hread]
  have hbody := henclosable.body? (by decide) rest
  rw [Json.quoted, Text.quote, String.toList_ofList, List.cons_append, List.append_assoc]
  change scanDelimited .quotedIdentifier _ = _
  rw [List.singleton_append, scanDelimited_eq .quotedIdentifier hbody, hdecode, List.length_cons,
    List.length_append]
  rfl

/-- A document between backticks is one literal, whatever is behind it. -/
theorem scan_document {cs : List Char} {j : Json} (h : Json.readChars cs = .ok j)
    (rest : List Char) :
    scan ('\x60' :: (Text.insertBefore '\\' '\x60' cs ++ '\x60' :: rest)) =
      ⟨(Text.insertBefore '\\' '\x60' cs).length + 2,
        .ok (.literal (Value.ofJson j.sorted))⟩ := by
  have hdecode : decode .literal (Text.insertBefore '\\' '\x60' cs) =
      .ok (.literal (Value.ofJson j.sorted)) := by
    rw [decode, Text.dropBefore_insertBefore (by decide), Json.readChars_trim h]
  exact (scan_enclosed .literal (Json.paired_of_readChars h) rest).trans (congrArg _ hdecode)

theorem toList_literalText (v : Value) : (Expr.literalText v).toList =
    '\x60' :: (Text.insertBefore '\\' '\x60' v.compact.toList ++ ['\x60']) := by
  simp [Expr.literalText]

theorem scan_literal {v : Value} (h : v.Canonical Json.Read.maxDepth) (rest : List Char) :
    scan ((Expr.literalText v).toList ++ rest) =
      ⟨(Expr.literalText v).toList.length, .ok (.literal v)⟩ := by
  have hvalue : Value.ofJson v.toJson.sorted = v := by
    rw [Value.sorted_toJson, ← Value.throughJson, h.throughJson_eq]
  rw [toList_literalText, List.cons_append, List.append_assoc, List.singleton_append,
    scan_document h.readChars_compact, hvalue, List.length_cons, List.length_append]
  rfl

theorem symbol?_of_isNameChar {c : Char} (h : isNameChar c = true) (cs : List Char) :
    symbol? (c :: cs) = none := by
  unfold symbol?
  split
  case h_25 => rfl
  all_goals
    next heq =>
    rw [(List.cons.inj heq).1] at h
    cases h

theorem isNameChar_of_isDigit {c : Char} (h : Number.isDigit c = true) : isNameChar c = true := by
  rw [isNameChar, h, Bool.or_true]

theorem isNameChar_of_isNameStart {c : Char} (h : isNameStart c = true) : isNameChar c = true := by
  rw [isNameChar, h, Bool.true_or]

theorem not_isDigit_of_isNameStart {c : Char} (h : isNameStart c = true) :
    Number.isDigit c = false := by
  have hle {a b : Char} : a ≤ b ↔ a.toNat ≤ b.toNat := Iff.rfl
  have h9 : '9'.toNat = 57 := rfl
  have ha : 'a'.toNat = 97 := rfl
  have hA : 'A'.toNat = 65 := rfl
  rw [Number.isDigit, Bool.and_eq_false_iff, decide_eq_false_iff_not, decide_eq_false_iff_not]
  simp only [isNameStart, Bool.or_eq_true, Bool.and_eq_true, decide_eq_true_eq, beq_iff_eq] at h
  rw [hle, hle]
  obtain (h | h) | rfl := h
  · rw [hle] at h
    omega
  · rw [hle] at h
    omega
  · decide

theorem scan_of_isNameChar {c : Char} (h : isNameChar c = true) (cs : List Char) :
    scan (c :: cs) = if Number.isDigit c then scanNumber [] (c :: cs)
      else if isNameStart c then
        ⟨((c :: cs).takeWhile isNameChar).length,
          .ok (.identifier (String.ofList ((c :: cs).takeWhile isNameChar)))⟩
      else ⟨0, .error (.unexpectedCharacter c)⟩ := by
  have hequals : c ≠ '=' := by
    rintro rfl
    cases h
  unfold scan
  split
  case h_6 heq =>
    obtain ⟨rfl, rfl⟩ := List.cons.inj heq
    rw [symbol?_of_isNameChar h]
    dsimp only
    rw [if_neg hequals]
  case h_1 heq => cases heq
  all_goals
    next heq =>
    rw [(List.cons.inj heq).1] at h
    cases h

theorem scan_name {name : String} (h : isName name.toList = true) {rest : List Char}
    (hrest : ∀ c ∈ rest.head?, isNameChar c = false) :
    scan (name.toList ++ rest) = ⟨name.toList.length, .ok (.identifier name)⟩ := by
  cases hname : name.toList with
  | nil =>
    rw [hname] at h
    cases h
  | cons c cs =>
    rw [hname, isName, Bool.and_eq_true] at h
    have hall : (c :: cs).all isNameChar = true := by
      rw [List.all_cons, isNameChar_of_isNameStart h.1, h.2]
      rfl
    have htake := (Text.takeWhile_dropWhile_append (List.all_eq_true.1 hall) hrest).1
    rw [List.cons_append, scan_of_isNameChar (isNameChar_of_isNameStart h.1),
      not_isDigit_of_isNameStart h.1, if_neg Bool.false_ne_true, if_pos h.1, ← List.cons_append,
      htake, ← hname, String.ofList_toList]

theorem scanNumber_digits (sign : List Char) {k : Nat} {n : Int64}
    (hn : Number.readInt64? (sign ++ Number.digits k) = some n) {rest : List Char}
    (hrest : ∀ c ∈ rest.head?, Number.isDigit c = false) :
    scanNumber sign (Number.digits k ++ rest) =
      ⟨(sign ++ Number.digits k).length, .ok (.number n)⟩ := by
  have hne : (Number.digits k).isEmpty = false :=
    List.isEmpty_eq_false_iff.2 Nat.toDigits_ne_nil
  simp only [scanNumber]
  have hall : ∀ c ∈ Number.digits k, Number.isDigit c = true := fun c hc ↦ Number.isDigit_of_mem hc
  rw [(Text.takeWhile_dropWhile_append hall hrest).1, hne, if_neg Bool.false_ne_true, hn]

theorem scan_number (n : Int64) {rest : List Char}
    (hrest : ∀ c ∈ rest.head?, Number.isDigit c = false) :
    scan ((toString n.toInt).toList ++ rest) =
      ⟨(toString n.toInt).toList.length, .ok (.number n)⟩ := by
  have hread := Number.readInt64?_toString n
  obtain h | h := Int.lt_or_le n.toInt 0
  · rw [Number.toList_toString_of_neg h] at hread ⊢
    exact scanNumber_digits ['-'] hread hrest
  · rw [Number.toList_toString_of_nonneg h] at hread ⊢
    have hscan := scanNumber_digits [] hread hrest
    cases hds : Number.digits n.toInt.toNat with
    | nil => exact absurd hds Nat.toDigits_ne_nil
    | cons d ds =>
      rw [hds] at hscan
      have hd := Number.isDigit_of_mem (hds ▸ List.mem_cons_self)
      rw [List.cons_append, scan_of_isNameChar (isNameChar_of_isDigit hd), if_pos hd]
      exact hscan

theorem scan_symbol {cs : List Char} {s : Symbol} (h : symbol? cs = some s) :
    scan cs = ⟨s.text.length, .ok (.symbol s)⟩ := by
  unfold scan
  split
  case h_6 => rw [h]
  all_goals cases h

theorem not_isBlank_of_isNameChar {c : Char} (h : isNameChar c = true) :
    Text.isBlank c = false := by
  have hle {a b : Char} : a ≤ b ↔ a.toNat ≤ b.toNat := Iff.rfl
  have ha : 'a'.toNat = 97 := rfl
  have hz : 'z'.toNat = 122 := rfl
  have hA : 'A'.toNat = 65 := rfl
  have hZ : 'Z'.toNat = 90 := rfl
  rw [isNameChar, Bool.or_eq_true] at h
  obtain h | h := h
  · simp only [isNameStart, Bool.or_eq_true, Bool.and_eq_true, decide_eq_true_eq, beq_iff_eq] at h
    simp only [Text.isBlank, Bool.or_eq_false_iff, Bool.and_eq_false_iff, decide_eq_false_iff_not,
      beq_eq_false_iff_ne]
    obtain (h | h) | rfl := h
    · rw [hle, hle] at h
      omega
    · rw [hle, hle] at h
      omega
    · decide
  · exact Value.not_isBlank_of_isDigit h

theorem not_isBlank_of_symbol? {c : Char} {cs : List Char} {s : Symbol}
    (h : symbol? (c :: cs) = some s) : Text.isBlank c = false := by
  unfold symbol? at h
  split at h
  case h_25 => cases h
  all_goals
    next heq =>
    rw [(List.cons.inj heq).1]
    decide

theorem not_isBlank_of_scan {c : Char} {cs : List Char} {n : Nat} {k : TokenKind}
    (h : scan (c :: cs) = ⟨n, .ok k⟩) : Text.isBlank c = false := by
  unfold scan at h
  split at h
  case h_1 heq => cases heq
  case h_6 c' cs' _ _ _ _ heq =>
    obtain ⟨rfl, rfl⟩ := List.cons.inj heq
    cases hs : symbol? (c :: cs) with
    | some s => exact not_isBlank_of_symbol? hs
    | none =>
      simp only [hs] at h
      split at h
      · next hdigit => exact not_isBlank_of_isNameChar (isNameChar_of_isDigit hdigit)
      · split at h
        · next hname => exact not_isBlank_of_isNameChar (isNameChar_of_isNameStart hname)
        · split at h <;> cases h
  all_goals
    next heq =>
    rw [(List.cons.inj heq).1]
    decide

end Lexer

open Lexer

namespace Lexes

variable {cs rest text : List Char} {k : TokenKind} {kinds : List TokenKind}

theorem blank {c : Char} (hc : Text.isBlank c = true) (h : Lexes cs kinds) :
    Lexes (c :: cs) kinds := by
  have htrim : Text.trimLeft (c :: cs) = Text.trimLeft cs := List.dropWhile_cons_of_pos hc
  cases h with
  | done h => exact .done (htrim.trans h)
  | token hscan hend h => exact .token (htrim ▸ hscan) hend (htrim ▸ h)

/-- A token is read from its text before anything that it does not run into. -/
theorem cons (hscan : scan (text ++ rest) = ⟨text.length, .ok k⟩) (hend : k.isEnd = false)
    (h : Lexes rest kinds) : Lexes (text ++ rest) (k :: kinds) := by
  have htrim : Text.trimLeft (text ++ rest) = text ++ rest := by
    cases hcs : text ++ rest with
    | nil => rfl
    | cons c cs =>
      rw [hcs] at hscan
      exact List.dropWhile_cons_of_neg (by simp [not_isBlank_of_scan hscan])
  refine .token (n := text.length) (by rw [htrim, hscan]) hend ?_
  rwa [htrim, List.drop_left]

theorem symbol {s : Symbol} {n : Nat} (hs : symbol? cs = some s) (hn : s.text.length = n)
    (h : Lexes (cs.drop n) kinds) : Lexes cs (.symbol s :: kinds) := by
  have htrim : Text.trimLeft cs = cs := by
    cases cs with
    | nil => rfl
    | cons c cs => exact List.dropWhile_cons_of_neg (by simp [not_isBlank_of_symbol? hs])
  refine .token (n := n) ?_ rfl ?_
  · rw [htrim, scan_symbol hs, hn]
  · rwa [htrim]

end Lexes

end PathQuery
