import Mathlib.Algebra.Group.Nat.Even
import PathQuery.Proofs.Json.Locality
import PathQuery.Proofs.Token.Positions

namespace PathQuery

namespace Text

variable {cs s t : List Char} {d : Char}

def backslashesAtEnd (cs : List Char) : Nat := (cs.reverse.takeWhile (· == '\\')).length

/-- A row of backslashes that has a `d` or the end right behind it is of even length. -/
def EvenBefore (d : Char) (cs : List Char) : Prop :=
  ∀ i ≤ cs.length, i = cs.length ∨ cs[i]? = some d → Even (backslashesAtEnd (cs.take i))

instance (d : Char) (cs : List Char) : Decidable (EvenBefore d cs) :=
  inferInstanceAs (Decidable (∀ i ≤ cs.length, _))

theorem even_backslashesAtEnd_append (hs : Even (backslashesAtEnd s))
    (h : Even (backslashesAtEnd (s ++ t))) : Even (backslashesAtEnd t) := by
  unfold backslashesAtEnd at *
  rw [List.reverse_append, List.takeWhile_append] at h
  split at h
  · next hall =>
    rw [List.length_append, ← hall] at h
    exact (Nat.even_add.1 h).2 hs
  · exact h

theorem EvenBefore.of_append (h : EvenBefore d (s ++ t)) (hs : Even (backslashesAtEnd s)) :
    EvenBefore d t := by
  intro i hi hnext
  have heven : Even (backslashesAtEnd ((s ++ t).take (s.length + i))) := by
    apply h
    · rw [List.length_append]
      omega
    · rw [List.length_append, List.getElem?_append_right (Nat.le_add_right _ _),
        Nat.add_sub_cancel_left]
      exact hnext.imp_left (congrArg (s.length + ·))
  rw [List.take_length_add_append] at heven
  exact even_backslashesAtEnd_append hs heven

end Text

namespace Lexer

open Text

variable {cs : List Char} {d : Char} {what : Delimited}

theorem Paired.of_evenBefore : {cs : List Char} → EvenBefore d cs → Paired d cs
  | [], _ => .nil
  | [c], h => by
    refine .plain ?_ .nil
    rintro rfl
    exact absurd (h 1 (Nat.le_refl 1) (.inl rfl)) (by decide)
  | c :: e :: cs, h => by
    by_cases hc : c = '\\'
    · subst hc
      have hed : e ≠ d := by
        rintro rfl
        have hone : backslashesAtEnd (('\\' :: e :: cs).take 1) = 1 := rfl
        have heven := h 1 (by simp) (.inr rfl)
        rw [hone] at heven
        exact absurd heven (by decide)
      have hpair : Even (backslashesAtEnd ['\\', e]) := by
        by_cases he : e = '\\'
        · subst he
          decide
        · have hzero : backslashesAtEnd ['\\', e] = 0 := by simp [backslashesAtEnd, he]
          rw [hzero]
          decide
      have hrest : EvenBefore d cs := EvenBefore.of_append (s := ['\\', e]) h hpair
      exact .pair hed (.of_evenBefore hrest)
    · have hzero : backslashesAtEnd [c] = 0 := by simp [backslashesAtEnd, hc]
      have hrest : EvenBefore d (e :: cs) :=
        EvenBefore.of_append (s := [c]) h (hzero ▸ Even.zero)
      exact .plain hc (.of_evenBefore hrest)

end Lexer

open Lexer

namespace Token

variable {text : String} {k : TokenKind}

def only (k : TokenKind) (text : String) : List Token :=
  [⟨k, text, 0⟩, ⟨.endOfInput, "", text.length⟩]

theorem ofString_of_scan (h : scan text.toList = ⟨text.length, .ok k⟩) (hend : k.isEnd = false) :
    ofString text = .ok (only k text) := by
  have htrim : Text.trimLeft text.toList = text.toList := by
    cases hcs : text.toList with
    | nil => rfl
    | cons c cs =>
      rw [hcs] at h
      exact List.dropWhile_cons_of_neg (by simp [not_isBlank_of_scan h])
  have hstart : (TextCursor.ofString text).skipBlanks.position = 0 :=
    TextCursor.position_skipBlanks (List.nil_append _).symm htrim
  have hnext : next (TextCursor.ofString text) = .ok ⟨k, text, 0⟩ ⟨text.length, []⟩ := by
    refine next_eq_ok_iff.2 ⟨?_, ?_, hstart.symm, (Nat.zero_add _).symm⟩
    · exact htrim ▸ h
    · exact htrim.trans (List.append_nil _).symm
  exact ofString_of_run (.cons hnext hend (.nil _)) rfl

def enclosed (d : Char) (text : String) : String :=
  String.ofList (d :: (Text.insertBefore '\\' d text.toList ++ [d]))

theorem ofString_fieldName (name : String) :
    ofString (Expr.fieldName name) = .ok (only
      (if isName name.toList then .identifier name else .quotedIdentifier name)
      (Expr.fieldName name)) := by
  rw [Expr.fieldName]
  split
  · next h =>
    refine ofString_of_scan ?_ rfl
    have hscan : scan (name.toList ++ []) = _ := scan_name h nofun
    rwa [List.append_nil, String.length_toList] at hscan
  · refine ofString_of_scan ?_ rfl
    have hscan := scan_quotedIdentifier name []
    rwa [List.append_nil, String.length_toList] at hscan

theorem toList_enclosed (d : Char) (text : String) : (enclosed d text).toList =
    d :: (Text.insertBefore '\\' d text.toList ++ [d]) :=
  String.toList_ofList

theorem length_enclosed (d : Char) (text : String) :
    (enclosed d text).length = (Text.insertBefore '\\' d text.toList).length + 2 := by
  rw [enclosed, String.length_ofList, List.length_cons, List.length_append]
  rfl

/-- The text of a document is one literal between backticks, white space around it or not. -/
theorem ofString_enclosed_document {document : Json} (h : Json.readSorted text = .ok document) :
    ofString (enclosed '\x60' text) =
      .ok (only (.literal (Value.ofJson document)) (enclosed '\x60' text)) := by
  rw [Json.readSorted, Json.read] at h
  cases hread : Json.readChars text.toList with
  | error e =>
    rw [hread] at h
    cases h
  | ok j =>
    rw [hread] at h
    cases h
    refine ofString_of_scan ?_ rfl
    rw [toList_enclosed, length_enclosed]
    exact scan_document hread []

/-- A raw string stands for itself unless a backslash at the end of an odd row would take the quote
behind it. -/
theorem ofString_enclosed_rawString (h : Text.EvenBefore '\x27' text.toList) :
    ofString (enclosed '\x27' text) = .ok (only (.rawString text) (enclosed '\x27' text)) := by
  have hdecode : decode .rawString (Text.insertBefore '\\' '\x27' text.toList) =
      .ok (.rawString text) := by
    rw [decode, Text.dropBefore_insertBefore (by decide), String.ofList_toList]
  refine ofString_of_scan ?_ rfl
  rw [toList_enclosed, length_enclosed, ← hdecode]
  exact scan_enclosed .rawString (.of_evenBefore h) []

/-- Names, documents and strings can all be written as one token. -/
theorem ofString_leaf :
    (∀ name : String, ofString (Expr.fieldName name) = .ok (only
        (if isName name.toList then .identifier name else .quotedIdentifier name)
        (Expr.fieldName name))) ∧
      (∀ (text : String) (document : Json), Json.readSorted text = .ok document →
        ofString (enclosed '\x60' text) =
          .ok (only (.literal (Value.ofJson document)) (enclosed '\x60' text))) ∧
      ∀ text : String, Text.EvenBefore '\x27' text.toList →
        ofString (enclosed '\x27' text) =
          .ok (only (.rawString text) (enclosed '\x27' text)) :=
  ⟨ofString_fieldName, fun _ _ ↦ ofString_enclosed_document, fun _ ↦ ofString_enclosed_rawString⟩

/-- Quotes, backslashes and backticks side by side, and white space around a document. -/
theorem ofString_leaf_of_escapes :
    (Json.readSorted "\n\"`\\\\`\\n\" " = .ok (.string "`\\`\n") ∧
      Text.EvenBefore '\x27' "\\\\'b\\n\\\\".toList) ∧
      ofString "\"a\\\"\\\\`\"" =
        .ok (only (.quotedIdentifier "a\"\\`") "\"a\\\"\\\\`\"") ∧
      ofString "`\n\"\\`\\\\\\`\\n\" `" =
        .ok (only (.literal (.string "`\\`\n")) "`\n\"\\`\\\\\\`\\n\" `") ∧
      ofString "'\\\\\\'b\\n\\\\'" =
        .ok (only (.rawString "\\\\'b\\n\\\\") "'\\\\\\'b\\n\\\\'") := by
  have hchars : "\n\"`\\\\`\\n\" ".toList = ['\n'] ++
      '"' :: (Text.escape Text.documentEscape "`\\`\n".toList ++ '"' :: [' ']) := by
    decide +kernel
  have hspace : ∀ c ∈ [' '], Json.Read.isSpace c = true := List.forall_mem_singleton.2 rfl
  have hdocument : Json.readSorted "\n\"`\\\\`\\n\" " = .ok (.string "`\\`\n") := by
    have hgives : Json.Read.Gives (Json.Read.value Json.Read.maxDepth)
        "\n\"`\\\\`\\n\" ".toList (.string "`\\`\n") [' '] := by
      rw [hchars]
      refine .peekToken_append (List.forall_mem_singleton.2 rfl) rfl (.skip (.map _ ?_))
      exact Json.Read.gives_stringBody Json.Read.unescapes_documentEscape _ _
    rw [Json.readSorted, Json.read, Json.readChars, hgives.run_of_blank hspace]
    rfl
  have heven : Text.EvenBefore '\x27' "\\\\'b\\n\\\\".toList := by decide
  have hname : Expr.fieldName "a\"\\`" = "\"a\\\"\\\\`\"" := by decide +kernel
  have hliteral : enclosed '\x60' "\n\"`\\\\`\\n\" " = "`\n\"\\`\\\\\\`\\n\" `" := by decide +kernel
  have hraw : enclosed '\x27' "\\\\'b\\n\\\\" = "'\\\\\\'b\\n\\\\'" := by decide +kernel
  obtain ⟨hnames, hdocuments, hstrings⟩ := ofString_leaf
  refine ⟨⟨hdocument, heven⟩, ?_, ?_, ?_⟩
  · have htokens := hnames "a\"\\`"
    rwa [hname, if_neg (by decide)] at htokens
  · have htokens := hdocuments _ _ hdocument
    rwa [hliteral] at htokens
  · have htokens := hstrings _ heven
    rwa [hraw] at htokens

end Token

end PathQuery
