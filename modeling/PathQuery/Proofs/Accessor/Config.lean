import Mathlib.Data.List.Nodup
import PathQuery.Accessor.ConfigReader
import PathQuery.Json.Printer
import PathQuery.Proofs.Json.Reading

namespace PathQuery.AccessorConfig

open Json Json.Read

variable {s : Setting} {ss : List Setting} {r : Draft}

def written (c : AccessorConfig) : Setting → String
  | .temporaries => c.temporaries
  | .nullCheck => c.nullCheck.text
  | .support => c.support
  | .input => c.input

/-- The settings `d` with one of them as in `c`. -/
def overrule (c d : AccessorConfig) : Setting → AccessorConfig
  | .temporaries => { d with temporaries := c.temporaries }
  | .nullCheck => { d with nullCheck := c.nullCheck }
  | .support => { d with support := c.support }
  | .input => { d with input := c.input }

def partialJson (c : AccessorConfig) (ss : List Setting) : Json :=
  .object (ss.map fun s ↦ (s.key, .string (c.written s)))

def memberChars (c : AccessorConfig) (s : Setting) : List Char :=
  (quoted s.key).toList ++ ':' :: (quoted (c.written s)).toList

theorem toList_quoted (s : String) :
    (quoted s).toList = '"' :: (Text.escape Text.documentEscape s.toList ++ ['"']) :=
  String.toList_ofList

theorem gives_text (expected s : String) (rest : List Char) :
    Gives (Read.text expected) ((quoted s).toList ++ rest) s rest := by
  rw [toList_quoted, List.cons_append, List.append_assoc]
  exact .peekToken rfl (.skip (gives_stringBody unescapes_documentEscape s rest))

theorem gives_nullCheck (style : NullCheck) (rest : List Char) :
    Gives NullCheck.reader ((quoted style.text).toList ++ rest) style rest := by
  have hnamed : Gives (NullCheck.named style.text) rest style rest := by
    cases style with
    | explicitIf => exact .pure
    | coalescing => exact .pure
  have htext := gives_text "variant identifier" style.text rest
  rw [toList_quoted, List.cons_append] at htext ⊢
  exact .peekToken rfl (.bind htext hnamed)

theorem gives_setting (c d : AccessorConfig) (s : Setting) (rest : List Char) :
    Gives (readSetting d s) ((quoted (c.written s)).toList ++ rest) (c.overrule d s) rest := by
  cases s with
  | nullCheck => exact .bind (gives_nullCheck c.nullCheck rest) .pure
  | temporaries => exact .bind (gives_text "a string" c.temporaries rest) .pure
  | support => exact .bind (gives_text "a string" c.support rest) .pure
  | input => exact .bind (gives_text "a string" c.input rest) .pure

theorem ofKey?_key (s : Setting) : Setting.ofKey? s.key = some s := by
  cases s <;> rfl

theorem gives_member (c : AccessorConfig) (hs : s ∉ r.seen) (rest : List Char) :
    Gives (readMember r s.key) (':' :: (quoted (c.written s)).toList ++ rest)
      ⟨c.overrule r.config s, s :: r.seen⟩ rest := by
  rw [readMember, ofKey?_key, List.cons_append]
  dsimp only
  rw [if_neg hs]
  exact .bind (gives_colon _) (.bind (gives_setting c r.config s rest) .pure)

theorem memberChars_append (c : AccessorConfig) (s : Setting) (rest : List Char) :
    c.memberChars s ++ rest = '"' :: (Text.escape Text.documentEscape s.key.toList ++
      '"' :: (':' :: (quoted (c.written s)).toList ++ rest)) := by
  rw [memberChars, toList_quoted s.key]
  simp only [List.cons_append, List.append_assoc, List.nil_append]

theorem gives_laterMembers (c : AccessorConfig) {n : Nat} (hn : ss.length < n)
    (hss : (ss.reverse ++ r.seen).Nodup) (rest : List Char) :
    Gives (laterMembers readMember n r)
      ((ss.map c.memberChars).flatMap (',' :: ·) ++ '\x7d' :: rest)
      ⟨ss.foldl c.overrule r.config, ss.reverse ++ r.seen⟩ rest := by
  induction ss generalizing n r with
  | nil =>
    cases n with
    | zero => simp at hn
    | succ n => exact .peekToken rfl (.skip .pure)
  | cons s ss ih =>
    cases n with
    | zero => simp at hn
    | succ n =>
      rw [List.reverse_cons, List.append_assoc, List.singleton_append] at hss ⊢
      have hs : s ∉ r.seen :=
        (List.nodup_cons.1 (List.nodup_append.1 hss).2.1).1
      have ih := ih (r := ⟨c.overrule r.config s, s :: r.seen⟩)
        (Nat.lt_of_succ_lt_succ hn) hss
      rw [List.map_cons, List.flatMap_cons, List.cons_append, List.cons_append,
        List.append_assoc, memberChars_append]
      refine .peekToken rfl (.skip (.peekToken rfl (.skip ?_)))
      exact .bind (gives_stringBody unescapes_documentEscape s.key _)
        (.bind (gives_member c hs _) ih)

theorem toList_compact (c : AccessorConfig) (ss : List Setting) :
    (c.partialJson ss).compact.toList =
      '\x7b' :: ([','].intercalate (ss.map c.memberChars) ++ ['\x7d']) := by
  have hmembers :
      (compactEntries (ss.map fun s ↦ (s.key, .string (c.written s)))).map String.toList =
        ss.map c.memberChars := by
    induction ss with
    | nil => rfl
    | cons s ss ih =>
      rw [List.map_cons, compactEntries, List.map_cons, List.map_cons, ih, String.toList_append,
        String.toList_append, compact, memberChars, List.append_assoc]
      rfl
  rw [partialJson, compact, String.toList_append, String.toList_append, String.toList_intercalate,
    hmembers]
  rfl

/-- Settings are read back, each written at most once and in whatever order. Those that are not
written have their defaults. -/
theorem ofText_partialJson (c : AccessorConfig) (hss : ss.Nodup) :
    ofText (c.partialJson ss).compact = .ok (ss.foldl c.overrule {}) := by
  have hmembers : Gives (members readMember ⟨{}, []⟩)
      ([','].intercalate (ss.map c.memberChars) ++ ['\x7d'])
      ⟨ss.foldl c.overrule {}, ss.reverse⟩ [] := by
    cases ss with
    | nil => exact .peekToken rfl (.skip .pure)
    | cons s ss =>
      rw [List.map_cons, Text.intercalate_cons, List.append_assoc, memberChars_append]
      refine .peekToken rfl (.skip (.bind (gives_stringBody unescapes_documentEscape s.key _) ?_))
      refine .bind (gives_member c List.not_mem_nil _) (.remaining ?_)
      have hseen : (ss.reverse ++ [s]).Nodup := by
        rw [← List.reverse_cons]
        exact List.nodup_reverse.2 hss
      rw [List.reverse_cons]
      refine gives_laterMembers c (r := ⟨c.overrule {} s, [s]⟩) ?_ hseen []
      have hle := Text.length_le_flatMap_cons (ss.map c.memberChars)
      rw [List.length_map] at hle
      rw [List.length_append]
      omega
  refine Gives.run ?_
  rw [toList_compact]
  exact .peekToken rfl (.skip (.map Draft.config hmembers))

theorem toJson_eq (c : AccessorConfig) :
    c.toJson = c.partialJson [.support, .input, .nullCheck, .temporaries] := by
  have hfirst : "functionSupportNamespace" < "nullCheckStyle" := by decide
  have hsecond : ¬ "inputVariable" < "functionSupportNamespace" := by decide
  have hthird : "inputVariable" < "nullCheckStyle" := by decide
  have hlast : "nullCheckStyle" < "variableNamePrefix" := by decide
  have hne : ¬ "inputVariable" = "functionSupportNamespace" := by decide
  rw [toJson, partialJson, Entries.sortPairs]
  dsimp only [List.foldl, Setting.key, written, List.map]
  rw [Entries.setSorted, Entries.setSorted, if_pos hlast, Entries.setSorted, if_pos hfirst,
    Entries.setSorted, if_neg hsecond, if_neg hne, Entries.setSorted, if_pos hthird]

/-- What a configuration is written as is read as that configuration. -/
theorem ofText_toJson (c : AccessorConfig) : ofText c.toJson.compact = .ok c := by
  rw [toJson_eq, ofText_partialJson c (by decide)]
  rfl

end PathQuery.AccessorConfig
