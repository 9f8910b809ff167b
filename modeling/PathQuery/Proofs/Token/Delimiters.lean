import PathQuery.Proofs.Json.Reading
import PathQuery.Token.Lexer

namespace PathQuery

namespace Value

theorem not_isBlank_of_isDigit {c : Char} (h : Number.isDigit c = true) :
    Text.isBlank c = false := by
  rw [Number.isDigit, Bool.and_eq_true, decide_eq_true_eq, decide_eq_true_eq] at h
  have hle : '0'.toNat ≤ c.toNat := h.1
  have hge : c.toNat ≤ '9'.toNat := h.2
  have h0 : '0'.toNat = 0x30 := rfl
  have h9 : '9'.toNat = 0x39 := rfl
  simp only [Text.isBlank, Bool.or_eq_false_iff, Bool.and_eq_false_iff, decide_eq_false_iff_not,
    beq_eq_false_iff_ne]
  omega

def Solid (cs : List Char) : Prop :=
  (∀ c ∈ cs.head?, Text.isBlank c = false) ∧ ∀ c ∈ cs.getLast?, Text.isBlank c = false

end Value

namespace Text

/-- Dropping takes back what was inserted. -/
theorem dropBefore_insertBefore {a b : Char} (h : a ≠ b) (cs : List Char) :
    dropBefore a b (insertBefore a b cs) = cs := by
  induction cs with
  | nil => rfl
  | cons c cs ih =>
    rw [insertBefore]
    split
    · next hc =>
      subst hc
      rw [dropBefore, if_pos ⟨rfl, rfl⟩, ih]
    · next hc =>
      cases cs with
      | nil => rfl
      | cons d cs =>
        rw [insertBefore] at ih ⊢
        split
        · next hd =>
          rw [if_pos hd] at ih
          rw [dropBefore, if_neg (fun hcd ↦ h hcd.2), ih]
        · next hd =>
          rw [if_neg hd] at ih
          rw [dropBefore, if_neg (fun hcd ↦ hd hcd.2), ih]

/-- Trimming takes away what is white space around a text without any at its ends. -/
theorem trim_append {before core after : List Char}
    (hbefore : ∀ c ∈ before, isBlank c = true) (hafter : ∀ c ∈ after, isBlank c = true)
    (hne : core ≠ []) (hsolid : Value.Solid core) : trim (before ++ core ++ after) = core := by
  have hleft {s t : List Char} (hs : ∀ c ∈ s, isBlank c = true)
      (ht : ∀ c ∈ t.head?, isBlank c = false) : trimLeft (s ++ t) = t :=
    (takeWhile_dropWhile_append hs ht).2
  have hfirst : ∀ c ∈ (core ++ after).head?, isBlank c = false := by
    cases core with
    | nil => exact absurd rfl hne
    | cons c core => exact hsolid.1
  rw [trim, List.append_assoc, hleft hbefore hfirst, List.reverse_append, hleft]
  · exact List.reverse_reverse core
  · exact fun c hc ↦ hafter c (List.mem_reverse.1 hc)
  · rw [List.head?_reverse]
    exact hsolid.2

end Text

namespace Lexer

/-- The characters can stand between two delimiters `d`: wherever `d` is among them, a backslash
precedes it. -/
inductive Enclosable (d : Char) : List Char → Prop
  | nil : Enclosable d []
  | plain {c : Char} {cs : List Char} :
      c ≠ '\\' → c ≠ d → Enclosable d cs → Enclosable d (c :: cs)
  | pair {c : Char} {cs : List Char} : Enclosable d cs → Enclosable d ('\\' :: c :: cs)

variable {d : Char} {cs cs' rest : List Char}

theorem Enclosable.append (h : Enclosable d cs) (h' : Enclosable d cs') :
    Enclosable d (cs ++ cs') := by
  induction h with
  | nil => exact h'
  | plain hc hd _ ih => exact .plain hc hd ih
  | pair _ ih => exact .pair ih

theorem Enclosable.body? (hd : d ≠ '\\') (h : Enclosable d cs) (rest : List Char) :
    body? d (cs ++ d :: rest) = some cs := by
  induction h with
  | nil =>
    rw [List.nil_append]
    unfold Lexer.body?
    split
    · next heq => cases heq
    · next heq => exact absurd (List.cons.inj heq).1 hd
    · next heq => exact absurd (List.cons.inj heq).1 hd
    · next heq =>
      obtain ⟨rfl, -⟩ := List.cons.inj heq
      exact if_pos rfl
  | @plain c cs hc hcd _ ih =>
    rw [List.cons_append]
    unfold Lexer.body?
    split
    · next heq => cases heq
    · next heq => exact absurd (List.cons.inj heq).1 hc
    · next heq => exact absurd (List.cons.inj heq).1 hc
    · next heq =>
      obtain ⟨rfl, rfl⟩ := List.cons.inj heq
      rw [if_neg hcd, ih]
      rfl
  | pair _ ih =>
    rw [List.cons_append, List.cons_append, Lexer.body?, ih]
    rfl

inductive Paired (d : Char) : List Char → Prop
  | nil : Paired d []
  | plain {c : Char} {cs : List Char} : c ≠ '\\' → Paired d cs → Paired d (c :: cs)
  | pair {c : Char} {cs : List Char} : c ≠ d → Paired d cs → Paired d ('\\' :: c :: cs)

theorem Paired.append (h : Paired d cs) (h' : Paired d cs') : Paired d (cs ++ cs') := by
  induction h with
  | nil => exact h'
  | plain hc _ ih => exact .plain hc ih
  | pair hc _ ih => exact .pair hc ih

theorem Paired.enclosable (hd : d ≠ '\\') (h : Paired d cs) :
    Enclosable d (Text.insertBefore '\\' d cs) := by
  induction h with
  | nil => exact .nil
  | plain hc _ ih =>
    rw [Text.insertBefore]
    split
    · exact .pair ih
    · next hcd => exact .plain hc hcd ih
  | pair hc _ ih =>
    rw [Text.insertBefore, if_neg hd.symm, Text.insertBefore, if_neg hc]
    exact .pair ih

theorem Paired.of_forall (h : ∀ c ∈ cs, c ≠ '\\') : Paired d cs := by
  induction cs with
  | nil => exact .nil
  | cons c cs ih =>
    exact .plain (h c List.mem_cons_self) (ih fun e he ↦ h e (List.mem_cons_of_mem _ he))

theorem Enclosable.of_forall (h : ∀ c ∈ cs, c ≠ '\\' ∧ c ≠ d) : Enclosable d cs := by
  induction cs with
  | nil => exact .nil
  | cons c cs ih =>
    obtain ⟨hc, hcd⟩ := h c List.mem_cons_self
    exact .plain hc hcd (ih fun e he ↦ h e (List.mem_cons_of_mem _ he))

theorem scanDelimited_eq (what : Delimited) {body : List Char}
    (h : body? what.delimiter cs = some body) :
    scanDelimited what cs = ⟨body.length + 2, decode what body⟩ := by
  rw [scanDelimited, h]

theorem delimiter_ne_backslash (what : Delimited) : what.delimiter ≠ '\\' := by
  cases what <;> decide

theorem scan_delimiter (what : Delimited) (cs : List Char) :
    scan (what.delimiter :: cs) = scanDelimited what cs := by
  cases what <;> rfl

/-- Whatever pairs its backslashes can stand between delimiters, those of its own escaped. -/
theorem scan_enclosed (what : Delimited) (h : Paired what.delimiter cs) (rest : List Char) :
    scan (what.delimiter :: (Text.insertBefore '\\' what.delimiter cs ++ what.delimiter :: rest)) =
      ⟨(Text.insertBefore '\\' what.delimiter cs).length + 2,
        decode what (Text.insertBefore '\\' what.delimiter cs)⟩ := by
  have hne := delimiter_ne_backslash what
  rw [scan_delimiter, scanDelimited_eq what ((h.enclosable hne).body? hne rest)]

end Lexer

end PathQuery
