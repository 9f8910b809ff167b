import Mathlib.Data.List.Basic
import PathQuery.Proofs.Json.Reading
import PathQuery.Proofs.Token.Delimiters

namespace PathQuery.Json.Read

open PathQuery.Lexer (Paired)

variable {α β : Type} {m : ReadM α} {f : α → ReadM β} {a : α} {b : β} {c : Char}
  {cs taken rest rest' : List Char} {next : Option Char} {P Q R : List Char → Prop}

theorem bind_eq_ok {d d' : Cursor} :
    (m >>= f) d = .ok b d' ↔ ∃ a d₁, m d = .ok a d₁ ∧ f a d₁ = .ok b d' := by
  change EStateM.bind m f d = _ ↔ _
  rw [EStateM.bind]
  cases m d with
  | ok a d₁ => simp
  | error e d₁ => simp

/-- What is read before the one text is read before the other: that goes on with the same character,
or it ends where the first one goes on with white space. -/
def StopsAlike (rest rest' : List Char) : Prop :=
  rest'.head? = rest.head? ∨ rest' = [] ∧ ∀ c ∈ rest.head?, isSpace c = true

theorem StopsAlike.append (h : StopsAlike rest rest') (taken : List Char) :
    StopsAlike (taken ++ rest) (taken ++ rest') := by
  cases taken with
  | nil => exact h
  | cons c cs => exact .inl rfl

/-- Started before the character `next`, the reader `m` takes a part of the text that `P` allows,
and `m' k` takes it before any other text that stops it alike, if `k` is not less than its length.
Where a reader has a bound, `m' k` is the reader with the bound that `k` more characters ask for;
else it is `m`. -/
def Local (P : List Char → Prop) (next : Option Char) (m : ReadM α) (m' : Nat → ReadM α) : Prop :=
  ∀ offset cs a offset' rest, cs.head? = next → m ⟨offset, cs⟩ = .ok a ⟨offset', rest⟩ →
    ∃ taken, cs = taken ++ rest ∧ P taken ∧ ∀ k rest', taken.length ≤ k → StopsAlike rest rest' →
      Gives (m' k) (taken ++ rest') a rest'

namespace Local

variable {m' : Nat → ReadM α} {f' : Nat → α → ReadM β}

theorem mono (h : Local P next m m') (hPQ : ∀ taken, P taken → Q taken) : Local Q next m m' := by
  intro offset cs a offset' rest hnext hrun
  obtain ⟨taken, hcs, htaken, hgives⟩ := h offset cs a offset' rest hnext hrun
  exact ⟨taken, hcs, hPQ taken htaken, hgives⟩

theorem pure (h : P []) : Local P next (Pure.pure a) fun _ ↦ Pure.pure a := by
  rintro offset cs _ offset' rest - ⟨⟩
  exact ⟨[], rfl, h, fun _ _ _ _ ↦ .pure⟩

theorem failHere (fault : Fault) : Local P next (Read.failHere fault) m' := nofun

theorem fail (fault : Fault) : Local P next (Read.fail fault) m' := nofun

theorem bind (hm : Local P next m m') (hf : ∀ a next, Local Q next (f a) fun k ↦ f' k a)
    (h : ∀ s t, P s → Q t → R (s ++ t)) : Local R next (m >>= f) fun k ↦ m' k >>= f' k := by
  intro offset cs b offset' rest hnext hrun
  obtain ⟨a, ⟨offset₁, mid⟩, hrun₁, hrun₂⟩ := bind_eq_ok.1 hrun
  obtain ⟨s, rfl, hs, hgives₁⟩ := hm offset cs a offset₁ mid hnext hrun₁
  obtain ⟨t, rfl, ht, hgives₂⟩ := hf a _ offset₁ mid b offset' rest rfl hrun₂
  refine ⟨s ++ t, (List.append_assoc ..).symm, h s t hs ht, fun k rest' hk hrest ↦ ?_⟩
  rw [List.length_append] at hk
  rw [List.append_assoc]
  exact .bind (hgives₁ k _ (by omega) (hrest.append t)) (hgives₂ k rest' (by omega) hrest)

theorem map (g : α → β) (hm : Local P next m m') : Local P next (g <$> m) fun k ↦ g <$> m' k := by
  intro offset cs b offset' rest hnext hrun
  change EStateM.map g m ⟨offset, cs⟩ = _ at hrun
  rw [EStateM.map] at hrun
  cases hm' : m ⟨offset, cs⟩ with
  | error e d => rw [hm'] at hrun; cases hrun
  | ok a d =>
    rw [hm'] at hrun
    cases hrun
    obtain ⟨taken, hcs, htaken, hgives⟩ := hm offset cs a offset' rest hnext hm'
    exact ⟨taken, hcs, htaken, fun k rest' hk hrest ↦ (hgives k rest' hk hrest).map g⟩

/-- The index of `m'` goes down with each character. -/
theorem skip {f : Unit → ReadM β} {f' : Nat → Unit → ReadM β}
    (hf : ∀ next, Local Q next (f ()) fun k ↦ f' (k + 1) ()) (h : ∀ t, Q t → R (c :: t)) :
    Local R (some c) (Read.skip >>= f) fun k ↦ Read.skip >>= f' k := by
  intro offset cs b offset' rest hnext hrun
  obtain ⟨cs, rfl⟩ := List.head?_eq_some_iff.1 hnext
  obtain ⟨taken, rfl, htaken, hgives⟩ := hf _ _ cs b offset' rest rfl hrun
  refine ⟨c :: taken, rfl, h taken htaken, fun k rest' hk hrest ↦ ?_⟩
  cases k with
  | zero => simp at hk
  | succ k => exact .skip (hgives k rest' (Nat.le_of_succ_le_succ hk) hrest)

/-- A look at the next character. Where nothing is taken, white space has to be treated as the end
of the text is. -/
theorem peek {f : Option Char → ReadM β} {f' : Nat → Option Char → ReadM β}
    (hf : ∀ o, Local P o (f o) fun k ↦ f' k o)
    (hspace : P [] → ∀ c, isSpace c = true → ∀ k, f' k none = f' k (some c)) :
    Local P next (Read.peek >>= f) fun k ↦ Read.peek >>= f' k := by
  intro offset cs b offset' rest hnext hrun
  obtain ⟨taken, rfl, htaken, hgives⟩ := hf _ offset cs b offset' rest rfl hrun
  refine ⟨taken, rfl, htaken, fun k rest' hk hrest ↦ .peek ?_⟩
  have h : Gives (f' k (taken ++ rest).head?) (taken ++ rest') b rest' := hgives k rest' hk hrest
  cases taken with
  | cons c taken => exact h
  | nil =>
    rw [List.nil_append, List.nil_append] at h
    rw [List.nil_append]
    obtain hhead | ⟨rfl, hblank⟩ := hrest
    · rwa [hhead]
    · cases hhead : rest.head? with
      | none => rwa [hhead] at h
      | some c =>
        rw [hhead, ← hspace htaken c (hblank c hhead) k] at h
        exact h

theorem step : Local (· = [c]) (some c) Read.skip fun _ ↦ Read.skip := by
  intro offset cs _ offset' rest hnext hrun
  obtain ⟨cs, rfl⟩ := List.head?_eq_some_iff.1 hnext
  cases hrun
  exact ⟨[c], rfl, rfl, fun _ rest' _ _ offset ↦ ⟨_, rfl⟩⟩

end Local

/-- No backtick follows a backslash in the text, and no white space ends it. -/
structure Loose (cs : List Char) : Prop where
  paired : Paired '\x60' cs
  last : ∀ c ∈ cs.getLast?, Text.isBlank c = false

structure Firm (cs : List Char) : Prop extends Loose cs where
  ne_nil : cs ≠ []

theorem Loose.nil : Loose [] := ⟨.nil, nofun⟩

theorem not_firm_nil : ¬ Firm [] := fun h ↦ h.ne_nil rfl

/-- A look at the next character before something that is read in any case. -/
theorem Local.peekFirm {f : Option Char → ReadM β} {f' : Nat → Option Char → ReadM β}
    (hf : ∀ o, Local Firm o (f o) fun k ↦ f' k o) :
    Local Firm next (Read.peek >>= f) fun k ↦ Read.peek >>= f' k :=
  .peek hf fun h ↦ absurd h not_firm_nil

theorem Loose.append {s t : List Char} (hs : Loose s) (ht : Loose t) : Loose (s ++ t) := by
  refine ⟨hs.paired.append ht.paired, fun c hc ↦ ?_⟩
  rw [List.getLast?_append, Option.mem_def, Option.or_eq_some_iff] at hc
  obtain hc | ⟨-, hc⟩ := hc
  · exact ht.last c hc
  · exact hs.last c hc

theorem Firm.append {s t : List Char} (hs : Firm s) (ht : Loose t) : Firm (s ++ t) :=
  ⟨hs.toLoose.append ht, List.append_ne_nil_of_left_ne_nil hs.ne_nil t⟩

theorem Firm.behind {s t : List Char} (hs : Paired '\x60' s) (ht : Firm t) : Firm (s ++ t) := by
  refine ⟨⟨hs.append ht.paired, fun c hc ↦ ht.last c ?_⟩,
    List.append_ne_nil_of_right_ne_nil s ht.ne_nil⟩
  rwa [List.getLast?_append_of_ne_nil s ht.ne_nil] at hc

theorem Firm.cons {t : List Char} (ht : Firm t) (hc : c ≠ '\\') : Firm (c :: t) :=
  .behind (s := [c]) (.plain hc .nil) ht

theorem Firm.of_loose {t : List Char} (hc : c ≠ '\\') (hblank : Text.isBlank c = false)
    (ht : Loose t) : Firm (c :: t) :=
  Firm.append (s := [c]) ⟨⟨.plain hc .nil, fun _ h ↦ by cases h; exact hblank⟩, nofun⟩ ht

theorem Loose.cons {t : List Char} (ht : Loose t) (hc : c ≠ '\\')
    (hblank : Text.isBlank c = false) : Loose (c :: t) :=
  (Firm.of_loose hc hblank ht).toLoose

theorem local_word : (cs : List Char) → Local (· = cs) next (word cs) fun _ ↦ word cs := by
  intro cs
  induction cs generalizing next with
  | nil => exact .pure rfl
  | cons x xs ih =>
    refine .peek (fun o ↦ ?_) nofun
    split
    · exact .fail _
    · split
      · next h =>
        subst h
        exact .skip (fun _ ↦ ih) (fun t ht ↦ ht ▸ rfl)
      · exact .fail _

theorem plain_of_hexValue? {n : Nat} (h : hexValue? c = some n) : c ≠ '\\' ∧ c.utf8Size = 1 := by
  have hle {a b : Char} : a ≤ b ↔ a.toNat ≤ b.toNat := Iff.rfl
  have h9 : '9'.toNat = 57 := rfl
  have hf : 'f'.toNat = 102 := rfl
  have hF : 'F'.toNat = 70 := rfl
  constructor
  · rintro rfl
    cases h
  · rw [Char.utf8Size_eq_one_iff, UInt32.le_iff_toNat_le]
    change c.toNat ≤ 127
    simp only [hexValue?, hle] at h
    split at h
    · omega
    · split at h
      · omega
      · split at h
        · omega
        · cases h

theorem plain_of_hexNumber? {n : Nat} (h : hexNumber? cs = some n) :
    ∀ c ∈ cs, c ≠ '\\' ∧ c.utf8Size = 1 := by
  rw [hexNumber?] at h
  generalize 0 = acc at h
  induction cs generalizing acc with
  | nil => exact nofun
  | cons c cs ih =>
    rw [List.foldlM_cons] at h
    obtain ⟨m, hm, h⟩ := Option.bind_eq_some_iff.1 h
    obtain ⟨k, hk, -⟩ := Option.map_eq_some_iff.1 hm
    exact List.forall_mem_cons.2 ⟨plain_of_hexValue? hk, ih m h⟩

theorem byteSize_eq_length (h : ∀ c ∈ cs, c.utf8Size = 1) : byteSize cs = cs.length := by
  have hsum : ∀ n, cs.foldl (· + ·.utf8Size) n = n + cs.length := by
    induction cs with
    | nil => exact fun _ ↦ rfl
    | cons c cs ih =>
      obtain ⟨hc, hcs⟩ := List.forall_mem_cons.1 h
      intro n
      rw [List.foldl_cons, ih hcs, hc, List.length_cons]
      omega
  rw [byteSize, hsum, Nat.zero_add]

theorem local_hexUnit : Local (Paired '\x60') next hexUnit fun _ ↦ hexUnit := by
  rintro offset cs n offset' rest - hrun
  simp only [hexUnit] at hrun
  split at hrun
  · cases hrun
  · next hsize =>
    split at hrun
    · next m hm =>
      cases hrun
      have hdigits := plain_of_hexNumber? hm
      rw [byteSize_eq_length fun c hc ↦ (hdigits c hc).2, List.length_take] at hsize
      have hlength : (cs.take 4).length = 4 := by
        rw [List.length_take]
        omega
      refine ⟨cs.take 4, (List.take_append_drop 4 cs).symm, .of_forall fun c hc ↦ (hdigits c hc).1,
        fun k rest' _ _ offset ↦ ⟨offset + 4, ?_⟩⟩
      have hbytes : byteSize (cs.take 4) = 4 := by
        rw [byteSize_eq_length fun c hc ↦ (hdigits c hc).2, hlength]
      simp only [hexUnit, List.take_left' hlength, List.drop_left' hlength, hbytes, hm]
      rfl
    · cases hrun

theorem local_surrogateLink : Local (· = [c]) next (surrogateLink c) fun _ ↦ surrogateLink c := by
  refine .peek (fun o ↦ ?_) nofun
  split
  · exact .fail _
  · split
    · next h =>
      subst h
      exact .step
    · exact .fail _

theorem local_unicodeEscape : Local (Paired '\x60') next unicodeEscape fun _ ↦ unicodeEscape := by
  refine .bind local_hexUnit (fun n _ ↦ ?_) (fun _ _ ↦ Paired.append)
  split
  · exact .failHere _
  · split
    · exact .pure .nil
    · refine .bind (Q := fun t ↦ ∃ t', t = 'u' :: t' ∧ Paired '\x60' t') local_surrogateLink
        (fun _ _ ↦ ?_) ?_
      · refine .bind (Q := Paired '\x60') local_surrogateLink (fun _ _ ↦ ?_)
          fun s t hs ht ↦ ⟨t, hs ▸ rfl, ht⟩
        refine .bind (Q := (· = [])) local_hexUnit (fun m _ ↦ ?_) fun s t hs ht ↦ ht ▸ ?_
        · split
          · exact .failHere _
          · exact .pure rfl
        · rwa [List.append_nil]
      · rintro _ _ rfl ⟨t, rfl, ht⟩
        exact .pair (by decide) ht

theorem not_paired_backslash : ¬ Paired '\x60' ['\\'] := by
  intro h
  cases h with
  | plain hc => exact hc rfl

theorem local_escaped :
    Local (fun t ↦ Paired '\x60' ('\\' :: t)) next escaped fun _ ↦ escaped := by
  refine .peek (fun o ↦ ?_) fun h ↦ absurd h not_paired_backslash
  split
  · exact .fail _
  · exact .skip (fun _ ↦ local_unicodeEscape) fun t ht ↦ .pair (by decide) ht
  · next c _ =>
    split
    · next d hd =>
      refine .skip (Q := (· = [])) (fun _ ↦ .pure rfl) fun t ht ↦ ?_
      subst ht
      refine .pair ?_ .nil
      rintro rfl
      cases hd
    · exact .fail _

theorem local_stringChars (n : Nat) :
    Local Firm next (stringChars n) fun k ↦ stringChars (k + 1) := by
  induction n generalizing next with
  | zero => exact .fail _
  | succ n ih =>
    refine .peekFirm fun o ↦ ?_
    split
    · exact .fail _
    · exact .skip (fun _ ↦ .pure Loose.nil) fun t ht ↦ .of_loose (by decide) (by decide) ht
    · refine .skip (Q := fun t ↦ Firm ('\\' :: t)) (fun _ ↦ ?_) fun t ht ↦ ht
      refine .bind (Q := Firm) local_escaped (fun c _ ↦ ?_) fun s t hs ht ↦ ?_
      · exact .bind (Q := Loose) ih (fun cs _ ↦ .pure .nil) fun s t ↦ Firm.append
      · exact .behind hs ht
    · next c _ hbackslash =>
      split
      · exact .fail _
      · refine .skip (Q := Firm) (fun _ ↦ ?_) fun t ht ↦ ht.cons hbackslash
        exact .bind (Q := Loose) ih (fun cs _ ↦ .pure .nil) fun s t ↦ Firm.append

/-- The bound that the rest of the text gives is as good before another one. -/
theorem Local.remaining {f f' : Nat → ReadM α}
    (hf : ∀ n, Local P next (f n) f') :
    Local P next (Read.remaining >>= f) fun _ ↦ Read.remaining >>= f' := by
  intro offset cs a offset' rest hnext hrun
  obtain ⟨taken, rfl, htaken, hgives⟩ := hf cs.length offset cs a offset' rest hnext hrun
  refine ⟨taken, rfl, htaken, fun k rest' _ hrest ↦ .remaining (hgives _ rest' ?_ hrest)⟩
  rw [List.length_append]
  omega

theorem local_stringBody : Local Firm next stringBody fun _ ↦ stringBody := by
  refine .remaining fun n ↦ ?_
  exact .bind (Q := Loose) (local_stringChars (n + 1)) (fun cs _ ↦ .pure .nil) fun s t ↦ Firm.append

def Digits (next : Option Char) (cs : List Char) : Prop :=
  (∀ c ∈ cs, Number.isDigit c = true) ∧ ∀ c ∈ next, Number.isDigit c = true → cs ≠ []

theorem Digits.loose (h : Digits next cs) : Loose cs where
  paired := by
    refine .of_forall fun c hc ↦ ?_
    rintro rfl
    cases h.1 _ hc
  last c hc := Value.not_isBlank_of_isDigit (h.1 c (List.mem_of_getLast? hc))

theorem Digits.firm (h : Digits (some c) cs) (hc : Number.isDigit c = true) : Firm cs :=
  ⟨h.loose, h.2 c rfl hc⟩

theorem eq_of_isSpace (h : isSpace c = true) : c = ' ' ∨ c = '\n' ∨ c = '\t' ∨ c = '\r' := by
  simp only [isSpace, Bool.or_eq_true, beq_iff_eq] at h
  obtain ((h | h) | h) | h := h
  · exact .inl h
  · exact .inr (.inl h)
  · exact .inr (.inr (.inl h))
  · exact .inr (.inr (.inr h))

theorem not_isDigit_of_isSpace (h : isSpace c = true) : Number.isDigit c = false := by
  obtain rfl | rfl | rfl | rfl := eq_of_isSpace h <;> rfl

theorem isBlank_of_isSpace (h : isSpace c = true) : Text.isBlank c = true := by
  obtain rfl | rfl | rfl | rfl := eq_of_isSpace h <;> rfl

theorem paired_of_isSpace (h : ∀ c ∈ cs, isSpace c = true) : Paired '\x60' cs := by
  apply Paired.of_forall
  intro c hc
  obtain rfl | rfl | rfl | rfl := eq_of_isSpace (h c hc) <;> decide

/-- Where one text does not go on with the row of characters, the other one does not either. -/
theorem StopsAlike.stop {p : Char → Bool} (h : StopsAlike rest rest')
    (hstop : ∀ c ∈ rest.head?, p c = false) : ∀ c ∈ rest'.head?, p c = false := by
  intro c hc
  obtain hhead | ⟨rfl, -⟩ := h
  · exact hstop c (hhead ▸ hc)
  · cases hc

theorem local_digits : Local (Digits next) next (takeWhile Number.isDigit)
    fun _ ↦ takeWhile Number.isDigit := by
  intro offset cs _ offset' rest hnext hrun
  cases hrun
  have hall : ∀ c ∈ cs.takeWhile Number.isDigit, Number.isDigit c = true :=
    fun c hc ↦ List.mem_takeWhile_imp hc
  refine ⟨cs.takeWhile Number.isDigit, List.takeWhile_append_dropWhile.symm, ⟨hall, ?_⟩, ?_⟩
  · intro c hc hdigit
    obtain ⟨cs, rfl⟩ := List.head?_eq_some_iff.1 (hnext.trans hc)
    rw [List.takeWhile_cons_of_pos hdigit]
    exact List.cons_ne_nil _ _
  · intro k rest' _ hrest
    exact .takeWhile_append hall (hrest.stop (Text.not_of_head?_dropWhile _ cs))

theorem digits_nil : Digits none [] := ⟨nofun, nofun⟩

theorem Digits.cons (hc : Number.isDigit c = true) (h : Digits next cs) :
    Digits (some c) (c :: cs) :=
  ⟨List.forall_mem_cons.2 ⟨hc, h.1⟩, fun _ _ _ ↦ List.cons_ne_nil _ _⟩

theorem exponentDigits_stop (k e offset : Nat) (h : ∀ c ∈ cs.head?, Number.isDigit c = false) :
    exponentDigits (k + 1) e ⟨offset, cs⟩ = .ok (some e) ⟨offset, cs⟩ := by
  cases cs with
  | nil => rfl
  | cons c cs =>
    change (if Number.isDigit c then _ else _ : ReadM (Option Nat)) _ = _
    rw [h c rfl, if_neg Bool.false_ne_true]
    rfl

theorem exponentDigits_digit (k e offset : Nat) (cs : List Char) (hc : Number.isDigit c = true) :
    exponentDigits (k + 1) e ⟨offset, c :: cs⟩ =
      (if 10 * e + (c.toNat - 48) < Nat.pow 2 31 then exponentDigits k (10 * e + (c.toNat - 48))
        else pure none : ReadM (Option Nat)) ⟨offset + c.utf8Size, cs⟩ := by
  change (if Number.isDigit c then _ else _ : ReadM (Option Nat)) _ = _
  rw [if_pos hc]
  rfl

/-- The digits of an exponent are read up to their end, as the bound is never met. -/
theorem taken_of_exponentDigits {n e offset offset' : Nat} {r : Option Nat} (hn : cs.length < n)
    (hrun : exponentDigits n e ⟨offset, cs⟩ = .ok r ⟨offset', rest⟩) :
    ∃ taken, cs = taken ++ rest ∧ Digits cs.head? taken ∧ ∀ k rest', taken.length ≤ k →
      StopsAlike rest rest' → Gives (exponentDigits (k + 1) e) (taken ++ rest') r rest' := by
  induction n generalizing offset cs e with
  | zero => simp at hn
  | succ n ih =>
    by_cases hstop : ∀ c ∈ cs.head?, Number.isDigit c = false
    · rw [exponentDigits_stop n e offset hstop] at hrun
      cases hrun
      refine ⟨[], rfl, ⟨nofun, fun c hc h ↦ ?_⟩, fun k rest' _ hrest offset ↦ ⟨offset, ?_⟩⟩
      · rw [hstop c hc] at h
        cases h
      · exact exponentDigits_stop k e offset (hrest.stop hstop)
    · cases cs with
      | nil => exact absurd nofun hstop
      | cons c cs =>
        have hc : Number.isDigit c = true := by
          rw [← Bool.not_eq_false]
          intro hc
          refine hstop ?_
          rintro _ ⟨⟩
          exact hc
        rw [exponentDigits_digit n e offset cs hc] at hrun
        split at hrun
        · next hsmall =>
          obtain ⟨taken, rfl, htaken, hgives⟩ := ih (Nat.lt_of_succ_lt_succ hn) hrun
          refine ⟨c :: taken, rfl, htaken.cons hc, fun k rest' hk hrest offset ↦ ?_⟩
          obtain ⟨k, rfl⟩ := Nat.exists_eq_succ_of_ne_zero (Nat.ne_zero_of_lt hk)
          rw [List.cons_append, exponentDigits_digit _ e offset _ hc, if_pos hsmall]
          exact hgives k rest' (Nat.le_of_succ_le_succ hk) hrest _
        · next hlarge =>
          cases hrun
          refine ⟨[c], rfl, .cons hc digits_nil, fun k rest' _ _ offset ↦ ?_⟩
          rw [List.singleton_append, exponentDigits_digit k e offset _ hc, if_neg hlarge]
          exact ⟨_, rfl⟩

theorem local_exponentDigits {f : Option Nat → ReadM β}
    (hf : ∀ a next, Local Q next (f a) fun _ ↦ f a) (h : ∀ s t, Digits next s → Q t → R (s ++ t)) :
    Local R next (do let n ← remaining; let r ← exponentDigits (n + 1) 0; f r)
      fun _ ↦ (do let n ← remaining; let r ← exponentDigits (n + 1) 0; f r) := by
  have hdigits : Local (Digits next) next (do let n ← remaining; exponentDigits (n + 1) 0)
      fun _ ↦ (do let n ← remaining; exponentDigits (n + 1) 0) := by
    intro offset cs r offset' rest hnext hrun
    obtain ⟨taken, rfl, htaken, hgives⟩ := taken_of_exponentDigits (Nat.lt_succ_self _) hrun
    refine ⟨taken, rfl, hnext ▸ htaken, fun k rest' _ hrest ↦ .remaining (hgives _ rest' ?_ hrest)⟩
    rw [List.length_append]
    exact Nat.le_add_right _ _
  have hbind : Local R next ((do let n ← remaining; exponentDigits (n + 1) 0) >>= f)
      fun _ ↦ (do let n ← remaining; exponentDigits (n + 1) 0) >>= f := hdigits.bind hf h
  simpa only [bind_assoc] using hbind

theorem local_scaled (negative : Bool) (significand : Nat) (exponent : Int) :
    Local Loose next (scaled negative significand exponent)
      fun _ ↦ scaled negative significand exponent := by
  unfold scaled
  split
  · exact .pure .nil
  · exact .failHere _

theorem local_exponentSign : Local Loose next exponentSign fun _ ↦ exponentSign := by
  refine .peek (fun o ↦ ?_) fun _ c hc _ ↦ ?_
  · split
    · exact .skip (Q := Loose) (fun _ ↦ .pure .nil) fun t ht ↦ ht.cons (by decide) (by decide)
    · exact .skip (Q := Loose) (fun _ ↦ .pure .nil) fun t ht ↦ ht.cons (by decide) (by decide)
    · exact .pure .nil
  · obtain rfl | rfl | rfl | rfl := eq_of_isSpace hc <;> rfl

theorem local_exponentPart (negative : Bool) (significand : Nat) (exponent : Int) :
    Local Firm next (exponentPart negative significand exponent)
      fun _ ↦ exponentPart negative significand exponent := by
  refine .bind local_exponentSign (fun down next ↦ ?_) fun s t hs ht ↦ .behind hs.paired ht
  refine .peekFirm fun o ↦ ?_
  split
  · exact .fail _
  · next c =>
    split
    · next hc =>
      refine local_exponentDigits (Q := Loose) (fun r next ↦ ?_) fun s t hs ht ↦
        (hs.firm hc).append ht
      split
      · exact local_scaled _ _ _
      · split
        · exact .failHere _
        · exact .bind local_digits (fun _ _ ↦ .pure Loose.nil) fun s t hs ht ↦ hs.loose.append ht
    · exact .fail _

theorem local_floatEnd (negative : Bool) (significand : Nat) (exponent : Int) :
    Local Loose next (floatEnd negative significand exponent)
      fun _ ↦ floatEnd negative significand exponent := by
  refine .peek (fun o ↦ ?_) fun _ c hc _ ↦ ?_
  · split
    · exact .skip (fun _ ↦ local_exponentPart _ _ _) fun t ht ↦
        ht.toLoose.cons (by decide) (by decide)
    · exact .skip (fun _ ↦ local_exponentPart _ _ _) fun t ht ↦
        ht.toLoose.cons (by decide) (by decide)
    · exact local_scaled _ _ _
  · obtain rfl | rfl | rfl | rfl := eq_of_isSpace hc <;> rfl

theorem local_fractionPart (negative : Bool) (significand : Nat) (exponent : Int) :
    Local Loose next (fractionPart negative significand exponent)
      fun _ ↦ fractionPart negative significand exponent := by
  refine .bind local_digits (fun digits next ↦ ?_) fun s t hs ht ↦ hs.loose.append ht
  split
  · refine Local.mono (P := Firm) (.peekFirm fun o ↦ ?_) fun _ h ↦ h.toLoose
    split
    · exact .fail _
    · exact .fail _
  · exact local_floatEnd _ _ _

theorem local_number (negative : Bool) :
    Local Firm next (number negative) fun _ ↦ number negative := by
  refine .peekFirm fun o ↦ ?_
  split
  · exact .fail _
  · next c =>
    split
    · exact .fail _
    · next hc =>
      rw [Bool.not_eq_true, Bool.not_eq_false'] at hc
      have hread {f : List Char → ReadM JsonNumber}
          (hf : ∀ ds next, Local Loose next (f ds) fun _ ↦ f ds) :
          Local Firm (some c) (if c = '0' then do Read.skip; let digits ← Pure.pure [c]; f digits
            else do let digits ← takeWhile Number.isDigit; f digits)
            fun _ ↦ (if c = '0' then do Read.skip; let digits ← Pure.pure [c]; f digits
            else do let digits ← takeWhile Number.isDigit; f digits) := by
        split
        · next hzero =>
          subst hzero
          exact .skip (fun _ ↦ hf _ _) fun t ht ↦ .of_loose (by decide) (by decide) ht
        · exact .bind local_digits hf fun s t hs ht ↦ (hs.firm hc).append ht
      refine hread fun ds next ↦ ?_
      -- what may follow the digits of the integer
      refine .peek (fun o ↦ ?_) fun _ d hd _ ↦ ?_
      · split
        · exact .skip (fun _ ↦ local_fractionPart _ _ _) fun t ht ↦ ht.cons (by decide) (by decide)
        · next d _ =>
          split
          · next he =>
            refine .skip (fun _ ↦ local_exponentPart _ _ _) fun t ht ↦ ?_
            obtain rfl | rfl := he
            · exact ht.toLoose.cons (by decide) (by decide)
            · exact ht.toLoose.cons (by decide) (by decide)
          · split
            · exact .fail _
            · split
              · exact .pure .nil
              · exact local_scaled _ _ _
        · split
          · exact .pure .nil
          · exact local_scaled _ _ _
      · have hdigit := not_isDigit_of_isSpace hd
        obtain rfl | rfl | rfl | rfl := eq_of_isSpace hd
        all_goals simp [hdigit]

/-- White space before the next character is the same before every text. -/
theorem Local.peekToken {f : Option Char → ReadM β} {f' : Nat → Option Char → ReadM β}
    (hf : ∀ o, Local Firm o (f o) fun k ↦ f' k o) :
    Local Firm next (Read.peekToken >>= f) fun k ↦ Read.peekToken >>= f' k := by
  intro offset cs b offset' rest _ hrun
  obtain ⟨_, _, hpeek, hrun⟩ := bind_eq_ok.1 hrun
  cases hpeek
  obtain ⟨taken, hcs, htaken, hgives⟩ := hf _ _ (cs.dropWhile isSpace) b offset' rest rfl hrun
  have hspace : ∀ c ∈ cs.takeWhile isSpace, isSpace c = true := fun c hc ↦ List.mem_takeWhile_imp hc
  refine ⟨cs.takeWhile isSpace ++ taken, ?_, .behind (paired_of_isSpace hspace) htaken, ?_⟩
  · rw [List.append_assoc, ← hcs, List.takeWhile_append_dropWhile]
  · intro k rest' hk hrest
    rw [List.length_append] at hk
    have hhead : (taken ++ rest').head? = (cs.dropWhile isSpace).head? := by
      rw [hcs]
      cases taken with
      | nil => exact absurd htaken not_firm_nil
      | cons c taken => rfl
    have hskip : Gives skipSpace (cs.takeWhile isSpace ++ (taken ++ rest')) () (taken ++ rest') :=
      .bind (.takeWhile_append hspace (hhead ▸ Text.not_of_head?_dropWhile isSpace cs)) .pure
    rw [List.append_assoc]
    have hpeek : Gives Read.peek (taken ++ rest') (cs.dropWhile isSpace).head? (taken ++ rest') :=
      fun offset ↦ ⟨offset, hhead ▸ rfl⟩
    exact .bind (.bind hskip hpeek) (hgives k rest' (by omega) hrest)

section

variable {element : α → ReadM α} {member : α → String → ReadM α}

theorem local_laterElements (h : ∀ a next, Local Firm next (element a) fun _ ↦ element a) (n : Nat)
    (acc : α) : Local Firm next (laterElements element n acc)
      fun k ↦ laterElements element (k + 1) acc := by
  induction n generalizing acc next with
  | zero => exact .fail _
  | succ n ih =>
    refine .peekToken fun o ↦ ?_
    split
    · exact .fail _
    · exact .skip (fun _ ↦ .pure Loose.nil) fun t ht ↦ .of_loose (by decide) (by decide) ht
    · refine .skip (Q := Firm) (fun _ ↦ .peekToken fun o ↦ ?_) fun t ht ↦ ht.cons (by decide)
      split
      · exact .fail _
      · exact .fail _
      · exact .bind (h acc _) (fun a _ ↦ ih a) fun s t hs ht ↦ hs.append ht.toLoose
    · exact .fail _

theorem local_elements (h : ∀ a next, Local Firm next (element a) fun _ ↦ element a) (acc : α) :
    Local Firm next (elements element acc) fun _ ↦ elements element acc := by
  refine .peekToken fun o ↦ ?_
  split
  · exact .fail _
  · exact .skip (fun _ ↦ .pure Loose.nil) fun t ht ↦ .of_loose (by decide) (by decide) ht
  · exact .bind (h acc _) (fun a _ ↦ .remaining fun n ↦ local_laterElements h (n + 1) a)
      fun s t hs ht ↦ hs.append ht.toLoose

theorem local_colon : Local Firm next colon fun _ ↦ colon := by
  refine .peekToken fun o ↦ ?_
  split
  · exact .fail _
  · exact Local.step.mono fun t ht ↦ ht ▸ .of_loose (by decide) (by decide) .nil
  · exact .fail _

theorem local_laterMembers (h : ∀ a key next, Local Firm next (member a key) fun _ ↦ member a key)
    (n : Nat) (acc : α) : Local Firm next (laterMembers member n acc)
      fun k ↦ laterMembers member (k + 1) acc := by
  induction n generalizing acc next with
  | zero => exact .fail _
  | succ n ih =>
    refine .peekToken fun o ↦ ?_
    split
    · exact .fail _
    · exact .skip (fun _ ↦ .pure Loose.nil) fun t ht ↦ .of_loose (by decide) (by decide) ht
    · refine .skip (Q := Firm) (fun _ ↦ .peekToken fun o ↦ ?_) fun t ht ↦ ht.cons (by decide)
      split
      · exact .fail _
      · -- the comma has taken the turn's one step of the index
        refine .bind (Q := Firm) .step (fun _ _ ↦ ?_) fun s t hs ht ↦ hs ▸ ht.cons (by decide)
        refine .bind (Q := Firm) local_stringBody (fun key _ ↦ ?_) fun s t hs ht ↦
          hs.append ht.toLoose
        exact .bind (Q := Firm) (h acc key _) (fun a _ ↦ ih a) fun s t hs ht ↦
          hs.append ht.toLoose
      · exact .fail _
      · exact .fail _
    · exact .fail _

theorem local_members (h : ∀ a key next, Local Firm next (member a key) fun _ ↦ member a key)
    (acc : α) : Local Firm next (members member acc) fun _ ↦ members member acc := by
  refine .peekToken fun o ↦ ?_
  split
  · exact .fail _
  · exact .skip (fun _ ↦ .pure Loose.nil) fun t ht ↦ .of_loose (by decide) (by decide) ht
  · refine .skip (Q := Firm) (fun _ ↦ ?_) fun t ht ↦ ht.cons (by decide)
    refine .bind (Q := Firm) local_stringBody (fun key _ ↦ ?_) fun s t hs ht ↦ hs.append ht.toLoose
    exact .bind (h acc key _) (fun a _ ↦ .remaining fun n ↦ local_laterMembers h (n + 1) a)
      fun s t hs ht ↦ hs.append ht.toLoose
  · exact .fail _

end

theorem local_keyword {j : Json} (h : Firm (c :: cs)) :
    Local Firm (some c) (do Read.skip; word cs; pure j)
      fun _ ↦ (do Read.skip; word cs; pure j) := by
  refine .skip (Q := (· = cs)) (fun _ ↦ ?_) fun t ht ↦ ht ▸ h
  exact .bind (Q := (· = [])) (local_word cs) (fun _ _ ↦ .pure rfl)
    fun s t hs ht ↦ by rw [hs, ht, List.append_nil]

theorem local_valueWith {part : Option (ReadM Json)}
    (h : ∀ m ∈ part, ∀ next, Local Firm next m fun _ ↦ m) :
    Local Firm next (valueWith part) fun _ ↦ valueWith part := by
  refine .peekToken fun o ↦ ?_
  split
  · exact .fail _
  · exact local_keyword ⟨⟨.of_forall (by simp), by simp [Text.isBlank]⟩, List.cons_ne_nil _ _⟩
  · exact local_keyword ⟨⟨.of_forall (by simp), by simp [Text.isBlank]⟩, List.cons_ne_nil _ _⟩
  · exact local_keyword ⟨⟨.of_forall (by simp), by simp [Text.isBlank]⟩, List.cons_ne_nil _ _⟩
  · exact .skip (fun _ ↦ .map _ (local_number true)) fun t ht ↦ ht.cons (by decide)
  · exact .skip (fun _ ↦ .map _ local_stringBody) fun t ht ↦ ht.cons (by decide)
  · split
    · exact .fail _
    · next m =>
      refine .skip (Q := Firm) (fun _ ↦ ?_) fun t ht ↦ ht.cons (by decide)
      refine .bind (local_elements (fun items _ ↦ ?_) []) (fun items _ ↦ .pure Loose.nil)
        fun s t ↦ Firm.append
      exact .bind (h m rfl _) (fun j _ ↦ .pure Loose.nil) fun s t ↦ Firm.append
  · split
    · exact .fail _
    · next m =>
      refine .skip (Q := Firm) (fun _ ↦ ?_) fun t ht ↦ ht.cons (by decide)
      refine .bind (local_members (fun entries key _ ↦ ?_) []) (fun entries _ ↦ .pure Loose.nil)
        fun s t ↦ Firm.append
      refine .bind (Q := Firm) local_colon (fun _ _ ↦ ?_) fun s t hs ht ↦ hs.append ht.toLoose
      exact .bind (h m rfl _) (fun j _ ↦ .pure Loose.nil) fun s t ↦ Firm.append
  · split
    · exact .map _ (local_number false)
    · exact .fail _

/-- A value has a text of its own, which is read alike before whatever stops it alike. -/
theorem local_value (depth : Nat) : Local Firm next (value depth) fun _ ↦ value depth := by
  induction depth generalizing next with
  | zero => exact local_valueWith nofun
  | succ depth ih =>
    refine local_valueWith fun m hm next ↦ ?_
    cases hm
    exact ih

theorem forall_isSpace_of_finish {offset : Nat} {d : Cursor} (h : finish ⟨offset, cs⟩ = .ok () d) :
    ∀ c ∈ cs, isSpace c = true := by
  obtain ⟨_, _, hpeek, h⟩ := bind_eq_ok.1 h
  cases hpeek
  rw [← List.dropWhile_eq_nil_iff]
  cases hcs : cs.dropWhile isSpace with
  | nil => rfl
  | cons c cs =>
    dsimp only at h
    rw [hcs] at h
    cases h

theorem peekToken_dropWhile (offset : Nat) (cs : List Char) :
    peekToken ⟨offset, cs⟩ =
      peekToken ⟨offset + byteSize (cs.takeWhile isSpace), cs.dropWhile isSpace⟩ := by
  have hpeek (offset : Nat) (cs : List Char) : peekToken ⟨offset, cs⟩ =
      .ok (cs.dropWhile isSpace).head?
        ⟨offset + byteSize (cs.takeWhile isSpace), cs.dropWhile isSpace⟩ := rfl
  rw [hpeek, hpeek]
  cases hcs : cs.dropWhile isSpace with
  | nil => rfl
  | cons c ds =>
    have hc := Text.not_of_head?_dropWhile isSpace cs c (by rw [hcs]; rfl)
    rw [List.takeWhile_cons_of_neg (by simp [hc]), List.dropWhile_cons_of_neg (by simp [hc])]
    rfl

theorem value_dropWhile (depth offset : Nat) (cs : List Char) :
    value depth ⟨offset, cs⟩ =
      value depth ⟨offset + byteSize (cs.takeWhile isSpace), cs.dropWhile isSpace⟩ := by
  have hbind {f : Option Char → ReadM Json} : (peekToken >>= f) ⟨offset, cs⟩ =
      (peekToken >>= f) ⟨offset + byteSize (cs.takeWhile isSpace), cs.dropWhile isSpace⟩ := by
    change EStateM.bind peekToken f _ = EStateM.bind peekToken f _
    rw [EStateM.bind, EStateM.bind, peekToken_dropWhile]
  cases depth with
  | zero => exact hbind
  | succ depth => exact hbind

theorem not_isBlank_of_value {depth offset : Nat} {j : Json} {d : Cursor}
    (hspace : isSpace c = false) (h : value depth ⟨offset, c :: cs⟩ = .ok j d) :
    Text.isBlank c = false := by
  have hvalueWith {part : Option (ReadM Json)} (h : valueWith part ⟨offset, c :: cs⟩ = .ok j d) :
      Text.isBlank c = false := by
    obtain ⟨_, _, hpeek, h⟩ := bind_eq_ok.1 h
    cases hpeek
    dsimp only at h
    rw [List.dropWhile_cons_of_neg (by simp [hspace]), List.head?_cons] at h
    generalize hc : some c = o at h
    split at h
    case h_9 =>
      cases hc
      split at h
      · next hdigit => exact Value.not_isBlank_of_isDigit hdigit
      · cases h
    case h_1 => cases hc
    all_goals
      cases hc
      decide
  cases depth with
  | zero => exact hvalueWith h
  | succ depth => exact hvalueWith h

end PathQuery.Json.Read

namespace PathQuery

open Json.Read

namespace Json

variable {cs : List Char} {j : Json}

/-- A document stands in its text between white space, and its own part is read alike. -/
theorem parts_of_readChars (h : readChars cs = .ok j) :
    ∃ before core after, cs = before ++ core ++ after ∧ (∀ c ∈ before, isSpace c = true) ∧
      (∀ c ∈ after, isSpace c = true) ∧ Firm core ∧ (∀ c ∈ core.head?, Text.isBlank c = false) ∧
      readChars core = .ok j := by
  rw [readChars, run, EStateM.run] at h
  split at h
  · next hrun =>
    cases h
    obtain ⟨j, ⟨offset, rest⟩, hvalue, hrun⟩ := bind_eq_ok.1 hrun
    obtain ⟨_, d, hfinish, hrun⟩ := bind_eq_ok.1 hrun
    cases hrun
    have hrest := forall_isSpace_of_finish hfinish
    rw [value_dropWhile] at hvalue
    obtain ⟨core, hcs, hfirm, hgives⟩ := local_value _ _ _ _ _ _ rfl hvalue
    refine ⟨cs.takeWhile isSpace, core, rest, ?_, fun c hc ↦ List.mem_takeWhile_imp hc, hrest,
      hfirm, ?_, ?_⟩
    · rw [List.append_assoc, ← hcs, List.takeWhile_append_dropWhile]
    · cases core with
      | nil => exact absurd hfirm not_firm_nil
      | cons c core =>
        rintro _ ⟨⟩
        have hspace := Text.not_of_head?_dropWhile isSpace cs c (by rw [hcs]; rfl)
        rw [hcs] at hvalue
        exact not_isBlank_of_value hspace hvalue
    · have hend : StopsAlike rest [] := .inr ⟨rfl, fun c hc ↦ hrest c (List.mem_of_mem_head? hc)⟩
      have hgives := hgives core.length [] (Nat.le_refl _) hend
      rw [List.append_nil] at hgives
      exact hgives.run
  · cases h

/-- A backslash of a document has one of the characters of an escape behind it, and never a
backtick. -/
theorem paired_of_readChars (h : readChars cs = .ok j) : Lexer.Paired '\x60' cs := by
  obtain ⟨before, core, after, rfl, hbefore, hafter, hfirm, -, -⟩ := parts_of_readChars h
  exact ((paired_of_isSpace hbefore).append hfirm.paired).append (paired_of_isSpace hafter)

/-- A document reads alike without the white space around it. -/
theorem readChars_trim (h : readChars cs = .ok j) : readChars (Text.trim cs) = .ok j := by
  obtain ⟨before, core, after, rfl, hbefore, hafter, hfirm, hfirst, hcore⟩ := parts_of_readChars h
  rwa [Text.trim_append (fun c hc ↦ isBlank_of_isSpace (hbefore c hc))
    (fun c hc ↦ isBlank_of_isSpace (hafter c hc)) hfirm.ne_nil ⟨hfirst, hfirm.last⟩]

end Json

end PathQuery
