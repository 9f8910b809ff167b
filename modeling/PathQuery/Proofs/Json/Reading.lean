import Mathlib.Algebra.GroupWithZero.Nat
import Mathlib.Data.List.TakeWhile
import PathQuery.Json.Reader
import PathQuery.Proofs.Number.Digits

namespace PathQuery.Text

theorem not_of_head?_dropWhile (p : Char → Bool) (cs : List Char) :
    ∀ c ∈ (cs.dropWhile p).head?, p c = false := by
  intro c hc
  have hstop := List.head?_dropWhile_not p cs
  rw [Option.mem_def.1 hc] at hstop
  exact hstop

/-- A row of characters ends where none of them is behind it. -/
theorem takeWhile_dropWhile_append {p : Char → Bool} {cs rest : List Char}
    (h : ∀ c ∈ cs, p c = true) (hstop : ∀ c ∈ rest.head?, p c = false) :
    (cs ++ rest).takeWhile p = cs ∧ (cs ++ rest).dropWhile p = rest := by
  rw [List.takeWhile_append_of_pos h, List.dropWhile_append_of_pos h]
  cases rest with
  | nil => exact ⟨List.append_nil cs, rfl⟩
  | cons c rest =>
    have hc : ¬ p c = true := by simp [hstop c rfl]
    rw [List.takeWhile_cons_of_neg hc, List.dropWhile_cons_of_neg hc, List.append_nil]
    exact ⟨rfl, rfl⟩

theorem intercalate_cons (t : List Char) (ts : List (List Char)) :
    [','].intercalate (t :: ts) = t ++ ts.flatMap (',' :: ·) := by
  induction ts generalizing t with
  | nil => simp [List.intercalate]
  | cons u ts ih =>
    rw [List.flatMap_cons, List.cons_append, ← ih u]
    simp [List.intercalate]

theorem length_le_flatMap_cons (texts : List (List Char)) :
    texts.length ≤ (texts.flatMap (',' :: ·)).length := by
  induction texts with
  | nil => exact Nat.le_refl 0
  | cons text texts ih =>
    rw [List.flatMap_cons, List.length_append, List.length_cons, List.length_cons]
    omega

end PathQuery.Text

namespace PathQuery.Json.Read

variable {α β : Type} {m : ReadM α} {a : α} {b : β} {c : Char} {cs mid rest : List Char}

/-- On a text that starts with `cs` the reader takes what is before `rest` and gives `a`. -/
def Gives (m : ReadM α) (cs : List Char) (a : α) (rest : List Char) : Prop :=
  ∀ offset, ∃ offset', m ⟨offset, cs⟩ = .ok a ⟨offset', rest⟩

namespace Gives

theorem pure : Gives (Pure.pure a) cs a cs := fun offset ↦ ⟨offset, rfl⟩

theorem bind {f : α → ReadM β} (hm : Gives m cs a mid) (hf : Gives (f a) mid b rest) :
    Gives (m >>= f) cs b rest := by
  intro offset
  obtain ⟨offset₁, h₁⟩ := hm offset
  obtain ⟨offset₂, h₂⟩ := hf offset₁
  refine ⟨offset₂, ?_⟩
  change EStateM.bind m f ⟨offset, cs⟩ = _
  rw [EStateM.bind, h₁]
  exact h₂

theorem map (g : α → β) (hm : Gives m cs a rest) : Gives (g <$> m) cs (g a) rest := by
  intro offset
  obtain ⟨offset', h⟩ := hm offset
  refine ⟨offset', ?_⟩
  change EStateM.map g m ⟨offset, cs⟩ = _
  rw [EStateM.map, h]

theorem peek {f : Option Char → ReadM β} (h : Gives (f cs.head?) cs b rest) :
    Gives (Read.peek >>= f) cs b rest :=
  bind (fun offset ↦ ⟨offset, rfl⟩) h

theorem skip {f : Unit → ReadM β} (h : Gives (f ()) cs b rest) :
    Gives (Read.skip >>= f) (c :: cs) b rest :=
  bind (fun offset ↦ ⟨offset + c.utf8Size, rfl⟩) h

theorem remaining {f : Nat → ReadM β} (h : Gives (f cs.length) cs b rest) :
    Gives (Read.remaining >>= f) cs b rest :=
  bind (fun offset ↦ ⟨offset, rfl⟩) h

theorem takeWhile (cs : List Char) (p : Char → Bool) :
    Gives (Read.takeWhile p) cs (cs.takeWhile p) (cs.dropWhile p) :=
  fun offset ↦ ⟨offset + byteSize (cs.takeWhile p), rfl⟩

theorem takeWhile_append {p : Char → Bool} (h : ∀ c ∈ cs, p c = true)
    (hstop : ∀ c ∈ rest.head?, p c = false) : Gives (Read.takeWhile p) (cs ++ rest) cs rest := by
  have hgives := Gives.takeWhile (cs ++ rest) p
  obtain ⟨htake, hdrop⟩ := Text.takeWhile_dropWhile_append h hstop
  rwa [htake, hdrop] at hgives

theorem peekToken_append {f : Option Char → ReadM β} {space : List Char}
    (hspace : ∀ x ∈ space, isSpace x = true) (hc : isSpace c = false)
    (h : Gives (f (some c)) (c :: cs) b rest) :
    Gives (Read.peekToken >>= f) (space ++ c :: cs) b rest := by
  have hstop : ∀ x ∈ (c :: cs).head?, isSpace x = false := by
    rintro _ ⟨⟩
    exact hc
  exact bind (bind (bind (takeWhile_append hspace hstop) pure) (fun offset ↦ ⟨offset, rfl⟩)) h

theorem peekToken {f : Option Char → ReadM β} (hc : isSpace c = false)
    (h : Gives (f (some c)) (c :: cs) b rest) : Gives (Read.peekToken >>= f) (c :: cs) b rest :=
  peekToken_append (List.forall_mem_nil _) hc h

/-- What is read up to white space at the end of a text is what the whole text is read as. -/
theorem run_of_blank (hspace : ∀ c ∈ rest, isSpace c = true) (h : Gives m cs a rest) :
    Read.run m cs = .ok a := by
  have htaken : Gives (Read.takeWhile isSpace) (rest ++ []) rest [] :=
    takeWhile_append hspace nofun
  rw [List.append_nil] at htaken
  have hfinish : Gives finish rest () [] :=
    bind (bind (bind htaken pure) fun offset ↦ ⟨offset, rfl⟩) pure
  have hwhole : Gives (do let a ← m; finish; Pure.pure a) cs a [] := bind h (bind hfinish pure)
  obtain ⟨offset, hrun⟩ := hwhole 0
  rw [Read.run, EStateM.run, hrun]

theorem run (h : Gives m cs a []) : Read.run m cs = .ok a :=
  run_of_blank (List.forall_mem_nil _) h

end Gives

structure Unescapes (table : Text.EscapeTable) : Prop where
  escaped {c : Char} {es : List Char} : table c = some es →
    ∃ e, es = '\\' :: e ∧ ∀ rest, Gives escaped (e ++ rest) c rest
  plain {c : Char} : table c = none → c ≠ '"' ∧ c ≠ '\\' ∧ 0x20 ≤ c.toNat

theorem hexUnit_hex : ∀ n < 0xA0, (Text.hex 4 n).length = 4 ∧
    byteSize (Text.hex 4 n) = 4 ∧ hexNumber? (Text.hex 4 n) = some n := by
  decide +kernel

theorem gives_unicodeEscape (hc : c.toNat < 0xA0) (rest : List Char) :
    Gives escaped ('u' :: Text.hex 4 c.toNat ++ rest) c rest := by
  obtain ⟨hlength, hsize, hnumber⟩ := hexUnit_hex c.toNat hc
  have hunit : Gives hexUnit (Text.hex 4 c.toNat ++ rest) c.toNat rest := by
    intro offset
    refine ⟨offset + 4, ?_⟩
    have htake : (Text.hex 4 c.toNat ++ rest).take 4 = Text.hex 4 c.toNat :=
      List.take_left' hlength
    have hdrop : (Text.hex 4 c.toNat ++ rest).drop 4 = rest := List.drop_left' hlength
    simp only [hexUnit, htake, hdrop, hsize, hnumber]
    rfl
  refine .peek (.skip (.bind hunit ?_))
  rw [if_neg (by omega), if_pos (by omega), Char.ofNat_toNat]
  exact .pure

theorem unescapes_documentEscape : Unescapes Text.documentEscape where
  escaped h := by
    unfold Text.documentEscape at h
    split at h
    case h_8 =>
      split at h
      · next hc =>
        cases h
        exact ⟨_, rfl, gives_unicodeEscape (by omega)⟩
      · cases h
    all_goals
      cases h
      exact ⟨_, rfl, fun rest offset ↦ ⟨_, rfl⟩⟩
  plain h := by
    unfold Text.documentEscape at h
    split at h
    case h_8 hquote hbackslash _ _ _ _ _ =>
      split at h
      · cases h
      · exact ⟨hquote, hbackslash, by omega⟩
    all_goals cases h

theorem unescapes_valueEscape : Unescapes Text.valueEscape where
  escaped h := by
    unfold Text.valueEscape at h
    split at h
    case h_6 =>
      split at h
      · next hc =>
        cases h
        refine ⟨_, rfl, gives_unicodeEscape ?_⟩
        simp only [Bool.or_eq_true, decide_eq_true_eq, Bool.and_eq_true] at hc
        omega
      · cases h
    all_goals
      cases h
      exact ⟨_, rfl, fun rest offset ↦ ⟨_, rfl⟩⟩
  plain h := by
    unfold Text.valueEscape at h
    split at h
    case h_6 hquote hbackslash _ _ _ =>
      split at h
      · cases h
      · next hc =>
        simp only [Bool.or_eq_true, decide_eq_true_eq, Bool.and_eq_true] at hc
        exact ⟨hquote, hbackslash, by omega⟩
    all_goals cases h

theorem gives_stringChars {table : Text.EscapeTable} (h : Unescapes table) {n : Nat}
    {cs : List Char} (hn : cs.length < n) (rest : List Char) :
    Gives (stringChars n) (Text.escape table cs ++ '"' :: rest) cs rest := by
  induction cs generalizing n with
  | nil =>
    cases n with
    | zero => simp at hn
    | succ n => exact .peek (.skip .pure)
  | cons c cs ih =>
    cases n with
    | zero => simp at hn
    | succ n =>
      have ih := ih (Nat.lt_of_succ_lt_succ hn)
      rw [Text.escape, List.flatMap_cons, List.append_assoc]
      cases hc : table c with
      | some es =>
        obtain ⟨e, rfl, he⟩ := h.escaped hc
        refine .peek (.skip ?_)
        exact .bind (he _) (.bind ih .pure)
      | none =>
        obtain ⟨hquote, hbackslash, hcontrol⟩ := h.plain hc
        rw [stringChars]
        refine .peek ?_
        split
        · next heq => cases heq
        · next heq => exact absurd (Option.some.inj heq) hquote
        · next heq => exact absurd (Option.some.inj heq) hbackslash
        · next heq =>
          cases heq
          rw [if_neg (by omega)]
          exact .skip (.bind ih .pure)

theorem length_le_escape (table : Text.EscapeTable) (h : Unescapes table) (cs : List Char) :
    cs.length ≤ (Text.escape table cs).length := by
  induction cs with
  | nil => exact Nat.zero_le _
  | cons c cs ih =>
    rw [Text.escape, List.flatMap_cons, List.length_append, List.length_cons]
    have hc : 0 < ((table c).getD [c]).length := by
      cases hc : table c with
      | none => exact Nat.one_pos
      | some es =>
        obtain ⟨e, rfl, -⟩ := h.escaped hc
        exact Nat.succ_pos _
    rw [Text.escape] at ih
    omega

theorem gives_stringBody {table : Text.EscapeTable} (h : Unescapes table) (s : String)
    (rest : List Char) : Gives stringBody (Text.escape table s.toList ++ '"' :: rest) s rest := by
  refine .remaining (.bind (gives_stringChars h ?_ rest) ?_)
  · have hle := length_le_escape table h s.toList
    simp only [List.length_append, List.length_cons]
    omega
  · rw [String.ofList_toList]
    exact .pure

theorem gives_colon (rest : List Char) : Gives colon (':' :: rest) () rest :=
  .peekToken rfl fun offset ↦ ⟨offset + ':'.utf8Size, rfl⟩

def EndsNumber (rest : List Char) : Prop :=
  ∀ c ∈ rest.head?, Number.isDigit c = false ∧ c ≠ '.' ∧ c ≠ 'e' ∧ c ≠ 'E'

theorem absorb_eq {ds : List Char} {n : Nat} (h : Nat.ofDigitChars 10 ds n < 2 ^ 64) :
    absorb n ds = (Nat.ofDigitChars 10 ds n, []) := by
  induction ds generalizing n with
  | nil => rfl
  | cons d ds ih =>
    rw [Nat.ofDigitChars_cons] at h ⊢
    have hle : 10 * n + (d.toNat - '0'.toNat) < 2 ^ 64 := by
      rw [Nat.ofDigitChars_eq_ofDigitChars_zero] at h
      have := Nat.le_mul_of_pos_left (10 * n + (d.toNat - '0'.toNat))
        (Nat.pow_pos (n := ds.length) (show 0 < 10 by decide))
      omega
    rw [absorb]
    exact (if_pos hle).trans (ih h)

theorem gives_number (negative : Bool) {n : Nat} (hn : n < 2 ^ 64) (h : EndsNumber rest) :
    Gives (number negative) (Number.digits n ++ rest) (integer negative n) rest := by
  have habsorb : absorb 0 (Number.digits n) = (n, []) := by
    have hvalue : Nat.ofDigitChars 10 (Number.digits n) 0 = n := Nat.ofDigitChars_ten_toDigits
    rw [absorb_eq (by rw [hvalue]; exact hn), hvalue]
  have htaken : Gives (Read.takeWhile Number.isDigit) (Number.digits n ++ rest)
      (Number.digits n) rest :=
    .takeWhile_append (fun c hc ↦ Number.isDigit_of_mem hc) fun c hc ↦ (h c hc).1
  cases hdigits : Number.digits n with
  | nil => exact absurd hdigits Nat.toDigits_ne_nil
  | cons d ds =>
    have hd : Number.isDigit d = true := Number.isDigit_of_mem (hdigits ▸ List.mem_cons_self)
    rw [hdigits] at habsorb htaken
    have hread (f : List Char → ReadM JsonNumber)
        (hf : Gives (f (d :: ds)) rest (integer negative n) rest) :
        Gives (if d = '0' then do Read.skip; let digits ← Pure.pure [d]; f digits
          else do let digits ← Read.takeWhile Number.isDigit; f digits)
          (d :: ds ++ rest) (integer negative n) rest := by
      split
      · next hzero =>
        rw [hzero] at hdigits hf ⊢
        obtain ⟨-, rfl⟩ := Number.digits_of_zero hdigits
        exact .skip hf
      · exact .bind htaken hf
    refine .peek ?_
    change Gives (if (!Number.isDigit d) = true then _ else _) _ _ _
    rw [hd, if_neg (by simp)]
    refine hread _ ?_
    rw [habsorb]
    refine .peek ?_
    cases hrest : rest.head? with
    | none => exact .pure
    | some c =>
      obtain ⟨hc, hpoint, he, hE⟩ := h c hrest
      split
      · next heq => exact absurd (Option.some.inj heq) hpoint
      · next heq =>
        cases heq
        rw [if_neg (by simp [he, hE]), if_neg (by simp [hc])]
        exact .pure
      · next heq => cases heq

end PathQuery.Json.Read
