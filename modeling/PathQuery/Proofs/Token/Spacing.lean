import PathQuery.Proofs.Token.Positions

namespace PathQuery

open Lexer

namespace Text

variable {w : Nat → List Char} {as cs : List Char} {i p : Nat}

/-- The characters, the first of them being number `i` of a text, each behind the white space that
`w` has for its number. -/
def laid (w : Nat → List Char) : Nat → List Char → List Char
  | _, [] => []
  | i, c :: cs => w i ++ c :: laid w (i + 1) cs

def spread (w : Nat → List Char) (i : Nat) (cs : List Char) : List Char :=
  laid w i cs ++ w (i + cs.length)

def offset (w : Nat → List Char) (p : Nat) : Nat := p + ((List.range p).flatMap w).length

def moved (w : Nat → List Char) (p : Nat) : Nat := p + ((List.range (p + 1)).flatMap w).length

theorem moved_eq (w : Nat → List Char) (p : Nat) : moved w p = offset w p + (w p).length := by
  simp only [moved, offset, List.range_succ, List.flatMap_append, List.flatMap_singleton,
    List.length_append]
  omega

theorem offset_succ (w : Nat → List Char) (p : Nat) : offset w (p + 1) = moved w p + 1 := by
  rw [offset, moved]
  omega

theorem laid_append (w : Nat → List Char) (i : Nat) (as cs : List Char) :
    laid w i (as ++ cs) = laid w i as ++ laid w (i + as.length) cs := by
  induction as generalizing i with
  | nil => rfl
  | cons a as ih =>
    rw [List.cons_append, laid, ih, laid, List.length_cons, Nat.add_right_comm i 1,
      List.append_assoc, List.cons_append]
    rfl

theorem spread_append (w : Nat → List Char) (i : Nat) (as cs : List Char) :
    spread w i (as ++ cs) = laid w i as ++ spread w (i + as.length) cs := by
  rw [spread, spread, laid_append, List.append_assoc, List.length_append, Nat.add_assoc]

theorem length_laid (w : Nat → List Char) (i : Nat) (cs : List Char) :
    offset w i + (laid w i cs).length = offset w (i + cs.length) := by
  induction cs generalizing i with
  | nil => rfl
  | cons c cs ih =>
    have hih := ih (i + 1)
    have hsucc := offset_succ w i
    have hmoved := moved_eq w i
    rw [Nat.add_right_comm] at hih
    simp only [laid, List.length_append, List.length_cons, ← Nat.add_assoc] at hih ⊢
    omega

theorem length_spread (w : Nat → List Char) (i : Nat) (cs : List Char) :
    offset w i + (spread w i cs).length = moved w (i + cs.length) := by
  rw [spread, List.length_append, ← Nat.add_assoc, length_laid, moved_eq]

/-- Between characters that stay together there is no more white space than before the first. -/
theorem laid_cons_of_empty (c : Char) (h : ∀ j, i < j → j < i + 1 + cs.length → w j = []) :
    laid w i (c :: cs) = w i ++ c :: cs := by
  induction cs generalizing i c with
  | nil => rfl
  | cons d cs ih =>
    have hempty : w (i + 1) = [] := h (i + 1) (by omega) (by simp)
    have htail := ih (i := i + 1) d fun j hj hlt ↦ h j (by omega) (by simp; omega)
    rw [hempty, List.nil_append] at htail
    rw [laid, htail]

variable (hw : ∀ i, ∀ c ∈ w i, isBlank c = true)
include hw

theorem blank_laid (has : ∀ c ∈ as, isBlank c = true) : ∀ c ∈ laid w i as, isBlank c = true := by
  induction as generalizing i with
  | nil => exact nofun
  | cons a as ih =>
    obtain ⟨ha, has⟩ := List.forall_mem_cons.1 has
    exact List.forall_mem_append.2 ⟨hw i, List.forall_mem_cons.2 ⟨ha, ih has⟩⟩

theorem blank_spread (hcs : ∀ c ∈ cs, isBlank c = true) : ∀ c ∈ spread w i cs, isBlank c = true :=
  List.forall_mem_append.2 ⟨blank_laid hw hcs, hw _⟩

theorem endsAlike_spread (i : Nat) (cs : List Char) : EndsAlike (spread w i cs) cs := by
  intro c hc
  have hhead : (spread w i cs).head? = (w i ++ cs).head? := by
    cases cs <;> simp [spread, laid]
  rw [hhead, List.head?_append, Option.mem_def, Option.or_eq_some_iff] at hc
  obtain hc | ⟨-, hc⟩ := hc
  · exact .inl (hw i c (List.mem_of_mem_head? hc))
  · exact .inr hc

end Text

structure TextCursor.Spread (w : Nat → List Char) (c d : TextCursor) : Prop where
  position_eq : d.position = Text.offset w c.position
  rest_eq : d.rest = Text.spread w c.position c.rest

namespace Token

variable {w : Nat → List Char} {c c' d : TextCursor} {t : Token} {ts tokens : List Token}
  {text : String}

def moved (g : Nat → Nat) (t : Token) : Token := { t with position := g t.position }

def Unbroken (w : Nat → List Char) (t : Token) : Prop :=
  ∀ i, t.position < i → i < t.stop → w i = []

/-- The same tokens are read where more characters stand before them. -/
theorem Run.shift (h : Run c ts c') (n : Nat) :
    Run ⟨n + c.position, c.rest⟩ (ts.map (moved (n + ·))) ⟨n + c'.position, c'.rest⟩ := by
  induction h with
  | nil => exact .nil _
  | @cons c c' c'' t ts hnext hend _ ih =>
    obtain ⟨hscan, hrest, hposition, hstop⟩ := next_eq_ok_iff.1 hnext
    have hagain : next ⟨n + c.position, c.rest⟩ =
        .ok (t.moved (n + ·)) ⟨n + c'.position, c'.rest⟩ := by
      refine next_eq_ok_iff.2 ⟨hscan, hrest, ?_, ?_⟩
      · change n + t.position = n + c.position + _
        rw [hposition, Nat.add_assoc]
        rfl
      · change n + c'.position = n + t.position + t.text.length
        rw [hstop, stop, Nat.add_assoc]
    exact .cons hagain hend ih

variable (hw : ∀ i, ∀ c ∈ w i, Text.isBlank c = true)
include hw

/-- One call reads the same token from the text that was spread. -/
theorem next_spread (h : next c = .ok t c') (hend : t.kind.isEnd = false) (ht : t.Unbroken w)
    (hd : c.Spread w d) : ∃ d', next d = .ok (t.moved (Text.moved w)) d' ∧ c'.Spread w d' := by
  obtain ⟨-, htrim, hposition, hstop⟩ := next_eq_ok_iff.1 h
  obtain ⟨x, tail, htext⟩ := exists_cons_of_next h hend
  obtain ⟨blanks, hblanks, hsplit, hskip⟩ := c.exists_blanks
  have hlength : t.text.toList.length = t.text.length := String.length_toList
  have hlaid : Text.laid w t.position t.text.toList = w t.position ++ t.text.toList := by
    rw [htext] at hlength ⊢
    refine Text.laid_cons_of_empty x fun j hj hlt ↦ ht j hj ?_
    rw [stop, ← hlength, List.length_cons]
    omega
  have hrest : d.rest = (Text.laid w c.position blanks ++ w t.position) ++
      (t.text.toList ++ Text.spread w c'.position c'.rest) := by
    rw [hd.rest_eq, hsplit, htrim, Text.spread_append, ← hskip, ← hposition, Text.spread_append,
      hlaid, hlength, ← stop, ← hstop]
    simp only [List.append_assoc]
  have hdtrim : Text.trimLeft d.rest =
      t.text.toList ++ Text.spread w c'.position c'.rest := by
    rw [hrest, htext]
    refine Text.trimLeft_blank_append ?_ (by rw [htrim, htext]; rfl)
    exact List.forall_mem_append.2 ⟨Text.blank_laid hw hblanks, hw _⟩
  have hdskip : d.skipBlanks.position = Text.moved w t.position := by
    have hoffset := Text.length_laid w c.position blanks
    rw [TextCursor.position_skipBlanks hrest hdtrim, hd.position_eq, List.length_append,
      ← Nat.add_assoc, hoffset, ← hskip, ← hposition, Text.moved_eq]
  have hnext := next_of_endsAlike h hend hdtrim (Text.endsAlike_spread hw _ _)
  rw [hdskip] at hnext
  refine ⟨_, hnext, ?_, rfl⟩
  have hoffset := Text.length_laid w t.position t.text.toList
  rw [hlaid, List.length_append, ← Nat.add_assoc, ← Text.moved_eq, hlength, ← stop, ← hstop]
    at hoffset
  exact hoffset

theorem Run.spread (h : Run c ts c') (hts : ∀ t ∈ ts, t.Unbroken w) (hd : c.Spread w d) :
    ∃ d', Run d (ts.map (moved (Text.moved w))) d' ∧ c'.Spread w d' := by
  induction h generalizing d with
  | nil c => exact ⟨d, .nil d, hd⟩
  | cons hnext hend _ ih =>
    obtain ⟨ht, hts⟩ := List.forall_mem_cons.1 hts
    obtain ⟨d₁, hd₁, hspread⟩ := next_spread hw hnext hend ht hd
    obtain ⟨d₂, hrun, hd₂⟩ := ih hts hspread
    exact ⟨d₂, .cons hd₁ hend hrun, hd₂⟩

/-- White space between the tokens of a text moves them and changes nothing else. -/
theorem ofString_spread (h : ofString text = .ok tokens) (hts : ∀ t ∈ tokens, t.Unbroken w) :
    ofString (String.ofList (Text.spread w 0 text.toList)) =
      .ok (tokens.map (moved (Text.moved w))) := by
  obtain ⟨ts, c, hrun, hblank, rfl⟩ := run_of_ofString h
  have hstart : (TextCursor.ofString text).Spread w
      (.ofString (String.ofList (Text.spread w 0 text.toList))) :=
    ⟨rfl, String.toList_ofList⟩
  obtain ⟨d, hagain, hd⟩ := hrun.spread hw (fun t ht ↦ hts t (List.mem_append_left _ ht)) hstart
  have hdblank : Text.trimLeft d.rest = [] := by
    rw [hd.rest_eq]
    exact Text.trimLeft_of_blank (Text.blank_spread hw (Text.blank_of_trimLeft hblank))
  have hread := ofString_of_run hagain hdblank
  have hlength := Text.length_spread w 0 text.toList
  rw [Nat.zero_add, String.length_toList, Text.offset, Nat.zero_add, List.range_zero,
    List.flatMap_nil, List.length_nil, Nat.zero_add] at hlength
  rw [hread, String.length_ofList, hlength, List.map_append]
  rfl

end Token

end PathQuery
