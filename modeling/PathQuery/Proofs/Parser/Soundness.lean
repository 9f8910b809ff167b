import PathQuery.Proofs.Parser.Running

namespace PathQuery

namespace Parser

variable {ts : List TokenKind}

def partTokens (parts : SliceParts) : Nat → List TokenKind
  | 0 => numberTokens parts.start
  | 1 => numberTokens parts.start ++ .symbol .colon :: numberTokens parts.stop
  | _ =>
    numberTokens parts.start ++ .symbol .colon ::
      (numberTokens parts.stop ++ .symbol .colon :: numberTokens parts.step)

/-- There is a part with the index, and those behind it have no number. -/
def EmptyBehind (parts : SliceParts) : Nat → Prop
  | 0 => parts.stop = none ∧ parts.step = none
  | 1 => parts.step = none
  | 2 => True
  | _ => False

namespace EmptyBehind

variable {parts : SliceParts} {i : Nat}

theorem next (h : EmptyBehind parts i) (hi : i + 1 ≤ 2) :
    EmptyBehind parts (i + 1) ∧
      partTokens parts (i + 1) = partTokens parts i ++ [.symbol .colon] := by
  match i, h, hi with
  | 0, ⟨hstop, hstep⟩, _ => exact ⟨hstep, by simp [partTokens, numberTokens, hstop]⟩
  | 1, hstep, _ =>
    have hnone : parts.step = none := hstep
    exact ⟨trivial, by simp [partTokens, numberTokens, hnone]⟩
  | i + 2, _, hi => omega

theorem set (h : EmptyBehind parts i) (k : Int64) (hnone : (parts.get? i).getD none = none) :
    EmptyBehind (parts.set i k) i ∧
      partTokens (parts.set i k) i = partTokens parts i ++ [.number k] := by
  match i, h, hnone with
  | 0, h, hnone =>
    have hstart : parts.start = none := hnone
    exact ⟨h, by simp [partTokens, numberTokens, SliceParts.set, hstart]⟩
  | 1, h, hnone =>
    have hstop : parts.stop = none := hnone
    exact ⟨h, by simp [partTokens, numberTokens, SliceParts.set, hstop]⟩
  | 2, h, hnone =>
    have hstep : parts.step = none := hnone
    exact ⟨h, by simp [partTokens, numberTokens, SliceParts.set, hstep]⟩

theorem sliceTokens (h : EmptyBehind parts i) (hi : i ≠ 0) :
    SliceTokens parts (partTokens parts i) := by
  obtain ⟨start, stop, step⟩ := parts
  match i, h, hi with
  | 1, h, _ =>
    obtain rfl : step = none := h
    exact .short start stop
  | 2, _, _ => exact .long start stop step

end EmptyBehind

theorem ensures_sliceParts (o : Opening) {n i : Nat} {parts : SliceParts}
    (h : EmptyBehind parts i) :
    Ensures (sliceParts o n i parts) ts fun r rest ↦
      EmptyBehind r.2 r.1 ∧
        partTokens parts i ++ ts = partTokens r.2 r.1 ++ .symbol .rightBracket :: rest := by
  induction n generalizing ts i parts with
  | zero => exact .missingCloser o
  | succ n ih =>
    refine .current fun t ht ↦ ?_
    split
    case h_1 k hk =>
      obtain ⟨ts, rfl⟩ := eq_cons_of_head (hk ▸ ht) rfl
      refine .slicePart ?_
      split
      · exact .unexpected _
      · next hnone =>
        obtain ⟨h', htokens⟩ := h.set k (by simpa using hnone)
        refine .advance ((ih h').mono fun r rest hr ↦ ⟨hr.1, ?_⟩)
        rw [htokens, List.append_assoc] at hr
        exact hr.2
    case h_2 hk =>
      obtain ⟨ts, rfl⟩ := eq_cons_of_head (hk ▸ ht) rfl
      split
      · exact .fail _
      · next hi =>
        obtain ⟨h', htokens⟩ := h.next (Nat.le_of_not_lt hi)
        refine .advance ((ih h').mono fun r rest hr ↦ ⟨hr.1, ?_⟩)
        rw [htokens, List.append_assoc] at hr
        exact hr.2
    case h_3 hk =>
      obtain ⟨ts, rfl⟩ := eq_cons_of_head (hk ▸ ht) rfl
      exact .advance (.pure ⟨h, rfl⟩)
    case h_4 => exact .missingCloser o
    case h_5 => exact .unexpected _

section

variable {expression : Nat → ParseM Expr}
  (hE : ∀ p ts, Ensures (expression p) ts (Reads (.expression p) ts))

include hE

theorem ensures_grouped (o : Opening) :
    Ensures (grouped expression o) ts (Reads (.expression 0) ts) := by
  refine .current fun t _ ↦ ?_
  split
  · exact .missingCloser o
  · exact hE 0 ts

theorem ensures_listItems {o : Opening} (ho : o.symbol.closer = .rightBracket) (n : Nat) :
    Ensures (listItems expression o n) ts fun items ↦ Reads .items ts (.multiSelectList items) := by
  induction n generalizing ts with
  | zero => exact .missingCloser o
  | succ n ih =>
    refine .bind (ensures_grouped hE o) fun item mid hitem ↦ .check _ fun b hb ↦ ?_
    cases b with
    | true =>
      obtain ⟨mid, rfl⟩ := startsSymbol_iff.mp hb
      exact .advance (.bind ih fun items rest hitems ↦ .pure (.item hitem hitems))
    | false =>
      refine .expectCloser fun rest hrest ↦ .pure (.lastItem ?_)
      rwa [hrest, ho] at hitem

theorem ensures_multiSelectList {o : Opening} (ho : o.symbol.closer = .rightBracket) :
    Ensures (multiSelectList expression o) ts (Reads .items ts) :=
  .turns (.map (ensures_listItems hE ho _))

omit hE in
theorem ensures_hashKey (o : Opening) (isFirst : Bool) :
    Ensures (hashKey o isFirst) ts fun key rest ↦ ∃ k, name? k = some key ∧ ts = k :: rest := by
  refine .current fun t ht ↦ ?_
  split
  case h_1 name hk =>
    obtain ⟨ts, rfl⟩ := eq_cons_of_head (hk ▸ ht) rfl
    exact .advance (.pure ⟨_, rfl, rfl⟩)
  case h_2 name hk =>
    obtain ⟨ts, rfl⟩ := eq_cons_of_head (hk ▸ ht) rfl
    exact .advance (.pure ⟨_, rfl, rfl⟩)
  case h_3 =>
    split
    · exact .failAt _ _
    · exact .unexpected _
  case h_4 => exact .failAt _ _
  case h_5 => exact .unexpected _

theorem ensures_hashPairs {o : Opening} (ho : o.symbol.closer = .rightBrace) (n : Nat)
    (isFirst : Bool) :
    Ensures (hashPairs expression o n isFirst) ts fun pairs ↦
      Reads .pairs ts (.multiSelectHash pairs) := by
  induction n generalizing ts isFirst with
  | zero => exact .missingCloser o
  | succ n ih =>
    refine .bind (ensures_hashKey o isFirst) ?_
    rintro key _ ⟨k, hk, rfl⟩
    refine .check _ fun b hb ↦ ?_
    cases b with
    | false => exact .bind (.unexpected _ (P := fun _ _ ↦ False)) fun _ _ h ↦ h.elim
    | true =>
      obtain ⟨ts, rfl⟩ := startsSymbol_iff.mp hb
      refine .advance (.bind (ensures_grouped hE o) fun value mid hvalue ↦ .check _ fun b hb ↦ ?_)
      cases b with
      | true =>
        obtain ⟨mid, rfl⟩ := startsSymbol_iff.mp hb
        exact .advance (.bind (ih false) fun pairs rest hpairs ↦ .pure (.pair hk hvalue hpairs))
      | false =>
        refine .expectCloser fun rest hrest ↦ .pure (.lastPair hk ?_)
        rwa [hrest, ho] at hvalue

theorem ensures_multiSelectHash {o : Opening} (ho : o.symbol.closer = .rightBrace) :
    Ensures (multiSelectHash expression o) ts (Reads .pairs ts) :=
  .turns (.map (ensures_hashPairs hE ho _ true))

theorem ensures_afterDot (p : Nat) :
    Ensures (afterDot expression p) ts (Reads (.afterDot p) ts) := by
  refine .current fun t ht ↦ ?_
  split
  case h_1 hk =>
    obtain ⟨ts, rfl⟩ := eq_cons_of_head (hk ▸ ht) rfl
    exact .advance ((ensures_multiSelectList hE rfl).mono fun _ _ ↦ .dotList)
  case h_2 hk =>
    obtain ⟨ts, rfl⟩ := eq_cons_of_head (hk ▸ ht) rfl
    exact .advance ((ensures_multiSelectHash hE rfl).mono fun _ _ ↦ .dotHash)
  case h_3 name hk =>
    obtain ⟨ts, rfl⟩ := eq_cons_of_head (hk ▸ ht) rfl
    exact (hE p _).mono fun _ _ ↦ .dotName rfl
  case h_4 name hk =>
    obtain ⟨ts, rfl⟩ := eq_cons_of_head (hk ▸ ht) rfl
    exact (hE p _).mono fun _ _ ↦ .dotName rfl
  case h_5 hk =>
    obtain ⟨ts, rfl⟩ := eq_cons_of_head (hk ▸ ht) rfl
    exact (hE p _).mono fun _ _ ↦ .dotName rfl
  case h_6 => exact .fail _
  case h_7 => exact .unexpected _

theorem ensures_projectionBody (p : Nat) :
    Ensures (projectionBody expression p) ts (Reads (.body p) ts) := by
  refine .current fun t ht ↦ ?_
  split
  · next hlow => exact .pure (.element (by rwa [ht] at hlow))
  · split
    case h_1 hk =>
      obtain ⟨ts, rfl⟩ := eq_cons_of_head (hk ▸ ht) rfl
      exact .advance ((ensures_afterDot hE p).mono fun _ _ ↦ .bodyDot)
    case h_2 hk =>
      obtain ⟨ts, rfl⟩ := eq_cons_of_head (hk ▸ ht) rfl
      exact (hE p _).mono fun _ _ ↦ .bodyBracket rfl
    case h_3 hk =>
      obtain ⟨ts, rfl⟩ := eq_cons_of_head (hk ▸ ht) rfl
      exact (hE p _).mono fun _ _ ↦ .bodyBracket rfl
    case h_4 => exact .unexpected _

theorem ensures_indexOrSlice (left : Expr) (o : Opening) :
    Ensures (indexOrSlice expression left o) ts
      (Reads (.bracket left) (.symbol .leftBracket :: ts)) := by
  refine .turns (.bind (ensures_sliceParts o ⟨rfl, rfl⟩) ?_)
  rintro ⟨i, parts⟩ mid ⟨hempty, htokens⟩
  obtain rfl : ts = partTokens parts i ++ .symbol .rightBracket :: mid := htokens
  dsimp only
  split
  · next hstart =>
    subst hstart
    split
    · next i hi => exact .pure (by simpa [partTokens, numberTokens, hi] using .index)
    · exact .failAt _ _
  · next hstart =>
    split
    · exact .failAt _ _
    · next hstep =>
      exact .bind (ensures_projectionBody hE _) fun body rest hbody ↦
        .pure (.slice (hempty.sliceTokens hstart) hstep hbody)

theorem ensures_filter (left : Expr) {o : Opening} (ho : o.symbol.closer = .rightBracket) :
    Ensures (filter expression left o) ts (Reads (.bracket left) (.symbol .filter :: ts)) := by
  refine .bind (ensures_grouped hE o) fun predicate mid hpredicate ↦ ?_
  refine .expectCloser fun mid' hmid ↦ ?_
  rw [hmid, ho] at hpredicate
  exact .bind (ensures_projectionBody hE _) fun body rest hbody ↦ .pure (.filter hpredicate hbody)

theorem ensures_argument (o : Opening) :
    Ensures (argument expression o) ts (Reads .argument ts) := by
  refine .check _ fun b hb ↦ ?_
  cases b with
  | true =>
    obtain ⟨ts, rfl⟩ := startsSymbol_iff.mp hb
    exact .advance (.map ((ensures_grouped hE o).mono fun _ _ ↦ .reference))
  | false => exact (ensures_grouped hE o).mono fun _ _ ↦ .plain

theorem ensures_arguments (name : String) (o : Opening) (n : Nat) :
    Ensures (arguments expression o n) ts fun args ↦
      Reads (.arguments name) ts (.functionCall name args) := by
  induction n generalizing ts with
  | zero => exact .missingCloser o
  | succ n ih =>
    refine .check _ fun b hb ↦ ?_
    cases b with
    | true =>
      obtain ⟨ts, rfl⟩ := startsSymbol_iff.mp hb
      exact .advance (.pure .noArguments)
    | false =>
      refine .bind (ensures_argument hE o) fun arg mid harg ↦ .check _ fun b hb ↦ ?_
      cases b with
      | true =>
        obtain ⟨mid, rfl⟩ := startsSymbol_iff.mp hb
        refine .advance (.check _ fun b hb ↦ ?_)
        cases b with
        | true => exact .unexpected _
        | false => exact .bind ih fun args rest hargs ↦ .pure (.nextArgument harg hb hargs)
      | false =>
        refine .check _ fun b hb ↦ ?_
        cases b with
        | true =>
          obtain ⟨mid, rfl⟩ := startsSymbol_iff.mp hb
          exact .advance (.pure (.lastArgument harg))
        | false => exact .missingCloser o

theorem ensures_functionCall (name : String) (position : Nat) (o : Opening) :
    Ensures (functionCall expression name position o) ts
      (Reads (.extend (.field name)) (.symbol .leftParen :: ts)) := by
  unfold functionCall
  split
  · exact .failAt _ _
  · next hname =>
    have hsome : (Builtin.ofName? name).isSome := by
      simpa [Option.isSome_iff_ne_none, Option.isNone_iff_eq_none] using hname
    exact .turns (.map ((ensures_arguments hE name o _).mono fun _ _ ↦ .call hsome))

theorem ensures_leftBracket (position : Nat) :
    Ensures (do
      let o : Opening := ⟨.leftBracket, position⟩
      match (← current).kind with
      | .number _ => indexOrSlice expression .currentNode o
      | .symbol .colon => indexOrSlice expression .currentNode o
      | .symbol .star =>
        if (← peek).kind.isSymbol .rightBracket then
          advance
          advance
          let body ← projectionBody expression Symbol.star.leftPower
          pure (.projection .currentNode body)
        else multiSelectList expression o
      | _ => multiSelectList expression o) ts (Reads .head (.symbol .leftBracket :: ts)) := by
  refine .current fun t ht ↦ ?_
  split
  case h_1 => exact (ensures_indexOrSlice hE .currentNode _).mono fun _ _ ↦ .implicit
  case h_2 => exact (ensures_indexOrSlice hE .currentNode _).mono fun _ _ ↦ .implicit
  case h_3 hk =>
    obtain ⟨ts, rfl⟩ := eq_cons_of_head (hk ▸ ht) rfl
    refine .peek fun t' ht' ↦ ?_
    split
    · next hclose =>
      rw [ht'] at hclose
      obtain ⟨ts, rfl⟩ := startsSymbol_iff.mp hclose
      exact .advance (.advance (.bind (ensures_projectionBody hE _) fun _ _ hbody ↦
        .pure (.implicit (.wildcard hbody))))
    · next hclose =>
      refine (ensures_multiSelectList hE rfl).mono fun _ _ hitems ↦ .list ?_ hitems
      rw [opensList_star]
      rw [ht'] at hclose
      exact (Bool.not_eq_true' _).mpr (Bool.eq_false_iff.mpr hclose)
  case h_4 hnumber hcolon hstar =>
    refine (ensures_multiSelectList hE rfl).mono fun _ _ hitems ↦ .list ?_ hitems
    rw [ht] at hnumber hcolon hstar
    unfold opensList
    split
    · exact (hnumber _ rfl).elim
    · exact (hcolon rfl).elim
    · exact (hstar rfl).elim
    · rfl

theorem ensures_head : Ensures (head expression) ts (Reads .head ts) := by
  refine .current fun t ht ↦ ?_
  split
  case h_1 hk =>
    obtain ⟨ts, rfl⟩ := eq_cons_of_head (hk ▸ ht) rfl
    exact .advance (.pure .current)
  case h_2 name hk =>
    obtain ⟨ts, rfl⟩ := eq_cons_of_head (hk ▸ ht) rfl
    exact .advance (.pure .identifier)
  case h_3 name hk =>
    obtain ⟨ts, rfl⟩ := eq_cons_of_head (hk ▸ ht) rfl
    refine .advance (.check _ fun b hb ↦ ?_)
    cases b with
    | true => exact .failAt _ _
    | false => exact .pure (.quotedIdentifier hb)
  case h_4 value hk =>
    obtain ⟨ts, rfl⟩ := eq_cons_of_head (hk ▸ ht) rfl
    exact .advance (.pure .literal)
  case h_5 s hk =>
    obtain ⟨ts, rfl⟩ := eq_cons_of_head (hk ▸ ht) rfl
    exact .advance (.pure .rawString)
  case h_6 hk =>
    obtain ⟨ts, rfl⟩ := eq_cons_of_head (hk ▸ ht) rfl
    exact .advance (.bind (ensures_projectionBody hE _) fun _ _ hbody ↦ .pure (.values hbody))
  case h_7 hk =>
    obtain ⟨ts, rfl⟩ := eq_cons_of_head (hk ▸ ht) rfl
    exact .advance (ensures_leftBracket hE t.position)
  case h_8 hk =>
    obtain ⟨ts, rfl⟩ := eq_cons_of_head (hk ▸ ht) rfl
    exact .advance (.bind (ensures_projectionBody hE _) fun _ _ hbody ↦
      .pure (.implicit (.flatten hbody)))
  case h_9 hk =>
    obtain ⟨ts, rfl⟩ := eq_cons_of_head (hk ▸ ht) rfl
    exact .advance ((ensures_filter hE .currentNode rfl).mono fun _ _ ↦ .implicit)
  case h_10 hk =>
    obtain ⟨ts, rfl⟩ := eq_cons_of_head (hk ▸ ht) rfl
    exact .advance ((ensures_multiSelectHash hE rfl).mono fun _ _ ↦ .hash)
  case h_11 hk =>
    obtain ⟨ts, rfl⟩ := eq_cons_of_head (hk ▸ ht) rfl
    exact .advance (.map ((hE _ ts).mono fun _ _ ↦ .not))
  case h_12 hk =>
    obtain ⟨ts, rfl⟩ := eq_cons_of_head (hk ▸ ht) rfl
    refine .advance (.bind (ensures_grouped hE _) fun inner mid hinner ↦ .expectCloser ?_)
    rintro rest rfl
    exact .pure (.group hinner)
  case h_13 => exact .fail _
  case h_14 => exact .fail _
  case h_15 => exact .fail _
  case h_16 => exact .unexpected _

theorem ensures_extend (left : Expr) :
    Ensures (extend expression left) ts (Reads (.extend left) ts) := by
  refine .current fun t ht ↦ ?_
  split
  case h_1 hk =>
    obtain ⟨ts, rfl⟩ := eq_cons_of_head (hk ▸ ht) rfl
    exact .advance (.map ((ensures_afterDot hE _).mono fun _ _ ↦ .dot))
  case h_2 hk =>
    obtain ⟨ts, rfl⟩ := eq_cons_of_head (hk ▸ ht) rfl
    exact .advance (.map ((hE _ ts).mono fun _ _ ↦ .binary rfl))
  case h_3 hk =>
    obtain ⟨ts, rfl⟩ := eq_cons_of_head (hk ▸ ht) rfl
    exact .advance (.map ((hE _ ts).mono fun _ _ ↦ .binary rfl))
  case h_4 hk =>
    obtain ⟨ts, rfl⟩ := eq_cons_of_head (hk ▸ ht) rfl
    exact .advance (.map ((hE _ ts).mono fun _ _ ↦ .binary rfl))
  case h_5 op hk =>
    obtain ⟨ts, rfl⟩ := eq_cons_of_head (hk ▸ ht) rfl
    exact .advance (.map ((hE _ ts).mono fun _ _ ↦ .binary rfl))
  case h_6 hk =>
    obtain ⟨ts, rfl⟩ := eq_cons_of_head (hk ▸ ht) rfl
    exact .advance (.map ((ensures_projectionBody hE _).mono fun _ _ hbody ↦
      .explicit (.flatten hbody)))
  case h_7 hk =>
    obtain ⟨ts, rfl⟩ := eq_cons_of_head (hk ▸ ht) rfl
    exact .advance ((ensures_filter hE left rfl).mono fun _ _ ↦ .explicit)
  case h_8 hk =>
    obtain ⟨ts, rfl⟩ := eq_cons_of_head (hk ▸ ht) rfl
    refine .advance (.current fun t' ht' ↦ ?_)
    split
    case h_1 => exact (ensures_indexOrSlice hE left _).mono fun _ _ ↦ .explicit
    case h_2 => exact (ensures_indexOrSlice hE left _).mono fun _ _ ↦ .explicit
    case h_3 hk' =>
      obtain ⟨ts, rfl⟩ := eq_cons_of_head (hk' ▸ ht') rfl
      refine .advance (.expectCloser ?_)
      rintro ts' rfl
      exact .map ((ensures_projectionBody hE _).mono fun _ _ hbody ↦ .explicit (.wildcard hbody))
    case h_4 => exact .failAt _ _
    case h_5 => exact .unexpected _
  case h_9 hk =>
    obtain ⟨ts, rfl⟩ := eq_cons_of_head (hk ▸ ht) rfl
    split
    · exact .previousPosition fun _ ↦ .advance (ensures_functionCall hE _ _ _)
    · exact .fail _
  case h_10 => exact .unexpected _

theorem ensures_climb (p : Nat) (n : Nat) (left : Expr) (hn : ts.length < n) :
    Ensures (climb expression p n left) ts (Reads (.climb p left) ts) := by
  induction n generalizing ts left with
  | zero => omega
  | succ n ih =>
    refine .current fun t ht ↦ ?_
    split
    · next hp =>
      refine .bind (ensures_extend hE left) fun left' mid hleft ↦ ?_
      have hmid : mid.length + 1 ≤ ts.length := hleft.length_le
      rw [ht] at hp
      exact (ih left' (by omega)).mono fun _ _ ↦ .step hp hleft
    · next hp =>
      rw [ht] at hp
      exact .pure (.stop (Nat.le_of_not_lt hp))

end

theorem ensures_expressionWithin (n p : Nat) (ts : List TokenKind) :
    Ensures (expressionWithin n p) ts (Reads (.expression p) ts) := by
  induction n generalizing p ts with
  | zero => exact .fail _
  | succ n ih =>
    exact .bind (ensures_head ih) fun left mid hleft ↦
      .turns ((ensures_climb ih p _ left (Nat.lt_succ_self _)).mono fun _ _ ↦ .expression hleft)

theorem ensures_complete :
    Ensures complete ts fun e rest ↦ rest = [] ∧ Reads (.expression 0) ts e [] := by
  refine .bind (.turns (ensures_expressionWithin _ _ ts)) fun e mid he ↦ ?_
  refine .currentEnd fun t ht ↦ ?_
  split
  · next hend =>
    obtain rfl : mid = [] := List.isEmpty_iff.mp (ht ▸ hend)
    exact .pure ⟨rfl, he⟩
  · exact .unexpected _

end Parser

end PathQuery
