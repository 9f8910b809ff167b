import PathQuery.Proofs.Parser.Indexed
import PathQuery.Proofs.Parser.Running

namespace PathQuery

variable {α β : Type} {tokens : List Token} {b : BoundedTokens} {i j k l n : Nat}
  {e : SyntaxError}

namespace Indexed

theorem token_eq {t : Token} (h : b.tokens[j]? = some t) :
    token j b i = some (.ok t, i) := by
  change element b.tokens[j]? b i = _
  rw [h]
  rfl

theorem bind_of_ok {x : IndexedM α} {f : α → IndexedM β} {a : α}
    (h : x b i = some (.ok a, j)) : (x >>= f) b i = f a b j := by
  change Option.bind (x b i) _ = _
  rw [h]
  rfl

theorem bind_of_error {x : IndexedM α} {f : α → IndexedM β} (h : x b i = some (.error e, j)) :
    (x >>= f) b i = some (.error e, j) := by
  change Option.bind (x b i) _ = _
  rw [h]
  rfl

end Indexed

structure TokenCursor.At (c : TokenCursor) (tokens : List Token) (i : Nat) : Prop where
  drop_eq : tokens.drop i = c.current :: c.following
  previous_eq : tokens[i - 1]?.map Token.position = some c.previous

def TokenCursor.index (tokens : List Token) (c : TokenCursor) : Nat :=
  tokens.length - (c.following.length + 1)

namespace TokenCursor.At

variable {c : TokenCursor} {t : Token} {ts : List Token}

theorem ofTokens (h : tokens ≠ []) : (TokenCursor.ofTokens tokens).At tokens 0 := by
  cases tokens with
  | nil => exact absurd rfl h
  | cons t ts => exact ⟨rfl, rfl⟩

theorem length_eq (h : c.At tokens i) : i + c.following.length + 1 = tokens.length := by
  have hlength := congrArg List.length h.drop_eq
  rw [List.length_drop, List.length_cons] at hlength
  omega

theorem index_eq (h : c.At tokens i) : c.index tokens = i := by
  rw [index, ← h.length_eq, Nat.add_assoc, Nat.add_sub_cancel]

theorem lt_length (h : c.At tokens i) : i < tokens.length :=
  h.length_eq ▸ Nat.lt_succ_of_le (Nat.le_add_right i _)

theorem length_following_lt (h : c.At tokens i) : c.following.length < tokens.length :=
  h.length_eq ▸ Nat.lt_succ_of_le (Nat.le_add_left _ i)

theorem getElem?_add (h : c.At tokens i) (j : Nat) :
    tokens[i + j]? = (c.current :: c.following)[j]? := by
  rw [← List.getElem?_drop, h.drop_eq]

theorem current_mem (h : c.At tokens i) : c.current ∈ tokens :=
  List.mem_of_getElem? (h.getElem?_add 0)

theorem previous_mem (h : c.At tokens i) : c.previous ∈ tokens.map Token.position := by
  obtain ⟨t, ht, hprevious⟩ := Option.map_eq_some_iff.1 h.previous_eq
  exact hprevious ▸ List.mem_map_of_mem (List.mem_of_getElem? ht)

theorem getLast?_eq (h : c.At tokens i) :
    tokens.getLast? = (c.current :: c.following).getLast? := by
  have hlength := h.length_eq
  rw [← h.drop_eq, List.getLast?_drop, if_neg (by omega)]

theorem current_eq (h : c.At b.tokens i) :
    (Parser.current : IndexedM Token) b i = some (.ok c.current, i) :=
  Indexed.token_eq (h.getElem?_add 0)

theorem peek_eq (h : c.At b.tokens i) :
    (Parser.peek : IndexedM Token) b i = some (.ok (c.following.headD c.current), i) := by
  have hlength := h.length_eq
  refine Indexed.token_eq ?_
  cases hf : c.following with
  | nil =>
    rw [hf, List.length_nil] at hlength
    rw [Nat.min_eq_right (by omega), show b.tokens.length - 1 = i by omega]
    exact h.getElem?_add 0
  | cons t ts =>
    rw [hf, List.length_cons] at hlength
    rw [Nat.min_eq_left (by omega), h.getElem?_add 1, hf]
    rfl

theorem previousPosition_eq (h : c.At b.tokens i) :
    (Parser.previousPosition : IndexedM Nat) b i = some (.ok c.previous, i) := by
  obtain ⟨t, ht, hprevious⟩ := Option.map_eq_some_iff.1 h.previous_eq
  rw [← hprevious]
  exact Indexed.bind_of_ok (Indexed.token_eq ht)

theorem advance_eq (h : c.At b.tokens i) :
    ∃ c' j, (Parser.advance : ParseM Unit) c = .ok () c' ∧
      (Parser.advance : IndexedM Unit) b i = some (.ok (), j) ∧
      c'.At b.tokens j ∧ i ≤ j ∧ (c.following ≠ [] → i < j) := by
  have hlength := h.length_eq
  have hadvance : (Parser.advance : IndexedM Unit) b i =
      (if i < b.tokens.length - 1 then Indexed.moveTo (i + 1) else pure ()) b i := rfl
  obtain ⟨previous, current, following⟩ := c
  cases following with
  | nil =>
    refine ⟨_, i, rfl, ?_, h, Nat.le_refl i, fun hne ↦ absurd rfl hne⟩
    rw [List.length_nil] at hlength
    rw [hadvance, if_neg (by omega)]
    rfl
  | cons t ts =>
    refine ⟨_, i + 1, rfl, ?_, ⟨?_, ?_⟩, Nat.le_succ i, fun _ ↦ Nat.lt_succ_self i⟩
    · rw [List.length_cons] at hlength
      rw [hadvance, if_pos (by omega), Indexed.moveTo, if_pos (by omega)]
    · rw [← List.tail_drop, h.drop_eq]
      rfl
    · exact congrArg (Option.map Token.position) (h.getElem?_add 0)

end TokenCursor.At

namespace Parser

/-- What a rule did over a cursor was done over the index, too: it moved on by at least `k` tokens
for a result and did not go back for an error, which is at a token. -/
inductive Agrees (tokens : List Token) (i k : Nat) :
    EStateM.Result SyntaxError TokenCursor α → Option (Except SyntaxError α × Nat) → Prop
  | ok {a : α} {c : TokenCursor} {j : Nat} (hc : c.At tokens j) (h : i + k ≤ j) :
      Agrees tokens i k (.ok a c) (some (.ok a, j))
  | error {e : SyntaxError} {c : TokenCursor} {j : Nat} (hc : c.At tokens j) (h : i ≤ j)
      (he : e.position ∈ tokens.map Token.position) :
      Agrees tokens i k (.error e c) (some (.error e, j))

namespace Agrees

variable {c : TokenCursor} {s : EStateM.Result SyntaxError TokenCursor α}
  {r : Option (Except SyntaxError α × Nat)}

theorem of_le (hle : i + k ≤ j) (h : Agrees tokens j l s r) : Agrees tokens i (k + l) s r := by
  cases h with
  | ok hc h => exact .ok hc (by omega)
  | error hc h he => exact .error hc (by omega) he

theorem weaken (h : Agrees tokens i k s r) : Agrees tokens i 0 s r := by
  cases h with
  | ok hc h => exact .ok hc (Nat.le_of_add_right_le h)
  | error hc h he => exact .error hc h he

theorem of_ok {a : α} (h : Agrees tokens i k (.ok a c) r) :
    r = some (.ok a, c.index tokens) ∧ c.At tokens (c.index tokens) ∧
      i + k ≤ c.index tokens := by
  cases h with
  | ok hc hle => exact ⟨by rw [hc.index_eq], hc.index_eq.symm ▸ hc, hc.index_eq.symm ▸ hle⟩

theorem of_error (h : Agrees tokens i k (.error e c) r) :
    r = some (.error e, c.index tokens) ∧ c.At tokens (c.index tokens) ∧
      i ≤ c.index tokens ∧ e.position ∈ tokens.map Token.position := by
  cases h with
  | error hc hle he =>
    exact ⟨by rw [hc.index_eq], hc.index_eq.symm ▸ hc, hc.index_eq.symm ▸ hle, he⟩

end Agrees

/-- From the token `t`, with fewer than `n` behind it, the rules agree. -/
def FollowsAt (b : BoundedTokens) (t : Token) (n k : Nat) (m : ParseM α) (x : IndexedM α) :
    Prop :=
  ∀ (c : TokenCursor) (i : Nat), c.At b.tokens i → c.current = t → c.following.length < n →
    Agrees b.tokens i k (m c) (x b i)

def Follows (b : BoundedTokens) (n k : Nat) (m : ParseM α) (x : IndexedM α) : Prop :=
  ∀ t, FollowsAt b t n k m x

variable {t : Token} {m : ParseM α} {x : IndexedM α} {f : α → ParseM β} {f' : α → IndexedM β}
  {p : Nat} {o : Opening}

namespace FollowsAt

theorem pure (a : α) : FollowsAt b t n 0 (Pure.pure a) (Pure.pure a) :=
  fun _ _ hc _ _ ↦ .ok hc (Nat.le_refl _)

theorem weaken (h : FollowsAt b t n k m x) : FollowsAt b t n 0 m x :=
  fun c i hc ht hn ↦ (h c i hc ht hn).weaken

/-- A rule that moved on by `k` tokens leaves as many less behind the current one. -/
theorem andThen (hm : FollowsAt b t n k m x) (hf : ∀ a, Follows b (n - k) l (f a) (f' a)) :
    FollowsAt b t n (k + l) (m >>= f) (x >>= f') := by
  intro c i hc ht hn
  have hagrees := hm c i hc ht hn
  change Agrees b.tokens i (k + l) (EStateM.bind m f c) _
  rw [EStateM.bind]
  cases hm : m c with
  | ok a c' =>
    rw [hm] at hagrees
    generalize hx : x b i = r at hagrees
    cases hagrees with
    | @ok _ _ j hc' hle =>
      have hlength := hc.length_eq
      have hlength' := hc'.length_eq
      rw [Indexed.bind_of_ok hx]
      exact (hf a _ c' j hc' rfl (by omega)).of_le hle
  | error e c' =>
    rw [hm] at hagrees
    generalize hx : x b i = r at hagrees
    cases hagrees with
    | error hc' hle he =>
      rw [Indexed.bind_of_error hx]
      exact .error hc' hle he

theorem bind (hm : FollowsAt b t n k m x) (hf : ∀ a, Follows b (n - k) 0 (f a) (f' a)) :
    FollowsAt b t n k (m >>= f) (x >>= f') :=
  andThen hm hf

theorem bindPast (hm : FollowsAt b t (n + 1) 1 m x)
    (hf : ∀ a, Follows b n 0 (f a) (f' a)) :
    FollowsAt b t (n + 1) 0 (m >>= f) (x >>= f') :=
  (bind hm hf).weaken

theorem map {g : α → β} (hm : FollowsAt b t n k m x) :
    FollowsAt b t n k (do return g (← m)) (do return g (← x)) :=
  hm.bind fun _ _ ↦ pure _

theorem mono_bound (h : FollowsAt b t n k m x) (hl : l ≤ n) : FollowsAt b t l k m x :=
  fun c i hc ht hn ↦ h c i hc ht (Nat.lt_of_lt_of_le hn hl)

theorem ite {q : Prop} [Decidable q] {m' : ParseM α} {x' : IndexedM α}
    (h : FollowsAt b t n k m x) (h' : FollowsAt b t n k m' x') :
    FollowsAt b t n k (if q then m else m') (if q then x else x') := by
  by_cases hq : q
  · rw [if_pos hq, if_pos hq]
    exact h
  · rw [if_neg hq, if_neg hq]
    exact h'

theorem current {f : Token → ParseM β} {f' : Token → IndexedM β}
    (h : t ∈ b.tokens → FollowsAt b t n k (f t) (f' t)) :
    FollowsAt b t n k (current >>= f) (current >>= f') := by
  rintro c i hc rfl hn
  rw [Indexed.bind_of_ok hc.current_eq]
  exact h hc.current_mem c i hc rfl hn

theorem peek {f : Token → ParseM β} {f' : Token → IndexedM β}
    (h : ∀ u, FollowsAt b t n k (f u) (f' u)) :
    FollowsAt b t n k (peek >>= f) (peek >>= f') := by
  intro c i hc ht hn
  rw [Indexed.bind_of_ok hc.peek_eq]
  exact h _ c i hc ht hn

theorem previousPosition {f : Nat → ParseM β} {f' : Nat → IndexedM β}
    (h : ∀ p ∈ b.tokens.map Token.position, FollowsAt b t n k (f p) (f' p)) :
    FollowsAt b t n k (previousPosition >>= f) (previousPosition >>= f') := by
  intro c i hc ht hn
  rw [Indexed.bind_of_ok hc.previousPosition_eq]
  exact h _ hc.previous_mem c i hc ht hn

theorem turns {f : Nat → ParseM β} {f' : Nat → IndexedM β}
    (h : ∀ r, r ≤ n → FollowsAt b t r k (f r) (f' b.turns)) :
    FollowsAt b t n k (turns >>= f) (Parser.turns >>= f') :=
  fun c i hc ht hn ↦ h (c.following.length + 1) hn c i hc ht (Nat.lt_succ_self _)

theorem slicePart {f : Option Int64 → ParseM β} {f' : Option Int64 → IndexedM β}
    {parts : SliceParts} (hj : j < 3) (h : ∀ part, FollowsAt b t n k (f part) (f' part)) :
    FollowsAt b t n k (slicePart parts j >>= f) (Parser.slicePart parts j >>= f') := by
  intro c i hc ht hn
  obtain ⟨part, hpart⟩ : ∃ part, parts.get? j = some part := by
    match j, hj with
    | 0, _ => exact ⟨_, rfl⟩
    | 1, _ => exact ⟨_, rfl⟩
    | 2, _ => exact ⟨_, rfl⟩
  have hx : (Parser.slicePart parts j : IndexedM _) b i = some (.ok part, i) := by
    change Indexed.element (parts.get? j) b i = _
    rw [hpart]
    rfl
  have hm : (Parser.slicePart parts j >>= f) c = f part c := by
    change f ((parts.get? j).getD none) c = _
    rw [hpart]
    rfl
  rw [Indexed.bind_of_ok hx, hm]
  exact h part c i hc ht hn

theorem check {f : Bool → ParseM β} {f' : Bool → IndexedM β} (s : Symbol)
    (h : FollowsAt b t n k (f (t.kind.isSymbol s)) (f' (t.kind.isSymbol s))) :
    FollowsAt b t n k (check s >>= f) (check s >>= f') := by
  rintro c i hc rfl hn
  have hcheck : (Parser.check s : IndexedM Bool) b i = some (.ok (c.current.kind.isSymbol s), i) :=
    Indexed.bind_of_ok hc.current_eq
  rw [Indexed.bind_of_ok hcheck]
  exact h c i hc rfl hn

theorem advance : FollowsAt b t n 0 advance advance := by
  intro c i hc _ _
  obtain ⟨c', j, hm, hx, hc', hle, -⟩ := hc.advance_eq
  rw [hm, hx]
  exact .ok hc' hle

/-- Past the last token there is nothing to go on to, but every other one is left behind. -/
theorem thenAdvancePast {f : Unit → ParseM β} {f' : Unit → IndexedM β}
    (hlast : ∀ u ∈ b.tokens.getLast?, u.kind.isEnd = true) (ht : t.kind.isEnd = false)
    (h : Follows b n 0 (f ()) (f' ())) :
    FollowsAt b t (n + 1) 1 (Parser.advance >>= f) (Parser.advance >>= f') := by
  refine .bind ?_ fun _ ↦ h
  rintro c i hc rfl _
  obtain ⟨c', j, hm, hx, hc', -, hlt⟩ := hc.advance_eq
  rw [hm, hx]
  refine .ok hc' (hlt fun hnil ↦ ?_)
  rw [hlast c.current (by rw [hc.getLast?_eq, hnil]; rfl)] at ht
  cases ht

theorem thenAdvance {f : Unit → ParseM β} {f' : Unit → IndexedM β}
    (h : Follows b n k (f ()) (f' ())) :
    FollowsAt b t n k (Parser.advance >>= f) (Parser.advance >>= f') :=
  Nat.zero_add k ▸ andThen advance fun _ ↦ h

theorem failAt (hp : p ∈ b.tokens.map Token.position) (fault : SyntaxFault) :
    FollowsAt b t n k (failAt p fault : ParseM α) (failAt p fault) :=
  fun _ _ hc _ _ ↦ .error hc (Nat.le_refl _) hp

theorem fail (fault : SyntaxFault) :
    FollowsAt b t n k (fail fault : ParseM α) (fail fault) :=
  current fun ht ↦ failAt (List.mem_map_of_mem ht) fault

theorem unexpected (place : Place) :
    FollowsAt b t n k (unexpected place : ParseM α) (unexpected place) :=
  current fun ht ↦ failAt (List.mem_map_of_mem ht) _

theorem unexpectedThen (place : Place) :
    FollowsAt b t n k (Parser.unexpected place >>= f) (Parser.unexpected place >>= f') := by
  intro c i hc _ _
  have hx : (Parser.unexpected place : IndexedM α) b i =
      some (.error ⟨c.current.position, .unexpected c.current.kind place⟩, i) :=
    Indexed.bind_of_ok hc.current_eq
  rw [Indexed.bind_of_error hx]
  exact .error hc (Nat.le_refl _) (List.mem_map_of_mem hc.current_mem)

theorem missingCloser (ho : o.position ∈ b.tokens.map Token.position) :
    FollowsAt b t n k (missingCloser o : ParseM α) (missingCloser o) :=
  current fun _ ↦ ite (failAt ho _) (unexpected _)

theorem expectCloser (ho : o.position ∈ b.tokens.map Token.position) :
    FollowsAt b t n 0 (expectCloser o) (expectCloser o) :=
  check _ (ite advance (missingCloser ho))

end FollowsAt

theorem follows_hashKey (ho : o.position ∈ b.tokens.map Token.position) (isFirst : Bool) :
    Follows b n 0 (hashKey o isFirst) (hashKey o isFirst) := by
  rintro ⟨kind, text, position⟩
  refine .current fun _ ↦ ?_
  cases kind with
  | identifier name => exact .thenAdvance fun _ ↦ .pure name
  | quotedIdentifier name => exact .thenAdvance fun _ ↦ .pure name
  | endOfInput => exact .failAt ho _
  | symbol s =>
    cases s with
    | rightBrace => exact .ite (.failAt ho _) (.unexpected _)
    | _ => exact .unexpected _
  | _ => exact .unexpected _

/-- Every turn takes a number or a colon, so that the loop makes no more turns than tokens are
left. -/
theorem follows_sliceParts (hlast : ∀ u ∈ b.tokens.getLast?, u.kind.isEnd = true)
    (ho : o.position ∈ b.tokens.map Token.position) {r turns : Nat} (hr : r ≤ turns) (hi : i < 3)
    (parts : SliceParts) :
    Follows b r 0 (sliceParts o r i parts) (sliceParts o turns i parts) := by
  induction r generalizing turns i parts with
  | zero => exact fun _ _ _ _ _ hn ↦ absurd hn (Nat.not_lt_zero _)
  | succ r ih =>
    obtain ⟨turns, rfl⟩ := Nat.exists_eq_add_one.2 (Nat.zero_lt_of_lt hr)
    have hmore {j : Nat} (hj : j < 3) (parts : SliceParts) {t : Token}
        (ht : t.kind.isEnd = false) :
        FollowsAt b t (r + 1) 0 (advance >>= fun _ ↦ sliceParts o r j parts)
          (advance >>= fun _ ↦ sliceParts o turns j parts) :=
      (FollowsAt.thenAdvancePast hlast ht (ih (Nat.le_of_succ_le_succ hr) hj parts)).weaken
    rintro ⟨kind, text, position⟩
    refine .current fun _ ↦ ?_
    cases kind with
    | number n => exact .slicePart hi fun part ↦ .ite (.unexpected _) (hmore hi _ rfl)
    | endOfInput => exact .missingCloser ho
    | symbol s =>
      cases s with
      | colon =>
        change FollowsAt _ _ _ _ (if 2 < i + 1 then _ else _) (if 2 < i + 1 then _ else _)
        by_cases hnext : 2 < i + 1
        · rw [if_pos hnext, if_pos hnext]
          exact .fail _
        · rw [if_neg hnext, if_neg hnext]
          exact hmore (Nat.lt_of_not_le hnext) parts rfl
      | rightBracket => exact .thenAdvance fun _ ↦ .pure _
      | _ => exact .unexpected _
    | _ => exact .unexpected _

section

variable {expression : Nat → ParseM Expr} {expression' : Nat → IndexedM Expr}
  (hE : ∀ p, Follows b n 1 (expression p) (expression' p))

include hE

theorem follows_grouped (ho : o.position ∈ b.tokens.map Token.position) :
    Follows b n 1 (grouped expression o) (grouped expression' o) :=
  fun t ↦ .current fun _ ↦ .ite (.missingCloser ho) (hE 0 t)

theorem follows_listItems (ho : o.position ∈ b.tokens.map Token.position) {r turns : Nat}
    (hr : r ≤ n) (hturns : r ≤ turns) :
    Follows b r 0 (listItems expression o r) (listItems expression' o turns) := by
  induction r generalizing turns with
  | zero => exact fun _ _ _ _ _ hn ↦ absurd hn (Nat.not_lt_zero _)
  | succ r ih =>
    obtain ⟨turns, rfl⟩ := Nat.exists_eq_add_one.2 (Nat.zero_lt_of_lt hturns)
    have hrest := ih (Nat.le_of_succ_le hr) (Nat.le_of_succ_le_succ hturns)
    refine fun t ↦ ((follows_grouped hE ho t).mono_bound hr).bindPast fun item u ↦ ?_
    refine .check _ (.ite (.thenAdvance fun v ↦ (hrest v).map) ?_)
    exact (FollowsAt.expectCloser ho).bind fun _ _ ↦ .pure _

theorem follows_hashPairs (ho : o.position ∈ b.tokens.map Token.position) {r turns : Nat}
    (hr : r ≤ n) (hturns : r ≤ turns) (isFirst : Bool) :
    Follows b r 0 (hashPairs expression o r isFirst)
      (hashPairs expression' o turns isFirst) := by
  induction r generalizing turns isFirst with
  | zero => exact fun _ _ _ _ _ hn ↦ absurd hn (Nat.not_lt_zero _)
  | succ r ih =>
    obtain ⟨turns, rfl⟩ := Nat.exists_eq_add_one.2 (Nat.zero_lt_of_lt hturns)
    have hrest := ih (Nat.le_of_succ_le hr) (Nat.le_of_succ_le_succ hturns) false
    refine fun t ↦ (follows_hashKey ho isFirst t).bind fun key u ↦ .check _ (.ite ?_ ?_)
    · refine .thenAdvance fun v ↦ ?_
      refine ((follows_grouped hE ho v).mono_bound hr).bindPast fun value w ↦ ?_
      refine .check _ (.ite (.thenAdvance fun v ↦ (hrest v).map) ?_)
      exact (FollowsAt.expectCloser ho).bind fun _ _ ↦ .pure _
    · exact .unexpectedThen _

theorem follows_argument (ho : o.position ∈ b.tokens.map Token.position) :
    Follows b n 1 (argument expression o) (argument expression' o) := by
  refine fun t ↦ .check _ (.ite ?_ (follows_grouped hE ho t))
  exact .thenAdvance fun u ↦ (follows_grouped hE ho u).map

theorem follows_arguments (ho : o.position ∈ b.tokens.map Token.position) {r turns : Nat}
    (hr : r ≤ n) (hturns : r ≤ turns) :
    Follows b r 0 (arguments expression o r) (arguments expression' o turns) := by
  induction r generalizing turns with
  | zero => exact fun _ _ _ _ _ hn ↦ absurd hn (Nat.not_lt_zero _)
  | succ r ih =>
    obtain ⟨turns, rfl⟩ := Nat.exists_eq_add_one.2 (Nat.zero_lt_of_lt hturns)
    have hrest := ih (Nat.le_of_succ_le hr) (Nat.le_of_succ_le_succ hturns)
    refine fun t ↦ .check _ (.ite (.thenAdvance fun _ ↦ .pure _) ?_)
    refine ((follows_argument hE ho t).mono_bound hr).bindPast fun arg u ↦ ?_
    refine .check _ (.ite (.thenAdvance fun v ↦ ?_) ?_)
    · exact .check _ (.ite (.unexpected _) (hrest v).map)
    · exact .check _ (.ite (.thenAdvance fun _ ↦ .pure _) (.missingCloser ho))

variable (hturns : n ≤ b.turns)

include hturns

theorem follows_multiSelectList (ho : o.position ∈ b.tokens.map Token.position) :
    Follows b n 0 (multiSelectList expression o)
      (multiSelectList expression' o) :=
  fun t ↦ .turns fun _ hr ↦ (follows_listItems hE ho hr (Nat.le_trans hr hturns) t).map

theorem follows_multiSelectHash (ho : o.position ∈ b.tokens.map Token.position) :
    Follows b n 0 (multiSelectHash expression o)
      (multiSelectHash expression' o) :=
  fun t ↦ .turns fun _ hr ↦ (follows_hashPairs hE ho hr (Nat.le_trans hr hturns) true t).map

theorem follows_functionCall (name : String) (hp : p ∈ b.tokens.map Token.position)
    (ho : o.position ∈ b.tokens.map Token.position) :
    Follows b n 0 (functionCall expression name p o)
      (functionCall expression' name p o) :=
  fun t ↦ .ite (.failAt hp _)
    (.turns fun _ hr ↦ (follows_arguments hE ho hr (Nat.le_trans hr hturns) t).map)

theorem follows_afterDot (p : Nat) :
    Follows b n 0 (afterDot expression p) (afterDot expression' p) := by
  rintro ⟨kind, text, position⟩
  refine .current fun ht ↦ ?_
  have ho : position ∈ b.tokens.map Token.position := List.mem_map_of_mem ht
  cases kind with
  | identifier => exact (hE p _).weaken
  | quotedIdentifier => exact (hE p _).weaken
  | endOfInput => exact .fail _
  | symbol s =>
    cases s with
    | leftBracket => exact .thenAdvance (follows_multiSelectList hE hturns ho)
    | leftBrace => exact .thenAdvance (follows_multiSelectHash hE hturns ho)
    | star => exact (hE p _).weaken
    | _ => exact .unexpected _
  | _ => exact .unexpected _

theorem follows_projectionBody (p : Nat) :
    Follows b n 0 (projectionBody expression p)
      (projectionBody expression' p) := by
  rintro ⟨kind, text, position⟩
  refine .current fun _ ↦ .ite (.pure _) ?_
  cases kind with
  | symbol s =>
    cases s with
    | dot => exact .thenAdvance (follows_afterDot hE hturns p)
    | leftBracket => exact (hE p _).weaken
    | filter => exact (hE p _).weaken
    | _ => exact .unexpected _
  | _ => exact .unexpected _

theorem follows_filter (source : Expr) (ho : o.position ∈ b.tokens.map Token.position) :
    Follows b n 0 (filter expression source o)
      (filter expression' source o) := by
  refine fun t ↦ (follows_grouped hE ho t).weaken.bind fun predicate _ ↦ ?_
  exact (FollowsAt.expectCloser ho).bind fun _ u ↦ (follows_projectionBody hE hturns _ u).map

variable (hlast : ∀ u ∈ b.tokens.getLast?, u.kind.isEnd = true)

include hlast

theorem follows_indexOrSlice (left : Expr) (ho : o.position ∈ b.tokens.map Token.position) :
    Follows b n 0 (indexOrSlice expression left o)
      (indexOrSlice expression' left o) := by
  refine fun t ↦ .turns fun r hr ↦ ?_
  have hparts := follows_sliceParts hlast ho (Nat.le_trans hr hturns) (Nat.zero_lt_succ 2)
    ⟨none, none, none⟩ t
  refine hparts.bind fun (i, parts) u ↦ .ite ?_ ?_
  · cases parts.start with
    | none => exact .failAt ho _
    | some i => exact .pure _
  · refine .ite (.failAt ho _) ?_
    exact ((follows_projectionBody hE hturns Symbol.star.leftPower u).mono_bound hr).map

/-- A rule for an expression reads its first token before it comes to another expression. -/
theorem follows_head :
    Follows b (n + 1) 1 (head expression) (head expression') := by
  rintro ⟨kind, text, position⟩
  refine .current fun ht ↦ ?_
  have ho : position ∈ b.tokens.map Token.position := List.mem_map_of_mem ht
  cases kind with
  | identifier name => exact .thenAdvancePast hlast rfl fun _ ↦ .pure _
  | quotedIdentifier name =>
    exact .thenAdvancePast hlast rfl fun _ ↦ .check _ (.ite (.failAt ho _) (.pure _))
  | literal value => exact .thenAdvancePast hlast rfl fun _ ↦ .pure _
  | rawString s => exact .thenAdvancePast hlast rfl fun _ ↦ .pure _
  | number => exact .fail _
  | endOfInput => exact .fail _
  | symbol s =>
    cases s with
    | current => exact .thenAdvancePast hlast rfl fun _ ↦ .pure _
    | star =>
      exact .thenAdvancePast hlast rfl fun u ↦ (follows_projectionBody hE hturns _ u).map
    | flatten =>
      exact .thenAdvancePast hlast rfl fun u ↦ (follows_projectionBody hE hturns _ u).map
    | filter => exact .thenAdvancePast hlast rfl (follows_filter hE hturns _ ho)
    | leftBrace => exact .thenAdvancePast hlast rfl (follows_multiSelectHash hE hturns ho)
    | not => exact .thenAdvancePast hlast rfl fun u ↦ (hE _ u).weaken.map
    | leftParen =>
      refine .thenAdvancePast hlast rfl fun u ↦ ?_
      refine (follows_grouped hE ho u).weaken.bind fun inner v ↦ ?_
      exact (FollowsAt.expectCloser ho).bind fun _ _ ↦ .pure _
    | ampersand => exact .fail _
    | leftBracket =>
      refine .thenAdvancePast hlast rfl ?_
      rintro ⟨kind, text, position'⟩
      refine .current fun _ ↦ ?_
      cases kind with
      | number => exact follows_indexOrSlice hE hturns hlast _ ho _
      | symbol s =>
        cases s with
        | colon => exact follows_indexOrSlice hE hturns hlast _ ho _
        | star =>
          refine .peek fun u ↦ .ite ?_ (follows_multiSelectList hE hturns ho _)
          refine .thenAdvance fun _ ↦ .thenAdvance fun v ↦ ?_
          exact (follows_projectionBody hE hturns _ v).map
        | _ => exact follows_multiSelectList hE hturns ho _
      | _ => exact follows_multiSelectList hE hturns ho _
    | _ => exact .unexpected _

theorem follows_extend (left : Expr) :
    Follows b (n + 1) 1 (extend expression left)
      (extend expression' left) := by
  rintro ⟨kind, text, position⟩
  refine .current fun ht ↦ ?_
  have ho : position ∈ b.tokens.map Token.position := List.mem_map_of_mem ht
  cases kind with
  | symbol s =>
    cases s with
    | dot => exact .thenAdvancePast hlast rfl fun u ↦ (follows_afterDot hE hturns _ u).map
    | pipe => exact .thenAdvancePast hlast rfl fun u ↦ (hE _ u).weaken.map
    | or => exact .thenAdvancePast hlast rfl fun u ↦ (hE _ u).weaken.map
    | and => exact .thenAdvancePast hlast rfl fun u ↦ (hE _ u).weaken.map
    | comparator op => exact .thenAdvancePast hlast rfl fun u ↦ (hE _ u).weaken.map
    | flatten =>
      exact .thenAdvancePast hlast rfl fun u ↦ (follows_projectionBody hE hturns _ u).map
    | filter => exact .thenAdvancePast hlast rfl (follows_filter hE hturns _ ho)
    | leftBracket =>
      refine .thenAdvancePast hlast rfl ?_
      rintro ⟨kind, text, position'⟩
      refine .current fun _ ↦ ?_
      cases kind with
      | number => exact follows_indexOrSlice hE hturns hlast _ ho _
      | endOfInput => exact .failAt ho _
      | symbol s =>
        cases s with
        | colon => exact follows_indexOrSlice hE hturns hlast _ ho _
        | star =>
          refine .thenAdvance fun _ ↦ (FollowsAt.expectCloser ho).bind fun _ u ↦ ?_
          exact (follows_projectionBody hE hturns _ u).map
        | _ => exact .unexpected _
      | _ => exact .unexpected _
    | leftParen =>
      cases left with
      | field name =>
        refine .previousPosition fun p hp ↦ ?_
        exact .thenAdvancePast hlast rfl (follows_functionCall hE hturns name hp ho)
      | _ => exact .fail _
    | _ => exact .unexpected _
  | _ => exact .unexpected _

theorem follows_climb (p : Nat) {r more : Nat} (hr : r ≤ n + 1) (hmore : r ≤ more) (left : Expr) :
    Follows b r 0 (climb expression p r left)
      (climb expression' p more left) := by
  induction r generalizing more left with
  | zero => exact fun _ _ _ _ _ hn ↦ absurd hn (Nat.not_lt_zero _)
  | succ r ih =>
    obtain ⟨more, rfl⟩ := Nat.exists_eq_add_one.2 (Nat.zero_lt_of_lt hmore)
    have hrest := ih (Nat.le_of_succ_le hr) (Nat.le_of_succ_le_succ hmore)
    refine fun t ↦ .current fun _ ↦ .ite ?_ (.pure _)
    exact ((follows_extend hE hturns hlast left t).mono_bound hr).bindPast hrest

end

section

variable (hlast : ∀ u ∈ b.tokens.getLast?, u.kind.isEnd = true)

include hlast

/-- Each expression that is nested in another has less tokens left than that one, since a token of
the outer one was read before. -/
theorem follows_expressionWithin {depth depth' : Nat} (hdepth : n ≤ depth) (hdepth' : n ≤ depth')
    (hturns : n ≤ b.turns) (p : Nat) :
    Follows b n 1 (expressionWithin depth p) (expressionWithin depth' p) := by
  induction n generalizing depth depth' p with
  | zero => exact fun _ _ _ _ _ hn ↦ absurd hn (Nat.not_lt_zero _)
  | succ n ih =>
    obtain ⟨depth, rfl⟩ := Nat.exists_eq_add_one.2 (Nat.zero_lt_of_lt hdepth)
    obtain ⟨depth', rfl⟩ := Nat.exists_eq_add_one.2 (Nat.zero_lt_of_lt hdepth')
    have hle := Nat.le_of_succ_le hturns
    have hE := ih (Nat.le_of_succ_le_succ hdepth) (Nat.le_of_succ_le_succ hdepth') hle
    refine fun t ↦ (follows_head hE hle hlast t).bind fun left u ↦ .turns fun r hr ↦ ?_
    exact follows_climb hE hle hlast p (Nat.le_succ_of_le hr) (Nat.le_trans hr hle) left u

theorem follows_expression (hturns : n ≤ b.turns) (p : Nat) :
    Follows b n 1 (expression p) (expression p) :=
  fun t ↦ .turns fun _ hr ↦ follows_expressionWithin hlast (Nat.le_refl _)
    (Nat.le_trans hr hturns) (Nat.le_trans hr hturns) p t

theorem follows_complete (hturns : n ≤ b.turns) : Follows b n 1 complete complete :=
  fun t ↦ (follows_expression hlast hturns 0 t).bind fun e _ ↦
    .current fun _ ↦ .ite (.pure e) (.unexpected _)

end

end Parser

end PathQuery
