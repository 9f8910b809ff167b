import PathQuery.Proofs.Expr.Shape

namespace PathQuery.Expr

open PathQuery.Parser

def isList : Expr → Bool
  | multiSelectList _ => true
  | _ => false

def isHash : Expr → Bool
  | multiSelectHash _ => true
  | _ => false

def isFlatten : Expr → Bool
  | flatten _ => true
  | _ => false

/-- Without a dot before it, the list of the values of an object is printed as a wildcard is. -/
def isStarList : List Expr → Bool
  | [projection (objectValues currentNode) currentNode] => true
  | _ => false

/-- Behind a dot and a projection, which the printer takes for closed. What is printed next becomes
part of the projection's body, but for a hash, behind which no body goes on. -/
def isOpenEnded : Expr → Bool
  | subexpression _ (projection _ body) => !body.isHash
  | _ => false

def startsGrouped (e : Expr) : Bool := e.text.toList.head? == some '('

mutual

/-- Whether the printed text of a parsed expression is read as that expression. The flag tells that
the expression stands behind a dot. -/
def isFaithful : Expr → Bool → Bool
  | flatten inner, _ => isFaithful inner false
  | objectValues inner, _ => isFaithful inner false
  | subexpression left right, _ =>
    isFaithful left false && isFaithful right true &&
      (right.isIndex || right.isSlice || !left.isOpenEnded && !right.startsGrouped)
  | pipe left right, _ => isFaithful left false && isFaithful right false
  | projection source body, _ =>
    isFaithful source false && isFaithful body false && !body.startsGrouped
  | filterProjection source predicate body, _ =>
    isFaithful source false && !source.isOpenEnded && isFaithful predicate false &&
      isFaithful body false && !body.startsGrouped
  | multiSelectList items, behindDot =>
    (behindDot || !isStarList items) && areFaithful items
  | multiSelectHash pairs, _ => arePairsFaithful pairs
  | or left right, _ => isFaithful left false && isFaithful right false
  | and left right, _ => isFaithful left false && isFaithful right false
  | not inner, _ => isFaithful inner false
  | comparison _ left right, _ => isFaithful left false && isFaithful right false
  | functionCall _ args, _ => areFaithful args
  | expressionRef inner, _ => isFaithful inner false
  | _, _ => true
termination_by structural e => e

def areFaithful : List Expr → Bool
  | [] => true
  | e :: es => isFaithful e false && areFaithful es
termination_by structural es => es

def arePairsFaithful : List (String × Expr) → Bool
  | [] => true
  | (_, e) :: ps => isFaithful e false && arePairsFaithful ps
termination_by structural ps => ps

end

/-- The power up to which what follows leaves a projection with the given body alone, where the
body is read up to `p` and leaves itself alone up to `inner`. -/
def bodyPower (p : Nat) (body : Expr) (inner : Nat) : Nat :=
  if body.isCurrentNode then 9
  else if body.isHash then 60
  else min p inner

def rightPower : Expr → Nat
  | subexpression _ right =>
    if right.isIndex || right.isList || right.isHash then 60 else min 40 right.rightPower
  | pipe .. => 1
  | or .. => 2
  | and .. => 3
  | comparison .. => 5
  | not _ => 45
  | projection source body => bodyPower (if source.isFlatten then 9 else 20) body body.rightPower
  | filterProjection _ _ body => bodyPower 21 body body.rightPower
  | _ => 60

variable {e left right body : Expr} {p : Nat}

theorem looser_of_leftPower (h : 9 < e.leftPower) : e.looserThan .projection = false := by
  cases e with
  | pipe | or | and | comparison => simp [leftPower] at h
  | subexpression left right =>
    rw [looserThan, level]
    split <;> rfl
  | _ => rfl

theorem AfterDot.lt_leftPower (h : AfterDot p e) (hp : p < 60) : p < e.leftPower := by
  cases h with
  | list | hash => exact hp
  | name h | paren h => exact h

theorem Body.lt_leftPower (h : Body p e) (hp : p < 60) : p < e.leftPower := by
  cases h with
  | element => exact hp
  | dot h => exact h.lt_leftPower hp
  | bracket h => exact h

theorem Body.nine_le (h : Body p body) (hp : 9 ≤ p ∧ p < 60)
    (hpower : body.looserThan .projection = false → 9 ≤ body.leftPower ∧ 9 ≤ body.rightPower) :
    9 ≤ bodyPower p body body.rightPower := by
  have hlt := h.lt_leftPower hp.2
  rw [bodyPower]
  split
  · exact Nat.le_refl 9
  · split
    · decide
    · exact Nat.le_min.2 ⟨hp.1, (hpower (looser_of_leftPower (by omega))).2⟩

theorem Shaped.not_flatten (h : Shaped e) : e.isFlatten = false := by
  cases h <;> rfl

/-- All that is no operator binds at least as tightly as a flatten. -/
theorem Shaped.nine_le (h : Shaped e) (hlevel : e.looserThan .projection = false) :
    9 ≤ e.leftPower ∧ 9 ≤ e.rightPower := by
  induction h with
  | field | current | literal | index | list | hash | call =>
    exact ⟨(by decide : 9 ≤ 60), (by decide : 9 ≤ 60)⟩
  | step => exact ⟨(by decide : 9 ≤ 55), (by decide : 9 ≤ 60)⟩
  | not => exact ⟨(by decide : 9 ≤ 60), (by decide : 9 ≤ 45)⟩
  | dot _ _ hright _ ih =>
    have hpower := hright.lt_leftPower (by decide)
    refine ⟨?_, ?_⟩
    · rw [leftPower]
      split <;> decide
    · rw [rightPower]
      split
      · decide
      · exact Nat.le_min.2 ⟨by decide, (ih (looser_of_leftPower (by omega))).2⟩
  | values _ hbody ih => exact ⟨(by decide : 9 ≤ 60), hbody.nine_le (by decide) ih⟩
  | slice _ _ hbody ih => exact ⟨(by decide : 9 ≤ 60), hbody.nine_le (by decide) ih⟩
  | stepSlice _ _ _ _ hbody _ ih => exact ⟨(by decide : 9 ≤ 55), hbody.nine_le (by decide) ih⟩
  | flatten _ _ hbody _ ih =>
    refine ⟨?_, hbody.nine_le (by decide) ih⟩
    rw [leftPower]
    split <;> decide
  | wildcard hsource _ hbody _ ih =>
    refine ⟨?_, ?_⟩
    · rw [hsource.leftPower_projection]
      split <;> decide
    · rw [rightPower, hsource.not_flatten]
      exact hbody.nine_le (by decide) ih
  | filter _ _ _ hbody _ _ ih =>
    refine ⟨?_, hbody.nine_le (by decide) ih⟩
    rw [leftPower]
    split <;> decide
  | pipe | or | and | comparison => cases hlevel

theorem Shaped.powers (h : Shaped e) :
    (9 ≤ e.leftPower ∧ 9 ≤ e.rightPower) ∨
      (e.isPipe = true ∧ e.leftPower = 1 ∧ e.rightPower = 1) ∨
      (e.isOr = true ∧ e.leftPower = 2 ∧ e.rightPower = 2) ∨
      (e.isAnd = true ∧ e.leftPower = 3 ∧ e.rightPower = 3) ∨
      (e.isComparison = true ∧ e.leftPower = 5 ∧ e.rightPower = 5) := by
  cases hlevel : e.looserThan .projection with
  | false => exact .inl (h.nine_le hlevel)
  | true =>
    refine .inr ?_
    cases h with
    | pipe => exact .inl ⟨rfl, rfl, rfl⟩
    | or => exact .inr (.inl ⟨rfl, rfl, rfl⟩)
    | and => exact .inr (.inr (.inl ⟨rfl, rfl, rfl⟩))
    | comparison => exact .inr (.inr (.inr ⟨rfl, rfl, rfl⟩))
    | dot _ _ hright =>
      rw [looserThan, level] at hlevel
      split at hlevel <;> cases hlevel
    | _ => cases hlevel

theorem Shaped.besidePipe (h : Shaped e) : 1 ≤ e.leftPower ∧ 1 ≤ e.rightPower := by
  obtain h | h | h | h | h := h.powers <;> omega

theorem Shaped.behindPipe (h : Shaped e) (hw : e.isPipe = false) :
    1 < e.leftPower ∧ 1 ≤ e.rightPower := by
  obtain h | h | h | h | h := h.powers
  · omega
  · exact absurd (hw.symm.trans h.1) Bool.false_ne_true
  all_goals omega

theorem Shaped.besideOr (h : Shaped e) (hw : e.isPipe = false) :
    2 ≤ e.leftPower ∧ 2 ≤ e.rightPower := by
  obtain h | h | h | h | h := h.powers
  · omega
  · exact absurd (hw.symm.trans h.1) Bool.false_ne_true
  all_goals omega

theorem Shaped.behindOr (h : Shaped e) (hw : (e.isPipe || e.isOr) = false) :
    2 < e.leftPower ∧ 2 ≤ e.rightPower := by
  obtain ⟨hpipe, hor⟩ := Bool.or_eq_false_iff.1 hw
  obtain h | h | h | h | h := h.powers
  · omega
  · exact absurd (hpipe.symm.trans h.1) Bool.false_ne_true
  · exact absurd (hor.symm.trans h.1) Bool.false_ne_true
  all_goals omega

theorem Shaped.besideComparison (h : Shaped e)
    (hw : (!e.isComparison && e.looserThan .projection) = false) :
    5 ≤ e.leftPower ∧ 5 ≤ e.rightPower := by
  obtain hw | hw := Bool.and_eq_false_iff.1 hw
  · cases e with
    | comparison => exact ⟨Nat.le_refl 5, Nat.le_refl 5⟩
    | _ => cases hw
  · have := h.nine_le hw
    omega

theorem Shaped.behindComparison (h : Shaped e) (hw : e.looserThan .projection = false) :
    5 < e.leftPower ∧ 5 ≤ e.rightPower := by
  have := h.nine_le hw
  omega

theorem Shaped.besideAnd (h : Shaped e)
    (hw : (!(e.isAnd || e.isComparison) && e.looserThan .projection) = false) :
    3 ≤ e.leftPower ∧ 3 ≤ e.rightPower := by
  obtain hw | hw := Bool.and_eq_false_iff.1 hw
  · cases e with
    | and => exact ⟨Nat.le_refl 3, Nat.le_refl 3⟩
    | comparison => exact ⟨(by decide : 3 ≤ 5), (by decide : 3 ≤ 5)⟩
    | _ => cases hw
  · have := h.nine_le hw
    omega

theorem Shaped.behindAnd (h : Shaped e)
    (hw : (!e.isComparison && e.looserThan .projection) = false) :
    3 < e.leftPower ∧ 3 ≤ e.rightPower := by
  have := h.besideComparison hw
  omega

theorem Shaped.primary (h : Shaped e) (hlevel : e.looserThan .primary = false) :
    55 ≤ e.leftPower ∧ 55 ≤ e.rightPower := by
  cases h with
  | field | current | literal | index | list | hash | call =>
    exact ⟨(by decide : 55 ≤ 60), (by decide : 55 ≤ 60)⟩
  | step => exact ⟨Nat.le_refl 55, (by decide : 55 ≤ 60)⟩
  | dot _ _ hright =>
    rw [looserThan, level, (Bool.or_eq_false_iff.1 hright.not_bracket).1] at hlevel
    cases hlevel
  | _ => cases hlevel

/-- What stands behind a dot and is no projection leaves alone what a dot can stand before. -/
theorem Shaped.forty_le (h : Shaped e) (hdot : AfterDot 40 e)
    (hopen : isOpenEnded (subexpression left e) = false) : 40 ≤ e.rightPower := by
  have hbody : ∀ {body : Expr} {q : Nat}, (!body.isHash) = false →
      40 ≤ bodyPower q body body.rightPower := by
    intro body q hhash
    cases body with
    | multiSelectHash => exact (by decide : 40 ≤ 60)
    | _ => cases hhash
  have hpower := hdot.lt_leftPower (by decide)
  cases h with
  | field | current | literal | index | list | hash | call | step => exact (by decide : 40 ≤ 60)
  | not => exact (by decide : 40 ≤ 45)
  | values | slice | stepSlice | flatten | wildcard => exact hbody hopen
  | dot _ _ hright =>
    rw [leftPower, (Bool.or_eq_false_iff.1 hright.not_bracket).1] at hpower
    exact absurd hpower (by decide)
  | @filter source =>
    cases hcurrent : source.isCurrentNode with
    | false =>
      rw [leftPower, hcurrent] at hpower
      exact absurd hpower (by decide)
    | true =>
      obtain rfl := eq_currentNode hcurrent
      cases hdot with
      | name _ hstart => cases hstart
      | paren _ hstart => cases hstart
  | pipe | or | and | comparison => simp [leftPower] at hpower

theorem Shaped.chain (h : Shaped e) (hlevel : e.looserThan .chain = false) :
    40 ≤ e.leftPower ∧ (e.isOpenEnded = false → 40 ≤ e.rightPower) := by
  cases h with
  | field | current | literal | index | list | hash | call =>
    exact ⟨(by decide : 40 ≤ 60), fun _ ↦ (by decide : 40 ≤ 60)⟩
  | step => exact ⟨(by decide : 40 ≤ 55), fun _ ↦ (by decide : 40 ≤ 60)⟩
  | not => exact ⟨(by decide : 40 ≤ 60), fun _ ↦ (by decide : 40 ≤ 45)⟩
  | dot _ hshaped hright =>
    refine ⟨?_, fun hopen ↦ ?_⟩
    · rw [leftPower]
      split <;> decide
    · rw [rightPower]
      split
      · decide
      · exact Nat.le_min.2 ⟨Nat.le_refl 40, hshaped.forty_le hright hopen⟩
  | _ => cases hlevel

end PathQuery.Expr
