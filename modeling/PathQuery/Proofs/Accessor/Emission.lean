import Mathlib.Order.Nat
import PathQuery.Accessor.Generator

namespace PathQuery

namespace Generator

variable {α β : Type} {m : GenM α} {f : α → GenM β} {b : β} {n n' : Nat}

theorem bind_eq_ok : (m >>= f) n = .ok b n' ↔ ∃ a k, m n = .ok a k ∧ f a k = .ok b n' := by
  change EStateM.bind m f n = _ ↔ _
  rw [EStateM.bind]
  cases m n with
  | ok a k => exact ⟨fun h ↦ ⟨a, k, rfl, h⟩, fun ⟨_, _, rfl, h⟩ ↦ h⟩
  | error e k => exact ⟨nofun, nofun⟩

theorem fresh_eq_ok {t k : Nat} : fresh n = .ok t k ↔ t = n ∧ k = n + 1 := by
  change EStateM.Result.ok n (n + 1) = _ ↔ _
  simp [eq_comm]

theorem pure_eq_ok {a c : α} : (pure a : GenM α) n = .ok c n' ↔ a = c ∧ n = n' := by
  change EStateM.Result.ok a n = _ ↔ _
  simp

theorem count_eq_of_checkCall {name : String} {count : Nat} {u : Unit}
    (h : checkCall name count n = .ok u n') : n = n' := by
  rw [checkCall] at h
  cases hf : Builtin.ofName? name with
  | none => rw [hf] at h; cases h
  | some f =>
    cases harity : f.signature.checkArity count with
    | error fault => simp only [hf, harity] at h; cases h
    | ok =>
      simp only [hf, harity] at h
      exact (pure_eq_ok.1 h).2

end Generator

def Var.Before : Var → Nat → Prop
  | input, _ => True
  | temp t, n => t < n

theorem Var.Before.mono {x : Var} {n n' : Nat} (h : x.Before n) (hn : n ≤ n') : x.Before n' := by
  cases x with
  | input => trivial
  | temp t => exact Nat.lt_of_lt_of_le h hn

theorem Var.Before.ne {x : Var} {n : Nat} (h : x.Before n) : x ≠ .temp n := by
  rintro rfl
  exact Nat.lt_irrefl n h

open Generator

mutual

/-- `Emits style e x n c n'`: the code of `e` that reads its input from `x` is `c`, with the
temporaries from `n` up to `n'`. There is a rule for each kind of expression, or one for each style
where these differ. -/
inductive Emits : NullCheck → Expr → Var → Nat → Code → Nat → Prop
  | field {style : NullCheck} (name : String) (x : Var) (n : Nat) :
    Emits style (.field name) x n (.field x name) n
  | index {style : NullCheck} (i : Int64) (x : Var) (n : Nat) :
    Emits style (.index i) x n (.index x i) n
  | slice {style : NullCheck} (start stop step : Option Int64) (x : Var) (n : Nat) :
    Emits style (.slice start stop step) x n (.slice x start stop step) n
  | current {style : NullCheck} (x : Var) (n : Nat) :
    Emits style .currentNode x n (.current x) n
  | literal {style : NullCheck} (v : Value) (x : Var) (n : Nat) :
    Emits style (.literal v) x n (.literal v) n
  | flatten {style : NullCheck} {inner : Expr} {x : Var} {n n' : Nat} {c : Code} :
    Emits style inner x n c n' → Emits style (.flatten inner) x n (.flatten c) n'
  | objectValues {style : NullCheck} {inner : Expr} {x : Var} {n n' : Nat} {c : Code} :
    Emits style inner x n c n' → Emits style (.objectValues inner) x n (.objectValues c) n'
  | negation {style : NullCheck} {inner : Expr} {x : Var} {n n' : Nat} {c : Code} :
    Emits style inner x n c n' → Emits style (.not inner) x n (.negation c) n'
  | comparison {style : NullCheck} (op : Comparator) {left right : Expr} {x : Var} {n k n' : Nat}
    {c d : Code} : Emits style left x n c k → Emits style right x k d n' →
    Emits style (.comparison op left right) x n (.comparison op c d) n'
  | call {style : NullCheck} (name : String) {args : List Expr} {x : Var} {n n' : Nat}
    {cs : List Code} : EmitsItems style args x n cs n' →
    Emits style (.functionCall name args) x n (.call name cs) n'
  | andThen {left right : Expr} {x : Var} {n t n' : Nat} {c d : Code} :
    Emits .coalescing left x n c t → Emits .coalescing right (.temp t) (t + 1) d n' →
    Emits .coalescing (.subexpression left right) x n (.andThen (.present c.operand) t d) n'
  | ifSome {left right : Expr} {x : Var} {n t n' : Nat} {c d : Code} :
    Emits .explicitIf left x n c t → Emits .explicitIf right (.temp t) (t + 1) d n' →
    Emits .explicitIf (.subexpression left right) x n (.ifSome t (.present c.operand) d) n'
  | letOrNull {style : NullCheck} {left right : Expr} {x : Var} {n t n' : Nat} {c d : Code} :
    Emits style left x n c t → Emits style right (.temp t) (t + 1) d n' →
    Emits style (.pipe left right) x n (.letOrNull t c.operand d) n'
  | mapItems {source body : Expr} {x : Var} {n t n' : Nat} {c d : Code} :
    Emits .coalescing source x n c t → Emits .coalescing body (.temp (t + 1)) (t + 2) d n' →
    Emits .coalescing (.projection source body) x n
      (.mapItems c.operand t (t + 1) none d.operand) n'
  | forItems {source body : Expr} {x : Var} {n t n' : Nat} {c d : Code} :
    Emits .explicitIf source x n c t → Emits .explicitIf body (.temp (t + 1)) (t + 2) d n' →
    Emits .explicitIf (.projection source body) x n
      (.forItems c.operand t (t + 1) n' (n' + 1) none d.operand) (n' + 2)
  | mapKept {source predicate body : Expr} {x : Var} {n t k n' : Nat} {c p d : Code} :
    Emits .coalescing source x n c t → Emits .coalescing predicate (.temp (t + 1)) (t + 2) p k →
    Emits .coalescing body (.temp (t + 1)) k d n' →
    Emits .coalescing (.filterProjection source predicate body) x n
      (.mapItems c.operand t (t + 1) (some p) d.operand) n'
  | forKept {source predicate body : Expr} {x : Var} {n t k n' : Nat} {c p d : Code} :
    Emits .explicitIf source x n c t → Emits .explicitIf predicate (.temp (t + 1)) (t + 2) p k →
    Emits .explicitIf body (.temp (t + 1)) k d n' →
    Emits .explicitIf (.filterProjection source predicate body) x n
      (.forItems c.operand t (t + 1) n' (n' + 1) (some p) d.operand) (n' + 2)
  | mapPresent {items : List Expr} (x : Var) {n n' : Nat} {cs : List Code} :
    EmitsItems .coalescing items (.temp n) (n + 1) cs n' →
    Emits .coalescing (.multiSelectList items) x n (.mapPresent x n (cs.map Code.operand)) n'
  | listUnlessNull {items : List Expr} (x : Var) {n n' : Nat} {cs : List Code} :
    EmitsItems .explicitIf items (.temp n) (n + 1) cs n' →
    Emits .explicitIf (.multiSelectList items) x n
      (.unlessNull x n (.list (cs.map Code.operand))) n'
  | andThenPresent {pairs : List (String × Expr)} (x : Var) {n n' : Nat}
    {cs : List (String × Code)} : EmitsPairs .coalescing pairs (.temp n) (n + 2) cs n' →
    Emits .coalescing (.multiSelectHash pairs) x n (.andThenPresent x n (.object (n + 1) cs)) n'
  | objectUnlessNull {pairs : List (String × Expr)} (x : Var) {n n' : Nat}
    {cs : List (String × Code)} : EmitsPairs .explicitIf pairs (.temp n) (n + 2) cs n' →
    Emits .explicitIf (.multiSelectHash pairs) x n (.unlessNull x n (.object (n + 1) cs)) n'
  | orElse {left right : Expr} {x : Var} {n k n' : Nat} {c d : Code} :
    Emits .coalescing left x n c k → Emits .coalescing right x k d n' →
    Emits .coalescing (.or left right) x n (.orElse (.truthy c.operand) d) n'
  | letIfOr {left right : Expr} {x : Var} {n k t : Nat} {c d : Code} :
    Emits .explicitIf left x n c k → Emits .explicitIf right x k d t →
    Emits .explicitIf (.or left right) x n (.letIf t c.operand (.optional t) d) (t + 1)
  | letIfAnd {style : NullCheck} {left right : Expr} {x : Var} {n k t : Nat} {c d : Code} :
    Emits style left x n c k → Emits style right x k d t →
    Emits style (.and left right) x n (.letIf t c d (.optional t)) (t + 1)

inductive EmitsItems : NullCheck → List Expr → Var → Nat → List Code → Nat → Prop
  | nil {style : NullCheck} (x : Var) (n : Nat) : EmitsItems style [] x n [] n
  | cons {style : NullCheck} {e : Expr} {es : List Expr} {x : Var} {n k n' : Nat} {c : Code}
    {cs : List Code} : Emits style e x n c k → EmitsItems style es x k cs n' →
    EmitsItems style (e :: es) x n (c :: cs) n'

inductive EmitsPairs : NullCheck → List (String × Expr) → Var → Nat → List (String × Code) → Nat →
    Prop
  | nil {style : NullCheck} (x : Var) (n : Nat) : EmitsPairs style [] x n [] n
  | cons {style : NullCheck} (key : String) {e : Expr} {ps : List (String × Expr)} {x : Var}
    {n k n' : Nat} {c : Code} {cs : List (String × Code)} : Emits style e x n c k →
    EmitsPairs style ps x k cs n' →
    EmitsPairs style ((key, e) :: ps) x n ((key, c.operand) :: cs) n'

end

namespace Expr

mutual

theorem emits_of_code (style : NullCheck) : {e : Expr} → {x : Var} → {n n' : Nat} → {c : Code} →
    e.code style x n = .ok c n' → Emits style e x n c n'
  | field name, x, n, _, _, h => by
    obtain ⟨rfl, rfl⟩ := pure_eq_ok.1 h
    exact .field name x n
  | index i, x, n, _, _, h => by
    obtain ⟨rfl, rfl⟩ := pure_eq_ok.1 h
    exact .index i x n
  | slice start stop step, x, n, _, _, h => by
    obtain ⟨rfl, rfl⟩ := pure_eq_ok.1 h
    exact .slice start stop step x n
  | currentNode, x, n, _, _, h => by
    obtain ⟨rfl, rfl⟩ := pure_eq_ok.1 h
    exact .current x n
  | literal v, x, n, _, _, h => by
    obtain ⟨rfl, rfl⟩ := pure_eq_ok.1 h
    exact .literal v x n
  | expressionRef _, _, _, _, _, h => by cases h
  | flatten inner, x, n, _, _, h => by
    obtain ⟨c, k, hc, h⟩ := bind_eq_ok.1 h
    obtain ⟨rfl, rfl⟩ := pure_eq_ok.1 h
    exact .flatten (emits_of_code _ hc)
  | objectValues inner, x, n, _, _, h => by
    obtain ⟨c, k, hc, h⟩ := bind_eq_ok.1 h
    obtain ⟨rfl, rfl⟩ := pure_eq_ok.1 h
    exact .objectValues (emits_of_code _ hc)
  | not inner, x, n, _, _, h => by
    obtain ⟨c, k, hc, h⟩ := bind_eq_ok.1 h
    obtain ⟨rfl, rfl⟩ := pure_eq_ok.1 h
    exact .negation (emits_of_code _ hc)
  | comparison op left right, x, n, _, _, h => by
    obtain ⟨c, k, hc, h⟩ := bind_eq_ok.1 h
    obtain ⟨d, k', hd, h⟩ := bind_eq_ok.1 h
    obtain ⟨rfl, rfl⟩ := pure_eq_ok.1 h
    exact .comparison op (emits_of_code _ hc) (emits_of_code _ hd)
  | subexpression left right, x, n, _, _, h => by
    obtain ⟨c, t, hc, h⟩ := bind_eq_ok.1 h
    obtain ⟨_, _, ht, h⟩ := bind_eq_ok.1 h
    obtain ⟨rfl, rfl⟩ := fresh_eq_ok.1 ht
    obtain ⟨d, k, hd, h⟩ := bind_eq_ok.1 h
    cases style with
    | coalescing =>
      obtain ⟨rfl, rfl⟩ := pure_eq_ok.1 h
      exact .andThen (emits_of_code _ hc) (emits_of_code _ hd)
    | explicitIf =>
      obtain ⟨rfl, rfl⟩ := pure_eq_ok.1 h
      exact .ifSome (emits_of_code _ hc) (emits_of_code _ hd)
  | pipe left right, x, n, _, _, h => by
    obtain ⟨c, t, hc, h⟩ := bind_eq_ok.1 h
    obtain ⟨_, _, ht, h⟩ := bind_eq_ok.1 h
    obtain ⟨rfl, rfl⟩ := fresh_eq_ok.1 ht
    obtain ⟨d, k, hd, h⟩ := bind_eq_ok.1 h
    obtain ⟨rfl, rfl⟩ := pure_eq_ok.1 h
    exact .letOrNull (emits_of_code _ hc) (emits_of_code _ hd)
  | projection source body, x, n, _, _, h => by
    obtain ⟨c, t, hc, h⟩ := bind_eq_ok.1 h
    obtain ⟨_, _, hitems, h⟩ := bind_eq_ok.1 h
    obtain ⟨rfl, rfl⟩ := fresh_eq_ok.1 hitems
    obtain ⟨_, _, hitem, h⟩ := bind_eq_ok.1 h
    obtain ⟨rfl, rfl⟩ := fresh_eq_ok.1 hitem
    obtain ⟨d, k, hd, h⟩ := bind_eq_ok.1 h
    cases style with
    | coalescing =>
      obtain ⟨rfl, rfl⟩ := pure_eq_ok.1 h
      exact .mapItems (emits_of_code _ hc) (emits_of_code _ hd)
    | explicitIf =>
      obtain ⟨_, _, hout, h⟩ := bind_eq_ok.1 h
      obtain ⟨rfl, rfl⟩ := fresh_eq_ok.1 hout
      obtain ⟨_, _, hvalue, h⟩ := bind_eq_ok.1 h
      obtain ⟨rfl, rfl⟩ := fresh_eq_ok.1 hvalue
      obtain ⟨rfl, rfl⟩ := pure_eq_ok.1 h
      exact .forItems (emits_of_code _ hc) (emits_of_code _ hd)
  | filterProjection source predicate body, x, n, _, _, h => by
    obtain ⟨c, t, hc, h⟩ := bind_eq_ok.1 h
    obtain ⟨_, _, hitems, h⟩ := bind_eq_ok.1 h
    obtain ⟨rfl, rfl⟩ := fresh_eq_ok.1 hitems
    obtain ⟨_, _, hitem, h⟩ := bind_eq_ok.1 h
    obtain ⟨rfl, rfl⟩ := fresh_eq_ok.1 hitem
    obtain ⟨p, k, hp, h⟩ := bind_eq_ok.1 h
    obtain ⟨d, k', hd, h⟩ := bind_eq_ok.1 h
    cases style with
    | coalescing =>
      obtain ⟨rfl, rfl⟩ := pure_eq_ok.1 h
      exact .mapKept (emits_of_code _ hc) (emits_of_code _ hp) (emits_of_code _ hd)
    | explicitIf =>
      obtain ⟨_, _, hout, h⟩ := bind_eq_ok.1 h
      obtain ⟨rfl, rfl⟩ := fresh_eq_ok.1 hout
      obtain ⟨_, _, hvalue, h⟩ := bind_eq_ok.1 h
      obtain ⟨rfl, rfl⟩ := fresh_eq_ok.1 hvalue
      obtain ⟨rfl, rfl⟩ := pure_eq_ok.1 h
      exact .forKept (emits_of_code _ hc) (emits_of_code _ hp) (emits_of_code _ hd)
  | multiSelectList items, x, n, _, _, h => by
    obtain ⟨_, _, ht, h⟩ := bind_eq_ok.1 h
    obtain ⟨rfl, rfl⟩ := fresh_eq_ok.1 ht
    obtain ⟨cs, k, hcs, h⟩ := bind_eq_ok.1 h
    obtain ⟨ds, rfl, hds⟩ := emitsItems_of_codeItems _ hcs
    cases style with
    | coalescing =>
      obtain ⟨rfl, rfl⟩ := pure_eq_ok.1 h
      exact .mapPresent x hds
    | explicitIf =>
      obtain ⟨rfl, rfl⟩ := pure_eq_ok.1 h
      exact .listUnlessNull x hds
  | multiSelectHash pairs, x, n, _, _, h => by
    obtain ⟨_, _, ht, h⟩ := bind_eq_ok.1 h
    obtain ⟨rfl, rfl⟩ := fresh_eq_ok.1 ht
    obtain ⟨_, _, hm, h⟩ := bind_eq_ok.1 h
    obtain ⟨rfl, rfl⟩ := fresh_eq_ok.1 hm
    obtain ⟨cs, k, hcs, h⟩ := bind_eq_ok.1 h
    cases style with
    | coalescing =>
      obtain ⟨rfl, rfl⟩ := pure_eq_ok.1 h
      exact .andThenPresent x (emitsPairs_of_codePairs _ hcs)
    | explicitIf =>
      obtain ⟨rfl, rfl⟩ := pure_eq_ok.1 h
      exact .objectUnlessNull x (emitsPairs_of_codePairs _ hcs)
  | or left right, x, n, _, _, h => by
    obtain ⟨c, k, hc, h⟩ := bind_eq_ok.1 h
    obtain ⟨d, k', hd, h⟩ := bind_eq_ok.1 h
    cases style with
    | coalescing =>
      obtain ⟨rfl, rfl⟩ := pure_eq_ok.1 h
      exact .orElse (emits_of_code _ hc) (emits_of_code _ hd)
    | explicitIf =>
      obtain ⟨_, _, ht, h⟩ := bind_eq_ok.1 h
      obtain ⟨rfl, rfl⟩ := fresh_eq_ok.1 ht
      obtain ⟨rfl, rfl⟩ := pure_eq_ok.1 h
      exact .letIfOr (emits_of_code _ hc) (emits_of_code _ hd)
  | and left right, x, n, _, _, h => by
    obtain ⟨c, k, hc, h⟩ := bind_eq_ok.1 h
    obtain ⟨d, k', hd, h⟩ := bind_eq_ok.1 h
    obtain ⟨_, _, ht, h⟩ := bind_eq_ok.1 h
    obtain ⟨rfl, rfl⟩ := fresh_eq_ok.1 ht
    obtain ⟨rfl, rfl⟩ := pure_eq_ok.1 h
    exact .letIfAnd (emits_of_code _ hc) (emits_of_code _ hd)
  | functionCall name args, x, n, _, _, h => by
    rw [code, bind_eq_ok] at h
    obtain ⟨⟨⟩, k, hcheck, h⟩ := h
    obtain rfl := count_eq_of_checkCall hcheck
    obtain ⟨cs, k', hcs, h⟩ := bind_eq_ok.1 h
    obtain ⟨rfl, rfl⟩ := pure_eq_ok.1 h
    exact .call name (emitsItems_of_codeArgs _ hcs)
termination_by structural e => e

theorem emitsItems_of_codeItems (style : NullCheck) : {es : List Expr} → {x : Var} →
    {n n' : Nat} → {cs : List Code} → codeItems style es x n = .ok cs n' →
      ∃ ds, cs = ds.map Code.operand ∧ EmitsItems style es x n ds n'
  | [], x, n, _, _, h => by
    obtain ⟨rfl, rfl⟩ := pure_eq_ok.1 h
    exact ⟨[], rfl, .nil x n⟩
  | e :: es, x, n, _, _, h => by
    obtain ⟨c, k, hc, h⟩ := bind_eq_ok.1 h
    obtain ⟨cs, k', hcs, h⟩ := bind_eq_ok.1 h
    obtain ⟨rfl, rfl⟩ := pure_eq_ok.1 h
    obtain ⟨ds, rfl, hds⟩ := emitsItems_of_codeItems _ hcs
    exact ⟨c :: ds, rfl, .cons (emits_of_code _ hc) hds⟩
termination_by structural es => es

theorem emitsPairs_of_codePairs (style : NullCheck) : {ps : List (String × Expr)} → {x : Var} →
    {n n' : Nat} → {cs : List (String × Code)} → codePairs style ps x n = .ok cs n' →
      EmitsPairs style ps x n cs n'
  | [], x, n, _, _, h => by
    obtain ⟨rfl, rfl⟩ := pure_eq_ok.1 h
    exact .nil x n
  | (key, e) :: ps, x, n, _, _, h => by
    obtain ⟨c, k, hc, h⟩ := bind_eq_ok.1 h
    obtain ⟨cs, k', hcs, h⟩ := bind_eq_ok.1 h
    obtain ⟨rfl, rfl⟩ := pure_eq_ok.1 h
    exact .cons key (emits_of_code _ hc) (emitsPairs_of_codePairs _ hcs)
termination_by structural ps => ps

theorem emitsItems_of_codeArgs (style : NullCheck) : {es : List Expr} → {x : Var} →
    {n n' : Nat} → {cs : List Code} → codeArgs style es x n = .ok cs n' →
      EmitsItems style es x n cs n'
  | [], x, n, _, _, h => by
    obtain ⟨rfl, rfl⟩ := pure_eq_ok.1 h
    exact .nil x n
  | e :: es, x, n, _, _, h => by
    obtain ⟨c, k, hc, h⟩ := bind_eq_ok.1 h
    obtain ⟨cs, k', hcs, h⟩ := bind_eq_ok.1 h
    obtain ⟨rfl, rfl⟩ := pure_eq_ok.1 h
    exact .cons (emits_of_code _ hc) (emitsItems_of_codeArgs _ hcs)
termination_by structural es => es

end

end Expr

mutual

theorem Emits.le {style : NullCheck} {e : Expr} {x : Var} {n n' : Nat} {c : Code} :
    Emits style e x n c n' → n ≤ n'
  | .field .. => Nat.le_refl _
  | .index .. => Nat.le_refl _
  | .slice .. => Nat.le_refl _
  | .current .. => Nat.le_refl _
  | .literal .. => Nat.le_refl _
  | .flatten h => h.le
  | .objectValues h => h.le
  | .negation h => h.le
  | .call _ h => h.le
  | .comparison _ hl hr => hl.le.trans hr.le
  | .orElse hl hr => hl.le.trans hr.le
  | .letIfOr hl hr => Nat.le_succ_of_le (hl.le.trans hr.le)
  | .letIfAnd hl hr => Nat.le_succ_of_le (hl.le.trans hr.le)
  | .andThen hl hr => hl.le.trans (Nat.le_of_succ_le hr.le)
  | .ifSome hl hr => hl.le.trans (Nat.le_of_succ_le hr.le)
  | .letOrNull hl hr => hl.le.trans (Nat.le_of_succ_le hr.le)
  | .mapItems hs hb => by have := hs.le; have := hb.le; omega
  | .forItems hs hb => by have := hs.le; have := hb.le; omega
  | .mapKept hs hp hb => by have := hs.le; have := hp.le; have := hb.le; omega
  | .forKept hs hp hb => by have := hs.le; have := hp.le; have := hb.le; omega
  | .mapPresent _ h => Nat.le_of_succ_le h.le
  | .listUnlessNull _ h => Nat.le_of_succ_le h.le
  | .andThenPresent _ h => by have := h.le; omega
  | .objectUnlessNull _ h => by have := h.le; omega

theorem EmitsItems.le {style : NullCheck} {es : List Expr} {x : Var} {n n' : Nat} {cs : List Code} :
    EmitsItems style es x n cs n' → n ≤ n'
  | .nil .. => Nat.le_refl _
  | .cons h hs => h.le.trans hs.le

theorem EmitsPairs.le {style : NullCheck} {ps : List (String × Expr)} {x : Var} {n n' : Nat}
    {cs : List (String × Code)} : EmitsPairs style ps x n cs n' → n ≤ n'
  | .nil .. => Nat.le_refl _
  | .cons _ h hs => h.le.trans hs.le

end

end PathQuery
