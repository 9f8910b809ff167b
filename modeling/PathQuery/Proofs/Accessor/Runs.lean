import PathQuery.Accessor.Text

namespace PathQuery

namespace Signature

def Admits (s : Signature) (count : Nat) : Prop :=
  if s.variadic then s.params.length ≤ count else count = s.params.length

theorem checkArity_eq_ok_iff {s : Signature} {count : Nat} :
    s.checkArity count = .ok () ↔ s.Admits count := by
  unfold checkArity Admits
  dsimp only
  cases s.variadic with
  | true =>
    rw [if_pos rfl, if_pos rfl]
    split
    · next h => simp only [reduceCtorEq, false_iff, Nat.not_le, h]
    · next h => simp only [Nat.not_lt.1 h]
  | false =>
    rw [if_neg Bool.false_ne_true, if_neg Bool.false_ne_true]
    split
    · next h => simp only [reduceCtorEq, h]
    · next h => simp only [Decidable.not_not.1 h]

end Signature

namespace Generator

variable {α β : Type} {m : GenM α} {f : α → GenM β} {n : Nat} {ts : List Nat}
  {fault fault' : Option AccessorError}

def count (m : GenM α) (n : Nat) : Nat :=
  match m n with
  | .ok _ n' => n'
  | .error _ n' => n'

/-- `HandsOut m n ts`: run from the count `n`, `m` takes the temporaries `ts` in this order. A
failure ends the run. -/
inductive HandsOut : {α : Type} → GenM α → Nat → List Nat → Prop
  | pure {α : Type} (a : α) (n : Nat) : HandsOut (pure a) n []
  | throw {α : Type} (err : AccessorError) (n : Nat) : HandsOut (throw err : GenM α) n []
  | fresh (n : Nat) : HandsOut fresh n [n]
  | bind {α β : Type} {m : GenM α} {f : α → GenM β} {n k : Nat} {a : α} {ts us : List Nat} :
    HandsOut m n ts → m n = .ok a k → HandsOut (f a) k us → HandsOut (m >>= f) n (ts ++ us)
  | fail {α β : Type} {m : GenM α} {f : α → GenM β} {n k : Nat} {err : AccessorError}
    {ts : List Nat} : HandsOut m n ts → m n = .error err k → HandsOut (m >>= f) n ts

theorem bind_of_ok {a : α} {k : Nat} (h : m n = .ok a k) : (m >>= f) n = f a k := by
  change EStateM.bind m f n = _
  rw [EStateM.bind, h]

theorem bind_of_error {err : AccessorError} {k : Nat} (h : m n = .error err k) :
    (m >>= f) n = .error err k := by
  change EStateM.bind m f n = _
  rw [EStateM.bind, h]

/-- Temporaries are taken one after another from the count on, and none is passed over. -/
theorem HandsOut.consecutive {α : Type} {m : GenM α} {n : Nat} {ts : List Nat}
    (h : HandsOut m n ts) : ts = List.range' n ts.length ∧ count m n = n + ts.length := by
  induction h with
  | pure a n => exact ⟨rfl, rfl⟩
  | throw err n => exact ⟨rfl, rfl⟩
  | fresh n => exact ⟨rfl, rfl⟩
  | @bind α β m f n k a ts us _ hm _ ihm ihf =>
    obtain ⟨hts, hcount⟩ := ihm
    obtain ⟨hus, hcount'⟩ := ihf
    have hk : k = n + ts.length := by rwa [count, hm] at hcount
    subst hk
    constructor
    · rw [List.length_append, ← List.range'_append_1, ← hts, ← hus]
    · rw [count, bind_of_ok hm, List.length_append, ← Nat.add_assoc]
      exact hcount'
  | fail _ hm ih =>
    obtain ⟨hts, hcount⟩ := ih
    refine ⟨hts, ?_⟩
    rw [count, hm] at hcount
    rw [count, bind_of_error hm]
    exact hcount

def Runs (m : GenM α) (fault : Option AccessorError) : Prop :=
  ∀ n, ∃ ts, HandsOut m n ts ∧
    match fault with
    | none => ∃ a, m n = .ok a (n + ts.length)
    | some err => m n = .error err (n + ts.length)

namespace Runs

theorem pure (a : α) : Runs (pure a) none := fun n ↦ ⟨[], .pure a n, a, rfl⟩

theorem throw (err : AccessorError) : Runs (throw err : GenM α) (some err) :=
  fun n ↦ ⟨[], .throw err n, rfl⟩

theorem fresh : Runs fresh none := fun n ↦ ⟨[n], .fresh n, n, rfl⟩

theorem bind (hm : Runs m fault) (hf : ∀ a, Runs (f a) fault') :
    Runs (m >>= f) (fault.or fault') := by
  intro n
  obtain ⟨ts, hts, hn⟩ := hm n
  cases fault with
  | some err => exact ⟨ts, .fail hts hn, bind_of_error hn⟩
  | none =>
    obtain ⟨a, ha⟩ := hn
    obtain ⟨us, hus, hk⟩ := hf a (n + ts.length)
    refine ⟨ts ++ us, .bind hts ha hus, ?_⟩
    rwa [bind_of_ok ha, List.length_append, ← Nat.add_assoc]

/-- What follows without a fault changes no fault. -/
theorem before (hm : Runs m fault) (hf : ∀ a, Runs (f a) none) : Runs (m >>= f) fault := by
  have h := hm.bind hf
  rwa [Option.or_none] at h

theorem map {g : α → β} (hm : Runs m fault) : Runs (m >>= fun a ↦ Pure.pure (g a)) fault :=
  hm.before fun a ↦ pure (g a)

theorem fresh_bind {f : Nat → GenM β} (hf : ∀ t, Runs (f t) fault) :
    Runs (Generator.fresh >>= f) fault :=
  fresh.bind hf

theorem ok_iff (h : Runs m fault) (n : Nat) : (∃ a k, m n = .ok a k) ↔ fault = none := by
  obtain ⟨ts, -, hn⟩ := h n
  cases fault with
  | none =>
    obtain ⟨a, ha⟩ := hn
    exact ⟨fun _ ↦ rfl, fun _ ↦ ⟨a, _, ha⟩⟩
  | some err =>
    refine ⟨fun ⟨a, k, ha⟩ ↦ ?_, nofun⟩
    rw [hn] at ha
    cases ha

theorem error_iff (h : Runs m fault) (n : Nat) (err : AccessorError) :
    (∃ k, m n = .error err k) ↔ fault = some err := by
  obtain ⟨ts, -, hn⟩ := h n
  cases fault with
  | none =>
    obtain ⟨a, ha⟩ := hn
    refine ⟨fun ⟨k, hk⟩ ↦ ?_, nofun⟩
    rw [ha] at hk
    cases hk
  | some err' =>
    constructor
    · rintro ⟨k, hk⟩
      rw [hn] at hk
      cases hk
      rfl
    · rintro ⟨⟩
      exact ⟨_, hn⟩

end Runs

end Generator

namespace Expr

open Generator

mutual

/-- The nodes of an expression, each before those below it, and these in the order in which they are
written. -/
def nodes : Expr → List Expr
  | flatten inner => flatten inner :: nodes inner
  | objectValues inner => objectValues inner :: nodes inner
  | subexpression left right => subexpression left right :: (nodes left ++ nodes right)
  | pipe left right => pipe left right :: (nodes left ++ nodes right)
  | projection source body => projection source body :: (nodes source ++ nodes body)
  | filterProjection source predicate body =>
    filterProjection source predicate body :: (nodes source ++ (nodes predicate ++ nodes body))
  | multiSelectList items => multiSelectList items :: nodesItems items
  | multiSelectHash pairs => multiSelectHash pairs :: nodesPairs pairs
  | or left right => or left right :: (nodes left ++ nodes right)
  | and left right => and left right :: (nodes left ++ nodes right)
  | not inner => not inner :: nodes inner
  | comparison op left right => comparison op left right :: (nodes left ++ nodes right)
  | functionCall name args => functionCall name args :: nodesItems args
  | expressionRef inner => expressionRef inner :: nodes inner
  | e => [e]
termination_by structural e => e

def nodesItems : List Expr → List Expr
  | [] => []
  | e :: es => nodes e ++ nodesItems es
termination_by structural es => es

def nodesPairs : List (String × Expr) → List Expr
  | [] => []
  | (_, e) :: ps => nodes e ++ nodesPairs ps
termination_by structural ps => ps

end

def callFault? (name : String) (count : Nat) : Option AccessorError :=
  match Builtin.ofName? name with
  | none => some (.badArguments name .unknownFunction)
  | some f =>
    match f.signature.checkArity count with
    | .error fault => some (.badArguments name fault)
    | .ok () => none

def fault? : Expr → Option AccessorError
  | functionCall name args => callFault? name args.length
  | expressionRef _ => some (.unsupported "ExpressionRef")
  | _ => none

/-- A node that there is code for: no reference, and no call but one of a function that there is,
with as many arguments as it takes. -/
def Supported : Expr → Prop
  | functionCall name args =>
    ∃ f, Builtin.ofName? name = some f ∧ f.signature.Admits args.length
  | expressionRef _ => False
  | _ => True

theorem callFault?_eq_none_iff {name : String} {count : Nat} : callFault? name count = none ↔
    ∃ f, Builtin.ofName? name = some f ∧ f.signature.Admits count := by
  rw [callFault?]
  cases Builtin.ofName? name with
  | none => exact ⟨nofun, nofun⟩
  | some f =>
    simp only [Option.some.injEq, exists_eq_left', ← Signature.checkArity_eq_ok_iff]
    cases f.signature.checkArity count with
    | error fault => exact ⟨nofun, nofun⟩
    | ok => exact ⟨fun _ ↦ rfl, fun _ ↦ rfl⟩

theorem fault?_eq_none_iff (e : Expr) : e.fault? = none ↔ e.Supported := by
  cases e with
  | functionCall name args => exact callFault?_eq_none_iff
  | expressionRef inner => exact ⟨nofun, nofun⟩
  | _ => exact ⟨fun _ ↦ trivial, fun _ ↦ rfl⟩

theorem findSome?_fault?_eq_none_iff {es : List Expr} :
    es.findSome? fault? = none ↔ ∀ e ∈ es, e.Supported := by
  rw [List.findSome?_eq_none_iff]
  exact forall₂_congr fun e _ ↦ e.fault?_eq_none_iff

theorem findSome?_cons_fault? (e : Expr) (es : List Expr) :
    (e :: es).findSome? fault? = e.fault?.or (es.findSome? fault?) := by
  rw [List.findSome?_cons]
  cases e.fault? <;> rfl

theorem runs_checkCall (name : String) (count : Nat) :
    Runs (checkCall name count) (callFault? name count) := by
  rw [checkCall, callFault?]
  cases Builtin.ofName? name with
  | none => exact .throw _
  | some f =>
    dsimp only
    cases f.signature.checkArity count with
    | error fault => exact .throw _
    | ok => exact .pure ()

theorem runs_projection (style : NullCheck) (source : Code) (items item : Nat) (test : Option Code)
    (body : Code) : Runs (Generator.projection style source items item test body) none := by
  cases style with
  | coalescing => exact .pure _
  | explicitIf => exact .fresh_bind fun _ ↦ .fresh_bind fun _ ↦ .pure _

mutual

/-- Generation fails with the fault that comes first among the nodes. -/
theorem runs_code (style : NullCheck) : (e : Expr) → (x : Var) →
    Runs (e.code style x) (e.nodes.findSome? fault?)
  | field .., _ => .pure _
  | index .., _ => .pure _
  | slice .., _ => .pure _
  | currentNode, _ => .pure _
  | literal _, _ => .pure _
  | expressionRef _, _ => .throw _
  | flatten inner, x => (runs_code style inner x).map
  | objectValues inner, x => (runs_code style inner x).map
  | not inner, x => (runs_code style inner x).map
  | comparison op left right, x => by
    change Runs _ ((left.nodes ++ right.nodes).findSome? fault?)
    rw [List.findSome?_append]
    exact (runs_code style left x).bind fun _ ↦ (runs_code style right x).map
  | subexpression left right, x => by
    change Runs _ ((left.nodes ++ right.nodes).findSome? fault?)
    rw [List.findSome?_append]
    refine (runs_code style left x).bind fun _ ↦ .fresh_bind fun t ↦ ?_
    cases style with
    | coalescing => exact (runs_code .coalescing right (.temp t)).map
    | explicitIf => exact (runs_code .explicitIf right (.temp t)).map
  | pipe left right, x => by
    change Runs _ ((left.nodes ++ right.nodes).findSome? fault?)
    rw [List.findSome?_append]
    exact (runs_code style left x).bind fun _ ↦
      .fresh_bind fun t ↦ (runs_code style right (.temp t)).map
  | projection source body, x => by
    change Runs _ ((source.nodes ++ body.nodes).findSome? fault?)
    rw [List.findSome?_append]
    refine (runs_code style source x).bind fun _ ↦ .fresh_bind fun _ ↦ .fresh_bind fun item ↦ ?_
    exact (runs_code style body (.temp item)).before fun _ ↦ runs_projection _ _ _ _ _ _
  | filterProjection source predicate body, x => by
    change Runs _ ((source.nodes ++ (predicate.nodes ++ body.nodes)).findSome? fault?)
    rw [List.findSome?_append, List.findSome?_append]
    refine (runs_code style source x).bind fun _ ↦ .fresh_bind fun _ ↦ .fresh_bind fun item ↦ ?_
    refine (runs_code style predicate (.temp item)).bind fun _ ↦ ?_
    exact (runs_code style body (.temp item)).before fun _ ↦ runs_projection _ _ _ _ _ _
  | multiSelectList items, _ => by
    refine .fresh_bind fun t ↦ ?_
    cases style with
    | coalescing => exact (runs_codeItems .coalescing items (.temp t)).map
    | explicitIf => exact (runs_codeItems .explicitIf items (.temp t)).map
  | multiSelectHash pairs, _ => by
    refine .fresh_bind fun t ↦ .fresh_bind fun _ ↦ ?_
    cases style with
    | coalescing => exact (runs_codePairs .coalescing pairs (.temp t)).map
    | explicitIf => exact (runs_codePairs .explicitIf pairs (.temp t)).map
  | or left right, x => by
    change Runs _ ((left.nodes ++ right.nodes).findSome? fault?)
    rw [List.findSome?_append]
    refine (runs_code style left x).bind fun _ ↦ ?_
    cases style with
    | coalescing => exact (runs_code .coalescing right x).map
    | explicitIf => exact (runs_code .explicitIf right x).before fun _ ↦ Runs.fresh.map
  | and left right, x => by
    change Runs _ ((left.nodes ++ right.nodes).findSome? fault?)
    rw [List.findSome?_append]
    exact (runs_code style left x).bind fun _ ↦
      (runs_code style right x).before fun _ ↦ Runs.fresh.map
  | functionCall name args, x => by
    rw [nodes, findSome?_cons_fault?]
    exact (runs_checkCall name args.length).bind fun _ ↦ (runs_codeArgs style args x).map
termination_by structural e => e

theorem runs_codeItems (style : NullCheck) : (es : List Expr) → (x : Var) →
    Runs (codeItems style es x) ((nodesItems es).findSome? fault?)
  | [], _ => .pure _
  | e :: es, x => by
    rw [nodesItems, List.findSome?_append]
    exact (runs_code style e x).bind fun _ ↦ (runs_codeItems style es x).map
termination_by structural es => es

theorem runs_codePairs (style : NullCheck) : (ps : List (String × Expr)) → (x : Var) →
    Runs (codePairs style ps x) ((nodesPairs ps).findSome? fault?)
  | [], _ => .pure _
  | (_, e) :: ps, x => by
    rw [nodesPairs, List.findSome?_append]
    exact (runs_code style e x).bind fun _ ↦ (runs_codePairs style ps x).map
termination_by structural ps => ps

theorem runs_codeArgs (style : NullCheck) : (es : List Expr) → (x : Var) →
    Runs (codeArgs style es x) ((nodesItems es).findSome? fault?)
  | [], _ => .pure _
  | e :: es, x => by
    rw [nodesItems, List.findSome?_append]
    exact (runs_code style e x).bind fun _ ↦ (runs_codeArgs style es x).map
termination_by structural es => es

end

/-- Every node of an expression that there is code for is supported. -/
theorem supported_of_code {style : NullCheck} {e : Expr} {x : Var} {n n' : Nat} {c : Code}
    (h : e.code style x n = .ok c n') : ∀ node ∈ e.nodes, node.Supported :=
  findSome?_fault?_eq_none_iff.1 (((runs_code style e x).ok_iff n).1 ⟨c, n', h⟩)

theorem runs_accessor (config : AccessorConfig) (e : Expr) :
    Runs (e.accessor config) (e.nodes.findSome? fault?) :=
  (runs_code config.nullCheck e .input).map

/-- An accessor is generated for an expression if every node is supported, and otherwise generation
fails with the fault of the first node that is not, whatever the settings and the count. -/
theorem accessor_fails_at_first (e : Expr) (config : AccessorConfig) (n : Nat) :
    ((∃ text n', e.accessor config n = .ok text n') ↔ ∀ node ∈ e.nodes, node.Supported) ∧
    ∀ err, (∃ n', e.accessor config n = .error err n') ↔ e.nodes.findSome? fault? = some err := by
  have hruns := runs_accessor config e
  exact ⟨(hruns.ok_iff n).trans findSome?_fault?_eq_none_iff, hruns.error_iff n⟩

end Expr

end PathQuery
