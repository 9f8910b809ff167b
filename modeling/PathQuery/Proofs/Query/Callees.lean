import Mathlib.Tactic
import PathQuery.Proofs.Expr.WellFormed
import PathQuery.Proofs.Parser.Framing

namespace PathQuery

open PathQuery.Parser PathQuery.Expr

namespace Expr

mutual

def calledNames : Expr → List String
  | flatten inner => calledNames inner
  | objectValues inner => calledNames inner
  | subexpression left right => calledNames left ++ calledNames right
  | pipe left right => calledNames left ++ calledNames right
  | projection source body => calledNames source ++ calledNames body
  | filterProjection source predicate body =>
    calledNames source ++ calledNames predicate ++ calledNames body
  | multiSelectList items => calledNamesItems items
  | multiSelectHash pairs => calledNamesPairs pairs
  | or left right => calledNames left ++ calledNames right
  | and left right => calledNames left ++ calledNames right
  | not inner => calledNames inner
  | comparison _ left right => calledNames left ++ calledNames right
  | functionCall name args => name :: calledNamesItems args
  | expressionRef inner => calledNames inner
  | field _ => []
  | index _ => []
  | slice .. => []
  | currentNode => []
  | literal _ => []
termination_by structural e => e

def calledNamesItems : List Expr → List String
  | [] => []
  | e :: es => calledNames e ++ calledNamesItems es
termination_by structural es => es

def calledNamesPairs : List (String × Expr) → List String
  | [] => []
  | (_, e) :: ps => calledNames e ++ calledNamesPairs ps
termination_by structural ps => ps

end

theorem calledNames_access (left step : Expr) :
    (Parser.access left step).calledNames = left.calledNames ++ step.calledNames := by
  unfold Parser.access
  cases left <;> rfl

theorem calledNames_binary {s : Symbol} {tree : Expr → Expr → Expr} (hs : binary? s = some tree)
    (left right : Expr) :
    (tree left right).calledNames = left.calledNames ++ right.calledNames := by
  cases s <;> cases hs <;> rfl

end Expr

inductive Callee where
  | bare (name : String)
  | quoted (name : String)
  | grouped (name : Option String)

namespace Callee

def name? : Callee → Option String
  | bare name => some name
  | quoted name => some name
  | grouped name => name

def called? : Callee → Option String
  | bare name => some name
  | quoted _ => none
  | grouped name => name

def last : Callee → TokenKind
  | bare name => .identifier name
  | quoted name => .quotedIdentifier name
  | grouped _ => .symbol .rightParen

def next (before : Option Callee) : TokenKind → Option Callee
  | .identifier name => some (bare name)
  | .quotedIdentifier name => some (quoted name)
  | .symbol .rightParen => some (grouped (before.bind name?))
  | _ => none

end Callee

namespace Parser

/-- What stands before the opening parentheses among the tokens, where that is a name or a closing
parenthesis. -/
def callees (before : Option Callee) : List TokenKind → List Callee
  | [] => []
  | k :: ts =>
    (if k.isSymbol .leftParen then before.toList else []) ++ callees (Callee.next before k) ts

def beforeParens (ts : List TokenKind) : List TokenKind :=
  ((ts.zip ts.tail).filter fun x ↦ x.2.isSymbol .leftParen).map Prod.fst

def bareName? : TokenKind → Option String
  | .identifier name => some name
  | _ => none

def endsCallee : TokenKind → Bool
  | .identifier _ => true
  | .quotedIdentifier _ => true
  | .symbol .rightParen => true
  | _ => false

variable {ts mid rest inner : List TokenKind} {e left : Expr} {n : String}
  {before between after : Option Callee} {called called' : List String} {k : TokenKind} {φ : Phrase}

/-- Behind `before`, the tokens `ts` call the functions `called` and go on with `rest`, which stands
behind `after`. -/
def Calls (before : Option Callee) (ts : List TokenKind) (called : List String)
    (after : Option Callee) (rest : List TokenKind) : Prop :=
  (callees before ts).map Callee.called? =
    called.map some ++ (callees after rest).map Callee.called?

namespace Calls

theorem refl : Calls before ts [] before ts := rfl

theorem trans (h : Calls before ts called between mid) (h' : Calls between mid called' after rest) :
    Calls before ts (called ++ called') after rest := by
  rw [Calls, h, h', List.map_append, List.append_assoc]

theorem token (hk : k.isSymbol .leftParen = false) :
    Calls before (k :: ts) [] (Callee.next before k) ts := by
  rw [Calls, callees, hk]
  rfl

theorem openParen (h : before.toList.map Callee.called? = called.map some) :
    Calls before (.symbol .leftParen :: ts) called none ts := by
  rw [Calls, callees, List.map_append]
  change before.toList.map Callee.called? ++ _ = _
  rw [h]
  rfl

theorem operator {s : Symbol} {tree : Expr → Expr → Expr} (hs : binary? s = some tree) :
    Calls before (.symbol s :: ts) [] none ts := by
  cases s <;> first | exact token rfl | cases hs

theorem key (hk : name? k = some n) : Calls before (k :: .symbol .colon :: ts) [] none ts := by
  have hparen : k.isSymbol .leftParen = false := by
    cases k <;> first | rfl | cases hk
  exact (token hparen).trans (token rfl)

/-- No function is called up to a closing bracket that no parenthesis stands before. -/
theorem bracketed (h : ∀ k ∈ inner, k.isSymbol .leftParen = false) :
    Calls before (inner ++ .symbol .rightBracket :: ts) [] none ts := by
  induction inner generalizing before with
  | nil => exact .token rfl
  | cons k inner ih =>
    obtain ⟨hk, hinner⟩ := List.forall_mem_cons.1 h
    exact (token hk).trans (ih hinner)

end Calls

theorem SliceTokens.not_leftParen {parts : SliceParts} (h : SliceTokens parts inner) :
    ∀ k ∈ inner, k.isSymbol .leftParen = false := by
  have hnumber (n : Option Int64) : ∀ k ∈ numberTokens n, k.isSymbol .leftParen = false := by
    intro k hk
    cases n with
    | none => cases hk
    | some n =>
      obtain rfl := List.mem_singleton.1 hk
      rfl
  cases h with
  | short start stop =>
    exact List.forall_mem_append.2
      ⟨hnumber start, List.forall_mem_cons.2 ⟨rfl, hnumber stop⟩⟩
  | long start stop step =>
    exact List.forall_mem_append.2 ⟨hnumber start, List.forall_mem_cons.2 ⟨rfl,
      List.forall_mem_append.2 ⟨hnumber stop, List.forall_mem_cons.2 ⟨rfl, hnumber step⟩⟩⟩⟩

/-- The name stands right before the tokens, in parentheses or not; only where it is quoted and in
none, no parenthesis follows. -/
structure Names (name : String) (before : Option Callee) (ts : List TokenKind) : Prop where
  name_eq : before.bind Callee.name? = some name
  not_paren : before = some (.quoted name) → startsSymbol .leftParen ts = false

theorem Names.calls (h : Names n before (.symbol .leftParen :: ts)) :
    Calls before (.symbol .leftParen :: ts) [n] none ts := by
  refine .openParen ?_
  obtain ⟨callee, rfl, hname⟩ := Option.bind_eq_some_iff.1 h.name_eq
  cases callee with
  | bare name => exact congrArg (fun n ↦ [n]) hname
  | grouped name => exact congrArg (fun n ↦ [n]) hname
  | quoted name =>
    cases hname
    cases h.not_paren rfl

theorem Names.close (h : Names n before (.symbol .rightParen :: ts)) :
    Names n (some (.grouped (before.bind Callee.name?))) ts :=
  ⟨h.name_eq, nofun⟩

/-- What the tokens that are read for a phrase call is what its tree calls. A tree that is a name
leaves it before the rest. -/
def CallsIn : Phrase → List TokenKind → Expr → List TokenKind → Prop
  | .expression _, ts, e, rest => ∃ after, Calls none ts e.calledNames after rest ∧
    ∀ n, e = .field n → Names n after rest
  | .head, ts, e, rest => ∃ after, Calls none ts e.calledNames after rest ∧
    ∀ n, e = .field n → Names n after rest
  | .climb _ left, ts, e, rest => ∀ before, (∀ n, left = .field n → Names n before ts) →
    ∃ after called, Calls before ts called after rest ∧ e.calledNames = left.calledNames ++ called ∧
      ∀ n, e = .field n → Names n after rest
  | .extend left, ts, e, rest => ∀ before, (∀ n, left = .field n → Names n before ts) →
    ∃ after called, Calls before ts called after rest ∧ e.calledNames = left.calledNames ++ called ∧
      ∀ n, e ≠ .field n
  | .bracket left, ts, e, rest => ∀ before,
    ∃ after called, Calls before ts called after rest ∧ e.calledNames = left.calledNames ++ called ∧
      ∀ n, e ≠ .field n
  | .arguments f, ts, e, rest => ∃ after called, Calls none ts called after rest ∧
    e.calledNames = f :: called
  | .items, ts, e, rest => (∃ after, Calls none ts e.calledNames after rest) ∧ ∀ n, e ≠ .field n
  | .pairs, ts, e, rest => (∃ after, Calls none ts e.calledNames after rest) ∧ ∀ n, e ≠ .field n
  | _, ts, e, rest => ∃ after, Calls none ts e.calledNames after rest

theorem access_index_ne (left : Expr) (i : Int64) (n : String) :
    access left (.index i) ≠ .field n := by
  unfold Parser.access
  cases left <;> nofun

theorem binary_ne_field {s : Symbol} {tree : Expr → Expr → Expr} (hs : binary? s = some tree)
    {left right : Expr} (n : String) : tree left right ≠ .field n := by
  cases s <;> cases hs <;> nofun

/-- The parser calls what stands before an opening parenthesis and nothing else. -/
theorem Reads.callsIn (h : Reads φ ts e rest) : CallsIn φ ts e rest := by
  induction h with
  | expression _ _ ihHead ihClimb =>
    obtain ⟨between, hhead, hname⟩ := ihHead
    obtain ⟨after, called, hclimb, heq, hname⟩ := ihClimb between hname
    exact ⟨after, heq ▸ hhead.trans hclimb, hname⟩
  | stop =>
    intro before hname
    exact ⟨before, [], .refl, (List.append_nil _).symm, hname⟩
  | step _ _ _ ihExtend ihClimb =>
    intro before hname
    obtain ⟨between, called, hextend, heq, hne⟩ := ihExtend before hname
    obtain ⟨after, called', hclimb, heq', hname⟩ := ihClimb between fun n hn ↦ absurd hn (hne n)
    exact ⟨after, called ++ called', hextend.trans hclimb,
      by rw [heq', heq, List.append_assoc], hname⟩
  | current => exact ⟨none, .token rfl, nofun⟩
  | literal => exact ⟨none, .token rfl, nofun⟩
  | rawString => exact ⟨none, .token rfl, nofun⟩
  | @identifier name ts =>
    refine ⟨some (.bare name), .token rfl, fun n hn ↦ ?_⟩
    cases hn
    exact ⟨rfl, nofun⟩
  | @quotedIdentifier name ts hparen =>
    refine ⟨some (.quoted name), .token rfl, fun n hn ↦ ?_⟩
    cases hn
    exact ⟨rfl, fun _ ↦ hparen⟩
  | values _ ih =>
    obtain ⟨after, hbody⟩ := ih
    exact ⟨after, (Calls.token rfl).trans hbody, nofun⟩
  | implicit _ ih =>
    obtain ⟨after, called, hcalls, heq, hne⟩ := ih none
    exact ⟨after, heq ▸ hcalls, fun n hn ↦ absurd hn (hne n)⟩
  | list _ _ ih =>
    obtain ⟨⟨after, hitems⟩, hne⟩ := ih
    exact ⟨after, (Calls.token rfl).trans hitems, fun n hn ↦ absurd hn (hne n)⟩
  | hash _ ih =>
    obtain ⟨⟨after, hpairs⟩, hne⟩ := ih
    exact ⟨after, (Calls.token rfl).trans hpairs, fun n hn ↦ absurd hn (hne n)⟩
  | not _ ih =>
    obtain ⟨after, hinner, -⟩ := ih
    exact ⟨after, (Calls.token rfl).trans hinner, nofun⟩
  | @group ts rest e _ ih =>
    obtain ⟨between, hinner, hname⟩ := ih
    have hopen : Calls none (.symbol .leftParen :: ts) [] none ts := .openParen rfl
    have hclose := hinner.trans (Calls.token rfl)
    rw [List.append_nil] at hclose
    exact ⟨_, hopen.trans hclose, fun n hn ↦ (hname n hn).close⟩
  | dot _ ih =>
    intro before _
    obtain ⟨after, hright⟩ := ih
    exact ⟨after, _, (Calls.token rfl).trans hright, rfl, nofun⟩
  | binary hs _ ih =>
    intro before _
    obtain ⟨after, hright, -⟩ := ih
    refine ⟨after, _, (Calls.operator hs).trans hright, Expr.calledNames_binary hs _ _, ?_⟩
    exact binary_ne_field hs
  | explicit _ ih => exact fun before _ ↦ ih before
  | call _ _ ih =>
    intro before hname
    obtain ⟨after, called, hargs, heq⟩ := ih
    refine ⟨after, _ :: called, (hname _ rfl).calls.trans hargs, heq, fun n hn ↦ ?_⟩
    subst hn
    cases heq
  | flatten _ ih =>
    intro before
    obtain ⟨after, hbody⟩ := ih
    exact ⟨after, _, (Calls.token rfl).trans hbody, rfl, nofun⟩
  | filter _ _ ihPredicate ihBody =>
    intro before
    obtain ⟨between, hpredicate, -⟩ := ihPredicate
    obtain ⟨after, hbody⟩ := ihBody
    refine ⟨after, _, (Calls.token rfl).trans (hpredicate.trans ((Calls.token rfl).trans hbody)),
      ?_, nofun⟩
    exact List.append_assoc _ _ _
  | @index left i ts =>
    intro before
    refine ⟨none, [], ?_, Expr.calledNames_access left (.index i), access_index_ne left i⟩
    exact (Calls.token rfl).trans ((Calls.token rfl).trans (.token rfl))
  | slice hslice _ _ ih =>
    intro before
    obtain ⟨after, hbody⟩ := ih
    refine ⟨after, _, (Calls.token rfl).trans ((Calls.bracketed hslice.not_leftParen).trans hbody),
      ?_, nofun⟩
    change (access _ _).calledNames ++ _ = _
    rw [Expr.calledNames_access]
    simp [Expr.calledNames]
  | wildcard _ ih =>
    intro before
    obtain ⟨after, hbody⟩ := ih
    refine ⟨after, _, ?_, rfl, nofun⟩
    exact (Calls.token rfl).trans ((Calls.token rfl).trans ((Calls.token rfl).trans hbody))
  | dotList _ ih =>
    obtain ⟨⟨after, hitems⟩, -⟩ := ih
    exact ⟨after, (Calls.token rfl).trans hitems⟩
  | dotHash _ ih =>
    obtain ⟨⟨after, hpairs⟩, -⟩ := ih
    exact ⟨after, (Calls.token rfl).trans hpairs⟩
  | dotName _ _ ih =>
    obtain ⟨after, hname, -⟩ := ih
    exact ⟨after, hname⟩
  | element => exact ⟨none, .refl⟩
  | bodyDot _ ih =>
    obtain ⟨after, hright⟩ := ih
    exact ⟨after, (Calls.token rfl).trans hright⟩
  | bodyBracket _ _ ih =>
    obtain ⟨after, hbody, -⟩ := ih
    exact ⟨after, hbody⟩
  | lastItem _ ih =>
    obtain ⟨between, hitem, -⟩ := ih
    refine ⟨⟨none, ?_⟩, nofun⟩
    exact hitem.trans (.token rfl)
  | item _ _ ihItem ihItems =>
    obtain ⟨between, hitem, -⟩ := ihItem
    obtain ⟨⟨after, hitems⟩, -⟩ := ihItems
    exact ⟨⟨after, hitem.trans ((Calls.token rfl).trans hitems)⟩, nofun⟩
  | lastPair hk _ ih =>
    obtain ⟨between, hvalue, -⟩ := ih
    refine ⟨⟨none, (Calls.key hk).trans ?_⟩, nofun⟩
    exact hvalue.trans (.token rfl)
  | pair hk _ _ ihValue ihPairs =>
    obtain ⟨between, hvalue, -⟩ := ihValue
    obtain ⟨⟨after, hpairs⟩, -⟩ := ihPairs
    exact ⟨⟨after, (Calls.key hk).trans (hvalue.trans ((Calls.token rfl).trans hpairs))⟩, nofun⟩
  | noArguments => exact ⟨_, [], .token rfl, rfl⟩
  | lastArgument _ ih =>
    obtain ⟨between, harg⟩ := ih
    exact ⟨_, _, harg.trans (.token rfl), rfl⟩
  | nextArgument _ _ _ ihArg ihArgs =>
    obtain ⟨between, harg⟩ := ihArg
    obtain ⟨after, called, hargs, heq⟩ := ihArgs
    refine ⟨after, _, harg.trans ((Calls.token rfl).trans hargs), ?_⟩
    obtain ⟨-, rfl⟩ := List.cons.inj heq
    rfl
  | reference _ ih =>
    obtain ⟨after, hinner, -⟩ := ih
    exact ⟨after, (Calls.token rfl).trans hinner⟩
  | plain _ ih =>
    obtain ⟨after, hvalue, -⟩ := ih
    exact ⟨after, hvalue⟩

/-- The names that the tree calls are those that stand before the parentheses. -/
theorem Reads.map_called? (h : Reads (.expression 0) ts e []) :
    (callees none (ts ++ [.endOfInput])).map Callee.called? = e.calledNames.map some := by
  obtain ⟨after, hcalls, -⟩ := h.beforeEnd.callsIn
  exact Eq.trans hcalls (List.append_nil _)

theorem beforeParens_cons (k k' : TokenKind) (ts : List TokenKind) :
    beforeParens (k :: k' :: ts) =
      (if k'.isSymbol .leftParen then [k] else []) ++ beforeParens (k' :: ts) := by
  change (List.filter _ ((k, k') :: (k' :: ts).zip ts)).map Prod.fst = _
  rw [List.filter_cons]
  split <;> rfl

theorem map_last_next (before : Option Callee) (k : TokenKind) :
    (Callee.next before k).toList.map Callee.last = [k].filter endsCallee := by
  cases k with
  | symbol s => cases s <;> rfl
  | _ => rfl

/-- The tokens right before the parentheses are what callees end in, and those that end none. -/
theorem map_last_callees (ts : List TokenKind) :
    (callees none ts).map Callee.last = (beforeParens ts).filter endsCallee := by
  have hnext (before : Option Callee) (k : TokenKind) (ts : List TokenKind) :
      (callees (Callee.next before k) ts).map Callee.last =
        (beforeParens (k :: ts)).filter endsCallee := by
    induction ts generalizing before k with
    | nil => rfl
    | cons k' ts ih =>
      rw [callees, beforeParens_cons, List.map_append, List.filter_append, ih]
      split
      · rw [map_last_next]
      · rfl
  cases ts with
  | nil => rfl
  | cons k ts =>
    have hnone : callees none (k :: ts) = callees (Callee.next none k) ts := by
      rw [callees]
      split <;> rfl
    rw [hnone, hnext]

theorem filterMap_filter_endsCallee (ts : List TokenKind) :
    (ts.filter endsCallee).filterMap bareName? = ts.filterMap bareName? := by
  rw [List.filterMap_filter]
  refine List.filterMap_congr fun k _ ↦ ?_
  cases k with
  | symbol s => cases s <;> rfl
  | _ => rfl

theorem length_filter_endsCallee (h : ∀ name, .quotedIdentifier name ∉ ts) :
    (ts.filter endsCallee).length =
      (ts.filterMap bareName?).length + ts.countP (·.isSymbol .rightParen) := by
  induction ts with
  | nil => rfl
  | cons k ts ih =>
    have ih := ih fun name hname ↦ h name (List.mem_cons_of_mem _ hname)
    cases k with
    | quotedIdentifier name => exact absurd List.mem_cons_self (h name)
    | identifier name =>
      change (ts.filter endsCallee).length + 1 = (ts.filterMap bareName?).length + 1 + _
      rw [ih, Nat.add_right_comm]
      rfl
    | symbol s =>
      rw [List.filterMap_cons_none rfl, List.countP_cons, ← Nat.add_assoc, ← ih]
      cases s <;> rfl
    | _ => exact ih

end Parser

namespace Callee

variable {c : Callee} {cs : List Callee} {names : List String}

theorem exists_called (h : cs.map called? = names.map some) (hc : c ∈ cs) :
    ∃ name, c.called? = some name := by
  have hmem : c.called? ∈ names.map some := h ▸ List.mem_map_of_mem hc
  obtain ⟨name, -, hname⟩ := List.mem_map.1 hmem
  exact ⟨name, hname.symm⟩

theorem filterMap_called? (h : cs.map called? = names.map some) : cs.filterMap called? = names := by
  have hid : (cs.map called?).filterMap id = (names.map some).filterMap id := by rw [h]
  rwa [List.filterMap_map, List.filterMap_map, Function.id_comp, Function.id_comp,
    List.filterMap_some] at hid

end Callee

namespace Query

variable {text : String} {q : Query}

/-- A query calls the functions whose names stand before its opening parentheses, bare or in
parentheses of their own, in the same order. So the bare names are all of them just if no
parenthesis is closed right before another is opened. -/
theorem calledNames_of_compile (h : compile text = .ok q) :
    ∃ tokens kinds, Token.ofString text = .ok tokens ∧ tokens.map Token.kind = kinds ∧
      (callees none kinds).map Callee.called? = q.expr.calledNames.map some ∧
      (∀ name, .quotedIdentifier name ∉ beforeParens kinds) ∧
      q.expr.calledNames.length = ((beforeParens kinds).filterMap bareName?).length +
        (beforeParens kinds).countP (·.isSymbol .rightParen) ∧
      (q.expr.calledNames = (beforeParens kinds).filterMap bareName? ↔
        .symbol .rightParen ∉ beforeParens kinds) := by
  obtain ⟨ts, hlexes, hreads⟩ := ofString_eq_ok_iff.mp (ofString_of_compile h).2
  obtain ⟨tokens, htokens, hkinds⟩ := Token.ofString_of_lexes hlexes
  have hnames := hreads.map_called?
  rw [← hkinds] at hnames
  have hlast := map_last_callees (tokens.map Token.kind)
  have hquoted (name : String) :
      .quotedIdentifier name ∉ beforeParens (tokens.map Token.kind) := by
    intro hmem
    have hmem' := List.mem_filter.2 ⟨hmem, show endsCallee (.quotedIdentifier name) = true from rfl⟩
    rw [← hlast] at hmem'
    obtain ⟨c, hc, hname⟩ := List.mem_map.1 hmem'
    obtain ⟨_, hcalled⟩ := Callee.exists_called hnames hc
    cases c with
    | quoted => cases hcalled
    | _ => cases hname
  have hlength : q.expr.calledNames.length =
      ((beforeParens (tokens.map Token.kind)).filterMap bareName?).length +
        (beforeParens (tokens.map Token.kind)).countP (·.isSymbol .rightParen) := by
    rw [← length_filter_endsCallee hquoted, ← hlast, List.length_map,
      ← List.length_map (f := some), ← hnames, List.length_map]
  refine ⟨tokens, _, htokens, rfl, hnames, hquoted, hlength, fun heq hmem ↦ ?_, fun hparen ↦ ?_⟩
  · rw [heq, Nat.left_eq_add, List.countP_eq_zero] at hlength
    exact hlength _ hmem rfl
  · have hbare : ∀ c ∈ callees none (tokens.map Token.kind), c.called? = bareName? c.last := by
      intro c hc
      obtain ⟨_, hcalled⟩ := Callee.exists_called hnames hc
      cases c with
      | bare name => rfl
      | quoted name => cases hcalled
      | grouped name =>
        have hmem : Callee.last (.grouped name) ∈ _ := List.mem_map_of_mem hc
        rw [hlast] at hmem
        exact absurd (List.mem_filter.1 hmem).1 hparen
    rw [← Callee.filterMap_called? hnames, List.filterMap_congr hbare,
      ← filterMap_filter_endsCallee, ← hlast, List.filterMap_map]
    rfl

theorem calledNames_of_compile_grouped :
    compile "sort(keys(a)) || (\"length\")(b)" = .ok ⟨"sort(keys(a)) || (\"length\")(b)",
      .or (.functionCall "sort" [.functionCall "keys" [.field "a"]])
        (.functionCall "length" [.field "b"])⟩ ∧
    ∃ kinds, (callees none kinds).map Callee.called? = ["sort", "keys", "length"].map some ∧
      3 = ((beforeParens kinds).filterMap bareName?).length +
        (beforeParens kinds).countP (·.isSymbol .rightParen) := by
  have htokens : Token.ofString "sort(keys(a)) || (\"length\")(b)" = .ok
      [⟨.identifier "sort", "sort", 0⟩, ⟨.symbol .leftParen, "(", 4⟩,
        ⟨.identifier "keys", "keys", 5⟩, ⟨.symbol .leftParen, "(", 9⟩, ⟨.identifier "a", "a", 10⟩,
        ⟨.symbol .rightParen, ")", 11⟩, ⟨.symbol .rightParen, ")", 12⟩, ⟨.symbol .or, "||", 14⟩,
        ⟨.symbol .leftParen, "(", 17⟩, ⟨.quotedIdentifier "length", "\"length\"", 18⟩,
        ⟨.symbol .rightParen, ")", 26⟩, ⟨.symbol .leftParen, "(", 27⟩, ⟨.identifier "b", "b", 28⟩,
        ⟨.symbol .rightParen, ")", 29⟩, ⟨.endOfInput, "", 30⟩] := by cbv
  have hcompile : compile "sort(keys(a)) || (\"length\")(b)" =
      .ok ⟨"sort(keys(a)) || (\"length\")(b)",
        .or (.functionCall "sort" [.functionCall "keys" [.field "a"]])
          (.functionCall "length" [.field "b"])⟩ := by
    rw [compile_eq_of_tokens htokens]
    rfl
  obtain ⟨tokens, kinds, -, -, hcalls, -, hlength, -⟩ := calledNames_of_compile hcompile
  exact ⟨hcompile, kinds, hcalls, hlength⟩

/-- A quoted name in parentheses is called, though no unquoted name stands in the text at all. -/
theorem calledNames_ne_of_quoted :
    ∃ tokens q, Token.ofString "(\"length\")(@)" = .ok tokens ∧
      compile "(\"length\")(@)" = .ok q ∧ q.expr.calledNames = ["length"] ∧
      (beforeParens (tokens.map Token.kind)).filterMap bareName? = [] ∧
      ∀ name, .identifier name ∉ tokens.map Token.kind := by
  have htokens : Token.ofString "(\"length\")(@)" = .ok [⟨.symbol .leftParen, "(", 0⟩,
      ⟨.quotedIdentifier "length", "\"length\"", 1⟩, ⟨.symbol .rightParen, ")", 9⟩,
      ⟨.symbol .leftParen, "(", 10⟩, ⟨.symbol .current, "@", 11⟩, ⟨.symbol .rightParen, ")", 12⟩,
      ⟨.endOfInput, "", 13⟩] := by cbv
  have hcompile : compile "(\"length\")(@)" =
      .ok ⟨"(\"length\")(@)", .functionCall "length" [.currentNode]⟩ := by
    rw [compile_eq_of_tokens htokens]
    rfl
  exact ⟨_, _, htokens, hcompile, rfl, rfl, by simp⟩

end Query

end PathQuery
