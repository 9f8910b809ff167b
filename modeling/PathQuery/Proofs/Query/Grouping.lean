import PathQuery.Proofs.Query.Embedding

namespace PathQuery.Query

open PathQuery.Parser Lexer PathQuery.Expr

variable {q : Query} {qs : List Query} {pairs : List (String × Query)} {function : String}

theorem compiles_group (hq : Compiles q.text q.expr) :
    Compiles ("(" ++ q.text ++ ")") q.expr := by
  obtain ⟨ts, hts⟩ := hq.embeds
  exact compiles_of_spells (toList_group q.text) hts.spells_group
    (.expression (hts.reads_group []) (.stop (Nat.le_refl 0)))

theorem compiles_not (hq : Compiles q.text q.expr) :
    Compiles ("!(" ++ q.text ++ ")") (.not q.expr) := by
  obtain ⟨ts, hts⟩ := hq.embeds
  have htext : ("!(" ++ q.text ++ ")").toList = '!' :: '(' :: (q.text.toList ++ [')']) := by
    simp [String.toList_append]
  have hspells := hts.spells_group.symbol .not ['!'] rfl fun _ ↦ rfl
  have hreads : Reads (.expression 45) _ q.expr [] :=
    .expression (hts.reads_group []) (.stop (Nat.zero_le 45))
  exact compiles_of_spells htext hspells (.expression (.not hreads) (.stop (Nat.le_refl 0)))

theorem compiles_filter (hq : Compiles q.text q.expr) (name : String) :
    Compiles (fieldName name ++ "[?" ++ q.text ++ "]")
      (.filterProjection (.field name) q.expr .currentNode) := by
  obtain ⟨ts, hts⟩ := hq.embeds
  have htext : (fieldName name ++ "[?" ++ q.text ++ "]").toList =
      (fieldName name).toList ++ '[' :: '?' :: (q.text.toList ++ [']']) := by
    simp [String.toList_append]
  have hclose : Spells [']'] [.symbol .rightBracket] := spells_sign .rightBracket fun _ ↦ rfl
  have hspells := (spells_fieldName name).followedBy (by decide)
    ((hts.spells.followedBy (by decide) hclose).symbol .filter ['[', '?'] rfl fun _ ↦ rfl)
  have hreads : Reads (.bracket (.field name)) _
      (.filterProjection (.field name) q.expr .currentNode) [] :=
    .filter (hts.reads _ rfl) (.element (by decide))
  exact compiles_of_spells htext hspells (.expression (reads_name name rfl)
    (.step (by decide : 0 < 21) (.explicit hreads) (.stop (Nat.le_refl 0))))

theorem toList_intercalate {α : Type} (f : α → String) (as : List α) :
    (", ".intercalate (as.map f)).toList =
      [',', ' '].intercalate (as.map fun a ↦ (f a).toList) := by
  rw [String.toList_intercalate, List.map_map]
  rfl

theorem symbol?_list {ts : Query → List TokenKind} (hne : qs ≠ [])
    (h : ∀ q ∈ qs, Embeds q.text.toList (ts q) q.expr) (rest : List Char) :
    symbol? ('[' :: ([',', ' '].intercalate (qs.map fun q ↦ q.text.toList) ++ rest)) =
      some .leftBracket := by
  cases qs with
  | nil => exact absurd rfl hne
  | cons q qs =>
    obtain ⟨c, cs, hcs, hclose, hquestion, -⟩ := (h q List.mem_cons_self).head
    rw [List.map_cons, hcs, List.intercalate_cons_cons_left]
    refine symbol?_leftBracket fun c' hc ↦ ?_
    cases hc
    exact ⟨hclose, hquestion⟩

theorem compiles_list (hqs : ∀ q ∈ qs, Compiles q.text q.expr) (hne : qs ≠ []) :
    Compiles ("@.[" ++ ", ".intercalate (qs.map text) ++ "]")
      (.subexpression .currentNode (.multiSelectList (qs.map expr))) := by
  obtain ⟨ts, hts⟩ := embeds_of_compiles hqs
  have htext : ("@.[" ++ ", ".intercalate (qs.map text) ++ "]").toList =
      '@' :: '.' :: '[' :: ([',', ' '].intercalate (qs.map fun q ↦ q.text.toList) ++ [']']) := by
    rw [String.toList_append, String.toList_append, toList_intercalate]
    rfl
  have hclose : Spells [']'] [.symbol .rightBracket] := spells_sign .rightBracket fun _ ↦ rfl
  have hitems := spells_separated fun q hq ↦ (hts q hq).spells
  have hlist := (hitems.followedBy (by decide) hclose).symbol .leftBracket ['['] rfl fun rest ↦ by
    rw [List.append_assoc]
    exact symbol?_list hne hts _
  have hspells := (hlist.symbol .dot ['.'] rfl fun _ ↦ rfl).symbol .current ['@'] rfl fun _ ↦ rfl
  have hreads := reads_items hne (fun q hq ↦ (hts q hq).reads) []
  exact compiles_of_spells htext hspells (.expression .current
    (.step (by decide : 0 < 40) (.dot (.dotList hreads)) (.stop (Nat.le_refl 0))))

theorem compiles_hash (hpairs : ∀ x ∈ pairs, Compiles x.2.text x.2.expr) (hne : pairs ≠ []) :
    Compiles
      ("\x7b" ++ ", ".intercalate (pairs.map fun x ↦ fieldName x.1 ++ ": " ++ x.2.text) ++ "\x7d")
      (.multiSelectHash (pairs.map fun x ↦ (x.1, x.2.expr))) := by
  obtain ⟨ts, hts⟩ := embeds_of_compiles (List.forall_mem_map.2 hpairs)
  rw [List.forall_mem_map] at hts
  have hpair (x : String × Query) : (fieldName x.1 ++ ": " ++ x.2.text).toList =
      (fieldName x.1).toList ++ ':' :: ' ' :: x.2.text.toList := by
    simp [String.toList_append]
  have htext : ("\x7b" ++ ", ".intercalate (pairs.map fun x ↦ fieldName x.1 ++ ": " ++ x.2.text) ++
      "\x7d").toList = '\x7b' :: ([',', ' '].intercalate
        (pairs.map fun x ↦ (fieldName x.1).toList ++ ':' :: ' ' :: x.2.text.toList) ++
          ['\x7d']) := by
    rw [String.toList_append, String.toList_append, toList_intercalate,
      List.map_congr_left fun x _ ↦ hpair x]
    rfl
  have hclose : Spells ['\x7d'] [.symbol .rightBrace] := spells_sign .rightBrace fun _ ↦ rfl
  have hitems := spells_separated fun x hx ↦ (spells_fieldName (Prod.fst x)).followedBy (by decide)
    ((hts x hx).spells.blank.symbol .colon [':'] rfl fun _ ↦ rfl)
  have hspells := (hitems.followedBy (by decide) hclose).symbol .leftBrace ['\x7b'] rfl fun _ ↦ rfl
  have hreads := reads_pairs (k := Prod.fst) hne (fun x hx ↦ (hts x hx).reads) []
  exact compiles_of_spells htext hspells (.expression (.hash hreads) (.stop (Nat.le_refl 0)))

theorem spells_function (hf : (Builtin.ofName? function).isSome) :
    Spells function.toList [.identifier function] := by
  have hname := spells_fieldName function
  rwa [fieldName, nameToken, isName_of_builtin hf, if_pos rfl, if_pos rfl] at hname

theorem compiles_call (hf : (Builtin.ofName? function).isSome)
    (hqs : ∀ q ∈ qs, Compiles q.text q.expr) :
    Compiles (function ++ "(" ++ ", ".intercalate (qs.map text) ++ ")")
      (.functionCall function (qs.map expr)) := by
  obtain ⟨ts, hts⟩ := embeds_of_compiles hqs
  have htext : (function ++ "(" ++ ", ".intercalate (qs.map text) ++ ")").toList =
      function.toList ++
        '(' :: ([',', ' '].intercalate (qs.map fun q ↦ q.text.toList) ++ [')']) := by
    rw [String.toList_append, String.toList_append, String.toList_append, toList_intercalate,
      List.append_assoc, List.append_assoc]
    rfl
  have hclose : Spells [')'] [.symbol .rightParen] := spells_sign .rightParen fun _ ↦ rfl
  have hitems := spells_separated fun q hq ↦ (hts q hq).spells
  have hspells := (spells_function hf).followedBy (by decide)
    ((hitems.followedBy (by decide) hclose).symbol .leftParen ['('] rfl fun _ ↦ rfl)
  have hreads := reads_arguments function (fun q hq us hus ↦ .plain ((hts q hq).reads us hus)) []
  exact compiles_of_spells htext hspells (.expression .identifier
    (.step (by decide : 0 < 60) (.call hf hreads) (.stop (Nat.le_refl 0))))

theorem compiles_reference (hf : (Builtin.ofName? function).isSome) (hq : Compiles q.text q.expr) :
    Compiles (function ++ "(&" ++ q.text ++ ")")
      (.functionCall function [.expressionRef q.expr]) := by
  obtain ⟨ts, hts⟩ := hq.embeds
  have htext : (function ++ "(&" ++ q.text ++ ")").toList =
      function.toList ++ '(' :: '&' :: (q.text.toList ++ [')']) := by
    simp [String.toList_append]
  have hclose : Spells [')'] [.symbol .rightParen] := spells_sign .rightParen fun _ ↦ rfl
  have hreference := (hts.spells.followedBy (by decide) hclose).symbol .ampersand ['&'] rfl
    fun rest ↦ by
      obtain ⟨c, cs, hcs, -, -, hc⟩ := hts.head
      rw [hcs]
      refine symbol?_ampersand fun c' hc' ↦ ?_
      cases hc'
      exact hc
  have hspells := (spells_function hf).followedBy (by decide)
    (hreference.symbol .leftParen ['('] rfl fun _ ↦ rfl)
  have hreads : Reads (.arguments function) _ (.functionCall function [.expressionRef q.expr]) [] :=
    .lastArgument (.reference (hts.reads _ rfl))
  exact compiles_of_spells htext hspells (.expression .identifier
    (.step (by decide : 0 < 60) (.call hf hreads) (.stop (Nat.le_refl 0))))

/-- What compiles is compiled to the same tree within every kind of group. -/
theorem compiles_groups (q : Query) (qs : List Query) (pairs : List (String × Query))
    (function name : String) (hq : Compiles q.text q.expr)
    (hqs : ∀ q ∈ qs, Compiles q.text q.expr) (hne : qs ≠ [])
    (hpairs : ∀ x ∈ pairs, Compiles x.2.text x.2.expr) (hne' : pairs ≠ [])
    (hf : (Builtin.ofName? function).isSome) :
    Compiles ("(" ++ q.text ++ ")") q.expr ∧
    Compiles ("!(" ++ q.text ++ ")") (.not q.expr) ∧
    Compiles (fieldName name ++ "[?" ++ q.text ++ "]")
      (.filterProjection (.field name) q.expr .currentNode) ∧
    Compiles ("@.[" ++ ", ".intercalate (qs.map text) ++ "]")
      (.subexpression .currentNode (.multiSelectList (qs.map expr))) ∧
    Compiles
      ("\x7b" ++ ", ".intercalate (pairs.map fun x ↦ fieldName x.1 ++ ": " ++ x.2.text) ++ "\x7d")
      (.multiSelectHash (pairs.map fun x ↦ (x.1, x.2.expr))) ∧
    Compiles (function ++ "(" ++ ", ".intercalate (qs.map text) ++ ")")
      (.functionCall function (qs.map expr)) ∧
    Compiles (function ++ "(&" ++ q.text ++ ")") (.functionCall function [.expressionRef q.expr]) :=
  ⟨compiles_group hq, compiles_not hq, compiles_filter hq name, compiles_list hqs hne,
    compiles_hash hpairs hne', compiles_call hf hqs, compiles_reference hf hq⟩

theorem compiles_groups_of_projection :
    Compiles "a[*]" (.projection (.field "a") .currentNode) ∧
    Compiles "b || c" (.or (.field "b") (.field "c")) ∧
    (Builtin.ofName? "keys").isSome ∧
    Compiles "(a[*])" (.projection (.field "a") .currentNode) ∧
    Compiles "!(a[*])" (.not (.projection (.field "a") .currentNode)) ∧
    Compiles "x[?a[*]]"
      (.filterProjection (.field "x") (.projection (.field "a") .currentNode) .currentNode) ∧
    Compiles "@.[a[*], b || c]" (.subexpression .currentNode (.multiSelectList
      [.projection (.field "a") .currentNode, .or (.field "b") (.field "c")])) ∧
    Compiles "\x7b\"k l\": b || c, m: a[*]\x7d" (.multiSelectHash
      [("k l", .or (.field "b") (.field "c")), ("m", .projection (.field "a") .currentNode)]) ∧
    Compiles "keys(a[*], b || c)" (.functionCall "keys"
      [.projection (.field "a") .currentNode, .or (.field "b") (.field "c")]) ∧
    Compiles "keys(&a[*])"
      (.functionCall "keys" [.expressionRef (.projection (.field "a") .currentNode)]) := by
  have hq : Compiles "a[*]" (.projection (.field "a") .currentNode) := by unfold Compiles; cbv
  have hr : Compiles "b || c" (.or (.field "b") (.field "c")) := by unfold Compiles; cbv
  exact ⟨hq, hr, by decide, compiles_groups ⟨"a[*]", .projection (.field "a") .currentNode⟩
    [⟨"a[*]", .projection (.field "a") .currentNode⟩, ⟨"b || c", .or (.field "b") (.field "c")⟩]
    [("k l", ⟨"b || c", .or (.field "b") (.field "c")⟩),
      ("m", ⟨"a[*]", .projection (.field "a") .currentNode⟩)]
    "keys" "x" hq (by simpa using ⟨hq, hr⟩) (by decide) (by simpa using ⟨hr, hq⟩) (by decide)
    (by decide)⟩

end PathQuery.Query
