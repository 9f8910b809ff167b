import PathQuery.Proofs.Expr.Rereading

namespace PathQuery.Expr

open PathQuery.Parser

variable {e : Expr} {text : String}

mutual

theorem AllLiterals.imp {P Q R : Value → Prop} (hR : ∀ v, P v → Q v → R v) :
    ∀ e : Expr, e.AllLiterals P → e.AllLiterals Q → e.AllLiterals R
  | flatten inner, h, h' => AllLiterals.imp hR inner h h'
  | objectValues inner, h, h' => AllLiterals.imp hR inner h h'
  | subexpression left right, h, h' =>
    ⟨AllLiterals.imp hR left h.1 h'.1, AllLiterals.imp hR right h.2 h'.2⟩
  | pipe left right, h, h' =>
    ⟨AllLiterals.imp hR left h.1 h'.1, AllLiterals.imp hR right h.2 h'.2⟩
  | projection source body, h, h' =>
    ⟨AllLiterals.imp hR source h.1 h'.1, AllLiterals.imp hR body h.2 h'.2⟩
  | filterProjection source predicate body, h, h' =>
    ⟨AllLiterals.imp hR source h.1 h'.1, AllLiterals.imp hR predicate h.2.1 h'.2.1,
      AllLiterals.imp hR body h.2.2 h'.2.2⟩
  | multiSelectList items, h, h' => AllLiteralsItems.imp hR items h h'
  | multiSelectHash pairs, h, h' => AllLiteralsPairs.imp hR pairs h h'
  | or left right, h, h' =>
    ⟨AllLiterals.imp hR left h.1 h'.1, AllLiterals.imp hR right h.2 h'.2⟩
  | and left right, h, h' =>
    ⟨AllLiterals.imp hR left h.1 h'.1, AllLiterals.imp hR right h.2 h'.2⟩
  | not inner, h, h' => AllLiterals.imp hR inner h h'
  | comparison _ left right, h, h' =>
    ⟨AllLiterals.imp hR left h.1 h'.1, AllLiterals.imp hR right h.2 h'.2⟩
  | functionCall _ args, h, h' => AllLiteralsItems.imp hR args h h'
  | expressionRef inner, h, h' => AllLiterals.imp hR inner h h'
  | literal v, h, h' => hR v h h'
  | field _, _, _ => trivial
  | index _, _, _ => trivial
  | slice .., _, _ => trivial
  | currentNode, _, _ => trivial
termination_by structural e => e

theorem AllLiteralsItems.imp {P Q R : Value → Prop} (hR : ∀ v, P v → Q v → R v) :
    ∀ es : List Expr, AllLiteralsItems P es → AllLiteralsItems Q es → AllLiteralsItems R es
  | [], _, _ => trivial
  | e :: es, h, h' => ⟨AllLiterals.imp hR e h.1 h'.1, AllLiteralsItems.imp hR es h.2 h'.2⟩
termination_by structural es => es

theorem AllLiteralsPairs.imp {P Q R : Value → Prop} (hR : ∀ v, P v → Q v → R v) :
    ∀ ps : List (String × Expr), AllLiteralsPairs P ps → AllLiteralsPairs Q ps →
      AllLiteralsPairs R ps
  | [], _, _ => trivial
  | (_, e) :: ps, h, h' => ⟨AllLiterals.imp hR e h.1 h'.1, AllLiteralsPairs.imp hR ps h.2 h'.2⟩
termination_by structural ps => ps

end

theorem canonical_of_ofString (h : ofString text = .ok e)
    (hliterals : e.AllLiterals Value.FloatFree) :
    e.AllLiterals (Value.Canonical Json.Read.maxDepth) := by
  have hread : e.AllLiterals fun v ↦ v.FloatFree → v.Canonical Json.Read.maxDepth :=
    allLiterals_of_ofString h (fun d hd hfree ↦ Value.canonical_ofJson hd hfree)
      fun s _ ↦ .string _ s
  exact AllLiterals.imp (fun _ hv hfree ↦ hv hfree) e hread hliterals

theorem shaped_of_ofString (h : ofString text = .ok e) : Shaped e := by
  obtain ⟨kinds, -, hreads⟩ := ofString_eq_ok_iff.mp h
  exact hreads.shapedAs.1

theorem ofString_text (h : ofString text = .ok e) (hliterals : e.AllLiterals Value.FloatFree)
    (hfaithful : e.isFaithful false = true) : ofString e.text = .ok e := by
  have hshaped := shaped_of_ofString h
  have hlexes := hshaped.spells (canonical_of_ofString h hliterals) [] [] nofun (.done rfl)
  rw [List.append_nil, List.append_nil] at hlexes
  refine ofString_eq_ok_iff.mpr ⟨e.tokens, hlexes, ?_⟩
  have hend : power [] = 0 := rfl
  have hread := (hshaped.rereadsIfFaithful.start hfaithful).closed e.leftPower_pos
    (hend ▸ Nat.zero_le _) rfl (Nat.le_of_eq hend)
  rwa [List.append_nil] at hread

end PathQuery.Expr
