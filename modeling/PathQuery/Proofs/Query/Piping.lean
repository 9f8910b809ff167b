import PathQuery.Proofs.Eval.UniqueKeys
import PathQuery.Proofs.Query.Embedding

namespace PathQuery

open PathQuery.Parser DataNode

namespace Parser

variable {ts us mid rest : List TokenKind} {e left : Expr} {p : Nat}

theorem eq_pipe_of_power (h : power ts = 1) : ∃ us, ts = .symbol .pipe :: us := by
  cases ts with
  | nil => cases h
  | cons k ts =>
    cases k with
    | symbol s => cases s <;> first | exact ⟨ts, rfl⟩ | cases h
    | _ => cases h

/-- A climb past all operators but the pipe, and from there on. -/
theorem Reads.climb_pipes (h : Reads (.climb 0 left) ts e rest) :
    ∃ first mid, Reads (.climb 1 left) ts first mid ∧ power mid ≤ 1 ∧
      Reads (.climb 0 first) mid e rest := by
  generalize hφ : Phrase.climb 0 left = φ at h
  induction h generalizing left with
  | @stop p left ts hp =>
    cases hφ
    have hle := Nat.le_trans hp (Nat.zero_le 1)
    exact ⟨_, _, .stop hle, hle, .stop hp⟩
  | @step p left left' e ts mid rest hp hextend hclimb _ ih =>
    cases hφ
    obtain hle | hlt := Nat.lt_or_ge 1 (power ts)
    · obtain ⟨first, mid', hfirst, hmid, hmore⟩ := ih rfl
      exact ⟨first, mid', .step hle hextend hfirst, hmid, hmore⟩
    · exact ⟨left, ts, .stop hlt, hlt, .step hp hextend hclimb⟩
  | _ => cases hφ

/-- From a pipe on, all that is read is piped into, whatever stands on the left. -/
theorem Reads.pipes (h : Reads (.climb 0 left) ts e rest) (hts : power ts ≤ 1) :
    ∃ es : List Expr, e = es.foldl .pipe left ∧
      ∀ left', Reads (.climb 0 left') ts (es.foldl .pipe left') rest := by
  generalize hφ : Phrase.climb 0 left = φ at h
  induction h generalizing left with
  | stop hp =>
    cases hφ
    exact ⟨[], rfl, fun _ ↦ .stop hp⟩
  | @step p left left' e ts mid rest hp hextend hclimb _ ih =>
    cases hφ
    obtain ⟨us, rfl⟩ := eq_pipe_of_power (Nat.le_antisymm hts hp)
    cases hextend with
    | explicit h => cases h
    | binary hs hright =>
      cases hs
      obtain ⟨es, rfl, hes⟩ := ih hright.power_le rfl
      exact ⟨_ :: es, rfl, fun l ↦ .step hp (.binary rfl hright) (hes _)⟩
  | _ => cases hφ

/-- Two expressions with a pipe between them: the first is piped into the first step of the second,
and the further steps of the second follow. -/
theorem Reads.pipe {e' : Expr} (h : Reads (.expression 0) ts e [])
    (h' : Reads (.expression 0) us e' []) :
    ∃ (first : Expr) (es : List Expr), e' = es.foldl .pipe first ∧
      Reads (.expression 0) (ts ++ .symbol .pipe :: us) (es.foldl .pipe (.pipe e first)) [] := by
  cases h' with
  | expression hhead' hclimb' =>
    obtain ⟨first, mid', hfirst, hmid', hmore⟩ := hclimb'.climb_pipes
    obtain ⟨es, rfl, hes⟩ := hmore.pipes hmid'
    refine ⟨first, es, rfl, ?_⟩
    cases h with
    | expression hhead hclimb =>
      refine .expression (hhead.append fun _ ↦ Nat.le_refl 1)
        (hclimb.climb_append (Nat.le_refl 1) ?_)
      exact .step Nat.one_pos (.binary rfl (.expression hhead' hfirst)) (hes _)

end Parser

namespace Expr

variable {N : Type} [DataNode N] {n : N} {e first : Expr} {es : List Expr}

/-- Steps that follow a pipe are evaluated on what the expression before the pipe gives. -/
theorem evaluate_pipes (he : e.AllLiterals Value.UniqueKeys) (hn : Lawful n) :
    (es.foldl pipe (pipe e first)).evaluate n =
      e.evaluate n >>= fun v ↦ (es.foldl pipe first).evaluate v := by
  induction es using List.reverseRecOn with
  | nil => exact evaluate_pipe e first hn
  | append_singleton es last ih =>
    rw [List.foldl_concat, List.foldl_concat, evaluate_pipe _ _ hn, ih, bind_assoc]
    cases hv : e.evaluate n with
    | error x => rfl
    | ok v => exact (evaluate_pipe _ _ (uniqueKeys_evaluate he hv).lawful).symm

end Expr

namespace Query

variable {q r : Query} {text : String}

theorem uniqueKeys_of_compile (h : compile text = .ok q) : q.expr.AllLiterals Value.UniqueKeys :=
  Expr.allLiterals_of_ofString (ofString_of_compile h).2 (fun _ _ ↦ Value.uniqueKeys_ofJson _)
    .string

/-- A pipe between two queries evaluates the second on the result of the first, and fails as the
one of them does that fails first. -/
theorem compile_pipe (hq : compile q.text = .ok q) (hr : compile r.text = .ok r) :
    ∃ piped, compile (q.text ++ " | " ++ r.text) = .ok piped ∧
      ∀ {N : Type} [DataNode N] (n : N), Lawful n →
        piped.evaluateNode n = q.evaluateNode n >>= fun v ↦ r.evaluateNode v := by
  obtain ⟨ts, hts⟩ := Compiles.embeds hq
  obtain ⟨us, hus⟩ := Compiles.embeds hr
  obtain ⟨first, es, hexpr, hreads⟩ := hts.reads_end.pipe hus.reads_end
  have hspells := hts.spells.operator (s := .pipe) (fun _ ↦ rfl) hus.spells
  have htext : (q.text ++ " | " ++ r.text).toList =
      q.text.toList ++ ' ' :: (Symbol.pipe.text.toList ++ ' ' :: r.text.toList) := by
    rw [String.toList_append, String.toList_append, List.append_assoc]
    rfl
  refine ⟨_, compiles_of_spells htext hspells hreads, fun n hn ↦ ?_⟩
  change (es.foldl Expr.pipe _).evaluate n = _
  rw [Expr.evaluate_pipes (uniqueKeys_of_compile hq) hn, ← hexpr]
  rfl

theorem compile_pipe_of_projection :
    compile "a || b[*]" =
      .ok ⟨"a || b[*]", .or (.field "a") (.projection (.field "b") .currentNode)⟩ ∧
    compile "[0] | c" = .ok ⟨"[0] | c", .pipe (.index 0) (.field "c")⟩ ∧
    Lawful (Value.object [("b", .array [.object [("c", .int 1)]])]) ∧
    ∃ piped, compile ("a || b[*]" ++ " | " ++ "[0] | c") = .ok piped ∧
      piped.evaluateNode (Value.object [("b", .array [.object [("c", .int 1)]])]) =
        .ok (.int 1) := by
  have hq : compile "a || b[*]" =
      .ok ⟨"a || b[*]", .or (.field "a") (.projection (.field "b") .currentNode)⟩ := by cbv
  have htokens : Token.ofString "[0] | c" = .ok
      [⟨.symbol .leftBracket, "[", 0⟩, ⟨.number 0, "0", 1⟩, ⟨.symbol .rightBracket, "]", 2⟩,
        ⟨.symbol .pipe, "|", 4⟩, ⟨.identifier "c", "c", 6⟩, ⟨.endOfInput, "", 7⟩] := rfl
  have hr : compile "[0] | c" = .ok ⟨"[0] | c", .pipe (.index 0) (.field "c")⟩ := by
    rw [compile_eq_of_tokens htokens]
    rfl
  have hdata : (Value.object [("b", .array [.object [("c", .int 1)]])]).UniqueKeys :=
    .object (by simp)
      (by simpa using .array (by simpa using .object (by simp) (by simpa using .int 1)))
  obtain ⟨piped, hpiped, heval⟩ := compile_pipe
    (q := ⟨"a || b[*]", .or (.field "a") (.projection (.field "b") .currentNode)⟩)
    (r := ⟨"[0] | c", .pipe (.index 0) (.field "c")⟩) hq hr
  exact ⟨hq, hr, hdata.lawful, piped, hpiped, (heval _ hdata.lawful).trans (by rfl)⟩

end Query

end PathQuery
