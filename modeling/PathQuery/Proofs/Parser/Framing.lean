import PathQuery.Proofs.Expr.Rereading

namespace PathQuery.Parser

variable {ts us mid rest : List TokenKind} {e e' left : Expr} {n p : Nat} {φ : Phrase}

/-- The power up to which tokens leave a phrase alone that nothing followed so far, whatever it ends
in: a right operand ends before its own operator, and a reference before every operator. -/
def Phrase.stop : Phrase → Nat
  | expression p => min p 1
  | climb p _ => min p 1
  | afterDot p => min p 1
  | body p => min p 1
  | argument => 0
  | _ => 1

theorem Phrase.stop_le_one (φ : Phrase) : φ.stop ≤ 1 := by
  cases φ with
  | expression | climb | afterDot | body => exact Nat.min_le_right _ _
  | argument => exact Nat.zero_le _
  | _ => exact Nat.le_refl 1

def Stops (φ : Phrase) (rest us : List TokenKind) : Prop := rest = [] → power us ≤ φ.stop

theorem Stops.of_cons {k : TokenKind} : Stops φ (k :: rest) us := nofun

theorem Stops.mono {ψ : Phrase} (h : Stops φ rest us) (hle : φ.stop ≤ ψ.stop)
    (hmid : mid = [] → rest = []) : Stops ψ mid us :=
  fun heq ↦ Nat.le_trans (h (hmid heq)) hle

theorem Stops.power_append_le (h : Stops φ ts us) (hn : φ.stop ≤ n) (hts : power ts ≤ n) :
    power (ts ++ us) ≤ n := by
  cases ts with
  | nil => exact Nat.le_trans (h rfl) hn
  | cons k ts => exact hts

theorem startsSymbol_append {s : Symbol} (hne : ts ≠ []) :
    startsSymbol s (ts ++ us) = startsSymbol s ts := by
  cases ts with
  | nil => exact absurd rfl hne
  | cons k ts => rfl

theorem startsParen_append (h : startsSymbol .leftParen ts = false) (hus : ts = [] → power us ≤ 1) :
    startsSymbol .leftParen (ts ++ us) = false := by
  cases ts with
  | cons k ts => exact h
  | nil =>
    cases hparen : startsSymbol .leftParen ([] ++ us) with
    | false => rfl
    | true =>
      obtain ⟨us', rfl⟩ := startsSymbol_iff.mp hparen
      exact absurd (hus rfl) (by decide : ¬ 60 ≤ 1)

theorem Reads.two_le_length_of_items (h : Reads .items ts e rest) : 2 ≤ ts.length := by
  cases h with
  | lastItem h =>
    have := h.length_le
    simp only [Phrase.takesToken, List.length_cons, Bool.toNat_true] at this
    omega
  | item h =>
    have := h.length_le
    simp only [Phrase.takesToken, List.length_cons, Bool.toNat_true] at this
    omega

theorem opensList_append (hlength : 2 ≤ ts.length) (h : opensList ts = true) :
    opensList (ts ++ us) = true := by
  match ts, hlength with
  | k :: _ :: _, _ =>
    cases k with
    | symbol s =>
      cases s with
      | star =>
        rw [List.cons_append, opensList_star]
        rwa [opensList_star] at h
      | _ => exact h
    | _ => exact h

theorem Reads.eq_nil (h : Reads φ ts e rest) (hts : ts = []) : rest = [] :=
  List.suffix_nil.1 (hts ▸ h.suffix)

/-- What a phrase reads does not depend on what follows it, as long as that does not go on with
it. -/
theorem Reads.append (h : Reads φ ts e rest) (hus : Stops φ rest us) :
    Reads φ (ts ++ us) e (rest ++ us) := by
  induction h with
  | expression hhead hclimb ih ih' =>
    exact .expression (ih (hus.mono (Phrase.stop_le_one _) hclimb.eq_nil)) (ih' hus)
  | stop hp => exact .stop (hus.power_append_le (Nat.min_le_left _ _) hp)
  | @step p left left' e ts mid rest hp _ hclimb ih ih' =>
    have hne : ts ≠ [] := by
      rintro rfl
      exact Nat.not_lt_zero _ hp
    refine .step ?_ (ih (hus.mono (Phrase.stop_le_one _) hclimb.eq_nil)) (ih' hus)
    rwa [power_append hne]
  | current => exact .current
  | identifier => exact .identifier
  | quotedIdentifier hparen => exact .quotedIdentifier (startsParen_append hparen hus)
  | literal => exact .literal
  | rawString => exact .rawString
  | values _ ih => exact .values (ih hus)
  | implicit _ ih => exact .implicit (ih hus)
  | list hopens hitems ih =>
    exact .list (opensList_append hitems.two_le_length_of_items hopens) (ih hus)
  | hash _ ih => exact .hash (ih hus)
  | not _ ih => exact .not (ih hus)
  | group _ ih => exact .group (ih .of_cons)
  | dot _ ih => exact .dot (ih hus)
  | @binary s _ _ _ _ _ hs _ ih =>
    have hpos := leftPower_pos_of_binary (Option.isSome_of_mem hs)
    exact .binary hs (ih (hus.mono (Nat.le_min.2 ⟨hpos, Nat.le_refl 1⟩) id))
  | explicit _ ih => exact .explicit (ih hus)
  | call hname _ ih => exact .call hname (ih hus)
  | flatten _ ih => exact .flatten (ih hus)
  | filter _ _ ih ih' => exact .filter (ih .of_cons) (ih' hus)
  | index => exact .index
  | slice hslice hstep _ ih =>
    rw [List.cons_append, List.append_assoc]
    exact .slice hslice hstep (ih hus)
  | wildcard _ ih => exact .wildcard (ih hus)
  | dotList _ ih => exact .dotList (ih (hus.mono (Phrase.stop_le_one _) id))
  | dotHash _ ih => exact .dotHash (ih (hus.mono (Phrase.stop_le_one _) id))
  | dotName hname _ ih => exact .dotName (startsName_append hname) (ih hus)
  | element hp =>
    have hle := hus.power_append_le (n := 9)
      (Nat.le_trans (Phrase.stop_le_one _) (by decide)) (Nat.le_of_lt_succ hp)
    exact .element (Nat.lt_succ_of_le hle)
  | bodyDot _ ih => exact .bodyDot (ih hus)
  | bodyBracket hbracket _ ih => exact .bodyBracket (startsBracket_append hbracket) (ih hus)
  | lastItem _ ih => exact .lastItem (ih .of_cons)
  | item _ _ ih ih' => exact .item (ih .of_cons) (ih' hus)
  | lastPair hkey _ ih => exact .lastPair hkey (ih .of_cons)
  | pair hkey _ _ ih ih' => exact .pair hkey (ih .of_cons) (ih' hus)
  | noArguments => exact .noArguments
  | lastArgument _ ih => exact .lastArgument (ih .of_cons)
  | nextArgument _ hparen hmore ih ih' =>
    exact .nextArgument (ih .of_cons) ((startsSymbol_append (hmore.ne_nil rfl)).trans hparen)
      (ih' hus)
  | reference _ ih => exact .reference (ih hus)
  | plain _ ih => exact .plain (ih hus)

theorem Reads.beforeEnd (h : Reads (.expression 0) ts e []) :
    Reads (.expression 0) (ts ++ [.endOfInput]) e [.endOfInput] :=
  h.append fun _ ↦ Nat.zero_le _

/-- Where a climb comes to the end of the text, it can go on with what follows from there. -/
theorem Reads.climb_append (h : Reads (.climb p left) ts e []) (hus : power us ≤ 1)
    (hmore : Reads (.climb p e) us e' rest) : Reads (.climb p left) (ts ++ us) e' rest := by
  generalize hφ : Phrase.climb p left = φ at h
  generalize hend : ([] : List TokenKind) = last at h
  induction h generalizing left with
  | stop =>
    cases hφ
    rw [← hend]
    exact hmore
  | @step p left left' e ts mid last hp hextend _ _ ih =>
    cases hφ
    have hne : ts ≠ [] := by
      rintro rfl
      exact Nat.not_lt_zero _ hp
    refine .step ?_ (hextend.append fun _ ↦ hus) (ih hmore rfl hend)
    rwa [power_append hne]
  | _ => cases hφ

end PathQuery.Parser
