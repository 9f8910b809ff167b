import PathQuery.Eval.Slice

namespace PathQuery.Slice

def Precedes (step i stop : Int) : Prop := if 0 < step then i < stop else stop < i

instance (step i stop : Int) : Decidable (Precedes step i stop) :=
  inferInstanceAs (Decidable (if 0 < step then i < stop else stop < i))

def lowest (step : Int) : Int := if step < 0 then -1 else 0

def highest (len step : Int) : Int := if step < 0 then len - 1 else len

/-- An end of a slice in integers without bound: counted from the end if it is negative, and brought
into range. -/
def adjusted (len step endpoint : Int) : Int :=
  if endpoint < 0 then max (endpoint + len) (lowest step) else min endpoint (highest len step)

def startOf (len step : Int) : Option Int64 → Int
  | some start => adjusted len step start.toInt
  | none => if step < 0 then highest len step else lowest step

def stopOf (len step : Int) : Option Int64 → Int
  | some stop => adjusted len step stop.toInt
  | none => if step < 0 then lowest step else highest len step

theorem Precedes.antitone {step i stop : Int} {k m : Nat} (hkm : k ≤ m)
    (h : Precedes step (i + m * step) stop) : Precedes step (i + k * step) stop := by
  obtain ⟨d, rfl⟩ := Nat.exists_eq_add_of_le hkm
  rw [Int.natCast_add, Int.add_mul] at h
  unfold Precedes at h ⊢
  split at h
  · next hpos =>
    have hd : 0 ≤ (d : Int) * step := Int.mul_nonneg (Int.natCast_nonneg d) (Int.le_of_lt hpos)
    rw [if_pos hpos]
    omega
  · next hneg =>
    have hd : (d : Int) * step ≤ 0 :=
      Int.mul_nonpos_of_nonneg_of_nonpos (Int.natCast_nonneg d) (Int.not_lt.1 hneg)
    rw [if_neg hneg]
    omega

section Words

variable {len endpoint step i stop : Int64}

theorem toInt_range (w : Int64) :
    -9223372036854775808 ≤ w.toInt ∧ w.toInt ≤ 9223372036854775807 := by
  have hlow := w.le_toInt
  have hhigh := w.toInt_lt
  omega

theorem toInt_ofNat {len : Nat} (h : (len : Int) ≤ Int64.maxValue.toInt) :
    (Int64.ofNat len).toInt = len := by
  rw [Int64.toInt_maxValue] at h
  exact Int64.toInt_ofNat_of_lt (by omega)

/-- A count from the end stays within a word. -/
theorem toInt_add_of_neg (hlen : 0 ≤ len.toInt) (h : endpoint.toInt < 0) :
    (endpoint + len).toInt = endpoint.toInt + len.toInt := by
  have hend := toInt_range endpoint
  have hmax := toInt_range len
  rw [Int64.toInt_add]
  exact Int.bmod_eq_of_le (by omega) (by omega)

theorem toInt_sub_one (hlen : 0 ≤ len.toInt) : (len - 1).toInt = len.toInt - 1 := by
  have hmax := toInt_range len
  rw [Int64.toInt_sub, Int64.toInt_one]
  exact Int.bmod_eq_of_le (by omega) (by omega)

theorem before_iff (hstep : step ≠ 0) :
    before i stop step = true ↔ Precedes step.toInt i.toInt stop.toInt := by
  have hne : step.toInt ≠ 0 := fun h ↦ hstep (Int64.toInt_inj.1 h)
  simp only [before, Precedes, Bool.or_eq_true, Bool.and_eq_true, decide_eq_true_eq,
    Int64.lt_iff_toInt_lt, Int64.toInt_zero]
  split <;> omega

theorem toInt_clamp (hlen : 0 ≤ len.toInt) :
    (clamp len endpoint step).toInt = adjusted len.toInt step.toInt endpoint.toInt := by
  simp only [clamp, adjusted, lowest, highest, Int64.lt_iff_toInt_lt, Int64.le_iff_toInt_le,
    Int64.toInt_zero]
  split
  · next hneg =>
    rw [toInt_add_of_neg hlen hneg]
    split
    · split <;> (rw [toInt_add_of_neg hlen hneg]; omega)
    · split
      · change (-1 : Int) = _
        omega
      · rw [Int64.toInt_zero]
        omega
  · split
    · split
      · rw [toInt_sub_one hlen]
        omega
      · omega
    · split <;> omega

theorem adjusted_range {len : Int} (hlen : 0 ≤ len) (step endpoint : Int) :
    lowest step ≤ adjusted len step endpoint ∧ adjusted len step endpoint ≤ highest len step := by
  unfold adjusted lowest highest
  split <;> split <;> omega

theorem toInt_of_toInt64? {n : Int} {w : Int64} (h : Number.toInt64? n = some w) : w.toInt = n := by
  rw [Number.toInt64?, Int64.toInt_minValue, Int64.toInt_maxValue] at h
  split at h
  · cases h
    exact Int64.toInt_ofInt_of_le (by omega) (by omega)
  · cases h

/-- A sum that is no word lies beyond every end. -/
theorem not_precedes_of_not_word {k : Nat}
    (h : Number.toInt64? (i.toInt + k * step.toInt) = none) :
    ¬ Precedes step.toInt (i.toInt + k * step.toInt) stop.toInt := by
  have hi := toInt_range i
  have hstop := toInt_range stop
  rw [Number.toInt64?, Int64.toInt_minValue, Int64.toInt_maxValue] at h
  have hout : ¬ (-9223372036854775808 ≤ i.toInt + k * step.toInt ∧
      i.toInt + k * step.toInt ≤ 9223372036854775807) := by
    intro hin
    rw [if_pos (by omega)] at h
    cases h
  unfold Precedes
  split
  · next hpos =>
    have hk : 0 ≤ (k : Int) * step.toInt :=
      Int.mul_nonneg (Int.natCast_nonneg k) (Int.le_of_lt hpos)
    omega
  · next hneg =>
    have hk : (k : Int) * step.toInt ≤ 0 :=
      Int.mul_nonpos_of_nonneg_of_nonpos (Int.natCast_nonneg k) (Int.not_lt.1 hneg)
    omega

/-- A walk finds the multiples of its step up to its end, if these are among the elements and it is
given enough steps. -/
theorem getElem?_walk {n : Nat} (hstep : step ≠ 0)
    (hrange : ∀ k : Nat, Precedes step.toInt (i.toInt + k * step.toInt) stop.toInt →
      0 ≤ i.toInt + k * step.toInt ∧ i.toInt + k * step.toInt < len.toInt)
    (hend : ¬ Precedes step.toInt (i.toInt + n * step.toInt) stop.toInt) (k : Nat) :
    ((walk len stop step n i)[k]?).map Int.ofNat =
      if Precedes step.toInt (i.toInt + k * step.toInt) stop.toInt then
        some (i.toInt + k * step.toInt)
      else none := by
  induction n generalizing i k with
  | zero =>
    rw [if_neg fun h ↦ hend (h.antitone (Nat.zero_le k))]
    rfl
  | succ n ih =>
    have hcurrent : Precedes step.toInt (i.toInt + (0 : Nat) * step.toInt) stop.toInt ↔
        before i stop step = true := by
      rw [before_iff hstep, Int.natCast_zero, Int.zero_mul, Int.add_zero]
    rw [walk]
    by_cases hbefore : before i stop step = true
    · have hin := hrange 0 (hcurrent.2 hbefore)
      rw [Int.natCast_zero, Int.zero_mul, Int.add_zero] at hin
      have hin' : 0 ≤ i ∧ i < len := by
        rw [Int64.le_iff_toInt_le, Int64.lt_iff_toInt_lt]
        exact hin
      rw [if_pos hbefore]
      dsimp only
      rw [if_pos hin']
      cases k with
      | zero =>
        rw [if_pos (hcurrent.2 hbefore), List.getElem?_cons_zero, Option.map_some,
          Int.ofNat_eq_natCast, Int.toNat_of_nonneg hin.1, Int.natCast_zero, Int.zero_mul,
          Int.add_zero]
      | succ k =>
        have hshift (m : Nat) : i.toInt + (m + 1 : Nat) * step.toInt =
            i.toInt + step.toInt + m * step.toInt := by
          rw [Int.natCast_add, Int.add_mul]
          omega
        rw [List.getElem?_cons_succ, hshift]
        cases hnext : Number.toInt64? (i.toInt + step.toInt) with
        | none =>
          have hbeyond : ¬ Precedes step.toInt (i.toInt + (1 : Nat) * step.toInt) stop.toInt :=
            not_precedes_of_not_word (by rwa [Int.natCast_one, Int.one_mul])
          rw [if_neg fun h ↦ hbeyond (Precedes.antitone (Nat.le_add_left 1 k) (by rwa [hshift]))]
          rfl
        | some i' =>
          have hi' := toInt_of_toInt64? hnext
          rw [← hi']
          refine ih (fun m hm ↦ ?_) ?_ k
          · rw [hi', ← hshift] at hm ⊢
            exact hrange (m + 1) hm
          · rw [hi', ← hshift]
            exact hend
    · rw [if_neg hbefore, if_neg fun h ↦ hbefore (hcurrent.1 (h.antitone (Nat.zero_le k)))]
      rfl

theorem toInt_startOf (hlen : 0 ≤ len.toInt) (hstep : step ≠ 0) (start : Option Int64) :
    ((start.map (clamp len · step)).getD (if 0 < step then 0 else len - 1)).toInt =
      startOf len.toInt step.toInt start := by
  cases start with
  | some s => exact toInt_clamp hlen
  | none =>
    have hne : step.toInt ≠ 0 := fun h ↦ hstep (Int64.toInt_inj.1 h)
    simp only [startOf, highest, lowest, Int64.lt_iff_toInt_lt, Int64.toInt_zero, Option.map_none,
      Option.getD_none]
    split
    · rw [if_neg (by omega), if_neg (by omega), Int64.toInt_zero]
    · rw [if_pos (by omega), if_pos (by omega), toInt_sub_one hlen]

theorem toInt_stopOf (hlen : 0 ≤ len.toInt) (hstep : step ≠ 0) (stop : Option Int64) :
    ((stop.map (clamp len · step)).getD (if 0 < step then len else -1)).toInt =
      stopOf len.toInt step.toInt stop := by
  cases stop with
  | some s => exact toInt_clamp hlen
  | none =>
    have hne : step.toInt ≠ 0 := fun h ↦ hstep (Int64.toInt_inj.1 h)
    simp only [stopOf, highest, lowest, Int64.lt_iff_toInt_lt, Int64.toInt_zero, Option.map_none,
      Option.getD_none]
    split
    · rw [if_neg (by omega), if_neg (by omega)]
    · rw [if_pos (by omega), if_pos (by omega)]
      rfl

end Words

theorem startOf_range {len : Int} (hlen : 0 ≤ len) (step : Int) (start : Option Int64) :
    lowest step ≤ startOf len step start ∧ startOf len step start ≤ highest len step := by
  cases start with
  | some s => exact adjusted_range hlen step s.toInt
  | none =>
    simp only [startOf, lowest, highest]
    split <;> omega

theorem stopOf_range {len : Int} (hlen : 0 ≤ len) (step : Int) (stop : Option Int64) :
    lowest step ≤ stopOf len step stop ∧ stopOf len step stop ≤ highest len step := by
  cases stop with
  | some s => exact adjusted_range hlen step s.toInt
  | none =>
    simp only [stopOf, lowest, highest]
    split <;> omega

section Progression

variable {len step first last : Int}

/-- Between ends that are in range, every position is one of an element. -/
theorem Precedes.mem_range (hstep : step ≠ 0)
    (hfirst : lowest step ≤ first ∧ first ≤ highest len step)
    (hlast : lowest step ≤ last ∧ last ≤ highest len step) {k : Nat}
    (h : Precedes step (first + k * step) last) :
    0 ≤ first + k * step ∧ first + k * step < len := by
  unfold Precedes at h
  unfold lowest highest at hfirst hlast
  split at h
  · next hpos =>
    have hk : 0 ≤ (k : Int) * step := Int.mul_nonneg (Int.natCast_nonneg k) (Int.le_of_lt hpos)
    rw [if_neg (by omega), if_neg (by omega)] at hfirst hlast
    omega
  · next hneg =>
    have hk : (k : Int) * step ≤ 0 :=
      Int.mul_nonpos_of_nonneg_of_nonpos (Int.natCast_nonneg k) (Int.not_lt.1 hneg)
    rw [if_pos (by omega), if_pos (by omega)] at hfirst hlast
    omega

/-- As many steps as there are elements lead past the end. -/
theorem not_precedes_length {len : Nat} (hstep : step ≠ 0)
    (hfirst : lowest step ≤ first ∧ first ≤ highest len step)
    (hlast : lowest step ≤ last ∧ last ≤ highest len step) :
    ¬ Precedes step (first + len * step) last := by
  unfold Precedes
  unfold lowest highest at hfirst hlast
  split
  · next hpos =>
    have hk : (len : Int) * 1 ≤ len * step :=
      Int.mul_le_mul_of_nonneg_left hpos (Int.natCast_nonneg len)
    rw [if_neg (by omega), if_neg (by omega)] at hfirst hlast
    omega
  · next hneg =>
    have hk : (len : Int) * step ≤ len * (-1) :=
      Int.mul_le_mul_of_nonneg_left (by omega) (Int.natCast_nonneg len)
    rw [if_pos (by omega), if_pos (by omega)] at hfirst hlast
    omega

end Progression

theorem positions_eq_walk (len : Nat) (start stop : Option Int64) {step : Option Int64}
    (hstep : step.getD 1 ≠ 0) : positions len start stop step =
      walk (Int64.ofNat len)
        ((stop.map (clamp (Int64.ofNat len) · (step.getD 1))).getD
          (if 0 < step.getD 1 then Int64.ofNat len else -1))
        (step.getD 1) len
        ((start.map (clamp (Int64.ofNat len) · (step.getD 1))).getD
          (if 0 < step.getD 1 then 0 else Int64.ofNat len - 1)) :=
  if_neg hstep

/-- A slice selects the positions `first`, `first + stride`, `first + 2 * stride` and so on that
come before its end, all of them of elements. On the way no sum of words leaves the range of words
but that of a position and the step, and behind such a sum there are no positions left. -/
theorem positions_progression {len : Nat} (hlen : (len : Int) ≤ Int64.maxValue.toInt)
    (start stop : Option Int64) {step : Option Int64} (hstep : step ≠ some 0) :
    let stride := (step.getD 1).toInt
    let first := startOf len stride start
    let last := stopOf len stride stop
    (∀ k : Nat, ((positions len start stop step)[k]?).map Int.ofNat =
      if Precedes stride (first + k * stride) last then some (first + k * stride) else none) ∧
    (∀ n ∈ positions len start stop step, n < len) ∧
    ((Int64.ofNat len).toInt = len ∧ (Int64.ofNat len - 1).toInt = len - 1 ∧
      ∀ endpoint : Int64, endpoint < 0 →
        (endpoint + Int64.ofNat len).toInt = endpoint.toInt + len) ∧
    ∀ k m : Nat, Number.toInt64? (first + k * stride) = none → k ≤ m →
      ¬ Precedes stride (first + m * stride) last := by
  intro stride first last
  have hne : step.getD 1 ≠ 0 := by
    cases step with
    | none => decide
    | some s => exact fun h ↦ hstep (congrArg some h)
  have hstride : stride ≠ 0 := fun h ↦ hne (Int64.toInt_inj.1 h)
  have hsize := toInt_ofNat hlen
  have hnonneg : 0 ≤ (Int64.ofNat len).toInt := by omega
  have hstart : _ = first := (toInt_startOf hnonneg hne start).trans (by rw [hsize])
  have hstop : _ = last := (toInt_stopOf hnonneg hne stop).trans (by rw [hsize])
  have hfirst : lowest stride ≤ first ∧ first ≤ highest len stride := startOf_range (by omega) ..
  have hlast : lowest stride ≤ last ∧ last ≤ highest len stride := stopOf_range (by omega) ..
  have hpositions (k : Nat) : ((positions len start stop step)[k]?).map Int.ofNat =
      if Precedes stride (first + k * stride) last then some (first + k * stride) else none := by
    rw [positions_eq_walk len start stop hne]
    refine (getElem?_walk hne (fun m hm ↦ ?_) ?_ k).trans ?_
    · rw [hstart, hstop] at hm
      rw [hstart, hsize]
      exact hm.mem_range hstride hfirst hlast
    · rw [hstart, hstop]
      exact not_precedes_length hstride hfirst hlast
    · rw [hstart, hstop]
  refine ⟨hpositions, fun n hn ↦ ?_, ⟨hsize, ?_, fun endpoint hneg ↦ ?_⟩, fun k m hk hkm hm ↦ ?_⟩
  · obtain ⟨k, hk⟩ := List.mem_iff_getElem?.1 hn
    have hn' := hpositions k
    rw [hk] at hn'
    split at hn'
    · next hbefore =>
      have hin := hbefore.mem_range hstride hfirst hlast
      rw [← Option.some.inj hn', Int.ofNat_eq_natCast] at hin
      omega
    · cases hn'
  · rw [toInt_sub_one hnonneg, hsize]
  · rw [Int64.lt_iff_toInt_lt, Int64.toInt_zero] at hneg
    rw [toInt_add_of_neg hnonneg hneg, hsize]
  · have hbeyond := hm.antitone hkm
    rw [← hstart] at hk hbeyond
    rw [← hstop] at hbeyond
    exact not_precedes_of_not_word hk hbeyond

theorem positions_progression_of_least_step :
    ((3 : Nat) : Int) ≤ Int64.maxValue.toInt ∧ some Int64.minValue ≠ some 0 ∧
    ((positions 3 (some 7) none (some Int64.minValue))[0]?).map Int.ofNat = some 2 ∧
    ((positions 3 (some 7) none (some Int64.minValue))[1]?).map Int.ofNat = none := by
  have hlen : ((3 : Nat) : Int) ≤ Int64.maxValue.toInt := by decide
  have hstep : some Int64.minValue ≠ some 0 := by decide
  have h := (positions_progression hlen (some 7) none hstep).1
  refine ⟨hlen, hstep, (h 0).trans ?_, (h 1).trans ?_⟩
  · decide
  · decide

end PathQuery.Slice
