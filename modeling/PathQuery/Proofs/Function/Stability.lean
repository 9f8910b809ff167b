import Mathlib.Data.List.Basic
import PathQuery.Function.Sorting

namespace PathQuery.Keyed

def sameKey (k l : Keyed) : Bool := l.key.compare k.key == some .eq

/-- The items in the order of their keys, those with the same key in the order they had. -/
structure StablySorted (ks sorted : List Keyed) : Prop where
  perm : sorted.Perm ks
  ordered : sorted.Pairwise fun k l ↦
    k.key.compare l.key = some .lt ∨ k.key.compare l.key = some .eq
  stable : ∀ k ∈ ks, sorted.filter (sameKey k) = ks.filter (sameKey k)

/-- The first item whose key lies as far as any in the wanted direction: those before it lie less
far and none of those after it lies farther. -/
def FirstIn (want : Ordering) (ks : List Keyed) (k : Keyed) : Prop :=
  ∃ before after, ks = before ++ k :: after ∧
    (∀ l ∈ before, k.key.compare l.key = some want) ∧
    ∀ l ∈ after, l.key.compare k.key ≠ some want

section Ranks

variable {κ : Type} [Ord κ] {rank : Value → κ} {ks ls sorted : List Keyed} {k l : Keyed}

def RankedBy (rank : Value → κ) (ks : List Keyed) : Prop :=
  ∀ k ∈ ks, ∀ l ∈ ks, k.key.compare l.key = some (compare (rank k.key) (rank l.key))

theorem RankedBy.mono (h : RankedBy rank ks) (hls : ls ⊆ ks) : RankedBy rank ls :=
  fun k hk l hl ↦ h k (hls hk) l (hls hl)

def rankLe (rank : Value → κ) (k l : Keyed) : Bool := (compare (rank k.key) (rank l.key)).isLE

theorem mergeSort_notAfter (h : RankedBy rank ks) :
    ks.mergeSort notAfter = ks.mergeSort (rankLe rank) := by
  have hle : ∀ k ∈ ks, ∀ l ∈ ks, notAfter k l = rankLe rank (id k) (id l) := by
    intro k hk l hl
    rw [id, id, notAfter, rankLe, h k hk l hl]
    cases compare (rank k.key) (rank l.key) <;> rfl
  simpa only [List.map_id] using List.map_mergeSort hle

theorem sameKey_iff (h : RankedBy rank ks) (hk : k ∈ ks) (hl : l ∈ ks) :
    sameKey k l = true ↔ compare (rank l.key) (rank k.key) = .eq := by
  rw [sameKey, h l hl k hk, beq_iff_eq, Option.some_inj]

variable [Std.TransOrd κ]

theorem rankLe_trans (rank : Value → κ) (a b c : Keyed) (hab : rankLe rank a b = true)
    (hbc : rankLe rank b c = true) : rankLe rank a c = true :=
  Std.TransCmp.isLE_trans hab hbc

theorem rankLe_total (rank : Value → κ) (a b : Keyed) :
    (rankLe rank a b || rankLe rank b a) = true := by
  rw [rankLe, rankLe, Std.OrientedOrd.eq_swap (a := rank b.key)]
  cases compare (rank a.key) (rank b.key) <;> rfl

theorem ordered_mergeSort (h : RankedBy rank ks) :
    (ks.mergeSort notAfter).Pairwise fun k l ↦
      k.key.compare l.key = some .lt ∨ k.key.compare l.key = some .eq := by
  have hsorted := List.pairwise_mergeSort (rankLe_trans rank) (rankLe_total rank) ks
  rw [← mergeSort_notAfter h] at hsorted
  refine hsorted.imp_of_mem fun {k l} hk hl hle ↦ ?_
  rw [h k (List.mem_mergeSort.1 hk) l (List.mem_mergeSort.1 hl)]
  rw [rankLe] at hle
  cases hcompare : compare (rank k.key) (rank l.key) with
  | lt => exact .inl rfl
  | eq => exact .inr rfl
  | gt => rw [hcompare] at hle; cases hle

/-- The items of one key are in order as they stand, so that a merge sort does not move them past
each other. -/
theorem filter_sameKey_mergeSort (h : RankedBy rank ks) (hk : k ∈ ks) :
    (ks.mergeSort notAfter).filter (sameKey k) = ks.filter (sameKey k) := by
  have hinorder : (ks.filter (sameKey k)).Pairwise fun a b ↦ rankLe rank a b = true := by
    refine List.pairwise_of_forall_mem_list fun a ha b hb ↦ ?_
    obtain ⟨ha, hak⟩ := List.mem_filter.1 ha
    obtain ⟨hb, hbk⟩ := List.mem_filter.1 hb
    rw [sameKey_iff h hk ha] at hak
    rw [sameKey_iff h hk hb] at hbk
    rw [rankLe, Std.TransCmp.eq_trans hak (Std.OrientedCmp.eq_symm hbk)]
    rfl
  have hsub : (ks.filter (sameKey k)).Sublist (ks.mergeSort notAfter) := by
    rw [mergeSort_notAfter h]
    exact List.sublist_mergeSort (rankLe_trans rank) (rankLe_total rank) hinorder
      List.filter_sublist
  have hfilter := hsub.filter (sameKey k)
  rw [List.filter_filter, funext fun l ↦ Bool.and_self (sameKey k l)] at hfilter
  have hperm := (List.mergeSort_perm ks notAfter).filter (sameKey k)
  exact (hfilter.eq_of_length hperm.length_eq.symm).symm

theorem stablySorted_mergeSort (h : RankedBy rank ks) :
    StablySorted ks (ks.mergeSort notAfter) :=
  ⟨List.mergeSort_perm ks notAfter, ordered_mergeSort h, fun _ ↦ filter_sameKey_mergeSort h⟩

section Extremes

variable {want : Ordering} {a b c : κ}

theorem ahead_trans (hwant : want ≠ .eq) (hab : compare a b = want) (hbc : compare b c = want) :
    compare a c = want := by
  cases want with
  | eq => exact absurd rfl hwant
  | lt => exact Std.TransCmp.lt_trans hab hbc
  | gt => exact Std.TransCmp.gt_trans hab hbc

theorem ahead_of_not_ahead (hwant : want ≠ .eq) (hab : compare a b = want)
    (hcb : compare c b ≠ want) : compare a c = want := by
  cases want with
  | eq => exact absurd rfl hwant
  | lt =>
    refine Std.TransCmp.lt_of_lt_of_isLE hab ?_
    rw [Std.OrientedOrd.eq_swap]
    cases hcompare : compare c b with
    | lt => exact absurd hcompare hcb
    | eq | gt => rfl
  | gt =>
    refine Std.TransCmp.gt_of_gt_of_isGE hab ?_
    rw [Std.OrientedOrd.eq_swap]
    cases hcompare : compare c b with
    | gt => exact absurd hcompare hcb
    | eq | lt => rfl

theorem FirstIn.mem (h : FirstIn want ks k) : k ∈ ks := by
  obtain ⟨before, after, rfl, -⟩ := h
  exact List.mem_append_right _ List.mem_cons_self

/-- An item that the next one is ahead of changes nothing in front. -/
theorem FirstIn.cons_of_ahead {b v : Keyed} (hwant : want ≠ .eq) (h : RankedBy rank (b :: v :: ks))
    (hahead : v.key.compare b.key = some want) (hk : FirstIn want (v :: ks) k) :
    FirstIn want (b :: v :: ks) k := by
  have hb : b ∈ b :: v :: ks := List.mem_cons_self
  have hv : v ∈ b :: v :: ks := List.mem_cons_of_mem b List.mem_cons_self
  have hmem : k ∈ b :: v :: ks := List.mem_cons_of_mem b hk.mem
  obtain ⟨before, after, hks, hbefore, hafter⟩ := hk
  have hkb : k.key.compare b.key = some want := by
    cases before with
    | nil =>
      obtain ⟨rfl, -⟩ := List.cons.inj hks
      exact hahead
    | cons u before =>
      obtain ⟨rfl, -⟩ := List.cons.inj hks
      have hkv := hbefore v List.mem_cons_self
      rw [h k hmem v hv, Option.some_inj] at hkv
      rw [h v hv b hb, Option.some_inj] at hahead
      rw [h k hmem b hb, ahead_trans hwant hkv hahead]
  exact ⟨b :: before, after, congrArg (b :: ·) hks, List.forall_mem_cons.2 ⟨hkb, hbefore⟩, hafter⟩

/-- An item that is not ahead of the one before it changes nothing behind it. -/
theorem FirstIn.cons_of_not_ahead {b v : Keyed} (hwant : want ≠ .eq)
    (h : RankedBy rank (b :: v :: ks)) (hahead : v.key.compare b.key ≠ some want)
    (hk : FirstIn want (b :: ks) k) : FirstIn want (b :: v :: ks) k := by
  have hb : b ∈ b :: v :: ks := List.mem_cons_self
  have hv : v ∈ b :: v :: ks := List.mem_cons_of_mem b List.mem_cons_self
  have hmem : k ∈ b :: v :: ks := List.cons_subset_cons b (List.subset_cons_self v ks) hk.mem
  obtain ⟨before, after, hks, hbefore, hafter⟩ := hk
  cases before with
  | nil =>
    obtain ⟨rfl, rfl⟩ := List.cons.inj hks
    exact ⟨[], v :: ks, rfl, nofun, List.forall_mem_cons.2 ⟨hahead, hafter⟩⟩
  | cons u before =>
    obtain ⟨rfl, rfl⟩ := List.cons.inj hks
    obtain ⟨hkb, hrest⟩ := List.forall_mem_cons.1 hbefore
    have hkv : k.key.compare v.key = some want := by
      rw [h v hv b hb, Option.some_inj.ne] at hahead
      rw [h k hmem b hb, Option.some_inj] at hkb
      rw [h k hmem v hv, ahead_of_not_ahead hwant hkb hahead]
    refine ⟨b :: v :: before, after, rfl, ?_, hafter⟩
    exact List.forall_mem_cons.2 ⟨hkb, List.forall_mem_cons.2 ⟨hkv, hrest⟩⟩

def keepAhead (want : Ordering) (b k : Keyed) : Keyed :=
  if k.key.compare b.key == some want then k else b

theorem extreme_cons (want : Ordering) (b : Keyed) (ks : List Keyed) :
    extreme want (b :: ks) = (ks.foldl (keepAhead want) b).item := by
  rw [extreme, List.foldl_cons]
  dsimp only
  induction ks generalizing b with
  | nil => rfl
  | cons v ks ih =>
    rw [List.foldl_cons, List.foldl_cons, ← ih, keepAhead, apply_ite some]

/-- A scan keeps the item in hand until one is ahead of it, and so ends with the first one that no
other is ahead of. -/
theorem firstIn_foldl (hwant : want ≠ .eq) {b : Keyed} (h : RankedBy rank (b :: ks)) :
    FirstIn want (b :: ks) (ks.foldl (keepAhead want) b) := by
  induction ks generalizing b with
  | nil => exact ⟨[], [], rfl, nofun, nofun⟩
  | cons v ks ih =>
    rw [List.foldl_cons, keepAhead]
    by_cases hahead : v.key.compare b.key = some want
    · rw [if_pos (beq_iff_eq.2 hahead)]
      have hfirst := ih (h.mono (List.subset_cons_self b (v :: ks)))
      exact hfirst.cons_of_ahead hwant h hahead
    · rw [if_neg (mt beq_iff_eq.1 hahead)]
      have hfirst := ih (h.mono (List.cons_subset_cons b (List.subset_cons_self v ks)))
      exact hfirst.cons_of_not_ahead hwant h hahead

/-- The extreme of no items is null, of others the first one that no other is ahead of. -/
theorem extreme_eq (hwant : want ≠ .eq) (h : RankedBy rank ks) :
    ks = [] ∧ extreme want ks = .null ∨ ∃ k, FirstIn want ks k ∧ extreme want ks = k.item := by
  cases ks with
  | nil => exact .inl ⟨rfl, rfl⟩
  | cons b ks => exact .inr ⟨_, firstIn_foldl hwant h, extreme_cons want b ks⟩

theorem compare_swap (h : RankedBy rank ks) (hk : k ∈ ks) (hl : l ∈ ks) {o : Ordering}
    (hkl : k.key.compare l.key = some o) : l.key.compare k.key = some o.swap := by
  rw [h k hk l hl, Option.some_inj] at hkl
  rw [h l hl k hk, Std.OrientedOrd.eq_swap, hkl]

theorem compare_self (h : RankedBy rank ks) (hk : k ∈ ks) : k.key.compare k.key = some .eq :=
  (h k hk k hk).trans (congrArg some Std.ReflCmp.compare_self)

theorem FirstIn.not_ahead (hwant : want ≠ .eq) (h : RankedBy rank ks) (hk : FirstIn want ks k)
    (hl : l ∈ ks) : l.key.compare k.key ≠ some want := by
  have hmem := hk.mem
  obtain ⟨before, after, rfl, hbefore, hafter⟩ := hk
  obtain hl' | hl' := List.mem_append.1 hl
  · rw [compare_swap h hmem hl (hbefore l hl')]
    cases want with
    | eq => exact absurd rfl hwant
    | lt | gt => simp
  · obtain rfl | hl' := List.mem_cons.1 hl'
    · rw [compare_self h hl]
      exact fun heq ↦ hwant (Option.some.inj heq).symm
    · exact hafter l hl'

theorem head?_of_firstIn (h : RankedBy rank ks) (hsorted : StablySorted ks sorted)
    (hk : FirstIn .lt ks k) : sorted.head? = some k := by
  have hmem := hk.mem
  have hself : sameKey k k = true := beq_iff_eq.2 (compare_self h hmem)
  cases sorted with
  | nil => exact absurd (hsorted.perm.mem_iff.2 hmem) List.not_mem_nil
  | cons m rest =>
    have hm : m ∈ ks := hsorted.perm.mem_iff.1 List.mem_cons_self
    have hmk : sameKey k m = true := by
      obtain rfl | hrest := List.mem_cons.1 (hsorted.perm.mem_iff.2 hmem)
      · exact hself
      · obtain hless | hequal := List.rel_of_pairwise_cons hsorted.ordered hrest
        · exact absurd hless (hk.not_ahead (by decide) h hm)
        · exact beq_iff_eq.2 hequal
    obtain ⟨before, after, hks, hbefore, -⟩ := hk
    have hbehind : before.filter (sameKey k) = [] := by
      refine List.filter_eq_nil_iff.2 fun l hl ↦ ?_
      have hlk := compare_swap h hmem (hks ▸ List.mem_append_left _ hl) (hbefore l hl)
      rw [sameKey, hlk]
      decide
    have hfilter := hsorted.stable k hmem
    rw [List.filter_cons_of_pos hmk, hks, List.filter_append, hbehind, List.nil_append,
      List.filter_cons_of_pos hself] at hfilter
    rw [List.head?_cons, (List.cons.inj hfilter).1]

theorem getLast?_of_firstIn (h : RankedBy rank ks) (hsorted : StablySorted ks sorted)
    (hk : FirstIn .gt ks k) :
    ∃ m, sorted.getLast? = some m ∧ m ∈ ks ∧ m.key.compare k.key = some .eq := by
  have hmem : k ∈ sorted := hsorted.perm.mem_iff.2 hk.mem
  obtain ⟨rest, m, rfl⟩ := (List.eq_nil_or_concat' sorted).resolve_left (List.ne_nil_of_mem hmem)
  have hm : m ∈ ks := hsorted.perm.mem_iff.1 (List.mem_append_right rest List.mem_cons_self)
  refine ⟨m, List.getLast?_concat, hm, ?_⟩
  obtain hrest | hlast := List.mem_append.1 hmem
  · have hkm := (List.pairwise_append.1 hsorted.ordered).2.2 k hrest m List.mem_cons_self
    obtain hless | hequal := hkm
    · exact absurd (compare_swap h hk.mem hm hless) (hk.not_ahead (by decide) h hm)
    · exact compare_swap h hk.mem hm hequal
  · obtain rfl := List.mem_singleton.1 hlast
    exact compare_self h hm

end Extremes

/-- The three functions on items whose keys have an order: the sorted items, the first of them, and
the first of those with the greatest key. -/
theorem ordered_of_rankedBy (h : RankedBy rank ks) :
    StablySorted ks (ks.mergeSort notAfter) ∧ extreme .lt ks = (sort ks).head?.getD .null ∧
      (ks = [] ∧ extreme .gt ks = .null ∨ ∃ k, FirstIn .gt ks k ∧ extreme .gt ks = k.item) := by
  have hsorted := stablySorted_mergeSort h
  refine ⟨hsorted, ?_, extreme_eq (by decide) h⟩
  rw [sort, List.head?_map]
  obtain ⟨rfl, hnull⟩ | ⟨k, hfirst, hk⟩ := extreme_eq (by decide : Ordering.lt ≠ .eq) h
  · rw [hnull, List.mergeSort_nil]
    rfl
  · rw [hk, head?_of_firstIn h hsorted hfirst]
    rfl

/-- Of items that are their own keys, the greatest one is the last one in order. -/
theorem greatest_eq_getLast [Std.LawfulEqOrd κ] (h : RankedBy rank ks)
    (hitem : ∀ k ∈ ks, k.key = k.item)
    (hrank : ∀ k ∈ ks, ∀ l ∈ ks, rank k.key = rank l.key → k.key = l.key) :
    extreme .gt ks = (sort ks).getLast?.getD .null := by
  have hsorted := stablySorted_mergeSort h
  rw [sort, List.getLast?_map]
  obtain ⟨rfl, hnull⟩ | ⟨k, hfirst, hk⟩ := extreme_eq (by decide : Ordering.gt ≠ .eq) h
  · rw [hnull, List.mergeSort_nil]
    rfl
  · obtain ⟨m, hlast, hm, hequal⟩ := getLast?_of_firstIn h hsorted hfirst
    rw [h m hm k hfirst.mem, Option.some_inj] at hequal
    have hkey := hrank m hm k hfirst.mem (Std.LawfulEqOrd.eq_of_compare hequal)
    rw [hk, hlast, ← hitem k hfirst.mem, ← hkey, hitem m hm]
    rfl

end Ranks

end PathQuery.Keyed
