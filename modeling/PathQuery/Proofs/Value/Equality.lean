import Mathlib.Data.List.Perm.Subperm
import PathQuery.Proofs.Value.Comparison
import PathQuery.Proofs.Value.Reordered

namespace PathQuery.Value

open Number

variable {u v w : Value} {as bs cs : List Value}

theorem beq_bool {a b : Bool} : (bool a == bool b) = true ↔ a = b :=
  beq_iff_eq (a := a) (b := b)

theorem beq_string {a b : String} : (string a == string b) = true ↔ a = b :=
  beq_iff_eq (a := a) (b := b)

theorem beq_array_iff : (array as == array bs) = true ↔
    List.Forall₂ (fun a b ↦ (a == b) = true) as bs := by
  change beqItems as bs = true ↔ _
  rw [beqItems_eq]
  induction as generalizing bs with
  | nil =>
    cases bs with
    | nil => exact iff_of_true rfl .nil
    | cons b bs => exact iff_of_false nofun nofun
  | cons a as ih =>
    cases bs with
    | nil => exact iff_of_false nofun nofun
    | cons b bs => rw [List.cons_beq_cons, Bool.and_eq_true, List.forall₂_cons, ih]

theorem beq_object_iff {as bs : List (String × Value)} (has : (Entries.keys as).Nodup)
    (hbs : (Entries.keys bs).Nodup) : (object as == object bs) = true ↔
      ∀ name, Option.Rel (fun a b ↦ (a == b) = true) (as.lookup name) (bs.lookup name) := by
  change (as.length == bs.length && beqEntries as bs) = true ↔ _
  rw [Bool.and_eq_true, beq_iff_eq, beqEntries_eq, Entries.all_iff_lookup has]
  simp only [Option.all_eq_true, Option.any_eq_true]
  constructor
  · rintro ⟨hlength, hall⟩ name
    have hsub : Entries.keys as ⊆ Entries.keys bs := by
      intro name hname
      obtain ⟨a, ha⟩ := Option.isSome_iff_exists.1 (Entries.isSome_lookup_iff.2 hname)
      obtain ⟨b, hb, -⟩ := hall name a ha
      exact Entries.isSome_lookup_iff.1 (Option.isSome_of_eq_some hb)
    have hperm : (Entries.keys as).Perm (Entries.keys bs) :=
      (has.subperm hsub).perm_of_length_le (by simp [Entries.keys, hlength])
    cases ha : as.lookup name with
    | none =>
      cases hb : bs.lookup name with
      | none => exact .none
      | some b =>
        have hname := hperm.mem_iff.2 (Entries.isSome_lookup_iff.1 (Option.isSome_of_eq_some hb))
        rw [← Entries.isSome_lookup_iff, ha] at hname
        cases hname
    | some a =>
      obtain ⟨b, hb, hab⟩ := hall name a ha
      rw [hb]
      exact .some hab
  · intro h
    have hperm := Entries.perm_keys has hbs fun name ↦ isSome_eq_of_rel (h name)
    refine ⟨by simpa only [List.length_map] using hperm.length_eq, fun name a ha ↦ ?_⟩
    exact exists_of_rel (h name) ha

theorem forall₂_trans {R S T : Value → Value → Prop} (h : List.Forall₂ R as bs)
    (h' : List.Forall₂ S bs cs)
    (hT : ∀ a ∈ as, ∀ b ∈ bs, ∀ c ∈ cs, R a b → S b c → T a c) : List.Forall₂ T as cs := by
  induction h generalizing cs with
  | nil =>
    cases h'
    exact .nil
  | @cons a b as bs hab _ ih =>
    cases h' with
    | @cons _ c _ cs hbc h' =>
      refine .cons (hT a List.mem_cons_self b List.mem_cons_self c List.mem_cons_self hab hbc) ?_
      exact ih h' fun a ha b hb c hc ↦ hT a (List.mem_cons_of_mem _ ha) b
        (List.mem_cons_of_mem _ hb) c (List.mem_cons_of_mem _ hc)

theorem rel_trans {R S T : Value → Value → Prop} {o o' o'' : Option Value} (h : Option.Rel R o o')
    (h' : Option.Rel S o' o'')
    (hT : ∀ a, o = some a → ∀ b, o' = some b → ∀ c, o'' = some c → R a b → S b c → T a c) :
    Option.Rel T o o'' := by
  cases h with
  | none =>
    cases h'
    exact .none
  | some hab =>
    cases h' with
    | some hbc => exact .some (hT _ rfl _ rfl _ rfl hab hbc)

theorem beq_refl (hv : v.UniqueKeys) (hnan : ∀ x, (float x).Within v → x.isNaN = false) :
    (v == v) = true := by
  induction hv with
  | null => rfl
  | bool b => exact beq_bool.2 rfl
  | int n => exact beq_int.2 rfl
  | float x =>
    have hx := hnan x (.refl _)
    exact (beq_iff_order hx hx).2 rfl
  | string s => exact beq_string.2 rfl
  | array _ ih =>
    refine beq_array_iff.2 (List.forall₂_same.2 fun a ha ↦ ?_)
    exact ih a ha fun x hx ↦ hnan x (.item ha hx)
  | @object entries hkeys _ ih =>
    refine (beq_object_iff hkeys hkeys).2 fun name ↦ ?_
    cases ha : entries.lookup name with
    | none => exact .none
    | some a =>
      have hentry := Entries.mem_of_lookup ha
      exact .some (ih (name, a) hentry fun x hx ↦ hnan x (.entry hentry hx))

theorem isNaN_of_isFinite {x : Float} (h : x.isFinite = true) : x.isNaN = false := by
  change x.toModel.unpack.isFinite = true at h
  change x.toModel.unpack.isNaN = false
  cases hx : x.toModel.unpack with
  | notANumber => rw [hx] at h; cases h
  | _ => rfl

theorem Finite.isNaN_within {x : Float} (hv : v.Finite) (hx : (Value.float x).Within v) :
    x.isNaN = false := by
  induction hv with
  | float h =>
    cases hx
    exact isNaN_of_isFinite h
  | array _ ih =>
    cases hx with
    | item hw hx => exact ih _ hw hx
  | object _ ih =>
    cases hx with
    | entry he hx => exact ih _ he hx
  | _ => cases hx

theorem Finite.beq_self (h : v.Finite) (hv : v.UniqueKeys) : (v == v) = true :=
  beq_refl hv fun _ hx ↦ h.isNaN_within hx

theorem beq_symm (hu : u.UniqueKeys) (hv : v.UniqueKeys) (h : (u == v) = true) :
    (v == u) = true := by
  induction hu generalizing v with
  | null =>
    cases v with
    | null => exact h
    | _ => cases h
  | bool a =>
    cases v with
    | bool b => exact beq_bool.2 (beq_bool.1 h).symm
    | _ => cases h
  | int a => exact beq_symm_of_toFloat? rfl h
  | float x => exact beq_symm_of_toFloat? rfl h
  | string s =>
    cases v with
    | string t => exact beq_string.2 (beq_string.1 h).symm
    | _ => cases h
  | @array as _ ih =>
    cases v with
    | array bs =>
      have hitems : List.Forall₂ (fun a b ↦ a ∈ as ∧ (a == b) = true) as bs :=
        forall₂_of_mem (beq_array_iff.1 h) fun a ha b hab ↦ ⟨ha, hab⟩
      refine beq_array_iff.2 (forall₂_of_mem hitems.flip ?_)
      rintro b hb a ⟨ha, hab⟩
      exact ih a ha (hv.of_mem hb) hab
    | _ => cases h
  | @object as has _ ih =>
    cases v with
    | object bs =>
      refine (beq_object_iff hv.nodup has).2 fun name ↦ ?_
      have hname := (beq_object_iff has hv.nodup).1 h name
      generalize ha : as.lookup name = o, hb : bs.lookup name = o' at hname
      cases hname with
      | none => exact .none
      | some hab =>
        have hb := Entries.mem_of_lookup hb
        exact .some (ih (name, _) (Entries.mem_of_lookup ha) (hv.of_entry hb) hab)
    | _ => cases h

theorem beq_trans (hu : u.UniqueKeys) (hv : v.UniqueKeys) (hw : w.UniqueKeys) (h : Apart u v w)
    (huv : (u == v) = true) (hvw : (v == w) = true) : (u == w) = true := by
  induction hu generalizing v w with
  | null =>
    cases v with
    | null => exact hvw
    | _ => cases huv
  | bool a =>
    cases v with
    | bool b =>
      obtain rfl := beq_bool.1 huv
      exact hvw
    | _ => cases huv
  | int a =>
    obtain ⟨y, hy⟩ := toFloat?_of_beq rfl huv
    obtain ⟨z, hz⟩ := toFloat?_of_beq hy hvw
    exact beq_trans_of_toFloat? rfl hy hz h huv hvw
  | float x =>
    obtain ⟨y, hy⟩ := toFloat?_of_beq rfl huv
    obtain ⟨z, hz⟩ := toFloat?_of_beq hy hvw
    exact beq_trans_of_toFloat? rfl hy hz h huv hvw
  | string s =>
    cases v with
    | string t =>
      obtain rfl := beq_string.1 huv
      exact hvw
    | _ => cases huv
  | array _ ih =>
    cases v with
    | array bs =>
      cases w with
      | array cs =>
        refine beq_array_iff.2 (forall₂_trans (beq_array_iff.1 huv) (beq_array_iff.1 hvw) ?_)
        intro a ha b hb c hc hab hbc
        exact ih a ha (hv.of_mem hb) (hw.of_mem hc)
          (h.mono (fun _ ↦ .item ha) (fun _ ↦ .item hb) fun _ ↦ .item hc) hab hbc
      | _ => cases hvw
    | _ => cases huv
  | @object as has _ ih =>
    cases v with
    | object bs =>
      cases w with
      | object cs =>
        have huv := (beq_object_iff has hv.nodup).1 huv
        have hvw := (beq_object_iff hv.nodup hw.nodup).1 hvw
        refine (beq_object_iff has hw.nodup).2 fun name ↦ rel_trans (huv name) (hvw name) ?_
        intro a ha b hb c hc hab hbc
        have ha := Entries.mem_of_lookup ha
        have hb := Entries.mem_of_lookup hb
        have hc := Entries.mem_of_lookup hc
        exact ih (name, a) ha (hv.of_entry hb) (hw.of_entry hc)
          (h.mono (fun _ ↦ .entry ha) (fun _ ↦ .entry hb) fun _ ↦ .entry hc) hab hbc
      | _ => cases hvw
    | _ => cases huv

/-- Equality of values without a NaN is reflexive, symmetric and, where no float stands for two
integers, transitive; numbers of either kind are in a total order, whose equality it is. -/
theorem equality_and_order (hu : u.UniqueKeys) (hv : v.UniqueKeys) (hw : w.UniqueKeys) :
    ((∀ x, (float x).Within u → x.isNaN = false) → (u == u) = true) ∧
    (u == v) = (v == u) ∧
    (Apart u v w → (u == v) = true → (v == w) = true → (u == w) = true) ∧
    (u.IsNumeric → v.IsNumeric →
      (∃ o, u.compare v = some o ∧ v.compare u = some o.swap ∧ (o = .eq ↔ (u == v) = true) ∧
        ∀ op : Comparator, op.apply u v = .bool (op.holds o)) ∧
      ∃! op, op ∈ [Comparator.less, .equal, .greater] ∧ op.apply u v = .bool true) ∧
    (u.IsNumeric → v.IsNumeric → w.IsNumeric → Apart u v w →
      Comparator.lessEqual.apply u v = .bool true → Comparator.lessEqual.apply v w = .bool true →
      Comparator.lessEqual.apply u w = .bool true) := by
  refine ⟨beq_refl hu, ?_, beq_trans hu hv hw, ?_, ?_⟩
  · exact Bool.eq_iff_iff.2 ⟨beq_symm hu hv, beq_symm hv hu⟩
  · intro hu hv
    exact ⟨exists_order hu hv, existsUnique_apply hu hv⟩
  · intro hu hv hw h huv hvw
    rw [lessEqual_iff hu hv] at huv
    rw [lessEqual_iff hv hw] at hvw
    rw [lessEqual_iff hu hw]
    exact compare_trans hu hv hw h huv hvw

def withInt : Value := object [("a", int 1), ("b", null)]

def withFloat : Value := object [("b", null), ("a", float (ofInt64 1))]

theorem equality_and_order_of_both_kinds :
    Apart withInt withFloat withInt ∧ (withInt == withInt) = true ∧
      Apart (int (-3)) (float (ofInt64 (-1))) (int 0) ∧
      Comparator.lessEqual.apply (int (-3)) (int 0) = .bool true := by
  have hone : ∀ a, (int a).Within withInt → a = 1 := by
    intro a ha
    obtain _ | _ | ⟨he, ha⟩ := ha
    obtain rfl | rfl : _ = ("a", int 1) ∨ _ = ("b", null) := by simpa using he
    · cases ha
      rfl
    · cases ha
  have hobjects : Apart withInt withFloat withInt :=
    fun a _ c ha _ hc _ _ ↦ (hone a ha).trans (hone c hc).symm
  have hnumbers : Apart (int (-3)) (float (ofInt64 (-1))) (int 0) := by
    rintro _ _ _ ⟨⟩ ⟨⟩ ⟨⟩ h
    exact absurd h (by decide +kernel)
  have hint : withInt.UniqueKeys := by
    refine .object (by decide) (List.forall_mem_cons.2 ⟨.int 1, ?_⟩)
    exact List.forall_mem_singleton.2 .null
  have hfloat : withFloat.UniqueKeys := by
    refine .object (by decide) (List.forall_mem_cons.2 ⟨.null, ?_⟩)
    exact List.forall_mem_singleton.2 (.float _)
  obtain ⟨-, -, htrans, -, -⟩ := equality_and_order hint hfloat hint
  obtain ⟨-, -, -, -, hle⟩ := equality_and_order (.int (-3)) (.float (ofInt64 (-1))) (.int 0)
  refine ⟨hobjects, ?_, hnumbers, ?_⟩
  · exact htrans hobjects (by decide +kernel) (by decide +kernel)
  · exact hle (isNumeric_int _) (isNumeric_float_ofInt64 _) (isNumeric_int _) hnumbers rfl rfl

/-- A float that is the nearest one to two integers is equal to both. -/
theorem equality_not_transitive : ¬ ∀ u v w : Value, u.IsNumeric → v.IsNumeric → w.IsNumeric →
    (u == v) = true → (v == w) = true → (u == w) = true := by
  intro h
  have hequal := h (int 9007199254740993) (float (ofInt64 9007199254740992))
    (int 9007199254740992) (isNumeric_int _) (isNumeric_float_ofInt64 _) (isNumeric_int _)
    (by decide +kernel) (by decide +kernel)
  exact absurd (beq_int.1 hequal) (by decide)

end PathQuery.Value
