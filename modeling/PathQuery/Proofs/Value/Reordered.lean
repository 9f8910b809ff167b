import Mathlib.Data.List.Forall2
import PathQuery.Proofs.Value.Rereading

namespace PathQuery

namespace Entries

variable {α : Type} {as bs : List (String × α)}

theorem isSome_lookup_iff {name : String} :
    (as.lookup name).isSome = true ↔ name ∈ keys as := by
  induction as with
  | nil => simp
  | cons e as ih =>
    rw [lookup_cons, keys, List.map_cons, List.mem_cons]
    by_cases h : name = e.1
    · simp [h]
    · rw [if_neg h, ih]
      exact (or_iff_right h).symm

theorem perm_keys (has : (keys as).Nodup) (hbs : (keys bs).Nodup)
    (h : ∀ name, (as.lookup name).isSome = (bs.lookup name).isSome) :
    (keys as).Perm (keys bs) := by
  refine (List.perm_ext_iff_of_nodup has hbs).2 fun name ↦ ?_
  rw [← isSome_lookup_iff, ← isSome_lookup_iff, h]

theorem all_iff_lookup {p : String × α → Bool} (h : (keys as).Nodup) :
    as.all p = true ↔ ∀ name, (as.lookup name).all (fun a ↦ p (name, a)) = true := by
  simp only [List.all_eq_true, Option.all_eq_true_iff_get, Prod.forall, mem_iff_lookup h]
  constructor
  · intro hall name hsome
    exact hall name _ (Option.some_get hsome).symm
  · intro hall name a ha
    have hget := hall name (by rw [ha]; rfl)
    simpa only [ha, Option.get_some] using hget

end Entries

namespace Value

/-- The values differ in nothing but the order in which objects, at any depth, have their entries.
No object has a key twice. -/
inductive Reordered : Value → Value → Prop
  | null : Reordered null null
  | bool (b : Bool) : Reordered (bool b) (bool b)
  | int (n : Int64) : Reordered (int n) (int n)
  | float (x : Float) : Reordered (float x) (float x)
  | string (s : String) : Reordered (string s) (string s)
  | array {as bs : List Value} : List.Forall₂ Reordered as bs → Reordered (array as) (array bs)
  | object {as bs : List (String × Value)} : (Entries.keys as).Nodup → (Entries.keys bs).Nodup →
      (∀ name, Option.Rel Reordered (as.lookup name) (bs.lookup name)) →
      Reordered (object as) (object bs)

variable {v w v' w' : Value} {as bs : List Value}

theorem UniqueKeys.reordered (h : v.UniqueKeys) : v.Reordered v := by
  induction h with
  | null => exact .null
  | bool b => exact .bool b
  | int n => exact .int n
  | float x => exact .float x
  | string s => exact .string s
  | array _ ih => exact .array (List.forall₂_same.2 ih)
  | @object entries hkeys _ ih =>
    refine .object hkeys hkeys fun name ↦ ?_
    cases h : entries.lookup name with
    | none => exact .none
    | some a => exact .some (ih (name, a) (Entries.mem_of_lookup h))

theorem forall₂_of_mem {R S : Value → Value → Prop} (h : List.Forall₂ R as bs)
    (hS : ∀ a ∈ as, ∀ b, R a b → S a b) : List.Forall₂ S as bs :=
  ((List.forall₂_and_left _ _).2 ⟨hS, h⟩).imp fun _ _ h ↦ h.1 _ h.2

theorem rel_of_eq {R S : Value → Value → Prop} {o o' : Option Value} (h : Option.Rel R o o')
    (hS : ∀ a, o = some a → ∀ b, R a b → S a b) : Option.Rel S o o' := by
  cases h with
  | none => exact .none
  | some hab => exact .some (hS _ rfl _ hab)

section

variable {R : Value → Value → Prop} {o o' : Option Value}

theorem exists_of_rel {a : Value} (h : Option.Rel R o o') (ha : o = some a) :
    ∃ b, o' = some b ∧ R a b := by
  cases h with
  | none => cases ha
  | some hab => exact ⟨_, rfl, Option.some.inj ha ▸ hab⟩

theorem isSome_eq_of_rel (h : Option.Rel R o o') : o.isSome = o'.isSome := by cases h <;> rfl

theorem rel_flip (h : Option.Rel (fun a b ↦ R b a) o o') : Option.Rel R o' o := by
  cases h with
  | none => exact .none
  | some hba => exact .some hba

theorem rel_or {p p' : Option Value} (h : Option.Rel R o o') (h' : Option.Rel R p p') :
    Option.Rel R (o.or p) (o'.or p') := by
  cases h with
  | none => exact h'
  | some hab => exact .some hab

theorem map_eq_of_rel {α : Type} {f : Value → α} (h : Option.Rel (fun a b ↦ f a = f b) o o') :
    o.map f = o'.map f := by
  cases h with
  | none => rfl
  | some hab => exact congrArg some hab

end

theorem rel_map {α β γ δ : Type} {R : α → β → Prop} {S : γ → δ → Prop} {f : α → γ} {g : β → δ}
    {o : Option α} {o' : Option β} (hfg : ∀ a b, R a b → S (f a) (g b)) (h : Option.Rel R o o') :
    Option.Rel S (o.map f) (o'.map g) := by
  cases h with
  | none => exact .none
  | some hab => exact .some (hfg _ _ hab)

theorem forall₂_getElem? {α β : Type} {R : α → β → Prop} {as : List α} {bs : List β}
    (h : List.Forall₂ R as bs) (i : Nat) : Option.Rel R as[i]? bs[i]? := by
  induction h generalizing i with
  | nil => exact .none
  | cons hab _ ih =>
    cases i with
    | zero => exact .some hab
    | succ i => exact ih i

theorem map_eq_of_forall₂ {α : Type} {f : Value → α}
    (h : List.Forall₂ (fun a b ↦ f a = f b) as bs) : as.map f = bs.map f := by
  rw [← List.forall₂_eq_eq_eq]
  exact List.forall₂_map_left_iff.2 (List.forall₂_map_right_iff.2 h)

/-- Entries stand in another order just if the values of each key are related. -/
theorem reordered_of_perm {as bs : List (String × Value)} (h : (object as).UniqueKeys)
    (hperm : as.Perm bs) : (object as).Reordered (object bs) := by
  have hbs : (Entries.keys bs).Nodup := (hperm.map Prod.fst).nodup_iff.1 h.nodup
  refine .object h.nodup hbs fun name ↦ ?_
  have hlookup : as.lookup name = bs.lookup name := by
    refine Option.ext fun a ↦ ?_
    rw [← Entries.mem_iff_lookup h.nodup, ← Entries.mem_iff_lookup hbs, hperm.mem_iff]
  rw [← hlookup]
  cases ha : as.lookup name with
  | none => exact .none
  | some a => exact .some (h.of_entry (Entries.mem_of_lookup ha)).reordered

namespace Reordered

theorem kind_eq (h : v.Reordered w) : v.kind = w.kind := by cases h <;> rfl

theorem eq_of_kind (h : v.Reordered w) (harray : v.kind ≠ .array) (hobject : v.kind ≠ .object) :
    v = w := by
  cases h with
  | array | object => contradiction
  | _ => rfl

theorem symm (h : v.Reordered w) : w.Reordered v := by
  induction v using Value.induction generalizing w with
  | null | bool | int | float | string =>
    obtain rfl := h.eq_of_kind (by simp [kind]) (by simp [kind])
    exact h
  | array as ih =>
    cases h with
    | array h => exact .array (forall₂_of_mem h ih).flip
  | object as ih =>
    cases h with
    | object has hbs h =>
      refine .object hbs has fun name ↦ ?_
      exact rel_flip (rel_of_eq (h name) fun a ha _ ↦ ih (name, a) (Entries.mem_of_lookup ha))

theorem uniqueKeys (h : v.Reordered w) : v.UniqueKeys := by
  induction v using Value.induction generalizing w with
  | null => exact .null
  | bool b => exact .bool b
  | int n => exact .int n
  | float x => exact .float x
  | string s => exact .string s
  | array as ih =>
    cases h with
    | array h =>
      have hunique : List.Forall₂ (fun a _ ↦ a.UniqueKeys ∧ True) as _ :=
        forall₂_of_mem h fun a ha b hab ↦ ⟨ih a ha hab, trivial⟩
      exact .array ((List.forall₂_and_left _ _).1 hunique).1
  | object as ih =>
    cases h with
    | object has _ h =>
      refine .object has fun e he ↦ ?_
      obtain ⟨b, -, hab⟩ := exists_of_rel (h e.1) ((Entries.mem_iff_lookup has).1 he)
      exact ih e he hab

/-- Reordered values make the same document, whose keys stand in ascending order. -/
theorem toJson_eq (h : v.Reordered w) : v.toJson = w.toJson := by
  induction v using Value.induction generalizing w with
  | null | bool | int | float | string =>
    rw [h.eq_of_kind (by simp [kind]) (by simp [kind])]
  | array as ih =>
    cases h with
    | array h =>
      rw [toJson_array, toJson_array]
      exact congrArg Json.array (map_eq_of_forall₂ (forall₂_of_mem h ih))
  | object as ih =>
    cases h with
    | @object _ bs has hbs h =>
      rw [toJson_object, toJson_object, ← Entries.sortPairs_map, ← Entries.sortPairs_map]
      refine congrArg Json.object (Entries.sortPairs_congr fun name ↦ ?_)
      rw [Entries.lookup_reverse ((Entries.keys_map toJson as).symm ▸ has),
        Entries.lookup_reverse ((Entries.keys_map toJson bs).symm ▸ hbs), Entries.lookup_map,
        Entries.lookup_map]
      exact map_eq_of_rel
        (rel_of_eq (h name) fun a ha _ ↦ ih (name, a) (Entries.mem_of_lookup ha))

theorem perm_keys {as bs : List (String × Value)} (h : (Value.object as).Reordered (.object bs)) :
    (Entries.keys as).Perm (Entries.keys bs) := by
  cases h with
  | object has hbs h => exact Entries.perm_keys has hbs fun name ↦ isSome_eq_of_rel (h name)

theorem length_eq {as bs : List (String × Value)} (h : (Value.object as).Reordered (.object bs)) :
    as.length = bs.length := by
  simpa only [List.length_map] using h.perm_keys.length_eq

theorem isTruthy_eq (h : v.Reordered w) : v.isTruthy = w.isTruthy := by
  cases v with
  | array as =>
    cases h with
    | array h => cases h <;> rfl
  | object as =>
    cases w with
    | object bs =>
      have hlength := h.length_eq
      cases as <;> cases bs <;> first | rfl | cases hlength
    | _ => cases h
  | _ => rw [h.eq_of_kind (by simp [kind]) (by simp [kind])]

theorem isNull_eq (h : v.Reordered w) : v.isNull = w.isNull := isNull_eq_of_kind h.kind_eq

theorem compare_eq (h : v.Reordered v') (h' : w.Reordered w') :
    v.compare w = v'.compare w' := by
  cases h <;> cases h' <;> rfl

theorem beqItems_eq {as as' bs bs' : List Value}
    (h : List.Forall₂ (fun a a' ↦ ∀ b b', Reordered b b' → (a == b) = (a' == b')) as as')
    (h' : List.Forall₂ Reordered bs bs') : (as == bs) = (as' == bs') := by
  induction h generalizing bs bs' with
  | nil => cases h' <;> rfl
  | cons hab _ ih =>
    cases h' with
    | nil => rfl
    | cons hb hbs => rw [List.cons_beq_cons, List.cons_beq_cons, hab _ _ hb, ih hbs]

theorem all_any_eq {o o' p p' : Option Value}
    (h : Option.Rel (fun a a' ↦ ∀ b b', Reordered b b' → (a == b) = (a' == b')) o o')
    (h' : Option.Rel Reordered p p') :
    (o.all fun a ↦ p.any (a == ·)) = o'.all fun a ↦ p'.any (a == ·) := by
  cases h with
  | none => rfl
  | some hab =>
    cases h' with
    | none => rfl
    | some hb => exact hab _ _ hb

/-- Equality does not look at the order of entries. -/
theorem beq_eq (h : v.Reordered v') (h' : w.Reordered w') : (v == w) = (v' == w') := by
  induction v using Value.induction generalizing w v' w' with
  | null | bool | int | float | string =>
    obtain rfl := h.eq_of_kind (by simp [kind]) (by simp [kind])
    cases h' <;> rfl
  | array as ih =>
    cases h with
    | array h =>
      cases h' with
      | array h' =>
        change Value.beqItems _ _ = Value.beqItems _ _
        rw [Value.beqItems_eq, Value.beqItems_eq]
        exact beqItems_eq (forall₂_of_mem h fun a ha a' haa' b b' hbb' ↦ ih a ha haa' hbb') h'
      | _ => rfl
  | object as ih =>
    cases v' with
    | object as' =>
      cases w with
      | object bs =>
        cases w' with
        | object bs' =>
          change (_ && beqEntries _ _) = (_ && beqEntries _ _)
          rw [h.length_eq, h'.length_eq, beqEntries_eq, beqEntries_eq]
          cases h with
          | object has has' h =>
            cases h' with
            | object _ _ h' =>
              congr 1
              rw [Bool.eq_iff_iff, Entries.all_iff_lookup has, Entries.all_iff_lookup has']
              refine forall_congr' fun name ↦ ?_
              have hname : Option.Rel
                  (fun a a' : Value ↦ ∀ b b' : Value, b.Reordered b' → (a == b) = (a' == b'))
                  (as.lookup name) (as'.lookup name) :=
                rel_of_eq (h name) fun a ha _ haa' _ _ ↦
                  ih (name, a) (Entries.mem_of_lookup ha) haa'
              rw [all_any_eq hname (h' name)]
        | _ => cases h'
      | _ =>
        cases h'
        rfl
    | _ => cases h

/-- The outcome of a comparison is a boolean or null and hangs on no order of entries. -/
theorem apply_eq (op : Comparator) (h : v.Reordered v') (h' : w.Reordered w') :
    op.apply v w = op.apply v' w' := by
  rw [Comparator.apply.eq_def, Comparator.apply.eq_def, isNumber_eq_of_kind h.kind_eq,
    isNumber_eq_of_kind h'.kind_eq, h.beq_eq h', bne, bne, h.beq_eq h', h.compare_eq h']

theorem getD_null {o o' : Option Value} (h : Option.Rel Reordered o o') :
    (o.getD .null).Reordered (o'.getD .null) := by
  cases h with
  | none => exact .null
  | some hab => exact hab

/-- Of pairs whose keys come again, the last values have to be related. -/
theorem ofPairs {ps qs : List (String × Value)}
    (h : ∀ name, Option.Rel Reordered (ps.reverse.lookup name) (qs.reverse.lookup name)) :
    (ofPairs ps).Reordered (Value.ofPairs qs) := by
  refine .object (Entries.nodup_keys_ofPairs ps) (Entries.nodup_keys_ofPairs qs) fun name ↦ ?_
  rw [Entries.lookup_ofPairs, Entries.lookup_ofPairs]
  exact h name

end Reordered

/-- On the way through JSON a value that fits into a document is reordered at most. -/
theorem reordered_throughJson (hv : v.Finite) (hv' : v.UniqueKeys) :
    v.Reordered v.throughJson := by
  induction v using Value.induction with
  | array items ih =>
    rw [throughJson_array]
    refine .array (List.forall₂_map_right_iff.2 (List.forall₂_same.2 fun c hc ↦ ?_))
    exact ih c hc (hv.of_mem hc) (hv'.of_mem hc)
  | object entries ih =>
    have hnodup : (Entries.keys ((Entries.sortPairs entries).map
        fun e ↦ (e.1, throughJson e.2))).Nodup :=
      (Entries.ascending_map (Entries.ascending_sortPairs entries)).nodup
    rw [throughJson_object]
    refine .object hv'.nodup hnodup fun name ↦ ?_
    rw [Entries.lookup_map, Entries.lookup_sortPairs, Entries.lookup_reverse hv'.nodup]
    cases hc : entries.lookup name with
    | none => exact .none
    | some c =>
      have he : (name, c) ∈ entries := Entries.mem_of_lookup hc
      exact .some (ih (name, c) he (hv.of_entry he) (hv'.of_entry he))
  | _ =>
    rw [hv.throughJson_eq_self (by simp [kind]) (by simp [kind])]
    exact hv'.reordered

/-- Sorting the keys of a document does nothing but reorder what is made of it. -/
theorem reordered_ofJson_sorted (j : Json) : (ofJson j.sorted).Reordered (ofJson j) := by
  induction j using Json.induction with
  | null => exact .null
  | bool b => exact .bool b
  | number n => exact (uniqueKeys_ofJson (.number n)).reordered
  | string s => exact .string s
  | array items ih =>
    rw [Json.sorted, sortedItems_eq, ofJson, ofJson, ofJsonItems_eq, ofJsonItems_eq, List.map_map]
    refine .array (List.forall₂_map_left_iff.2 (List.forall₂_map_right_iff.2 ?_))
    exact List.forall₂_same.2 ih
  | object entries ih =>
    rw [Json.sorted, sortedEntries_eq, ofJson, ofJson, ofJsonEntries_eq, ofJsonEntries_eq]
    refine .ofPairs fun name ↦ ?_
    have hsorted : (Entries.keys ((Entries.sortPairs (entries.map fun e ↦ (e.1, e.2.sorted))).map
        fun e ↦ (e.1, ofJson e.2))).Nodup :=
      (Entries.ascending_map (Entries.ascending_sortPairs _)).nodup
    rw [Entries.lookup_reverse hsorted, Entries.lookup_map, Entries.lookup_sortPairs,
      ← List.map_reverse, ← List.map_reverse, Entries.lookup_map, Entries.lookup_map]
    cases hc : entries.reverse.lookup name with
    | none => exact .none
    | some c => exact .some (ih (name, c) (List.mem_reverse.1 (Entries.mem_of_lookup hc)))

end Value

/-- Sorting leaves the last of the entries of each key. -/
theorem Json.uniqueKeys_sorted (j : Json) : j.sorted.UniqueKeys := by
  induction j using Json.induction with
  | null => exact .null
  | bool b => exact .bool b
  | number n => exact .number n
  | string s => exact .string s
  | array items ih =>
    rw [sorted, Value.sortedItems_eq]
    refine .array fun c hc ↦ ?_
    obtain ⟨c', hc', rfl⟩ := List.mem_map.1 hc
    exact ih c' hc'
  | object entries ih =>
    rw [sorted, Value.sortedEntries_eq]
    refine .object (Entries.ascending_sortPairs _).nodup fun e he ↦ ?_
    obtain ⟨e', he', rfl⟩ := List.mem_map.1 (Entries.mem_of_mem_sortPairs he)
    exact ih e' he'

end PathQuery
