import Mathlib.Data.List.Induction
import Mathlib.Data.String.Basic
import PathQuery.Proofs.Entries

namespace PathQuery.Entries

variable {α β : Type} {key name : String} {value : α} {entries entries' pairs : List (String × α)}

def Ascending (entries : List (String × α)) : Prop := entries.Pairwise fun e f ↦ e.1 < f.1

theorem Ascending.nodup (h : Ascending entries) : (keys entries).Nodup :=
  List.pairwise_map.2 (h.imp fun hlt ↦ ne_of_lt hlt)

theorem lookup_cons (name : String) (e : String × α) (entries : List (String × α)) :
    (e :: entries).lookup name = if name = e.1 then some e.2 else entries.lookup name := by
  by_cases h : name = e.1
  · rw [if_pos h, h]
    exact List.lookup_cons_self
  · rw [if_neg h, List.lookup_cons, beq_false_of_ne h]

theorem mem_iff_lookup (h : (keys entries).Nodup) :
    (name, value) ∈ entries ↔ entries.lookup name = some value := by
  refine ⟨fun hmem ↦ ?_, mem_of_lookup⟩
  induction entries with
  | nil => exact absurd hmem List.not_mem_nil
  | cons e entries ih =>
    obtain ⟨hne, hrest⟩ := List.nodup_cons.1 h
    rw [lookup_cons]
    obtain rfl | hmem := List.mem_cons.1 hmem
    · exact if_pos rfl
    · have hkey : name ≠ e.1 := fun heq ↦ hne (heq ▸ List.mem_map_of_mem (f := Prod.fst) hmem)
      rw [if_neg hkey]
      exact ih hrest hmem

/-- Entries in ascending order are known by what they say of each key. -/
theorem Ascending.ext (h : Ascending entries) (h' : Ascending entries')
    (hlookup : ∀ name, entries.lookup name = entries'.lookup name) : entries = entries' := by
  have hperm : entries.Perm entries' := by
    refine (List.perm_ext_iff_of_nodup h.nodup.of_map h'.nodup.of_map).2 fun ⟨name, value⟩ ↦ ?_
    rw [mem_iff_lookup h.nodup, mem_iff_lookup h'.nodup, hlookup]
  refine hperm.eq_of_pairwise (fun e f _ _ hef hfe ↦ ?_) h h'
  exact absurd (lt_trans hef hfe) (lt_irrefl _)

theorem lookup_set (name key : String) (value : α) (entries : List (String × α)) :
    (set key value entries).lookup name =
      if name = key then some value else entries.lookup name := by
  induction entries with
  | nil => exact lookup_cons ..
  | cons e entries ih =>
    rw [set]
    split
    · next hk => simp only [lookup_cons, hk]; split <;> rfl
    · next hk =>
      rw [lookup_cons, lookup_cons, ih]
      by_cases h : name = e.1
      · rw [if_pos h, if_pos h, if_neg (h ▸ hk)]
      · rw [if_neg h, if_neg h]

theorem lookup_setSorted (name key : String) (value : α) (entries : List (String × α)) :
    (setSorted key value entries).lookup name =
      if name = key then some value else entries.lookup name := by
  induction entries with
  | nil => exact lookup_cons ..
  | cons e entries ih =>
    rw [setSorted]
    split
    · exact lookup_cons ..
    · split
      · next hk => simp only [lookup_cons, hk]; split <;> rfl
      · next hk =>
        rw [lookup_cons, lookup_cons, ih]
        by_cases h : name = e.1
        · rw [if_pos h, if_pos h, if_neg (h ▸ Ne.symm hk)]
        · rw [if_neg h, if_neg h]

theorem mem_setSorted {e : String × α} (h : e ∈ setSorted key value entries) :
    e = (key, value) ∨ e ∈ entries := by
  induction entries with
  | nil => exact .inl (List.mem_singleton.1 h)
  | cons e' entries ih =>
    rw [setSorted] at h
    split at h
    · exact List.mem_cons.1 h
    · split at h
      · exact (List.mem_cons.1 h).imp_right (List.mem_cons_of_mem _)
      · obtain rfl | h := List.mem_cons.1 h
        · exact .inr List.mem_cons_self
        · exact (ih h).imp_right (List.mem_cons_of_mem _)

theorem Ascending.setSorted (h : Ascending entries) : Ascending (setSorted key value entries) := by
  induction entries with
  | nil => exact List.pairwise_singleton ..
  | cons e entries ih =>
    obtain ⟨hfirst, hrest⟩ := List.pairwise_cons.1 h
    rw [Entries.setSorted]
    split
    · next hlt =>
      refine List.pairwise_cons.2 ⟨fun f hf ↦ ?_, h⟩
      obtain rfl | hf := List.mem_cons.1 hf
      · exact hlt
      · exact lt_trans hlt (hfirst f hf)
    · next hlt =>
      split
      · next heq => exact List.pairwise_cons.2 ⟨fun f hf ↦ heq ▸ hfirst f hf, hrest⟩
      · next hne =>
        refine List.pairwise_cons.2 ⟨fun f hf ↦ ?_, ih hrest⟩
        obtain rfl | hf := mem_setSorted hf
        · exact lt_of_le_of_ne (not_lt.1 hlt) (Ne.symm hne)
        · exact hfirst f hf

theorem sortPairs_append (pairs : List (String × α)) (p : String × α) :
    sortPairs (pairs ++ [p]) = setSorted p.1 p.2 (sortPairs pairs) := by
  simp [sortPairs, List.foldl_append]

theorem ofPairs_append (pairs : List (String × α)) (p : String × α) :
    ofPairs (pairs ++ [p]) = set p.1 p.2 (ofPairs pairs) := by
  simp [ofPairs, List.foldl_append]

theorem setSorted_ne_nil (key : String) (value : α) (entries : List (String × α)) :
    setSorted key value entries ≠ [] := by
  cases entries with
  | nil => exact List.cons_ne_nil _ _
  | cons e entries =>
    rw [setSorted]
    split
    · exact List.cons_ne_nil _ _
    · split <;> exact List.cons_ne_nil _ _

theorem isEmpty_sortPairs (pairs : List (String × α)) :
    (sortPairs pairs).isEmpty = pairs.isEmpty := by
  cases pairs using List.reverseRecOn with
  | nil => rfl
  | append_singleton pairs p =>
    rw [sortPairs_append, List.isEmpty_eq_false_iff.2 (setSorted_ne_nil _ _ _),
      List.isEmpty_eq_false_iff.2 (List.append_ne_nil_of_right_ne_nil _ (List.cons_ne_nil _ _))]

theorem ascending_sortPairs (pairs : List (String × α)) : Ascending (sortPairs pairs) := by
  induction pairs using List.reverseRecOn with
  | nil => exact List.Pairwise.nil
  | append_singleton pairs p ih => rw [sortPairs_append]; exact ih.setSorted

theorem mem_of_mem_sortPairs {e : String × α} (h : e ∈ sortPairs pairs) : e ∈ pairs := by
  induction pairs using List.reverseRecOn with
  | nil => exact h
  | append_singleton pairs p ih =>
    rw [sortPairs_append] at h
    obtain rfl | h := mem_setSorted h
    · exact List.mem_append_right _ List.mem_cons_self
    · exact List.mem_append_left _ (ih h)

theorem lookup_append_reverse (name : String) (pairs : List (String × α)) (p : String × α) :
    (pairs ++ [p]).reverse.lookup name =
      if name = p.1 then some p.2 else pairs.reverse.lookup name := by
  rw [List.reverse_append, List.reverse_singleton, List.singleton_append, lookup_cons]

/-- Of a key that comes again, the last value counts. -/
theorem lookup_sortPairs (name : String) (pairs : List (String × α)) :
    (sortPairs pairs).lookup name = pairs.reverse.lookup name := by
  induction pairs using List.reverseRecOn with
  | nil => rfl
  | append_singleton pairs p ih =>
    rw [sortPairs_append, lookup_setSorted, ih, lookup_append_reverse]

theorem lookup_ofPairs (name : String) (pairs : List (String × α)) :
    (ofPairs pairs).lookup name = pairs.reverse.lookup name := by
  induction pairs using List.reverseRecOn with
  | nil => rfl
  | append_singleton pairs p ih => rw [ofPairs_append, lookup_set, ih, lookup_append_reverse]

theorem lookup_reverse (h : (keys entries).Nodup) (name : String) :
    entries.reverse.lookup name = entries.lookup name := by
  refine Option.ext fun value ↦ ?_
  have hreverse : (keys entries.reverse).Nodup := by
    rw [keys, List.map_reverse]
    exact List.nodup_reverse.2 h
  rw [← mem_iff_lookup hreverse, ← mem_iff_lookup h, List.mem_reverse]

theorem sortPairs_congr (h : ∀ name, entries.reverse.lookup name = entries'.reverse.lookup name) :
    sortPairs entries = sortPairs entries' :=
  (ascending_sortPairs _).ext (ascending_sortPairs _) fun name ↦ by
    rw [lookup_sortPairs, lookup_sortPairs, h]

theorem sortPairs_ofPairs (pairs : List (String × α)) :
    sortPairs (ofPairs pairs) = sortPairs pairs :=
  sortPairs_congr fun name ↦ by rw [lookup_reverse (nodup_keys_ofPairs _), lookup_ofPairs]

theorem Ascending.sortPairs_eq (h : Ascending entries) : sortPairs entries = entries :=
  (ascending_sortPairs _).ext h fun name ↦ by rw [lookup_sortPairs, lookup_reverse h.nodup]

theorem ascending_map {f : α → β} (h : Ascending entries) :
    Ascending (entries.map fun e ↦ (e.1, f e.2)) :=
  List.pairwise_map.2 h

theorem sortPairs_map (f : α → β) (pairs : List (String × α)) :
    sortPairs (pairs.map fun e ↦ (e.1, f e.2)) = (sortPairs pairs).map fun e ↦ (e.1, f e.2) :=
  (ascending_sortPairs _).ext (ascending_map (ascending_sortPairs _)) fun name ↦ by
    rw [lookup_sortPairs, lookup_map, lookup_sortPairs, ← List.map_reverse, lookup_map]

end PathQuery.Entries
