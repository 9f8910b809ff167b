import PathQuery.Entries
import Mathlib.Data.List.Nodup

namespace PathQuery.Entries

variable {α β : Type}

abbrev keys (entries : List (String × α)) : List String := entries.map Prod.fst

theorem set_of_notMem {key : String} {value : α} {entries : List (String × α)}
    (h : key ∉ keys entries) : set key value entries = entries ++ [(key, value)] := by
  induction entries with
  | nil => rfl
  | cons e entries ih =>
    obtain ⟨hne, hrest⟩ := not_or.1 (List.mem_cons.not.1 h)
    have hk : e.1 ≠ key := fun hk ↦ hne hk.symm
    simp only [set, hk, if_false, ih hrest, List.cons_append]

theorem keys_set_of_mem {key : String} {value : α} {entries : List (String × α)}
    (h : key ∈ keys entries) : keys (set key value entries) = keys entries := by
  induction entries with
  | nil => exact absurd h (by simp)
  | cons e entries ih =>
    by_cases hk : e.1 = key
    · simp [set, hk]
    · have hrest : key ∈ keys entries := (List.mem_cons.1 h).resolve_left (fun h ↦ hk h.symm)
      simp only [keys, set, hk, if_false, List.map_cons]
      exact congrArg _ (ih hrest)

theorem nodup_keys_set {key : String} {value : α} {entries : List (String × α)}
    (h : (keys entries).Nodup) : (keys (set key value entries)).Nodup := by
  by_cases hk : key ∈ keys entries
  · rwa [keys_set_of_mem hk]
  · rw [set_of_notMem hk, keys, List.map_append]
    exact List.Nodup.append h (List.nodup_singleton key) (by simpa using hk)

theorem mem_set {key : String} {value : α} {e : String × α} {entries : List (String × α)}
    (h : e ∈ set key value entries) : e = (key, value) ∨ e ∈ entries := by
  induction entries with
  | nil => exact .inl (List.mem_singleton.1 h)
  | cons e' entries ih =>
    rw [set] at h
    split at h
    · exact (List.mem_cons.1 h).imp_right (List.mem_cons_of_mem _)
    · obtain rfl | h := List.mem_cons.1 h
      · exact .inr List.mem_cons_self
      · exact (ih h).imp_right (List.mem_cons_of_mem _)

/-- Whatever comes to be among the entries was there before or is one of the pairs. -/
theorem foldl_set_induction {motive : List (String × α) → Prop} {pairs : List (String × α)}
    {entries : List (String × α)} (base : motive entries)
    (step : ∀ p ∈ pairs, ∀ entries, motive entries → motive (set p.1 p.2 entries)) :
    motive (pairs.foldl (fun entries p ↦ set p.1 p.2 entries) entries) := by
  induction pairs generalizing entries with
  | nil => exact base
  | cons p pairs ih =>
    exact ih (step p List.mem_cons_self _ base) fun q hq ↦ step q (List.mem_cons_of_mem _ hq)

theorem nodup_keys_ofPairs (pairs : List (String × α)) : (keys (ofPairs pairs)).Nodup :=
  foldl_set_induction (motive := fun entries ↦ (keys entries).Nodup) List.nodup_nil
    fun _ _ _ h ↦ nodup_keys_set h

theorem mem_of_mem_ofPairs {pairs : List (String × α)} {e : String × α}
    (h : e ∈ ofPairs pairs) : e ∈ pairs := by
  refine foldl_set_induction (motive := fun entries ↦ e ∈ entries → e ∈ pairs) ?_ ?_ h
  · exact fun h ↦ absurd h List.not_mem_nil
  · intro p hp entries ih he
    obtain rfl | he := mem_set he
    · exact hp
    · exact ih he

theorem foldl_set_of_nodup {pairs entries : List (String × α)}
    (h : (keys (entries ++ pairs)).Nodup) :
    pairs.foldl (fun entries p ↦ set p.1 p.2 entries) entries = entries ++ pairs := by
  induction pairs generalizing entries with
  | nil => simp
  | cons p pairs ih =>
    have hp : p.1 ∉ keys entries := by
      rw [keys, List.map_append, List.map_cons] at h
      exact fun hm ↦ List.disjoint_of_nodup_append h hm List.mem_cons_self
    rw [List.foldl_cons, set_of_notMem hp, ih (by simpa using h)]
    simp

theorem ofPairs_of_nodup {pairs : List (String × α)} (h : (keys pairs).Nodup) :
    ofPairs pairs = pairs :=
  foldl_set_of_nodup (show (keys ([] ++ pairs)).Nodup from h)

theorem keys_map (f : α → β) (entries : List (String × α)) :
    keys (entries.map fun e ↦ (e.1, f e.2)) = keys entries := by
  simp [keys, Function.comp_def]

theorem lookup_map (f : α → β) (name : String) (entries : List (String × α)) :
    (entries.map fun e ↦ (e.1, f e.2)).lookup name = (entries.lookup name).map f := by
  induction entries with
  | nil => rfl
  | cons e entries ih =>
    rw [List.map_cons, List.lookup_cons, List.lookup_cons]
    cases name == e.1 with
    | true => rfl
    | false => exact ih

theorem mem_of_lookup {name : String} {a : α} {entries : List (String × α)}
    (h : entries.lookup name = some a) : (name, a) ∈ entries := by
  obtain ⟨before, after, rfl, -⟩ := List.lookup_eq_some_iff.1 h
  simp

end PathQuery.Entries
