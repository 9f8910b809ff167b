import PathQuery.Function.Call
import PathQuery.Proofs.Entries.Sorted

namespace PathQuery

namespace Entries

theorem eraseDups_concat (names : List String) (name : String) :
    (names ++ [name]).eraseDups =
      if name ∈ names then names.eraseDups else names.eraseDups ++ [name] := by
  rw [List.eraseDups_append, List.removeAll]
  split
  · next h => simp [h]
  · next h => simp [h, List.eraseDups_cons]

theorem eraseDups_append_eraseDups (names others : List String) :
    (names ++ others.eraseDups).eraseDups = (names ++ others).eraseDups := by
  induction others using List.reverseRecOn with
  | nil => rfl
  | append_singleton others name ih =>
    rw [eraseDups_concat, ← List.append_assoc, eraseDups_concat]
    split
    · next h => rw [if_pos (List.mem_append_right names h), ih]
    · simp only [← List.append_assoc, eraseDups_concat, List.mem_append, List.mem_eraseDups, ih]

theorem eraseDups_eraseDups_append (names others : List String) :
    (names.eraseDups ++ others).eraseDups = (names ++ others).eraseDups := by
  induction others using List.reverseRecOn with
  | nil =>
    rw [List.append_nil, List.append_nil]
    exact eraseDups_append_eraseDups [] names
  | append_singleton others name ih =>
    simp only [← List.append_assoc, eraseDups_concat, List.mem_append, List.mem_eraseDups, ih]

variable {α : Type} {as bs : List (String × α)}

/-- A key stands where it comes for the first time. -/
theorem keys_ofPairs (pairs : List (String × α)) :
    keys (ofPairs pairs) = (keys pairs).eraseDups := by
  induction pairs using List.reverseRecOn with
  | nil => rfl
  | append_singleton pairs p ih =>
    have hkeys : keys (pairs ++ [p]) = keys pairs ++ [p.1] := List.map_append
    have hmem : p.1 ∈ keys (ofPairs pairs) ↔ p.1 ∈ keys pairs := by rw [ih, List.mem_eraseDups]
    rw [ofPairs_append, hkeys, eraseDups_concat, ← ih]
    split
    · next h => exact keys_set_of_mem (hmem.2 h)
    · next h =>
      rw [set_of_notMem (hmem.not.2 h)]
      exact List.map_append

/-- Entries are known by the order of their keys and by what they say of each key. -/
theorem eq_of_keys (h : (keys as).Nodup) (hkeys : keys as = keys bs)
    (hlookup : ∀ name, as.lookup name = bs.lookup name) : as = bs := by
  have hlength : as.length = bs.length := by simpa using congrArg List.length hkeys
  refine List.ext_getElem hlength fun i hi hi' ↦ ?_
  have hkey : as[i].1 = bs[i].1 := by
    have hget : (keys as)[i]? = (keys bs)[i]? := congrArg (fun names ↦ names[i]?) hkeys
    rw [List.getElem?_map, List.getElem?_map, List.getElem?_eq_getElem hi,
      List.getElem?_eq_getElem hi'] at hget
    exact Option.some.inj hget
  have ha : as.lookup as[i].1 = some as[i].2 := (mem_iff_lookup h).1 (List.getElem_mem hi)
  have hb : bs.lookup bs[i].1 = some bs[i].2 :=
    (mem_iff_lookup (hkeys ▸ h)).1 (List.getElem_mem hi')
  rw [hlookup, hkey, hb] at ha
  exact Prod.ext hkey (Option.some.inj ha).symm

/-- Pairs that are brought together in two parts first give the same entries in the same order. -/
theorem ofPairs_append_ofPairs (ps qs : List (String × α)) :
    ofPairs (ofPairs ps ++ ofPairs qs) = ofPairs (ps ++ qs) := by
  refine eq_of_keys (nodup_keys_ofPairs _) ?_ fun name ↦ ?_
  · have hkeys (rs ss : List (String × α)) : keys (rs ++ ss) = keys rs ++ keys ss := List.map_append
    rw [keys_ofPairs, keys_ofPairs, hkeys, hkeys, keys_ofPairs, keys_ofPairs,
      eraseDups_append_eraseDups, eraseDups_eraseDups_append]
  · rw [lookup_ofPairs, lookup_ofPairs, List.reverse_append, List.reverse_append,
      List.lookup_append, List.lookup_append, lookup_reverse (nodup_keys_ofPairs qs),
      lookup_ofPairs, lookup_reverse (nodup_keys_ofPairs ps), lookup_ofPairs]

/-- Of objects that hold a key, the last one gives its value. -/
theorem lookup_flatten_reverse {objects : List (List (String × α))}
    (h : ∀ entries ∈ objects, (keys entries).Nodup) (name : String) :
    objects.flatten.reverse.lookup name = objects.reverse.findSome? (·.lookup name) := by
  induction objects with
  | nil => rfl
  | cons entries objects ih =>
    rw [List.forall_mem_cons] at h
    rw [List.flatten_cons, List.reverse_append, List.lookup_append, ih h.2, lookup_reverse h.1,
      List.reverse_cons, List.findSome?_append, List.findSome?_singleton]

end Entries

namespace Builtin

open Value

def mergeCall (objects : List (List (String × Value))) : Except EvalError Value :=
  callByName "merge" (objects.map fun entries ↦ .value (.object entries))

variable {objects : List (List (String × Value))}

theorem checkTypes_objects (i : Nat) (objects : List (List (String × Value))) :
    merge.signature.checkTypes i (objects.map fun entries ↦ .value (.object entries)) = .ok () := by
  induction objects generalizing i with
  | nil => rfl
  | cons entries objects ih =>
    have haccepted : merge.signature.accepted i = [.object] := by cases i <;> rfl
    rw [List.map_cons, Signature.checkTypes, haccepted, if_pos (by rfl), ih]

theorem mergeCall_eq (h : objects ≠ []) :
    mergeCall objects = .ok (.object (Entries.ofPairs objects.flatten)) := by
  have hcheck : merge.signature.check
      (objects.map fun entries ↦ .value (.object entries)) = .ok () := by
    rw [Signature.check, checkTypes_objects]
    cases objects with
    | nil => exact absurd rfl h
    | cons => rfl
  have hvalues : (Args.mk (objects.map fun entries ↦ .value (.object entries))).values =
      objects.map .object := by
    rw [Args.values, List.filterMap_map]
    exact congrFun (List.filterMap_eq_map (f := Value.object)) objects
  change merge.call _ = _
  rw [call, hcheck]
  dsimp only
  rw [run, hvalues, Value.merge, List.flatMap_map]
  exact congrArg (fun pairs ↦ Except.ok (ofPairs pairs)) List.flatMap_id

/-- Merging objects gives every key of theirs once, where it comes for the first time, and with the
value that the last object has for it. Merging two parts of them first makes no difference. -/
theorem merge_objects (hsome : objects ≠ [])
    (hkeys : ∀ entries ∈ objects, (Entries.keys entries).Nodup) :
    ∃ merged, mergeCall objects = .ok (.object merged) ∧
      Entries.keys merged = (objects.flatMap Entries.keys).eraseDups ∧
      (Entries.keys merged).Nodup ∧
      (∀ key, key ∈ Entries.keys merged ↔ ∃ entries ∈ objects, key ∈ Entries.keys entries) ∧
      (∀ key, merged.lookup key = objects.reverse.findSome? (·.lookup key)) ∧
      ∀ first second, first ≠ [] → second ≠ [] → first ++ second = objects →
        ∃ left right, mergeCall first = .ok (.object left) ∧
          mergeCall second = .ok (.object right) ∧
          mergeCall [left, right] = .ok (.object merged) := by
  have horder : Entries.keys (Entries.ofPairs objects.flatten) =
      (objects.flatMap Entries.keys).eraseDups := by
    rw [Entries.keys_ofPairs, Entries.keys, List.map_flatten, List.flatMap_def]
  refine ⟨_, mergeCall_eq hsome, horder, Entries.nodup_keys_ofPairs _, fun key ↦ ?_, fun key ↦ ?_,
    fun first second hfirst hsecond happend ↦ ?_⟩
  · rw [horder, List.mem_eraseDups, List.mem_flatMap]
  · rw [Entries.lookup_ofPairs, Entries.lookup_flatten_reverse hkeys]
  · refine ⟨_, _, mergeCall_eq hfirst, mergeCall_eq hsecond, ?_⟩
    rw [mergeCall_eq (List.cons_ne_nil _ _), ← happend, List.flatten_append,
      ← Entries.ofPairs_append_ofPairs]
    simp only [List.flatten_cons, List.flatten_nil, List.append_nil]

def sharingObjects : List (List (String × Value)) :=
  [[("a", .int 1), ("b", .int 2)], [("c", .null), ("a", .int 3)], [("b", .null), ("d", .int 4)]]

theorem merge_objects_of_shared_keys :
    sharingObjects ≠ [] ∧ (∀ entries ∈ sharingObjects, (Entries.keys entries).Nodup) ∧
    ∃ merged left right, mergeCall sharingObjects = .ok (.object merged) ∧
      Entries.keys merged = ["a", "b", "c", "d"] ∧ merged.lookup "a" = some (.int 3) ∧
      mergeCall (sharingObjects.take 2) = .ok (.object left) ∧
      mergeCall (sharingObjects.drop 2) = .ok (.object right) ∧
      mergeCall [left, right] = .ok (.object merged) := by
  have hkeys : ∀ entries ∈ sharingObjects, (Entries.keys entries).Nodup := by decide
  obtain ⟨merged, hmerged, horder, -, -, hlookup, hsplit⟩ :=
    merge_objects (List.cons_ne_nil _ _) hkeys
  obtain ⟨left, right, hleft, hright, hboth⟩ := hsplit (sharingObjects.take 2)
    (sharingObjects.drop 2) (List.cons_ne_nil _ _) (List.cons_ne_nil _ _) rfl
  exact ⟨List.cons_ne_nil _ _, hkeys, merged, left, right, hmerged, horder, hlookup "a", hleft,
    hright, hboth⟩

end Builtin

end PathQuery
