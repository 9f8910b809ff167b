import PathQuery.Proofs.Value.Conversion

namespace PathQuery.Value

variable {v : Value}

/-- The document in insertion order differs from the sorted one in nothing but the order. -/
theorem sorted_inOrder (v : Value) : v.inOrder.sorted = v.toJson := by
  induction v using Value.induction with
  | null | bool | int | string => rfl
  | float x =>
    rw [inOrder, toJson]
    split <;> rfl
  | array items ih =>
    rw [inOrder_array, toJson_array, Json.sorted, sortedItems_eq, List.map_map]
    exact congrArg Json.array (List.map_congr_left ih)
  | object entries ih =>
    rw [inOrder_object, toJson_object, Json.sorted, sortedEntries_eq, List.map_map,
      ← Entries.sortPairs_map]
    exact congrArg (Json.object ∘ Entries.sortPairs)
      (List.map_congr_left fun e he ↦ congrArg (Prod.mk e.1) (ih e he))

/-- No value is changed by being made a document in insertion order and back. -/
theorem ofJson_inOrder (hkeys : v.UniqueKeys) (hfinite : v.Finite) : ofJson v.inOrder = v := by
  induction hkeys with
  | null | bool | string => rfl
  | int n => exact throughJson_int n
  | float x =>
    cases hfinite with
    | float hx => exact throughJson_float hx
  | array _ ih =>
    rw [inOrder_array, ofJson, ofJsonItems_eq, List.map_map]
    exact congrArg array
      ((List.map_congr_left fun v hv ↦ ih v hv (hfinite.of_mem hv)).trans (List.map_id _))
  | @object entries hnodup _ ih =>
    have hself : entries.map (fun e ↦ (e.1, ofJson e.2.inOrder)) = entries :=
      (List.map_congr_left fun e he ↦
        congrArg (Prod.mk e.1) (ih e he (hfinite.of_entry he))).trans (List.map_id _)
    rw [inOrder_object, ofJson, ofJsonEntries_eq, List.map_map]
    change ofPairs (entries.map fun e ↦ (e.1, ofJson e.2.inOrder)) = _
    rw [hself, ofPairs, Entries.ofPairs_of_nodup hnodup]

/-- Whichever way a value without floats is printed, the text holds its document with the entries
in insertion order, from which the value is made again as it was. Where the reader sorts the keys
of what it read, the value that is made is equal to it. -/
theorem read_printed (hkeys : v.UniqueKeys) (hints : v.FloatFree) (hdepth : v.depth ≤ 127)
    {text : String} (htext : text ∈ [v.compact, v.pretty]) :
    (Json.read text = .ok v.inOrder ∧ ofJson v.inOrder = v) ∧
    Json.readSorted text = .ok v.toJson ∧ (ofJson v.toJson == v) = true := by
  have hread : Json.read text = .ok v.inOrder := by
    obtain rfl | rfl : text = v.compact ∨ text = v.pretty := by simpa using htext
    · exact hints.read_write hdepth false
    · exact hints.read_write hdepth true
  refine ⟨⟨hread, ofJson_inOrder hkeys hints.finite⟩, ?_, throughJson_beq hkeys hints.finite⟩
  rw [Json.readSorted, hread, ← sorted_inOrder]
  rfl

def escapedKeys : Value :=
  object [("b\n", array [int (-1), array [], object []]), ("a", string "\"\\\x7f\u0085")]

theorem read_printed_escaped_keys :
    escapedKeys.pretty = "\x7b\n  \"b\\n\": [\n    -1,\n    [],\n    \x7b\x7d\n  ],\n" ++
      "  \"a\": \"\\\"\\\\\\u007f\\u0085\"\n\x7d" ∧
    escapedKeys.UniqueKeys ∧ escapedKeys.FloatFree ∧ escapedKeys.depth ≤ 127 ∧
    Json.read escapedKeys.pretty = .ok (.object [
      ("b\n", .array [.number (.negative (-1)), .array [], .object []]),
      ("a", .string "\"\\\x7f\u0085")]) ∧
    ∃ d, Json.readSorted escapedKeys.compact = .ok d ∧ (ofJson d == escapedKeys) = true := by
  have hkeys : escapedKeys.UniqueKeys := by
    refine .object (by decide) (List.forall_mem_cons.2 ⟨.array ?_, ?_⟩)
    · refine List.forall_mem_cons.2 ⟨.int _, List.forall_mem_cons.2 ⟨?_, ?_⟩⟩
      · exact .array (List.forall_mem_nil _)
      · exact List.forall_mem_singleton.2 (.object .nil (List.forall_mem_nil _))
    · exact List.forall_mem_singleton.2 (.string _)
  have hints : escapedKeys.FloatFree := by
    refine .object (List.forall_mem_cons.2 ⟨.array ?_, ?_⟩)
    · refine List.forall_mem_cons.2 ⟨.int _, List.forall_mem_cons.2 ⟨?_, ?_⟩⟩
      · exact .array (List.forall_mem_nil _)
      · exact List.forall_mem_singleton.2 (.object (List.forall_mem_nil _))
    · exact List.forall_mem_singleton.2 (.string _)
  have hdepth : escapedKeys.depth ≤ 127 := by decide
  obtain ⟨⟨hread, -⟩, -⟩ :=
    read_printed hkeys hints hdepth (List.mem_cons_of_mem _ List.mem_cons_self)
  obtain ⟨-, hsorted, hequal⟩ := read_printed hkeys hints hdepth List.mem_cons_self
  exact ⟨rfl, hkeys, hints, hdepth, hread, _, hsorted, hequal⟩

end PathQuery.Value
