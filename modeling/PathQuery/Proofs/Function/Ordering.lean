import PathQuery.Proofs.Eval.Compositional
import PathQuery.Proofs.Function.Errors
import PathQuery.Proofs.Function.Stability

namespace PathQuery

open Eval

def Value.Uniform (vs : List Value) : Prop :=
  (∀ v ∈ vs, ∃ s, v = .string s) ∨ ∀ v ∈ vs, ∃ n, v = .int n

namespace Keyed

section Kinds

variable {ks : List Keyed} {f : Builtin} {run : Reference} {items keys : List Value}

def intRank : Value → Int64
  | .int n => n
  | _ => 0

def textRank (v : Value) : String := v.string?.getD ""

theorem rankedBy_textRank (h : ∀ k ∈ ks, ∃ s, k.key = .string s) : RankedBy textRank ks := by
  intro k hk l hl
  obtain ⟨s, hs⟩ := h k hk
  obtain ⟨t, ht⟩ := h l hl
  rw [hs, ht]
  rfl

theorem rankedBy_intRank (h : ∀ k ∈ ks, ∃ n, k.key = .int n) : RankedBy intRank ks := by
  intro k hk l hl
  obtain ⟨m, hm⟩ := h k hk
  obtain ⟨n, hn⟩ := h l hl
  rw [hm, hn]
  rfl

/-- The errors of a function that orders items by keys: one of the evaluation of a key, or one about
the keys, which names the function. -/
inductive KeyFault : (Builtin → EvalError) → Prop
  | evaluation (x : EvalError) : KeyFault fun _ ↦ x
  | badKey (got : Kind) : KeyFault fun f ↦ .badKey f got
  | mixedKeys (first got : Kind) : KeyFault fun f ↦ .mixedKeys f first got

theorem checkKey_alike (first : Option Kind) (key : Value) :
    (∀ f, checkKey f first key = .ok ()) ∨
      ∃ fault, KeyFault fault ∧ ∀ f, checkKey f first key = .error (fault f) := by
  by_cases hkind : (!key.isNumber && !key.isString) = true
  · refine .inr ⟨_, .badKey key.kind, fun f ↦ ?_⟩
    rw [checkKey.eq_def, if_pos hkind]
  · cases first with
    | none =>
      refine .inl fun f ↦ ?_
      rw [checkKey.eq_def, if_neg hkind]
    | some kind =>
      by_cases hfirst : kind = key.kind
      · refine .inl fun f ↦ ?_
        rw [checkKey.eq_def, if_neg hkind]
        exact if_pos hfirst
      · refine .inr ⟨_, .mixedKeys kind key.kind, fun f ↦ ?_⟩
        rw [checkKey.eq_def, if_neg hkind]
        exact if_neg hfirst

theorem checkKey_of_kind {first : Option Kind} {key : Value}
    (hkey : key.kind = .number ∨ key.kind = .string) (hfirst : ∀ k, first = some k → k = key.kind) :
    checkKey f first key = .ok () := by
  have hadmitted : ¬ (!key.isNumber && !key.isString) = true := by
    cases key with
    | int | float | string => simp [Value.isNumber, Value.isString]
    | _ => simp [Value.kind] at hkey
  rw [checkKey.eq_def, if_neg hadmitted]
  cases first with
  | none => rfl
  | some k => exact if_pos (hfirst k rfl)

/-- Whichever function asks for the keys, it gets the same ones, or an error that differs in the
name of the function at most. -/
theorem ofItems_alike (run : Reference) (first : Option Kind) (items : List Value) :
    (∃ ks, ∀ f, ofItems f run first items = .ok ks) ∨
      ∃ fault, KeyFault fault ∧ ∀ f, ofItems f run first items = .error (fault f) := by
  induction items generalizing first with
  | nil => exact .inl ⟨[], fun _ ↦ rfl⟩
  | cons item items ih =>
    simp only [ofItems]
    cases run item with
    | error x => exact .inr ⟨_, .evaluation x, fun _ ↦ rfl⟩
    | ok key =>
      obtain hkey | ⟨fault, hfault, hkey⟩ := checkKey_alike first key
      · obtain ⟨ks, hks⟩ | ⟨fault, hfault, hks⟩ := ih (some (first.getD key.kind))
        · refine .inl ⟨⟨key, item⟩ :: ks, fun f ↦ ?_⟩
          change (checkKey f first key >>= _) = _
          rw [hkey f, hks f]
          rfl
        · refine .inr ⟨fault, hfault, fun f ↦ ?_⟩
          change (checkKey f first key >>= _) = _
          rw [hkey f, hks f]
          rfl
      · refine .inr ⟨fault, hfault, fun f ↦ ?_⟩
        change (checkKey f first key >>= _) = _
        rw [hkey f]
        rfl

theorem mapM_of_ofItems {first : Option Kind} (h : ofItems f run first items = .ok ks) :
    ks.map item = items ∧ items.mapM run = .ok (ks.map key) := by
  induction items generalizing first ks with
  | nil =>
    cases h
    exact ⟨rfl, rfl⟩
  | cons v items ih =>
    rw [ofItems] at h
    obtain ⟨key, hkey, h⟩ := Eval.bind_eq_ok.1 h
    obtain ⟨-, -, h⟩ := Eval.bind_eq_ok.1 h
    obtain ⟨rest, hrest, h⟩ := Eval.bind_eq_ok.1 h
    cases h
    obtain ⟨hitems, hkeys⟩ := ih hrest
    refine ⟨congrArg (v :: ·) hitems, ?_⟩
    rw [List.mapM_cons, hkey, hkeys]
    rfl

/-- Keys of one kind, that of numbers or that of strings, are let through. -/
theorem ofItems_of_mapM {kind : Kind} (hkind : kind = .number ∨ kind = .string)
    {first : Option Kind} (hfirst : ∀ k, first = some k → k = kind)
    (hkeys : ∀ k ∈ keys, k.kind = kind) (h : items.mapM run = .ok keys) :
    ∃ ks, ofItems f run first items = .ok ks := by
  induction items generalizing first keys with
  | nil => exact ⟨[], rfl⟩
  | cons v items ih =>
    rw [List.mapM_cons] at h
    obtain ⟨key, hkey, h⟩ := Eval.bind_eq_ok.1 h
    obtain ⟨rest, hrest, h⟩ := Eval.bind_eq_ok.1 h
    cases h
    obtain ⟨hkeykind, hrestkind⟩ := List.forall_mem_cons.1 hkeys
    have hcheck : checkKey f first key = .ok () :=
      checkKey_of_kind (hkeykind ▸ hkind) fun k hk ↦ (hfirst k hk).trans hkeykind.symm
    have hnext : ∀ k, some (first.getD key.kind) = some k → k = kind := by
      intro k hk
      cases first with
      | none => exact (Option.some.inj hk).symm.trans hkeykind
      | some k' => exact (Option.some.inj hk).symm.trans (hfirst k' rfl)
    obtain ⟨ks, hks⟩ := ih hnext hrestkind hrest
    refine ⟨⟨key, v⟩ :: ks, ?_⟩
    rw [ofItems, hkey]
    change (checkKey f first key >>= _) = _
    rw [hcheck, hks]
    rfl

end Kinds

theorem ordered_of_uniform {ks : List Keyed} (h : Value.Uniform (ks.map key)) :
    StablySorted ks (ks.mergeSort notAfter) ∧ extreme .lt ks = (sort ks).head?.getD .null ∧
      (ks = [] ∧ extreme .gt ks = .null ∨ ∃ k, FirstIn .gt ks k ∧ extreme .gt ks = k.item) := by
  obtain hstrings | hints := h
  · exact ordered_of_rankedBy (rankedBy_textRank fun k hk ↦ hstrings k.key (List.mem_map_of_mem hk))
  · exact ordered_of_rankedBy (rankedBy_intRank fun k hk ↦ hints k.key (List.mem_map_of_mem hk))

theorem ofItems_of_uniform {f : Builtin} {run : Reference} {items keys : List Value}
    (hkeys : Value.Uniform keys) (h : items.mapM run = .ok keys) :
    ∃ ks, ofItems f run none items = .ok ks := by
  obtain hstrings | hints := hkeys
  · refine ofItems_of_mapM (.inr rfl) nofun (fun k hk ↦ ?_) h
    obtain ⟨s, rfl⟩ := hstrings k hk
    rfl
  · refine ofItems_of_mapM (.inl rfl) nofun (fun k hk ↦ ?_) h
    obtain ⟨n, rfl⟩ := hints k hk
    rfl

theorem greatest_of_uniform {items : List Value} (h : Value.Uniform items) :
    extreme .gt (items.map ofItem) = (sort (items.map ofItem)).getLast?.getD .null := by
  have hitem : ∀ k ∈ items.map ofItem, k.key = k.item := List.forall_mem_map.2 fun _ _ ↦ rfl
  obtain hstrings | hints := h
  · have hks : ∀ k ∈ items.map ofItem, ∃ s, k.key = .string s := List.forall_mem_map.2 hstrings
    refine greatest_eq_getLast (rankedBy_textRank hks) hitem fun k hk l hl hrank ↦ ?_
    obtain ⟨s, hs⟩ := hks k hk
    obtain ⟨t, ht⟩ := hks l hl
    rw [hs, ht] at hrank ⊢
    exact congrArg Value.string hrank
  · have hks : ∀ k ∈ items.map ofItem, ∃ n, k.key = .int n := List.forall_mem_map.2 hints
    refine greatest_eq_getLast (rankedBy_intRank hks) hitem fun k hk l hl hrank ↦ ?_
    obtain ⟨m, hm⟩ := hks k hk
    obtain ⟨n, hn⟩ := hks l hl
    rw [hm, hn] at hrank ⊢
    exact congrArg Value.int hrank

theorem eq_map_ofItem {ks : List Keyed} (h : ks.map key = ks.map item) :
    ks = (ks.map item).map ofItem := by
  rw [List.map_map]
  refine (List.map_id ks).symm.trans (List.map_congr_left fun k hk ↦ ?_)
  change Keyed.mk k.key k.item = Keyed.mk k.item k.item
  rw [List.map_inj_left.1 h k hk]

end Keyed

namespace Builtin

theorem ofName?_name (f : Builtin) : ofName? f.name = some f := by cases f <;> rfl

variable (run : Reference) (items : List Value)

theorem call_sortBy : sortBy.call [.value (.array items), .reference run] =
    Keyed.ofItems sortBy run none items >>= fun ks ↦ .ok (.array (Keyed.sort ks)) := rfl

theorem call_minBy : minBy.call [.value (.array items), .reference run] =
    Keyed.ofItems minBy run none items >>= fun ks ↦ .ok (Keyed.extreme .lt ks) := rfl

theorem call_maxBy : maxBy.call [.value (.array items), .reference run] =
    Keyed.ofItems maxBy run none items >>= fun ks ↦ .ok (Keyed.extreme .gt ks) := rfl

variable {run items}

/-- An error that they meet with the keys, the three functions share. -/
theorem call_of_ofItems_error {fault : Builtin → EvalError}
    (h : ∀ f, Keyed.ofItems f run none items = .error (fault f)) {f : Builtin}
    (hf : f.ordersByKey = true) :
    f.call [.value (.array items), .reference run] = .error (fault f) := by
  cases f with
  | sortBy => rw [call_sortBy, h]; rfl
  | minBy => rw [call_minBy, h]; rfl
  | maxBy => rw [call_maxBy, h]; rfl
  | _ => cases hf

theorem accepts_of_uniform (h : Value.Uniform items) :
    sortable.any (·.accepts (.value (.array items))) = true := by
  obtain hstrings | hints := h
  · refine List.any_eq_true.2 ⟨.stringArray, by decide, List.all_eq_true.2 fun v hv ↦ ?_⟩
    obtain ⟨s, rfl⟩ := hstrings v hv
    rfl
  · refine List.any_eq_true.2 ⟨.numberArray, by decide, List.all_eq_true.2 fun v hv ↦ ?_⟩
    obtain ⟨n, rfl⟩ := hints v hv
    rfl

theorem call_of_uniform {f : Builtin} (hf : f.signature = .fixed [sortable])
    (h : Value.Uniform items) :
    f.call [.value (.array items)] = f.run ⟨[.value (.array items)]⟩ := by
  rw [call, hf, Signature.check_fixed_one (accepts_of_uniform h)]

/-- The functions that order items by keys, on items whose keys are of one kind: they share an error
of the evaluation of the keys, or the sorted items are stably sorted, the first of them is the least
one and the greatest one is the first that has a greatest key. -/
theorem calls_agree_of_keys
    (hkeys : ∀ keys, items.mapM run = .ok keys → Value.Uniform keys) :
    (∃ fault, Keyed.KeyFault fault ∧ (∃ err, items.mapM run = .error err) ∧
      ∀ f : Builtin, f.ordersByKey = true →
        f.call [.value (.array items), .reference run] = .error (fault f)) ∨
    ∃ ks sorted, ks.map Keyed.item = items ∧ items.mapM run = .ok (ks.map Keyed.key) ∧
      Keyed.StablySorted ks sorted ∧
      sortBy.call [.value (.array items), .reference run] = .ok (.array (sorted.map Keyed.item)) ∧
      minBy.call [.value (.array items), .reference run] =
        .ok ((sorted.map Keyed.item).head?.getD .null) ∧
      (ks = [] ∧ maxBy.call [.value (.array items), .reference run] = .ok .null ∨
        ∃ k, Keyed.FirstIn .gt ks k ∧
          maxBy.call [.value (.array items), .reference run] = .ok k.item) := by
  obtain ⟨ks, hks⟩ | ⟨fault, hfault, hks⟩ := Keyed.ofItems_alike run none items
  · obtain ⟨hitems, hmap⟩ := Keyed.mapM_of_ofItems (hks sortBy)
    obtain ⟨hsorted, hleast, hgreatest⟩ := Keyed.ordered_of_uniform (hkeys _ hmap)
    refine .inr ⟨ks, ks.mergeSort Keyed.notAfter, hitems, hmap, hsorted, ?_, ?_, ?_⟩
    · rw [call_sortBy, hks]
      rfl
    · rw [call_minBy, hks]
      exact congrArg Except.ok hleast
    · rw [call_maxBy, hks]
      refine hgreatest.imp (fun ⟨hnil, hnull⟩ ↦ ?_) fun ⟨k, hfirst, hk⟩ ↦ ?_
      · exact ⟨hnil, congrArg Except.ok hnull⟩
      · exact ⟨k, hfirst, congrArg Except.ok hk⟩
  · refine .inl ⟨fault, hfault, ?_, fun f ↦ call_of_ofItems_error hks⟩
    cases hmap : items.mapM run with
    | error err => exact ⟨err, rfl⟩
    | ok keys =>
      obtain ⟨ks, hok⟩ := Keyed.ofItems_of_uniform (hkeys keys hmap) hmap
      rw [hks sortBy] at hok
      cases hok

/-- Strings or integers are sorted as by themselves, and the least and the greatest of them are the
first and the last in order. -/
theorem calls_agree_of_items (hitems : Value.Uniform items) (hrun : items.mapM run = .ok items) :
    ∃ sorted, sort.call [.value (.array items)] = .ok (.array sorted) ∧
      sortBy.call [.value (.array items), .reference run] = .ok (.array sorted) ∧
      min.call [.value (.array items)] = .ok (sorted.head?.getD .null) ∧
      max.call [.value (.array items)] = .ok (sorted.getLast?.getD .null) := by
  obtain ⟨ks, hks⟩ := Keyed.ofItems_of_uniform (f := sortBy) hitems hrun
  obtain ⟨hitem, hmap⟩ := Keyed.mapM_of_ofItems hks
  have hkeys : ks.map Keyed.key = items := Except.ok.inj (hmap.symm.trans hrun)
  have hself := Keyed.eq_map_ofItem (hkeys.trans hitem.symm)
  rw [hitem] at hself
  subst hself
  have hleast := (Keyed.ordered_of_uniform (hkeys.symm ▸ hitems)).2.1
  refine ⟨Keyed.sort (items.map Keyed.ofItem), ?_, ?_, ?_, ?_⟩
  · rw [call_of_uniform rfl hitems]
    rfl
  · rw [call_sortBy, hks]
    rfl
  · rw [call_of_uniform rfl hitems]
    exact congrArg Except.ok hleast
  · rw [call_of_uniform rfl hitems]
    exact congrArg Except.ok (Keyed.greatest_of_uniform hitems)

end Builtin

namespace Expr

open Builtin Keyed

def itemsCall (f : Builtin) (x : Expr) : Expr := functionCall f.name [x]

def keyedCall (f : Builtin) (x e : Expr) : Expr := functionCall f.name [x, expressionRef e]

variable {N : Type} [DataNode N] {n : N} {x e : Expr} {v : Value} {items : List Value}

theorem evaluate_itemsCall (hx : x.evaluate n = .ok v) (f : Builtin) :
    (itemsCall f x).evaluate n = f.call [.value v] := by
  rw [itemsCall, evaluate_functionCall, evalArgs_cons_of_ok hx]
  change callByName f.name [.value v] = _
  rw [callByName, ofName?_name]

theorem evaluate_keyedCall (hx : x.evaluate n = .ok v) (f : Builtin) (e : Expr) :
    (keyedCall f x e).evaluate n = f.call [.value v, .reference e.evaluate] := by
  rw [keyedCall, evaluate_functionCall, evalArgs_cons_of_ok hx]
  change callByName f.name [.value v, .reference e.evaluate] = _
  rw [callByName, ofName?_name]

theorem mapM_currentNode (h : Value.Uniform items) :
    items.mapM currentNode.evaluate = .ok items := by
  have hself : ∀ v ∈ items, currentNode.evaluate v = .ok v := by
    intro v hv
    obtain hstrings | hints := h
    · obtain ⟨s, rfl⟩ := hstrings v hv
      rfl
    · obtain ⟨n, rfl⟩ := hints v hv
      rfl
  clear h
  induction items with
  | nil => rfl
  | cons v items ih =>
    obtain ⟨hv, hitems⟩ := List.forall_mem_cons.1 hself
    rw [List.mapM_cons, hv, ih hitems]
    rfl

/-- All that puts items in order agrees: by keys of one kind, the calls fail alike where a key
cannot be evaluated, and else the sorted array is stably sorted, its first element is the least one
and the greatest one is the first of those with a greatest key; strings and integers are sorted as
by themselves, and their extremes are the ends of the sorted array. -/
theorem evaluate_orderings (hx : x.evaluate n = .ok (.array items)) :
    ((∀ keys, items.mapM e.evaluate = .ok keys → Value.Uniform keys) →
      (∃ fault, KeyFault fault ∧ (∃ err, items.mapM e.evaluate = .error err) ∧
        ∀ f : Builtin, f.ordersByKey = true → (keyedCall f x e).evaluate n = .error (fault f)) ∨
      ∃ ks sorted, ks.map item = items ∧ items.mapM e.evaluate = .ok (ks.map key) ∧
        StablySorted ks sorted ∧
        (keyedCall sortBy x e).evaluate n = .ok (.array (sorted.map item)) ∧
        (keyedCall minBy x e).evaluate n = .ok ((sorted.map item).head?.getD .null) ∧
        (ks = [] ∧ (keyedCall maxBy x e).evaluate n = .ok .null ∨
          ∃ k, FirstIn .gt ks k ∧ (keyedCall maxBy x e).evaluate n = .ok k.item)) ∧
    (Value.Uniform items →
      ∃ sorted, (itemsCall Builtin.sort x).evaluate n = .ok (.array sorted) ∧
        (keyedCall sortBy x currentNode).evaluate n = .ok (.array sorted) ∧
        (itemsCall Builtin.min x).evaluate n = .ok (sorted.head?.getD .null) ∧
        (itemsCall Builtin.max x).evaluate n = .ok (sorted.getLast?.getD .null)) := by
  simp only [evaluate_keyedCall hx, evaluate_itemsCall hx]
  refine ⟨fun hkeys ↦ calls_agree_of_keys hkeys, fun hitems ↦ ?_⟩
  exact calls_agree_of_items hitems (mapM_currentNode hitems)

def fourTexts : List Value := [.string "bb", .string "a", .string "cc", .string "d"]

def textLength : Expr := functionCall "length" [currentNode]

theorem evaluate_orderings_of_lengths :
    currentNode.evaluate (Value.array fourTexts) = .ok (.array fourTexts) ∧
      fourTexts.mapM textLength.evaluate = .ok [.int 2, .int 1, .int 2, .int 1] ∧
      (∃ ks sorted, ks.map item = fourTexts ∧ ks.map key = [.int 2, .int 1, .int 2, .int 1] ∧
        StablySorted ks sorted ∧
        (keyedCall sortBy currentNode textLength).evaluate (Value.array fourTexts) =
          .ok (.array (sorted.map item)) ∧
        ∃ k, FirstIn .gt ks k ∧
          (keyedCall maxBy currentNode textLength).evaluate (Value.array fourTexts) =
            .ok k.item) ∧
      ∃ sorted,
        (itemsCall Builtin.sort currentNode).evaluate (Value.array fourTexts) =
          .ok (.array sorted) ∧
        (itemsCall Builtin.max currentNode).evaluate (Value.array fourTexts) =
          .ok (sorted.getLast?.getD .null) := by
  have hx : currentNode.evaluate (Value.array fourTexts) = .ok (.array fourTexts) := rfl
  have hmap : fourTexts.mapM textLength.evaluate = .ok [.int 2, .int 1, .int 2, .int 1] := rfl
  have huniform : Value.Uniform [.int 2, .int 1, .int 2, .int 1] := .inr (by simp)
  have htexts : Value.Uniform fourTexts := .inl (by simp [fourTexts])
  have hkeys : ∀ keys, fourTexts.mapM textLength.evaluate = .ok keys → Value.Uniform keys :=
    fun keys h ↦ Except.ok.inj (hmap.symm.trans h) ▸ huniform
  obtain ⟨hbykeys, hbyitems⟩ := evaluate_orderings (e := textLength) hx
  obtain ⟨sorted, hsort, -, -, hmax⟩ := hbyitems htexts
  refine ⟨hx, hmap, ?_, sorted, hsort, hmax⟩
  obtain ⟨fault, -, ⟨err, herr⟩, -⟩ | ⟨ks, sorted, hitem, hkey, hstable, hsort, -, hmax⟩ :=
    hbykeys hkeys
  · cases hmap.symm.trans herr
  · obtain ⟨rfl, -⟩ | hmax := hmax
    · cases hitem
    · exact ⟨ks, sorted, hitem, (Except.ok.inj (hmap.symm.trans hkey)).symm, hstable, hsort, hmax⟩

end Expr

end PathQuery
