import PathQuery.Proofs.Json.Nesting
import PathQuery.Proofs.Json.Reading
import PathQuery.Proofs.Value.Transfer
import PathQuery.Value.Printer

namespace PathQuery

open Json.Read

namespace Value

/-- No float anywhere in the value, at most `n` arrays and objects inside one another, and keys in
ascending order, as of a document. -/
inductive Canonical : Nat → Value → Prop
  | null (n : Nat) : Canonical n null
  | bool (n : Nat) (b : Bool) : Canonical n (bool b)
  | int (n : Nat) (i : Int64) : Canonical n (int i)
  | string (n : Nat) (s : String) : Canonical n (string s)
  | array {n : Nat} {items : List Value} :
      (∀ v ∈ items, Canonical n v) → Canonical (n + 1) (array items)
  | object {n : Nat} {entries : List (String × Value)} :
      Entries.Ascending entries → (∀ e ∈ entries, Canonical n e.2) →
      Canonical (n + 1) (object entries)

inductive FloatFree : Value → Prop
  | null : FloatFree null
  | bool (b : Bool) : FloatFree (bool b)
  | int (n : Int64) : FloatFree (int n)
  | string (s : String) : FloatFree (string s)
  | array {items : List Value} : (∀ v ∈ items, FloatFree v) → FloatFree (array items)
  | object {entries : List (String × Value)} :
      (∀ e ∈ entries, FloatFree e.2) → FloatFree (object entries)

theorem FloatFree.finite {v : Value} (h : v.FloatFree) : v.Finite := by
  induction h with
  | null => exact .null
  | bool b => exact .bool b
  | int n => exact .int n
  | string s => exact .string s
  | array _ ih => exact .array ih
  | object _ ih => exact .object ih

mutual

def inOrder : Value → Json
  | null => .null
  | bool b => .bool b
  | int n => .number (.ofInt64 n)
  | float x => if x.isFinite then .number (.float x) else .null
  | string s => .string s
  | array items => .array (inOrderItems items)
  | object entries => .object (inOrderEntries entries)
termination_by structural v => v

def inOrderItems : List Value → List Json
  | [] => []
  | v :: vs => inOrder v :: inOrderItems vs
termination_by structural vs => vs

def inOrderEntries : List (String × Value) → List (String × Json)
  | [] => []
  | (k, v) :: es => (k, inOrder v) :: inOrderEntries es
termination_by structural es => es

end

theorem inOrder_array (items : List Value) :
    (array items).inOrder = .array (items.map inOrder) := by
  rw [inOrder]
  congr 1
  induction items with
  | nil => rfl
  | cons v items ih => rw [inOrderItems, ih, List.map_cons]

theorem inOrder_object (entries : List (String × Value)) :
    (object entries).inOrder = .object (entries.map fun e ↦ (e.1, e.2.inOrder)) := by
  rw [inOrder]
  congr 1
  induction entries with
  | nil => rfl
  | cons e entries ih => rw [inOrderEntries, ih, List.map_cons]

def chars (pretty : Bool) (level : Nat) (v : Value) : List Char := (v.write pretty level).toList

def blank (pretty : Bool) (level : Nat) : List Char := (lineBreak pretty level).toList

def gap (pretty : Bool) : List Char := if pretty then [' '] else []

def elementChars (pretty : Bool) (level : Nat) (v : Value) : List Char :=
  blank pretty level ++ chars pretty level v

def entryChars (pretty : Bool) (level : Nat) (e : String × Value) : List Char :=
  blank pretty level ++ ((quoted e.1).toList ++ ':' :: (gap pretty ++ chars pretty level e.2))

def innerChars (pretty : Bool) (level : Nat) : List (List Char) → List Char
  | [] => []
  | text :: texts => text ++ (texts.flatMap (',' :: ·) ++ blank pretty level)

theorem isSpace_of_mem_blank {pretty : Bool} {level : Nat} {c : Char}
    (h : c ∈ blank pretty level) : isSpace c = true := by
  rw [blank, lineBreak] at h
  split at h
  · rw [String.toList_append] at h
    obtain h | h := List.mem_append.1 h
    · cases List.mem_singleton.1 h
      rfl
    · rw [String.toList_ofList] at h
      cases List.eq_of_mem_replicate h
      rfl
  · cases h

theorem isSpace_of_mem_gap {pretty : Bool} {c : Char} (h : c ∈ gap pretty) : isSpace c = true := by
  rw [gap] at h
  split at h
  · cases List.mem_singleton.1 h
    rfl
  · cases h

theorem writeItems_eq (pretty : Bool) (level : Nat) (items : List Value) :
    writeItems pretty level items = items.map fun v ↦ v.write pretty level := by
  induction items with
  | nil => rfl
  | cons v items ih => rw [writeItems, ih, List.map_cons]

theorem writeEntries_eq (pretty : Bool) (level : Nat) (entries : List (String × Value)) :
    writeEntries pretty level entries = entries.map fun e ↦
      quoted e.1 ++ (if pretty then ": " else ":") ++ e.2.write pretty level := by
  induction entries with
  | nil => rfl
  | cons e entries ih => rw [writeEntries, ih, List.map_cons]

theorem toList_enclosed (pretty : Bool) (level : Nat) (opening closing : String)
    (texts : List String) : (enclosed pretty level opening closing texts).toList =
      opening.toList ++ (innerChars pretty level
        (texts.map fun text ↦ blank pretty (level + 1) ++ text.toList) ++ closing.toList) := by
  cases texts with
  | nil => simp [enclosed, innerChars]
  | cons text texts =>
    simp only [enclosed, innerChars, blank, String.toList_append, String.toList_intercalate,
      List.map_cons, List.append_assoc]
    rw [show ",".toList = [','] from rfl, Text.intercalate_cons]
    simp [List.map_map, Function.comp_def]

theorem chars_array (pretty : Bool) (level : Nat) (items : List Value) :
    chars pretty level (array items) =
      '[' :: (innerChars pretty level (items.map (elementChars pretty (level + 1))) ++ [']']) := by
  rw [chars, write, toList_enclosed, writeItems_eq, List.map_map]
  rfl

theorem chars_object (pretty : Bool) (level : Nat) (entries : List (String × Value)) :
    chars pretty level (object entries) = '\x7b' ::
      (innerChars pretty level (entries.map (entryChars pretty (level + 1))) ++ ['\x7d']) := by
  rw [chars, write, toList_enclosed, writeEntries_eq, List.map_map]
  have hentry : ((fun text ↦ blank pretty (level + 1) ++ text.toList) ∘
      fun e : String × Value ↦ quoted e.1 ++ (if pretty then ": " else ":") ++
        e.2.write pretty (level + 1)) = entryChars pretty (level + 1) := by
    funext e
    cases pretty <;> simp [entryChars, chars, gap]
  rw [hentry]
  rfl

theorem chars_null (pretty : Bool) (level : Nat) :
    chars pretty level null = ['n', 'u', 'l', 'l'] := by
  rw [chars, write]
  rfl

theorem chars_bool (pretty : Bool) (level : Nat) (b : Bool) : chars pretty level (bool b) =
    if b then ['t', 'r', 'u', 'e'] else ['f', 'a', 'l', 's', 'e'] := by
  rw [chars, write]
  cases b <;> rfl

def StartsValue (cs : List Char) : Prop :=
  ∃ c rest, cs = c :: rest ∧ isSpace c = false ∧ c ≠ ']'

theorem startsValue_digits (n : Nat) : StartsValue (Number.digits n) := by
  cases hds : Number.digits n with
  | nil => exact absurd hds Nat.toDigits_ne_nil
  | cons d ds =>
    have hd := Number.isDigit_of_mem (hds ▸ List.mem_cons_self)
    refine ⟨d, ds, rfl, ?_, ?_⟩
    · by_contra hspace
      simp only [isSpace, Bool.not_eq_false, Bool.or_eq_true, beq_iff_eq] at hspace
      obtain ((rfl | rfl) | rfl) | rfl := hspace <;> cases hd
    · rintro rfl
      cases hd

theorem FloatFree.startsValue {v : Value} (h : v.FloatFree) (pretty : Bool) (level : Nat) :
    StartsValue (chars pretty level v) := by
  cases h with
  | null => exact ⟨_, _, chars_null pretty level, rfl, by decide⟩
  | bool b =>
    cases b with
    | true => exact ⟨_, _, chars_bool pretty level true, rfl, by decide⟩
    | false => exact ⟨_, _, chars_bool pretty level false, rfl, by decide⟩
  | int i =>
    obtain h | h := Int.lt_or_le i.toInt 0
    · exact ⟨'-', _, Number.toList_toString_of_neg h, rfl, by decide⟩
    · rw [chars, write, Number.toList_toString_of_nonneg h]
      exact startsValue_digits _
  | string s =>
    exact ⟨'"', _, String.toList_ofList, rfl, by decide⟩
  | array => exact ⟨_, _, chars_array .., rfl, by decide⟩
  | object => exact ⟨_, _, chars_object .., rfl, by decide⟩

theorem endsNumber_cons {c : Char} (hc : Number.isDigit c = false ∧ c ≠ '.' ∧ c ≠ 'e' ∧ c ≠ 'E')
    (rest : List Char) : EndsNumber (c :: rest) := by
  rintro d hd
  cases hd
  exact hc

theorem endsNumber_space {space rest : List Char} (hspace : ∀ c ∈ space, isSpace c = true)
    (hrest : EndsNumber rest) : EndsNumber (space ++ rest) := by
  cases space with
  | nil => exact hrest
  | cons c space =>
    have hc := hspace c List.mem_cons_self
    simp only [isSpace, Bool.or_eq_true, beq_iff_eq] at hc
    obtain ((rfl | rfl) | rfl) | rfl := hc <;> exact endsNumber_cons (by decide) _

/-- The part that reads the elements of an array reads this one from its text, behind white space
as well. -/
def Rereads (part : Json.ReadM Json) (text : List Char) (document : Json) : Prop :=
  ∀ space rest, (∀ c ∈ space, isSpace c = true) → EndsNumber rest →
    Gives part (space ++ (text ++ rest)) document rest

theorem Rereads.gives {part : Json.ReadM Json} {text rest : List Char} {document : Json}
    (h : Rereads part text document) (hrest : EndsNumber rest) :
    Gives part (text ++ rest) document rest :=
  h [] rest (List.forall_mem_nil _) hrest

theorem endsNumber_later (texts : List (List Char)) (pretty : Bool) (level : Nat) (close : Char)
    (hclose : Number.isDigit close = false ∧ close ≠ '.' ∧ close ≠ 'e' ∧ close ≠ 'E')
    (rest : List Char) :
    EndsNumber (texts.flatMap (',' :: ·) ++ (blank pretty level ++ close :: rest)) := by
  cases texts with
  | nil =>
    rw [List.flatMap_nil, List.nil_append]
    exact endsNumber_space (fun c ↦ isSpace_of_mem_blank) (endsNumber_cons hclose rest)
  | cons => exact endsNumber_cons (by decide) _

variable {part : Json.ReadM Json} {vs : List Value} {pretty : Bool} {level : Nat}

theorem gives_laterElements
    (hpart : ∀ v ∈ vs, Rereads part (chars pretty (level + 1) v) v.inOrder)
    (hstart : ∀ v ∈ vs, StartsValue (chars pretty (level + 1) v)) {n : Nat} (hn : vs.length < n)
    (acc : List Json) (rest : List Char) :
    Gives (laterElements (fun items ↦ return (← part) :: items) n acc)
      ((vs.map (elementChars pretty (level + 1))).flatMap (',' :: ·) ++
        (blank pretty level ++ ']' :: rest))
      ((vs.map inOrder).reverse ++ acc) rest := by
  induction vs generalizing n acc with
  | nil =>
    cases n with
    | zero => simp at hn
    | succ n => exact .peekToken_append (fun c ↦ isSpace_of_mem_blank) rfl (.skip .pure)
  | cons v vs ih =>
    cases n with
    | zero => simp at hn
    | succ n =>
      obtain ⟨c, cs, hcs, hspace, hclose⟩ := hstart v List.mem_cons_self
      have hv := (hpart v List.mem_cons_self).gives (endsNumber_later
        (vs.map (elementChars pretty (level + 1))) pretty level ']' (by decide) rest)
      have ih := ih (fun w hw ↦ hpart w (List.mem_cons_of_mem _ hw))
        (fun w hw ↦ hstart w (List.mem_cons_of_mem _ hw)) (Nat.lt_of_succ_lt_succ hn)
        (v.inOrder :: acc)
      rw [List.map_cons, List.flatMap_cons, List.cons_append, List.cons_append, List.append_assoc,
        elementChars, List.append_assoc, List.map_cons, List.reverse_cons, List.append_assoc]
      refine .peekToken rfl (.skip ?_)
      rw [hcs] at hv ⊢
      refine .peekToken_append (fun c ↦ isSpace_of_mem_blank) hspace ?_
      split
      · next heq => cases heq
      · next heq => exact absurd (Option.some.inj heq) hclose
      · exact .bind (.bind hv .pure) ih

/-- The elements of an array are read from their texts with commas between them. -/
theorem gives_elements (hpart : ∀ v ∈ vs, Rereads part (chars pretty (level + 1) v) v.inOrder)
    (hstart : ∀ v ∈ vs, StartsValue (chars pretty (level + 1) v)) (rest : List Char) :
    Gives (elements (fun items ↦ return (← part) :: items) [])
      (innerChars pretty level (vs.map (elementChars pretty (level + 1))) ++ ']' :: rest)
      (vs.map inOrder).reverse rest := by
  cases vs with
  | nil => exact .peekToken rfl (.skip .pure)
  | cons v vs =>
    obtain ⟨c, cs, hcs, hspace, hclose⟩ := hstart v List.mem_cons_self
    have hv := (hpart v List.mem_cons_self).gives (endsNumber_later
      (vs.map (elementChars pretty (level + 1))) pretty level ']' (by decide) rest)
    rw [List.map_cons, innerChars, List.append_assoc, List.append_assoc,
      elementChars, List.append_assoc, List.map_cons, List.reverse_cons]
    rw [hcs] at hv ⊢
    refine .peekToken_append (fun c ↦ isSpace_of_mem_blank) hspace ?_
    split
    · next heq => cases heq
    · next heq => exact absurd (Option.some.inj heq) hclose
    · refine .bind (.bind hv .pure) (.remaining ?_)
      refine gives_laterElements (fun w hw ↦ hpart w (List.mem_cons_of_mem _ hw))
        (fun w hw ↦ hstart w (List.mem_cons_of_mem _ hw)) ?_ [v.inOrder] rest
      have hle := Text.length_le_flatMap_cons (vs.map (elementChars pretty (level + 1)))
      rw [List.length_map] at hle
      rw [List.length_append]
      omega

variable {entries : List (String × Value)}

theorem entryChars_eq (pretty : Bool) (level : Nat) (e : String × Value) :
    entryChars pretty level e = blank pretty level ++ '"' ::
      (Text.escape Text.valueEscape e.1.toList ++
        '"' :: ':' :: (gap pretty ++ chars pretty level e.2)) := by
  rw [entryChars, quoted, Text.quote, String.toList_ofList, List.cons_append, List.append_assoc]
  rfl

theorem gives_member {e : String × Value} (he : Rereads part (chars pretty level e.2) e.2.inOrder)
    (acc : List (String × Json)) {rest : List Char} (hrest : EndsNumber rest) :
    Gives (do colon; return (e.1, ← part) :: acc)
      (':' :: (gap pretty ++ chars pretty level e.2) ++ rest) ((e.1, e.2.inOrder) :: acc) rest := by
  rw [List.cons_append, List.append_assoc]
  exact .bind (gives_colon _) (.bind (he _ rest (fun c ↦ isSpace_of_mem_gap) hrest) .pure)

theorem gives_laterMembers
    (hpart : ∀ e ∈ entries, Rereads part (chars pretty (level + 1) e.2) e.2.inOrder)
    {n : Nat} (hn : entries.length < n) (acc : List (String × Json)) (rest : List Char) :
    Gives (laterMembers (fun entries key ↦ do colon; return (key, ← part) :: entries) n acc)
      ((entries.map (entryChars pretty (level + 1))).flatMap (',' :: ·) ++
        (blank pretty level ++ '\x7d' :: rest))
      ((entries.map fun e ↦ (e.1, e.2.inOrder)).reverse ++ acc) rest := by
  induction entries generalizing n acc with
  | nil =>
    cases n with
    | zero => simp at hn
    | succ n => exact .peekToken_append (fun c ↦ isSpace_of_mem_blank) rfl (.skip .pure)
  | cons e entries ih =>
    cases n with
    | zero => simp at hn
    | succ n =>
      have ih := ih (fun w hw ↦ hpart w (List.mem_cons_of_mem _ hw)) (Nat.lt_of_succ_lt_succ hn)
        ((e.1, e.2.inOrder) :: acc)
      have hmember := gives_member (hpart e List.mem_cons_self) acc (endsNumber_later
        (entries.map (entryChars pretty (level + 1))) pretty level '\x7d' (by decide) rest)
      rw [List.map_cons, List.flatMap_cons, List.cons_append, List.cons_append, List.append_assoc,
        List.map_cons, List.reverse_cons, List.append_assoc, entryChars_eq, List.append_assoc,
        List.cons_append]
      refine .peekToken rfl (.skip ?_)
      refine .peekToken_append (fun c ↦ isSpace_of_mem_blank) rfl (.skip ?_)
      rw [List.append_assoc]
      exact .bind (gives_stringBody unescapes_valueEscape e.1 _) (.bind hmember ih)

/-- The members of an object are read from their texts with commas between them. -/
theorem gives_members
    (hpart : ∀ e ∈ entries, Rereads part (chars pretty (level + 1) e.2) e.2.inOrder)
    (rest : List Char) :
    Gives (members (fun entries key ↦ do colon; return (key, ← part) :: entries) [])
      (innerChars pretty level (entries.map (entryChars pretty (level + 1))) ++ '\x7d' :: rest)
      (entries.map fun e ↦ (e.1, e.2.inOrder)).reverse rest := by
  cases entries with
  | nil => exact .peekToken rfl (.skip .pure)
  | cons e entries =>
    have hmember := gives_member (hpart e List.mem_cons_self) [] (endsNumber_later
      (entries.map (entryChars pretty (level + 1))) pretty level '\x7d' (by decide) rest)
    rw [List.map_cons, innerChars, List.append_assoc, List.append_assoc,
      List.map_cons, List.reverse_cons, entryChars_eq, List.append_assoc, List.cons_append]
    refine .peekToken_append (fun c ↦ isSpace_of_mem_blank) rfl (.skip ?_)
    rw [List.append_assoc]
    refine .bind (gives_stringBody unescapes_valueEscape e.1 _) (.bind hmember (.remaining ?_))
    refine gives_laterMembers (fun w hw ↦ hpart w (List.mem_cons_of_mem _ hw)) ?_
      [(e.1, e.2.inOrder)] rest
    have hle := Text.length_le_flatMap_cons (entries.map (entryChars pretty (level + 1)))
    rw [List.length_map] at hle
    rw [List.length_append]
    omega

theorem value_eq (n : Nat) : ∃ part, value n = valueWith part := by
  cases n with
  | zero => exact ⟨_, rfl⟩
  | succ n => exact ⟨_, rfl⟩

theorem rereads_null (n : Nat) (pretty : Bool) (level : Nat) :
    Rereads (value n) (chars pretty level null) .null := by
  intro space rest hspace _
  obtain ⟨part, hpart⟩ := value_eq n
  rw [hpart, chars_null]
  exact .peekToken_append hspace rfl (.skip (.bind (fun offset ↦ ⟨_, rfl⟩) .pure))

theorem rereads_bool (n : Nat) (pretty : Bool) (level : Nat) (b : Bool) :
    Rereads (value n) (chars pretty level (bool b)) (.bool b) := by
  intro space rest hspace _
  obtain ⟨part, hpart⟩ := value_eq n
  rw [hpart, chars_bool]
  cases b with
  | true => exact .peekToken_append hspace rfl (.skip (.bind (fun offset ↦ ⟨_, rfl⟩) .pure))
  | false => exact .peekToken_append hspace rfl (.skip (.bind (fun offset ↦ ⟨_, rfl⟩) .pure))

theorem rereads_string (n : Nat) (pretty : Bool) (level : Nat) (t : String) :
    Rereads (value n) (chars pretty level (string t)) (.string t) := by
  intro space rest hspace _
  obtain ⟨part, hpart⟩ := value_eq n
  rw [hpart, chars, write, quoted, Text.quote, String.toList_ofList, List.cons_append,
    List.append_assoc]
  exact .peekToken_append hspace rfl
    (.skip (.map _ (gives_stringBody unescapes_valueEscape t rest)))

theorem rereads_int (n : Nat) (pretty : Bool) (level : Nat) (i : Int64) :
    Rereads (value n) (chars pretty level (int i)) (.number (.ofInt64 i)) := by
  intro space rest hblank hrest
  obtain ⟨part, hpart⟩ := value_eq n
  rw [hpart, chars, write]
  obtain h | h := Int.lt_or_le i.toInt 0
  · have hle := i.le_toInt
    have hnumber := gives_number true (n := (-i.toInt).toNat) (by omega) hrest
    have hword : 0 < (-i.toInt).toNat ∧ (-i.toInt).toNat ≤ Nat.pow 2 63 := by
      rw [Nat.pow_eq]
      omega
    have hinteger : integer true (-i.toInt).toNat = .ofInt64 i := by
      rw [integer, JsonNumber.ofInt64, if_neg (by simp), if_pos hword,
        if_neg (Int.not_le.2 h), Int.toNat_of_nonneg (by omega), Int.neg_neg, Int64.ofInt_toInt]
    rw [Number.toList_toString_of_neg h, List.cons_append, ← hinteger]
    exact .peekToken_append hblank rfl (.skip (.map _ hnumber))
  · have hlt := i.toInt_lt
    have hnumber := gives_number false (n := i.toInt.toNat) (by omega) hrest
    have hinteger : integer false i.toInt.toNat = .ofInt64 i := by
      rw [integer, JsonNumber.ofInt64, if_pos (by simp), if_pos h]
    obtain ⟨c, cs, hcs, hspace, -⟩ := startsValue_digits i.toInt.toNat
    have hdigit := Number.isDigit_of_mem (show c ∈ Number.digits _ from hcs ▸ List.mem_cons_self)
    rw [Number.toList_toString_of_nonneg h, ← hinteger]
    rw [hcs] at hnumber ⊢
    refine .peekToken_append hblank hspace ?_
    split
    case h_9 heq =>
      cases heq
      rw [if_pos hdigit]
      exact .map _ hnumber
    case h_1 heq => cases heq
    all_goals
      next heq =>
      cases heq
      cases hdigit

/-- A value is read from its text as its document, whose entries stand as the value has them. The
depth that is allowed shrinks with the value that is left. -/
theorem FloatFree.rereads {v : Value} (h : v.FloatFree) {n : Nat} (hn : v.depth ≤ n)
    (pretty : Bool) (level : Nat) : Rereads (value n) (chars pretty level v) v.inOrder := by
  induction h generalizing n level with
  | null => exact rereads_null n pretty level
  | bool b => exact rereads_bool n pretty level b
  | int i => exact rereads_int n pretty level i
  | string t => exact rereads_string n pretty level t
  | @array items hitems ih =>
    obtain ⟨n, rfl⟩ := Nat.exists_eq_add_one.2 (Nat.lt_of_lt_of_le (Nat.succ_pos _) hn)
    have hpart (v : Value) (hv : v ∈ items) :
        Rereads (value n) (chars pretty (level + 1) v) v.inOrder :=
      ih v hv (depthItems_le_iff.1 (Nat.le_of_succ_le_succ hn) v hv) (level + 1)
    intro space rest hspace _
    rw [chars_array, inOrder_array, List.cons_append, List.append_assoc]
    refine .peekToken_append hspace rfl (.skip (.bind
      (gives_elements hpart (fun v hv ↦ (hitems v hv).startsValue _ _) rest) ?_))
    rw [List.reverse_reverse]
    exact .pure
  | @object entries _ ih =>
    obtain ⟨n, rfl⟩ := Nat.exists_eq_add_one.2 (Nat.lt_of_lt_of_le (Nat.succ_pos _) hn)
    have hpart (e : String × Value) (he : e ∈ entries) :
        Rereads (value n) (chars pretty (level + 1) e.2) e.2.inOrder :=
      ih e he (depthEntries_le_iff.1 (Nat.le_of_succ_le_succ hn) e he) (level + 1)
    intro space rest hspace _
    rw [chars_object, inOrder_object, List.cons_append, List.append_assoc]
    refine .peekToken_append hspace rfl (.skip (.bind (gives_members hpart rest) ?_))
    rw [List.reverse_reverse]
    exact .pure

/-- Whether lines are broken makes no difference to what the text of a value is read as. -/
theorem FloatFree.read_write {v : Value} (h : v.FloatFree) (hdepth : v.depth ≤ maxDepth)
    (pretty : Bool) : Json.read (v.write pretty 0) = .ok v.inOrder := by
  have hread := (h.rereads hdepth pretty 0 [] [] (List.forall_mem_nil _) nofun).run
  rwa [List.append_nil] at hread

theorem Canonical.floatFree {n : Nat} {v : Value} (h : v.Canonical n) : v.FloatFree := by
  induction h with
  | null => exact .null
  | bool _ b => exact .bool b
  | int _ i => exact .int i
  | string _ s => exact .string s
  | array _ ih => exact .array ih
  | object _ _ ih => exact .object ih

theorem Canonical.depth_le {n : Nat} {v : Value} (h : v.Canonical n) : v.depth ≤ n := by
  induction h with
  | array _ ih => exact Nat.succ_le_succ (depthItems_le_iff.2 ih)
  | object _ _ ih => exact Nat.succ_le_succ (depthEntries_le_iff.2 ih)
  | _ => exact Nat.zero_le _

theorem Canonical.inOrder_eq {n : Nat} {v : Value} (h : v.Canonical n) : v.inOrder = v.toJson := by
  induction h with
  | null | bool | int | string => rfl
  | array _ ih =>
    rw [inOrder_array, toJson_array]
    exact congrArg Json.array (List.map_congr_left ih)
  | object horder _ ih =>
    rw [inOrder_object, toJson_object, horder.sortPairs_eq]
    exact congrArg Json.object (List.map_congr_left fun e he ↦ congrArg (Prod.mk e.1) (ih e he))

theorem Canonical.throughJson_eq {n : Nat} {v : Value} (h : v.Canonical n) : v.throughJson = v := by
  induction h with
  | null | bool | string => rfl
  | int n i => exact throughJson_int i
  | array _ ih =>
    rw [throughJson_array]
    exact congrArg Value.array ((List.map_congr_left ih).trans (List.map_id _))
  | object horder _ ih =>
    rw [throughJson_object, horder.sortPairs_eq]
    exact congrArg Value.object ((List.map_congr_left fun e he ↦
      congrArg (Prod.mk e.1) (ih e he)).trans (List.map_id _))

theorem sortedItems_eq (items : List Json) : Json.sortedItems items = items.map Json.sorted := by
  induction items with
  | nil => rfl
  | cons j items ih => rw [Json.sortedItems, ih, List.map_cons]

theorem sortedEntries_eq (entries : List (String × Json)) :
    Json.sortedEntries entries = entries.map fun e ↦ (e.1, e.2.sorted) := by
  induction entries with
  | nil => rfl
  | cons e entries ih => rw [Json.sortedEntries, ih, List.map_cons]

theorem sorted_toJson (v : Value) : v.toJson.sorted = v.toJson := by
  induction v using Value.induction with
  | null | bool | int | string => rfl
  | float x =>
    rw [toJson]
    split <;> rfl
  | array items ih =>
    rw [toJson_array, Json.sorted, sortedItems_eq, List.map_map]
    exact congrArg Json.array (List.map_congr_left ih)
  | object entries ih =>
    have horder := Entries.ascending_sortPairs entries
    rw [toJson_object, Json.sorted, sortedEntries_eq, List.map_map]
    have hmap : ((Entries.sortPairs entries).map
        ((fun e : String × Json ↦ (e.1, e.2.sorted)) ∘
          fun e : String × Value ↦ (e.1, e.2.toJson))) =
        (Entries.sortPairs entries).map fun e ↦ (e.1, e.2.toJson) :=
      List.map_congr_left fun e he ↦
        congrArg (Prod.mk e.1) (ih e (Entries.mem_of_mem_sortPairs he))
    rw [hmap, (Entries.ascending_map horder).sortPairs_eq]

/-- What is read from a document without floats is canonical. -/
theorem canonical_ofJson {n : Nat} {d : Json} (hd : d.Nests n) (h : (ofJson d.sorted).FloatFree) :
    (ofJson d.sorted).Canonical n := by
  induction hd with
  | null n => exact .null n
  | bool n b => exact .bool n b
  | string n s => exact .string n s
  | number n k =>
    change (ofNumber k).FloatFree at h
    change (ofNumber k).Canonical n
    rw [ofNumber] at h ⊢
    cases hk : k.int64? with
    | some i => exact .int n i
    | none => rw [hk] at h; cases h
  | array _ ih =>
    rw [Json.sorted, sortedItems_eq, ofJson, ofJsonItems_eq] at h ⊢
    rw [List.map_map] at h ⊢
    cases h with
    | array h =>
      exact .array (List.forall_mem_map.2 fun j hj ↦ ih j hj (List.forall_mem_map.1 h j hj))
  | @object n entries _ ih =>
    have horder : Entries.Ascending (Entries.sortPairs (entries.map fun e ↦ (e.1, e.2.sorted))) :=
      Entries.ascending_sortPairs _
    rw [Json.sorted, sortedEntries_eq, ofJson, ofJsonEntries_eq, ofPairs,
      Entries.ofPairs_of_nodup (Entries.ascending_map horder).nodup] at h ⊢
    cases h with
    | object h =>
      refine .object (Entries.ascending_map horder) (List.forall_mem_map.2 fun e he ↦ ?_)
      obtain ⟨e', he', rfl⟩ := List.mem_map.1 (Entries.mem_of_mem_sortPairs he)
      exact ih e' he' (List.forall_mem_map.1 h _ he)

/-- The text of a canonical value is read as a document that makes the value. -/
theorem Canonical.readChars_compact {v : Value} (h : v.Canonical maxDepth) :
    Json.readChars v.compact.toList = .ok v.toJson := by
  rw [← h.inOrder_eq]
  exact h.floatFree.read_write h.depth_le false

end Value

end PathQuery
