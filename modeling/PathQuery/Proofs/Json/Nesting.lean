import PathQuery.Json.Reader

namespace PathQuery.Json

inductive Nests : Nat → Json → Prop
  | null (n : Nat) : Nests n null
  | bool (n : Nat) (b : Bool) : Nests n (bool b)
  | number (n : Nat) (k : JsonNumber) : Nests n (number k)
  | string (n : Nat) (s : String) : Nests n (string s)
  | array {n : Nat} {items : List Json} : (∀ j ∈ items, Nests n j) → Nests (n + 1) (array items)
  | object {n : Nat} {entries : List (String × Json)} :
      (∀ e ∈ entries, Nests n e.2) → Nests (n + 1) (object entries)

namespace Read

variable {α β : Type} {m : ReadM α} {P : α → Prop} {Q : β → Prop}

def Ensures (m : ReadM α) (P : α → Prop) : Prop := ∀ c a c', m c = .ok a c' → P a

namespace Ensures

theorem of_true (m : ReadM α) : Ensures m fun _ ↦ True := fun _ _ _ _ ↦ trivial

theorem pure {a : α} (h : P a) : Ensures (Pure.pure a) P := by
  intro c b c' hrun
  cases hrun
  exact h

theorem bind {f : α → ReadM β} (hm : Ensures m P) (hf : ∀ a, P a → Ensures (f a) Q) :
    Ensures (m >>= f) Q := by
  intro c b c' hrun
  change EStateM.bind m f c = _ at hrun
  rw [EStateM.bind] at hrun
  cases hm' : m c with
  | error e c₁ => rw [hm'] at hrun; cases hrun
  | ok a c₁ =>
    rw [hm'] at hrun
    exact hf a (hm c a c₁ hm') c₁ b c' hrun

theorem after {f : α → ReadM β} (hf : ∀ a, Ensures (f a) Q) : Ensures (m >>= f) Q :=
  bind (of_true m) fun a _ ↦ hf a

theorem map {g : α → β} (h : ∀ a, Q (g a)) : Ensures (g <$> m) Q := by
  intro c b c' hrun
  change EStateM.map g m c = _ at hrun
  rw [EStateM.map] at hrun
  cases hm : m c with
  | error e c₁ => rw [hm] at hrun; cases hrun
  | ok a c₁ =>
    rw [hm] at hrun
    cases hrun
    exact h a

theorem fail (fault : Fault) : Ensures (Read.fail fault) P := nofun

end Ensures

theorem ensures_laterElements {element : α → ReadM α} (h : ∀ a, P a → Ensures (element a) P)
    (n : Nat) {acc : α} (hacc : P acc) : Ensures (laterElements element n acc) P := by
  induction n generalizing acc with
  | zero => exact .fail _
  | succ n ih =>
    refine .after fun c ↦ ?_
    split
    · exact .fail _
    · exact .after fun _ ↦ .pure hacc
    · refine .after fun _ ↦ .after fun c ↦ ?_
      split
      · exact .fail _
      · exact .fail _
      · exact .bind (h acc hacc) fun a ha ↦ ih ha
    · exact .fail _

theorem ensures_elements {element : α → ReadM α} (h : ∀ a, P a → Ensures (element a) P)
    {acc : α} (hacc : P acc) : Ensures (elements element acc) P := by
  refine .after fun c ↦ ?_
  split
  · exact .fail _
  · exact .after fun _ ↦ .pure hacc
  · exact .bind (h acc hacc) fun a ha ↦ .after fun n ↦ ensures_laterElements h _ ha

theorem ensures_laterMembers {member : α → String → ReadM α}
    (h : ∀ a key, P a → Ensures (member a key) P) (n : Nat) {acc : α} (hacc : P acc) :
    Ensures (laterMembers member n acc) P := by
  induction n generalizing acc with
  | zero => exact .fail _
  | succ n ih =>
    refine .after fun c ↦ ?_
    split
    · exact .fail _
    · exact .after fun _ ↦ .pure hacc
    · refine .after fun _ ↦ .after fun c ↦ ?_
      split
      · exact .fail _
      · exact .after fun _ ↦ .after fun key ↦ .bind (h acc key hacc) fun a ha ↦ ih ha
      · exact .fail _
      · exact .fail _
    · exact .fail _

theorem ensures_members {member : α → String → ReadM α}
    (h : ∀ a key, P a → Ensures (member a key) P) {acc : α} (hacc : P acc) :
    Ensures (members member acc) P := by
  refine .after fun c ↦ ?_
  split
  · exact .fail _
  · exact .after fun _ ↦ .pure hacc
  · exact .after fun _ ↦ .after fun key ↦ .bind (h acc key hacc) fun a ha ↦
      .after fun n ↦ ensures_laterMembers h _ ha
  · exact .fail _

theorem ensures_valueWith {n : Nat} {part : Option (ReadM Json)}
    (h : ∀ m ∈ part, ∃ k, n = k + 1 ∧ Ensures m (Nests k)) :
    Ensures (valueWith part) (Nests n) := by
  refine .after fun c ↦ ?_
  split
  · exact .fail _
  · exact .after fun _ ↦ .after fun _ ↦ .pure (.null n)
  · exact .after fun _ ↦ .after fun _ ↦ .pure (.bool n true)
  · exact .after fun _ ↦ .after fun _ ↦ .pure (.bool n false)
  · exact .after fun _ ↦ .map (.number n)
  · exact .after fun _ ↦ .map (.string n)
  · split
    · exact .fail _
    · next m =>
      obtain ⟨k, rfl, hm⟩ := h m rfl
      refine .after fun _ ↦ .bind (P := fun items ↦ ∀ j ∈ items, Nests k j) ?_ fun items hitems ↦
        .pure (.array fun j hj ↦ hitems j (List.mem_reverse.1 hj))
      exact ensures_elements (fun items hitems ↦ .bind hm fun j hj ↦
        .pure (List.forall_mem_cons.2 ⟨hj, hitems⟩)) nofun
  · split
    · exact .fail _
    · next m =>
      obtain ⟨k, rfl, hm⟩ := h m rfl
      refine .after fun _ ↦ .bind (P := fun entries : List (String × Json) ↦
        ∀ e ∈ entries, Nests k e.2) ?_ fun entries hentries ↦ .pure (.object ?_)
      · refine ensures_members (P := fun entries : List (String × Json) ↦
          ∀ e ∈ entries, Nests k e.2) (fun entries key hentries ↦ ?_) (by simp)
        refine .after fun _ ↦ .bind hm fun j hj ↦ .pure ?_
        exact List.forall_mem_cons.2 ⟨hj, hentries⟩
      · intro e he
        exact hentries e (List.mem_reverse.1 he)
  · split
    · exact .map (.number n)
    · exact .fail _

/-- A document that is read nests as much as the reader allows. -/
theorem ensures_value (n : Nat) : Ensures (value n) (Nests n) := by
  induction n with
  | zero => exact ensures_valueWith nofun
  | succ n ih =>
    refine ensures_valueWith fun m hm ↦ ?_
    cases hm
    exact ⟨n, rfl, ih⟩

end Read

theorem nests_of_readChars {cs : List Char} {j : Json} (h : readChars cs = .ok j) :
    j.Nests Read.maxDepth := by
  rw [readChars, Read.run, EStateM.run] at h
  have hensures : Read.Ensures (do let a ← Read.value Read.maxDepth; Read.finish; pure a)
      (Nests Read.maxDepth) :=
    .bind (Read.ensures_value Read.maxDepth) fun a ha ↦ .after fun _ ↦ .pure ha
  split at h
  · next a c' hrun =>
    cases h
    exact hensures _ _ _ hrun
  · cases h

end PathQuery.Json
