import PathQuery.Proofs.Parser.Reading

namespace PathQuery

structure TokenCursor.Shows (c : TokenCursor) (ts : List TokenKind) : Prop where
  kinds : (c.current :: c.following).map Token.kind = ts ++ [.endOfInput]
  end_notMem : .endOfInput ∉ ts

namespace TokenCursor.Shows

variable {c : TokenCursor} {k : TokenKind} {ts : List TokenKind}

theorem current_kind (h : c.Shows ts) : c.current.kind = ts.headD .endOfInput := by
  cases ts with
  | nil => exact (List.cons.inj h.kinds).1
  | cons k ts => exact (List.cons.inj h.kinds).1

theorem length_following (h : c.Shows ts) : c.following.length = ts.length := by
  simpa using congrArg List.length h.kinds

theorem following_kinds (h : c.Shows (k :: ts)) :
    c.following.map Token.kind = ts ++ [.endOfInput] :=
  (List.cons.inj h.kinds).2

theorem isEnd (h : c.Shows ts) : c.current.kind.isEnd = ts.isEmpty := by
  rw [h.current_kind]
  cases ts with
  | nil => rfl
  | cons k ts =>
    have hk : k ≠ .endOfInput := fun e ↦ h.end_notMem (e ▸ List.mem_cons_self)
    cases k <;> first | rfl | exact absurd rfl hk

end TokenCursor.Shows

namespace Parser

variable {α β : Type} {m : ParseM α} {f : α → ParseM β} {a : α} {b : β} {k : TokenKind}
  {ts mid rest : List TokenKind}

/-- From any cursor at `ts`, the rule gives `a` and leaves `rest`. -/
def Gives (m : ParseM α) (ts : List TokenKind) (a : α) (rest : List TokenKind) : Prop :=
  ∀ c : TokenCursor, c.Shows ts → ∃ c', m c = .ok a c' ∧ c'.Shows rest

/-- From any cursor at `ts`, what the rule gives and leaves, if anything, is as `P` says. -/
def Ensures (m : ParseM α) (ts : List TokenKind) (P : α → List TokenKind → Prop) : Prop :=
  ∀ (c : TokenCursor) (a : α) (c' : TokenCursor), c.Shows ts → m c = .ok a c' →
    ∃ rest, c'.Shows rest ∧ P a rest

theorem advance_shows {c : TokenCursor} (h : c.Shows (k :: ts)) :
    ∃ c', (advance : ParseM Unit) c = .ok () c' ∧ c'.Shows ts := by
  have hk := h.following_kinds
  obtain ⟨previous, current, following⟩ := c
  cases following with
  | nil => simp at hk
  | cons t following =>
    exact ⟨_, rfl, hk, fun hmem ↦ h.end_notMem (List.mem_cons_of_mem _ hmem)⟩

theorem peek_kind {c : TokenCursor} (h : c.Shows ts) :
    (c.following.headD c.current).kind = ts.tail.headD .endOfInput := by
  cases ts with
  | nil =>
    have hl : c.following = [] := List.eq_nil_of_length_eq_zero h.length_following
    rw [hl]
    exact h.current_kind
  | cons k ts =>
    have hk := h.following_kinds
    cases hf : c.following with
    | nil => simp [hf] at hk
    | cons t following =>
      rw [hf] at hk
      cases ts <;> exact (List.cons.inj hk).1

theorem check_eq {c : TokenCursor} (s : Symbol) (h : c.Shows ts) :
    (check s : ParseM Bool) c = .ok (startsSymbol s ts) c := by
  change EStateM.Result.ok (c.current.kind.isSymbol s) c = _
  rw [h.current_kind]
  rfl

theorem eq_cons_of_head (h : k = ts.headD .endOfInput) (hk : k.isEnd = false) :
    ∃ ts', ts = k :: ts' := by
  cases ts with
  | nil => subst h; cases hk
  | cons k' ts => exact ⟨ts, by rw [h]; rfl⟩

theorem startsSymbol_iff {s : Symbol} :
    startsSymbol s ts = true ↔ ∃ ts', ts = .symbol s :: ts' := by
  cases ts with
  | nil => simp [startsSymbol, TokenKind.isSymbol]
  | cons k ts => cases k <;> simp [startsSymbol, TokenKind.isSymbol, eq_comm (a := s)]

theorem eq_symbol_of_isSymbol {s : Symbol} (h : k.isSymbol s = true) : k = .symbol s := by
  obtain ⟨_, hcons⟩ := startsSymbol_iff.1 (show startsSymbol s [k] = true from h)
  exact (List.cons.inj hcons).1

@[simp]
theorem startsSymbol_cons (s t : Symbol) :
    startsSymbol s (.symbol t :: ts) = (s == t) := rfl

namespace Gives

theorem pure : Gives (Pure.pure a) ts a ts := fun c hc ↦ ⟨c, rfl, hc⟩

theorem bind (hm : Gives m ts a mid) (hf : Gives (f a) mid b rest) :
    Gives (m >>= f) ts b rest := by
  intro c hc
  obtain ⟨c₁, h₁, hc₁⟩ := hm c hc
  obtain ⟨c₂, h₂, hc₂⟩ := hf c₁ hc₁
  refine ⟨c₂, ?_, hc₂⟩
  change EStateM.bind m f c = _
  rw [EStateM.bind, h₁]
  exact h₂

theorem map {g : α → β} (hm : Gives m ts a rest) : Gives (do return g (← m)) ts (g a) rest :=
  hm.bind pure

theorem current {f : Token → ParseM β}
    (h : ∀ t, t.kind = ts.headD .endOfInput → Gives (f t) ts b rest) :
    Gives (current >>= f) ts b rest :=
  fun c hc ↦ h c.current hc.current_kind c hc

theorem currentEnd {f : Token → ParseM β}
    (h : ∀ t, t.kind.isEnd = ts.isEmpty → Gives (f t) ts b rest) :
    Gives (Parser.current >>= f) ts b rest :=
  fun c hc ↦ h c.current hc.isEnd c hc

theorem peek {f : Token → ParseM β}
    (h : ∀ t, t.kind = ts.tail.headD .endOfInput → Gives (f t) ts b rest) :
    Gives (peek >>= f) ts b rest :=
  fun c hc ↦ h (c.following.headD c.current) (peek_kind hc) c hc

theorem previousPosition {f : Nat → ParseM β} (h : ∀ n, Gives (f n) ts b rest) :
    Gives (previousPosition >>= f) ts b rest :=
  fun c hc ↦ h c.previous c hc

theorem slicePart {f : Option Int64 → ParseM β} {parts : SliceParts} {i : Nat}
    (h : Gives (f ((parts.get? i).getD none)) ts b rest) :
    Gives (slicePart parts i >>= f) ts b rest := h

theorem turns {f : Nat → ParseM β} (h : Gives (f (ts.length + 1)) ts b rest) :
    Gives (turns >>= f) ts b rest := by
  intro c hc
  change ∃ c', f (c.following.length + 1) c = .ok b c' ∧ c'.Shows rest
  rw [hc.length_following]
  exact h c hc

theorem advance {f : Unit → ParseM β} (h : Gives (f ()) ts b rest) :
    Gives (advance >>= f) (k :: ts) b rest :=
  bind (fun _ hc ↦ advance_shows hc) h

theorem check {f : Bool → ParseM β} (s : Symbol) (h : Gives (f (startsSymbol s ts)) ts b rest) :
    Gives (check s >>= f) ts b rest :=
  bind (fun c hc ↦ ⟨c, check_eq s hc, hc⟩) h

theorem expectCloser {o : Opening} {f : Unit → ParseM β} (h : Gives (f ()) ts b rest) :
    Gives (expectCloser o >>= f) (.symbol o.symbol.closer :: ts) b rest := by
  refine bind (check _ ?_) h
  rw [startsSymbol_cons, beq_self_eq_true, if_pos rfl]
  exact fun _ hc ↦ advance_shows hc

end Gives

namespace Ensures

variable {P : α → List TokenKind → Prop} {Q : β → List TokenKind → Prop}

theorem pure (h : P a ts) : Ensures (Pure.pure a) ts P := by
  rintro c _ _ hc ⟨⟩
  exact ⟨ts, hc, h⟩

theorem bind (hm : Ensures m ts P) (hf : ∀ a mid, P a mid → Ensures (f a) mid Q) :
    Ensures (m >>= f) ts Q := by
  intro c b c₂ hc h
  change EStateM.bind m f c = _ at h
  rw [EStateM.bind] at h
  cases hm' : m c with
  | ok a c₁ =>
    rw [hm'] at h
    obtain ⟨mid, hc₁, hP⟩ := hm c a c₁ hc hm'
    exact hf a mid hP c₁ b c₂ hc₁ h
  | error e c₁ => rw [hm'] at h; cases h

theorem map {g : α → β} (hm : Ensures m ts fun a rest ↦ Q (g a) rest) :
    Ensures (do return g (← m)) ts Q :=
  hm.bind fun _ _ h ↦ pure h

theorem mono {P' : α → List TokenKind → Prop} (h : Ensures m ts P)
    (hP : ∀ a rest, P a rest → P' a rest) : Ensures m ts P' := by
  intro c a c' hc hm
  obtain ⟨rest, hc', ha⟩ := h c a c' hc hm
  exact ⟨rest, hc', hP a rest ha⟩

theorem current {f : Token → ParseM β}
    (h : ∀ t, t.kind = ts.headD .endOfInput → Ensures (f t) ts Q) :
    Ensures (current >>= f) ts Q :=
  fun c b c' hc hm ↦ h c.current hc.current_kind c b c' hc hm

theorem currentEnd {f : Token → ParseM β}
    (h : ∀ t, t.kind.isEnd = ts.isEmpty → Ensures (f t) ts Q) :
    Ensures (Parser.current >>= f) ts Q :=
  fun c b c' hc hm ↦ h c.current hc.isEnd c b c' hc hm

theorem peek {f : Token → ParseM β}
    (h : ∀ t, t.kind = ts.tail.headD .endOfInput → Ensures (f t) ts Q) :
    Ensures (peek >>= f) ts Q :=
  fun c b c' hc hm ↦ h (c.following.headD c.current) (peek_kind hc) c b c' hc hm

theorem previousPosition {f : Nat → ParseM β} (h : ∀ n, Ensures (f n) ts Q) :
    Ensures (previousPosition >>= f) ts Q :=
  fun c b c' hc hm ↦ h c.previous c b c' hc hm

theorem slicePart {f : Option Int64 → ParseM β} {parts : SliceParts} {i : Nat}
    (h : Ensures (f ((parts.get? i).getD none)) ts Q) : Ensures (slicePart parts i >>= f) ts Q := h

theorem turns {f : Nat → ParseM β} (h : Ensures (f (ts.length + 1)) ts Q) :
    Ensures (turns >>= f) ts Q := by
  intro c b c' hc hm
  change f (c.following.length + 1) c = _ at hm
  rw [hc.length_following] at hm
  exact h c b c' hc hm

theorem advance {f : Unit → ParseM β} (h : Ensures (f ()) ts Q) :
    Ensures (advance >>= f) (k :: ts) Q := by
  intro c b c' hc hm
  obtain ⟨c₁, h₁, hc₁⟩ := advance_shows hc
  change EStateM.bind Parser.advance f c = _ at hm
  rw [EStateM.bind, h₁] at hm
  exact h c₁ b c' hc₁ hm

theorem check {f : Bool → ParseM β} (s : Symbol)
    (h : ∀ b, startsSymbol s ts = b → Ensures (f b) ts Q) :
    Ensures (check s >>= f) ts Q := by
  intro c b c' hc hm
  change EStateM.bind (Parser.check s) f c = _ at hm
  rw [EStateM.bind, check_eq s hc] at hm
  exact h _ rfl c b c' hc hm

theorem failAt (position : Nat) (fault : SyntaxFault) : Ensures (failAt position fault) ts P := by
  rintro c a c' _ ⟨⟩

theorem fail (fault : SyntaxFault) : Ensures (fail fault) ts P := by
  rintro c a c' _ ⟨⟩

theorem unexpected (place : Place) : Ensures (unexpected place) ts P := by
  rintro c a c' _ ⟨⟩

theorem missingCloser (o : Opening) : Ensures (missingCloser o) ts P := by
  refine current fun t _ ↦ ?_
  split
  · exact failAt _ _
  · exact unexpected _

theorem expectCloser {o : Opening} {f : Unit → ParseM β}
    (h : ∀ ts', ts = .symbol o.symbol.closer :: ts' → Ensures (f ()) ts' Q) :
    Ensures (expectCloser o >>= f) ts Q := by
  refine bind (P := fun _ rest ↦ ts = .symbol o.symbol.closer :: rest) ?_ fun _ rest hrest ↦
    h rest hrest
  refine check _ fun b hb ↦ ?_
  cases b with
  | false => exact missingCloser o
  | true =>
    obtain ⟨ts', rfl⟩ := startsSymbol_iff.mp hb
    intro c u c' hc hm
    obtain ⟨c₁, h₁, hc₁⟩ := advance_shows hc
    rw [if_pos rfl, h₁] at hm
    cases hm
    exact ⟨ts', hc₁, rfl⟩

end Ensures

end Parser

end PathQuery
