import Mathlib.Data.List.Nodup
import Mathlib.Order.Interval.Set.Basic
import PathQuery.Proofs.Accessor.Emission
import PathQuery.Proofs.Accessor.Runs
import PathQuery.Proofs.Accessor.Scoping
import PathQuery.Proofs.Number.Digits

namespace PathQuery

open Generator Script

theorem AccessorConfig.check_eq_ok_iff {config : AccessorConfig} :
    config.check = .ok () ↔ Lexer.isName config.temporaries.toList = true ∧
      Lexer.isName config.input.toList = true ∧
      (pathSegments config.support.toList).all Lexer.isName = true ∧
      config.temporaries.toList.isPrefixOf config.input.toList = false := by
  unfold check checkIdentifier checkPath
  cases Lexer.isName config.temporaries.toList with
  | false => exact ⟨nofun, nofun⟩
  | true =>
    cases Lexer.isName config.input.toList with
    | false => exact ⟨nofun, nofun⟩
    | true =>
      cases (pathSegments config.support.toList).all Lexer.isName with
      | false => exact ⟨nofun, nofun⟩
      | true =>
        cases config.temporaries.toList.isPrefixOf config.input.toList with
        | false => exact ⟨fun _ ↦ ⟨rfl, rfl, rfl, rfl⟩, fun _ ↦ rfl⟩
        | true => exact ⟨nofun, nofun⟩

namespace Code

theorem toList_tempText (config : AccessorConfig) (t : Nat) :
    (tempText config t).toList = config.temporaries.toList ++ Number.digits t := by
  rw [tempText, String.toList_append, Nat.toString_eq_repr, Nat.toList_repr]

theorem tempText_injective (config : AccessorConfig) : Function.Injective (tempText config) := by
  intro t u h
  have hlist := congrArg String.toList h
  rw [toList_tempText, toList_tempText] at hlist
  have hdigits : Number.digits t = Number.digits u := List.append_cancel_left hlist
  rw [← Number.ofDigits_digits t, ← Number.ofDigits_digits u, hdigits]

/-- The input of settings that are accepted does not even start like a temporary. -/
theorem input_ne_tempText {config : AccessorConfig} (h : config.check = .ok ()) (t : Nat) :
    config.input ≠ tempText config t := by
  intro hinput
  have hstart : config.temporaries.toList.isPrefixOf config.input.toList = true := by
    rw [hinput, toList_tempText, List.isPrefixOf_iff_prefix]
    exact List.prefix_append _ _
  obtain ⟨-, -, -, hother⟩ := AccessorConfig.check_eq_ok_iff.1 h
  rw [hother] at hstart
  cases hstart

theorem varText_ne_tempText {config : AccessorConfig} (h : config.check = .ok ()) {x : Var}
    {n t : Nat} (hx : x.Before n) (ht : n ≤ t) : varText config x ≠ tempText config t := by
  cases x with
  | input => exact input_ne_tempText h t
  | temp k =>
    have hk : k < n := hx
    intro heq
    have hkt : k = t := tempText_injective config heq
    omega

end Code

namespace Script

variable {config : AccessorConfig} {env : List Binder} {p q : Script} {xs ys : List Var}
  {ts us : Set Nat} {name : String}

theorem isName_append_digits {cs ds : List Char} (hcs : Lexer.isName cs = true)
    (hds : ds.all Number.isDigit = true) : Lexer.isName (cs ++ ds) = true := by
  cases cs with
  | nil => cases hcs
  | cons c cs =>
    obtain ⟨hstart, hrest⟩ := Bool.and_eq_true_iff.1 hcs
    have hchars : ds.all Lexer.isNameChar = true := by
      rw [List.all_eq_true] at hds ⊢
      intro d hd
      rw [Lexer.isNameChar, hds d hd, Bool.or_true]
    rw [List.cons_append, Lexer.isName, List.all_append, hstart, hrest, hchars]
    rfl

theorem not_isDigit_of_reserved {word : String} (h : word ∈ keywords ++ constructors) :
    ∀ c ∈ word.toList.getLast?, Number.isDigit c = false := by
  have hall : (keywords ++ constructors).all
      (fun word ↦ word.toList.getLast?.all fun c ↦ !Number.isDigit c) = true := by decide
  have hlast := List.all_eq_true.1 hall word h
  intro c hc
  rw [Option.mem_def.1 hc] at hlast
  simpa using hlast

/-- A temporary can always be bound: no reserved word ends in a digit. -/
theorem bindable_tempText (h : Lexer.isName config.temporaries.toList = true) (t : Nat) :
    Bindable (Code.tempText config t) := by
  have hlist := Code.toList_tempText config t
  obtain ⟨ds, d, hds⟩ := (List.eq_nil_or_concat' (Number.digits t)).resolve_left
    Nat.toDigits_ne_nil
  have hdigit : Number.isDigit d = true := by
    apply Number.isDigit_of_mem (n := t)
    rw [hds]
    exact List.mem_concat_self
  have hreserved : Code.tempText config t ∉ keywords ++ constructors := by
    intro hmem
    have hlast : d ∈ (Code.tempText config t).toList.getLast? := by
      rw [hlist, hds, ← List.append_assoc, List.getLast?_concat]
      rfl
    rw [not_isDigit_of_reserved hmem d hlast] at hdigit
    cases hdigit
  rw [List.mem_append, not_or] at hreserved
  refine ⟨?_, hreserved.1, hreserved.2⟩
  rw [hlist]
  exact isName_append_digits h (Number.all_isDigit t)

theorem resolve_of_bindable (h : Bindable name) :
    resolve config env name = env.find? (·.name config == name) := by
  rw [resolve, if_neg h.2.2, if_pos h]

/-- Nothing that is hygienic needs a name that cannot be bound. -/
theorem Hygienic.bindable_of_mem_free (h : p.Hygienic config env) (hname : name ∈ p.free config) :
    Bindable name := by
  induction p generalizing env with
  | text s => cases hname
  | use b =>
    have hresolve : resolve config env (b.name config) = some b := h
    rw [free] at hname
    split at hname
    · next hvariable =>
      obtain rfl := List.mem_singleton.1 hname
      rw [resolve] at hresolve
      split at hresolve
      · rw [← Option.some.inj hresolve] at hvariable
        cases hvariable
      · split at hresolve
        · assumption
        · cases hresolve
    · cases hname
  | bind b between scope ihbetween ihscope =>
    obtain ⟨-, -, hbetween, hscope⟩ := h
    rw [free, List.mem_append, List.mem_filter] at hname
    rcases hname with hname | ⟨hname, -⟩
    · exact ihbetween hbetween hname
    · exact ihscope hscope hname
  | append p q ihp ihq =>
    rcases List.mem_append.1 hname with hname | hname
    · exact ihp h.1 hname
    · exact ihq h.2 hname

/-- Within `env` each of the variables `xs` is found by its name, and the temporaries `ts` have
names that can be bound and are not in use. -/
structure Offers (config : AccessorConfig) (env : List Binder) (xs : List Var) (ts : Set Nat) :
    Prop where
  found : ∀ x ∈ xs, env.find? (·.name config == Code.varText config x) = some (.ofVar x)
  bindable : ∀ t ∈ ts, Bindable (Code.tempText config t)
  unused : ∀ t ∈ ts, ∀ b ∈ env, b.name config ≠ Code.tempText config t

theorem Offers.mono (h : Offers config env xs ts) (hys : ys ⊆ xs) (hus : us ⊆ ts) :
    Offers config env ys us where
  found x hx := h.found x (hys hx)
  bindable t ht := h.bindable t (hus ht)
  unused t ht := h.unused t (hus ht)

/-- Within a temporary of its own, a scope has that temporary as well, and no longer to bind. -/
theorem Offers.cons (h : Offers config env xs ts) {t : Nat} (ht : t ∈ ts) :
    Offers config (.ofVar (.temp t) :: env) (.temp t :: xs) (ts \ {t}) where
  found x hx := by
    rcases List.mem_cons.1 hx with rfl | hx
    · exact List.find?_cons_of_pos (beq_self_eq_true _)
    · have hne : (Binder.ofVar (.temp t)).name config ≠ Code.varText config x :=
        (h.unused t ht _ (List.mem_of_find?_eq_some (h.found x hx))).symm
      rw [List.find?_cons_of_neg (by rwa [beq_iff_eq])]
      exact h.found x hx
  bindable u hu := h.bindable u hu.1
  unused u hu b hb := by
    obtain ⟨hu, hne⟩ := hu
    rcases List.mem_cons.1 hb with rfl | hb
    · intro heq
      exact hne (Code.tempText_injective config heq).symm
    · exact h.unused u hu b hb

/-- The script binds parameters and temporaries of `ts` only, reads from the variables `xs` only,
and is hygienic wherever these are found, may be called what they are called, and the temporaries
are not in use. This is what every kind of code keeps. -/
structure Scoped (config : AccessorConfig) (p : Script) (xs : List Var) (ts : Set Nat) : Prop where
  binders : ∀ b ∈ p.binders, b = .parameter ∨ ∃ t ∈ ts, b = .ofVar (.temp t)
  free : ∀ name ∈ p.free config, ∃ x ∈ xs, name = Code.varText config x
  hygienic : ∀ env, Offers config env xs ts → (∀ name ∈ p.free config, Bindable name) →
    p.Hygienic config env

namespace Scoped

variable {x : Var} {n k n' : Nat}

theorem mono (h : Scoped config p xs ts) (hxs : xs ⊆ ys) (hts : ts ⊆ us) :
    Scoped config p ys us where
  binders b hb := by
    rcases h.binders b hb with hb | ⟨t, ht, hb⟩
    · exact .inl hb
    · exact .inr ⟨t, hts ht, hb⟩
  free name hname := by
    obtain ⟨x, hx, rfl⟩ := h.free name hname
    exact ⟨x, hxs hx, rfl⟩
  hygienic env henv := h.hygienic env (henv.mono hxs hts)

/-- What reads from one variable and binds the temporaries from `n` to `k` may stand wherever these
are offered. -/
theorem within (h : Scoped config p [x] (Set.Ico n k)) (hx : x ∈ ys)
    (hus : ∀ t, n ≤ t → t < k → t ∈ us) : Scoped config p ys us :=
  h.mono (List.cons_subset.2 ⟨hx, List.nil_subset _⟩) fun t ht ↦ hus t ht.1 ht.2

theorem widen_right (h : Scoped config p [x] (Set.Ico n k)) (hk : k ≤ n') :
    Scoped config p [x] (Set.Ico n n') :=
  h.within List.mem_cons_self fun _ hn hk' ↦ ⟨hn, hk'.trans_le hk⟩

theorem widen_left (h : Scoped config p [x] (Set.Ico k n')) (hn : n ≤ k) :
    Scoped config p [x] (Set.Ico n n') :=
  h.within List.mem_cons_self fun _ hk hn' ↦ ⟨hn.trans hk, hn'⟩

/-- What is generated for a temporary goes behind the temporary. -/
theorem behind (xs : List Var) {t : Nat} (h : Scoped config p [.temp t] (Set.Ico (t + 1) k))
    (hn : n ≤ t) :
    Scoped config p (.temp t :: xs) (Set.Ico n k \ {t}) :=
  h.within List.mem_cons_self fun _ hu hk ↦ ⟨⟨by omega, hk⟩, (Nat.ne_of_lt hu).symm⟩

theorem text (s : String) : Scoped config (text s) xs ts := ⟨nofun, nofun, fun _ _ _ ↦ trivial⟩

theorem use {x : Var} (hx : x ∈ xs) : Scoped config (use (.ofVar x)) xs ts where
  binders := nofun
  free name hname := ⟨x, hx, List.mem_singleton.1 hname⟩
  hygienic env henv hfree := by
    have hbindable : Bindable (Code.varText config x) := hfree _ List.mem_cons_self
    exact (resolve_of_bindable hbindable).trans (henv.found x hx)

theorem temp {t : Nat} (ht : .temp t ∈ xs) : Scoped config (temp t) xs ts := use ht

theorem builtin (h : name ∈ constructors) : Scoped config (Script.use (.builtin name)) xs ts where
  binders := nofun
  free := nofun
  hygienic _ _ _ := if_pos h

theorem append (hp : Scoped config p xs ts) (hq : Scoped config q xs ts) :
    Scoped config (p ++ q) xs ts where
  binders b hb := (List.mem_append.1 hb).elim (hp.binders b) (hq.binders b)
  free name hname := (List.mem_append.1 hname).elim (hp.free name) (hq.free name)
  hygienic env henv hfree := by
    obtain ⟨hp', hq'⟩ := List.forall_mem_append.1 hfree
    exact ⟨hp.hygienic env henv hp', hq.hygienic env henv hq'⟩

theorem bindTemp {t : Nat} (ht : t ∈ ts) (hp : Scoped config p xs ts)
    (hq : Scoped config q (.temp t :: xs) (ts \ {t})) : Scoped config (bindTemp t p q) xs ts where
  binders b hb := by
    rcases List.mem_cons.1 hb with rfl | hb
    · exact .inr ⟨t, ht, rfl⟩
    · rcases List.mem_append.1 hb with hb | hb
      · exact hp.binders b hb
      · exact (hq.binders b hb).imp_right fun ⟨u, hu, hbu⟩ ↦ ⟨u, hu.1, hbu⟩
  free name hname := by
    rcases List.mem_append.1 hname with hname | hname
    · exact hp.free name hname
    · obtain ⟨hname, hne⟩ := List.mem_filter.1 hname
      obtain ⟨x, hx, rfl⟩ := hq.free name hname
      rcases List.mem_cons.1 hx with rfl | hx
      · exact absurd rfl (of_decide_eq_true hne)
      · exact ⟨x, hx, rfl⟩
  hygienic env henv hfree := by
    obtain ⟨hbetween, hscope⟩ := List.forall_mem_append.1 hfree
    have hinner : ∀ name ∈ q.free config, Bindable name := by
      intro name hname
      by_cases heq : name = Code.tempText config t
      · rw [heq]
        exact henv.bindable t ht
      · exact hscope name (List.mem_filter.2 ⟨hname, decide_eq_true heq⟩)
    exact ⟨henv.bindable t ht, fun _ ↦ henv.unused t ht, hp.hygienic env henv hbetween,
      hq.hygienic _ (henv.cons ht) hinner⟩

theorem ask (before after : String) : Scoped config (ask before after) xs ts where
  binders _ hb := .inl (List.mem_singleton.1 hb)
  free := nofun
  hygienic env _ _ := by
    have hbindable : Bindable "v" := by decide
    have hfound : resolve config (.parameter :: env) "v" = some .parameter := by
      rw [resolve_of_bindable hbindable]
      exact List.find?_cons_of_pos (beq_self_eq_true _)
    exact ⟨hbindable, fun h ↦ absurd rfl h, trivial, hfound, trivial⟩

theorem enclosed (before after : String) (hp : Scoped config p xs ts) :
    Scoped config (.text before ++ p ++ .text after) xs ts :=
  ((text before).append hp).append (text after)

theorem mention (before after : String) (h : name ∈ constructors) :
    Scoped config (mention before name after) xs ts := (builtin h).enclosed before after

theorem some (before after : String) : Scoped config (.mention before "Some" after) xs ts :=
  mention before after (by decide)

theorem nothing : Scoped config nothing xs ts := builtin (by decide)

theorem option (n : Option Int64) : Scoped config (option n) xs ts := by
  cases n with
  | none => exact nothing
  | some n => exact ((some _ _).append (text _)).append (text _)

theorem closure (before : String) {t : Nat} (ht : t ∈ ts)
    (h : Scoped config p (.temp t :: xs) (ts \ {t})) : Scoped config (closure before t p) xs ts :=
  (bindTemp ht (text _) h).enclosed _ _

theorem notNullFilter : Scoped config notNullFilter xs ts := (ask _ _).enclosed _ _

theorem mapArray : Scoped config mapArray xs ts := (ask _ _).enclosed _ _

theorem block (hp : Scoped config p xs ts) : Scoped config (block p) xs ts := hp.enclosed _ _

theorem elseNone (hp : Scoped config p xs ts) : Scoped config (elseNone p) xs ts :=
  hp.append ((text _).append nothing.block)

theorem separated (separator : String) {ps : List Script}
    (h : ∀ p ∈ ps, Scoped config p xs ts) : Scoped config (separated separator ps) xs ts := by
  induction ps with
  | nil => exact text _
  | cons p ps ih =>
    obtain ⟨hp, hps⟩ := List.forall_mem_cons.1 h
    cases ps with
    | nil => exact hp
    | cons q ps => exact (hp.append (text _)).append (ih hps)

theorem call (support name : String) {args : List Script}
    (h : ∀ p ∈ args, Scoped config p xs ts) : Scoped config (call support name args) xs ts :=
  (separated _ h).enclosed _ _

theorem truthy (support : String) (hp : Scoped config p xs ts) :
    Scoped config (truthy support p) xs ts := by
  apply call
  rw [List.forall_mem_singleton]
  exact (text _).append hp

theorem array {items : List Script} (h : ∀ p ∈ items, Scoped config p xs ts) :
    Scoped config (array items) xs ts := by
  apply enclosed
  apply separated
  rw [List.forall_mem_map]
  intro p hp
  exact (h p hp).append (text _)

theorem insert {m : Nat} (hm : .temp m ∈ xs) {entry : String × Script}
    (h : Scoped config entry.2 xs ts) : Scoped config (insert m entry) xs ts :=
  (((temp hm).append (text _)).append h).append (text _)

theorem push {value out : Nat} (hvalue : value ∈ ts) (hout : .temp out ∈ xs)
    (hp : Scoped config p xs ts) : Scoped config (push value p out) xs ts := by
  have htemp : Scoped config (.temp value) (.temp value :: xs) (ts \ {value}) :=
    temp List.mem_cons_self
  have hpush : Scoped config (.temp out ++ .text ".push(" ++ .temp value ++ .text ");")
      (.temp value :: xs) (ts \ {value}) := by
    have hvector : Scoped config (.temp out) (.temp value :: xs) (ts \ {value}) :=
      temp (List.mem_cons_of_mem _ hout)
    exact ((hvector.append (text _)).append htemp).append (text _)
  have hguarded := (htemp.enclosed "if !" ".is_null() ").append hpush.block
  have hsource := hp.enclosed ") = " " "
  exact (some _ _).append (bindTemp hvalue hsource hguarded.block)

theorem collect {items : Nat} (hitems : items ∈ ts) (hp : Scoped config p xs ts)
    (hq : Scoped config q (.temp items :: xs) (ts \ {items})) :
    Scoped config (collect items p q) xs ts := by
  have hsteps : Scoped config (.temp items ++ .text ".iter()" ++ q) (.temp items :: xs)
      (ts \ {items}) := ((temp List.mem_cons_self).append (text _)).append hq
  have hsource : Scoped config (p ++ .mapArray) xs ts := hp.append mapArray
  exact (hsource.append (bindTemp hitems (text _) hsteps)).append (text _)

theorem loop {items item out : Nat} (hitems : items ∈ ts) (hout : out ∈ ts \ {items})
    (hitem : item ∈ (ts \ {items}) \ {out}) (hp : Scoped config p xs ts)
    (hq : Scoped config q (.temp item :: .temp out :: .temp items :: xs)
      (((ts \ {items}) \ {out}) \ {item})) :
    Scoped config (loop items item out p q) xs ts := by
  have hiterated : Scoped config (.temp items) (.temp out :: .temp items :: xs)
      ((ts \ {items}) \ {out}) := temp (List.mem_cons_of_mem _ List.mem_cons_self)
  have hfor := bindTemp hitem (hiterated.enclosed " in " ".iter() ") hq.block
  have hresult : Scoped config
      (.mention " " "Some" "(serde_json::Value::Array(" ++ .temp out ++ .text "))")
      (.temp out :: .temp items :: xs) ((ts \ {items}) \ {out}) :=
    ((some _ _).append (temp List.mem_cons_self)).append (text _)
  have hvector := (text "let mut ").append
    (bindTemp hout (text " = Vec::new(); for ") (hfor.append hresult))
  have hsource := hp.enclosed ")) = " " "
  exact ((some _ _).append (bindTemp hitems hsource hvector.block)).elseNone

end Scoped

end Script

namespace Code

variable {config : AccessorConfig} {support : String} {c d body : Code} {test : Option Code}
  {x : Var} {t m items item out value n n' : Nat} {xs : List Var} {ts : Set Nat}

theorem scoped_operand (h : Scoped config (c.script support) xs ts) :
    Scoped config (c.operand.script support) xs ts := by
  unfold operand
  split
  · rw [script]
    exact h.enclosed _ _
  · exact h

theorem scoped_operands : {cs : List Code} → (∀ p ∈ scripts support cs, Scoped config p xs ts) →
    ∀ p ∈ scripts support (cs.map operand), Scoped config p xs ts
  | [], h => h
  | c :: cs, h => by
    rw [scripts] at h
    obtain ⟨hc, hcs⟩ := List.forall_mem_cons.1 h
    rw [List.map_cons, scripts]
    exact List.forall_mem_cons.2 ⟨scoped_operand hc, scoped_operands hcs⟩

theorem scoped_optional (ht : .temp t ∈ xs) :
    Scoped config ((optional t).script support) xs ts := by
  rw [script]
  exact .temp ht

theorem scoped_present (h : Scoped config (c.script support) xs ts) :
    Scoped config ((present c).script support) xs ts := by
  rw [script]
  exact h.append .notNullFilter

theorem scoped_truthy (h : Scoped config (c.script support) xs ts) :
    Scoped config ((truthy c).script support) xs ts := by
  rw [script]
  exact h.append (.text _)

theorem scoped_letIf (ht : t ∈ ts) (hc : Scoped config (c.script support) xs ts)
    (hd : Scoped config (d.script support) (.temp t :: xs) (ts \ {t}))
    (hbody : Scoped config (body.script support) (.temp t :: xs) (ts \ {t})) :
    Scoped config ((letIf t c d body).script support) xs ts := by
  have htest : Scoped config (.truthy support (.temp t)) (.temp t :: xs) (ts \ {t}) :=
    .truthy support (.temp List.mem_cons_self)
  have hyes := (htest.append (.text " ")).append hd.block
  have hno := (Scoped.text " else ").append hbody.block
  have hbound := Scoped.bindTemp ht (hc.enclosed " = " "; if ") (hyes.append hno)
  rw [script]
  exact ((Scoped.text "let ").append hbound).block

theorem scoped_list {cs : List Code} (h : ∀ p ∈ scripts support cs, Scoped config p xs ts) :
    Scoped config ((list cs).script support) xs ts := by
  rw [script]
  exact ((Scoped.some _ _).append (.array h)).append (.text _)

theorem scoped_object {entries : List (String × Code)} (hm : m ∈ ts)
    (h : ∀ entry ∈ entryScripts support entries,
      Scoped config entry.2 (.temp m :: xs) (ts \ {m})) :
    Scoped config ((object m entries).script support) xs ts := by
  have hmap : Scoped config (.temp m) (.temp m :: xs) (ts \ {m}) := .temp List.mem_cons_self
  have hinserts : Scoped config (separated "" ((entryScripts support entries).map (.insert m)))
      (.temp m :: xs) (ts \ {m}) := by
    apply Scoped.separated
    rw [List.forall_mem_map]
    intro entry hentry
    exact .insert List.mem_cons_self (h entry hentry)
  have hresult := ((Scoped.some "" "(serde_json::Value::Object(").append hmap).append (.text "))")
  rw [script]
  exact (Scoped.text _).append (.bindTemp hm (.text _) (hinserts.append hresult))

theorem scoped_unlessNull (hx : x ∈ xs) (ht : t ∈ ts)
    (h : Scoped config (body.script support) (.temp t :: xs) (ts \ {t})) :
    Scoped config ((unlessNull x t body).script support) xs ts := by
  have hread : Scoped config (.use (.ofVar x)) xs ts := .use hx
  have hnull := (hread.enclosed "if " ".is_null() ").append Scoped.nothing.block
  have hbound := (Scoped.text "let ").append (.bindTemp ht (hread.enclosed " = " "; ") h)
  rw [script]
  exact (hnull.append (.text _)).append hbound.block

/-- A value that is read from a variable and is not null goes into a closure. -/
theorem scoped_presentClosure {p : Script} (before : String) (hx : x ∈ xs) (ht : t ∈ ts)
    (h : Scoped config p (.temp t :: xs) (ts \ {t})) :
    Scoped config (.mention "" "Some" "(" ++ .use (.ofVar x) ++ .text ")" ++ .notNullFilter ++
      .closure before t p) xs ts := by
  have hread : Scoped config (.mention "" "Some" "(" ++ .use (.ofVar x) ++ .text ")") xs ts :=
    ((Scoped.some _ _).append (.use hx)).append (.text _)
  exact (hread.append .notNullFilter).append (.closure before ht h)

theorem scoped_mapItems (hitems : items ∈ ts) (hitem : item ∈ ts \ {items})
    (hc : Scoped config (c.script support) xs ts)
    (htest : ∀ p ∈ test, Scoped config (p.script support) (.temp item :: .temp items :: xs)
      ((ts \ {items}) \ {item}))
    (hbody : Scoped config (body.script support) (.temp item :: .temp items :: xs)
      ((ts \ {items}) \ {item})) :
    Scoped config ((mapItems c items item test body).script support) xs ts := by
  have hmapped := Scoped.closure ".filter_map(|" hitem hbody
  cases test with
  | none =>
    rw [script]
    exact .collect hitems hc (((Scoped.text "").append hmapped).append .notNullFilter)
  | some p =>
    have hkept := Scoped.closure ".filter(|&" hitem (.truthy support (htest p rfl))
    rw [script]
    exact .collect hitems hc ((hkept.append hmapped).append .notNullFilter)

theorem scoped_forItems (hitems : items ∈ ts) (hout : out ∈ ts \ {items})
    (hitem : item ∈ (ts \ {items}) \ {out}) (hvalue : value ∈ ((ts \ {items}) \ {out}) \ {item})
    (hc : Scoped config (c.script support) xs ts)
    (htest : ∀ p ∈ test, Scoped config (p.script support)
      (.temp item :: .temp out :: .temp items :: xs) (((ts \ {items}) \ {out}) \ {item}))
    (hbody : Scoped config (body.script support)
      (.temp item :: .temp out :: .temp items :: xs) (((ts \ {items}) \ {out}) \ {item})) :
    Scoped config ((forItems c items item out value test body).script support) xs ts := by
  have hpush := Scoped.push hvalue (List.mem_cons_of_mem _ List.mem_cons_self) hbody
  cases test with
  | none =>
    rw [script]
    exact .loop hitems hout hitem hc hpush
  | some p =>
    have hkept := (Scoped.truthy support (htest p rfl)).enclosed "if " " "
    rw [script]
    exact .loop hitems hout hitem hc (hkept.append hpush.block)

end Code

mutual

/-- Code binds the temporaries that it was generated with. -/
theorem Emits.scoped (config : AccessorConfig) (support : String) {style : NullCheck} {e : Expr}
    {x : Var} {n n' : Nat} {c : Code} :
    Emits style e x n c n' → Scoped config (c.script support) [x] (Set.Ico n n')
  | .field name x n => by
    rw [Code.script]
    exact (Scoped.use List.mem_cons_self).append (.text _)
  | .index i x n => by
    rw [Code.script]
    apply Scoped.call
    simp only [List.forall_mem_cons]
    exact ⟨.use List.mem_cons_self, .text _, nofun⟩
  | .slice start stop step x n => by
    rw [Code.script]
    apply Scoped.call
    simp only [List.forall_mem_cons]
    exact ⟨.use List.mem_cons_self, .option start, .option stop, .option step, nofun⟩
  | .current x n => by
    rw [Code.script]
    exact ((Scoped.some _ _).append (.use List.mem_cons_self)).append (.text _)
  | .literal v x n => by
    rw [Code.script]
    exact ((Scoped.some _ _).append (.text _)).append (.text _)
  | .flatten h => by
    rw [Code.script]
    apply Scoped.call
    rw [List.forall_mem_singleton]
    exact h.scoped config support
  | .objectValues h => by
    rw [Code.script]
    apply Scoped.call
    rw [List.forall_mem_singleton]
    exact h.scoped config support
  | .negation h => by
    have htest := Scoped.truthy support (h.scoped config support)
    rw [Code.script]
    exact ((Scoped.some _ _).append htest).append (.text _)
  | .comparison op hl hr => by
    have hleft := (hl.scoped config support).widen_right hr.le
    have hright := (hr.scoped config support).widen_left hl.le
    rw [Code.script]
    apply Scoped.call
    simp only [List.forall_mem_cons]
    exact ⟨.text _, hleft, hright, nofun⟩
  | .call name h => by
    have hargs := Scoped.separated ", " (h.scoped config support)
    rw [Code.script]
    apply Scoped.call
    simp only [List.forall_mem_cons]
    exact ⟨.text _, hargs.enclosed _ _, nofun⟩
  | @Emits.andThen _ _ x n t n' _ _ hl hr => by
    have ht : t ∈ Set.Ico n n' := ⟨hl.le, hr.le⟩
    have hsource := (hl.scoped config support).widen_right (Nat.le_of_succ_le hr.le)
    have hpresent := Code.scoped_present (Code.scoped_operand hsource)
    have hbody := (hr.scoped config support).behind [x] hl.le
    rw [Code.script]
    exact hpresent.append (.closure _ ht hbody)
  | @Emits.ifSome _ _ x n t n' _ _ hl hr => by
    have ht : t ∈ Set.Ico n n' := ⟨hl.le, hr.le⟩
    have hsource := (hl.scoped config support).widen_right (Nat.le_of_succ_le hr.le)
    have hpresent := Code.scoped_present (Code.scoped_operand hsource)
    have hbody := (hr.scoped config support).behind [x] hl.le
    have hbound := Scoped.bindTemp ht (hpresent.enclosed ") = " " ") hbody.block
    rw [Code.script]
    exact ((Scoped.some _ _).append hbound).elseNone
  | @Emits.letOrNull _ _ _ x n t n' _ _ hl hr => by
    have ht : t ∈ Set.Ico n n' := ⟨hl.le, hr.le⟩
    have hsource := Code.scoped_operand
      ((hl.scoped config support).widen_right (Nat.le_of_succ_le hr.le))
    have hbody := (hr.scoped config support).behind [x] hl.le
    have hbound := Scoped.bindTemp ht
      (hsource.enclosed " = &" (".unwrap_or(" ++ Code.nullText ++ "); ")) hbody
    rw [Code.script]
    exact ((Scoped.text _).append hbound).block
  | .mapItems hl hr => by
    have hle := hl.le
    have hle' := hr.le
    refine Code.scoped_mapItems ?_ ?_
      (Code.scoped_operand ((hl.scoped config support).within List.mem_cons_self ?_)) nofun
      (Code.scoped_operand ((hr.scoped config support).within List.mem_cons_self ?_))
    all_goals simp only [Set.mem_sdiff, Set.mem_Ico, Set.mem_singleton_iff]; omega
  | .mapKept hl hp hr => by
    have hle := hl.le
    have hle' := hp.le
    have hle'' := hr.le
    refine Code.scoped_mapItems ?_ ?_
      (Code.scoped_operand ((hl.scoped config support).within List.mem_cons_self ?_)) ?test
      (Code.scoped_operand ((hr.scoped config support).within List.mem_cons_self ?_))
    case test =>
      rintro _ ⟨⟩
      refine (hp.scoped config support).within List.mem_cons_self ?_
      simp only [Set.mem_sdiff, Set.mem_Ico, Set.mem_singleton_iff]
      omega
    all_goals simp only [Set.mem_sdiff, Set.mem_Ico, Set.mem_singleton_iff]; omega
  | .forItems hl hr => by
    -- the result is numbered after the body that stands in its scope: no interval is left there
    have hle := hl.le
    have hle' := hr.le
    refine Code.scoped_forItems ?_ ?_ ?_ ?_
      (Code.scoped_operand ((hl.scoped config support).within List.mem_cons_self ?_)) nofun
      (Code.scoped_operand ((hr.scoped config support).within List.mem_cons_self ?_))
    all_goals simp only [Set.mem_sdiff, Set.mem_Ico, Set.mem_singleton_iff]; omega
  | .forKept hl hp hr => by
    have hle := hl.le
    have hle' := hp.le
    have hle'' := hr.le
    refine Code.scoped_forItems ?_ ?_ ?_ ?_
      (Code.scoped_operand ((hl.scoped config support).within List.mem_cons_self ?_)) ?test
      (Code.scoped_operand ((hr.scoped config support).within List.mem_cons_self ?_))
    case test =>
      rintro _ ⟨⟩
      refine (hp.scoped config support).within List.mem_cons_self ?_
      simp only [Set.mem_sdiff, Set.mem_Ico, Set.mem_singleton_iff]
      omega
    all_goals simp only [Set.mem_sdiff, Set.mem_Ico, Set.mem_singleton_iff]; omega
  | .mapPresent x h => by
    rw [Code.script]
    refine Code.scoped_presentClosure _ List.mem_cons_self ⟨Nat.le_refl _, h.le⟩ ?_
    apply Scoped.array
    apply Code.scoped_operands
    intro p hp
    exact (h.scoped config support p hp).behind [x] (Nat.le_refl _)
  | .listUnlessNull x h => by
    refine Code.scoped_unlessNull List.mem_cons_self ⟨Nat.le_refl _, h.le⟩ ?_
    apply Code.scoped_list
    apply Code.scoped_operands
    intro p hp
    exact (h.scoped config support p hp).behind [x] (Nat.le_refl _)
  | .andThenPresent x h => by
    have hle := h.le
    rw [Code.script]
    refine Code.scoped_presentClosure _ List.mem_cons_self ?_
      (Code.scoped_object ?_ fun entry hentry ↦ ?_).block
    case refine_3 =>
      apply (h.scoped config support entry hentry).within
        (List.mem_cons_of_mem _ List.mem_cons_self)
      simp only [Set.mem_sdiff, Set.mem_Ico, Set.mem_singleton_iff]
      omega
    all_goals simp only [Set.mem_sdiff, Set.mem_Ico, Set.mem_singleton_iff]; omega
  | .objectUnlessNull x h => by
    have hle := h.le
    refine Code.scoped_unlessNull List.mem_cons_self ?_
      (Code.scoped_object ?_ fun entry hentry ↦ ?_)
    case refine_3 =>
      apply (h.scoped config support entry hentry).within
        (List.mem_cons_of_mem _ List.mem_cons_self)
      simp only [Set.mem_sdiff, Set.mem_Ico, Set.mem_singleton_iff]
      omega
    all_goals simp only [Set.mem_sdiff, Set.mem_Ico, Set.mem_singleton_iff]; omega
  | .orElse hl hr => by
    have hleft := (hl.scoped config support).widen_right hr.le
    have hright := (hr.scoped config support).widen_left hl.le
    have htested := Code.scoped_truthy (Code.scoped_operand hleft)
    rw [Code.script]
    exact ((htested.append (.text _)).append hright).append (.text _)
  | .letIfOr hl hr => by
    have hle := hl.le
    have hle' := hr.le
    have hleft := (hl.scoped config support).widen_right (Nat.le_succ_of_le hr.le)
    refine Code.scoped_letIf ⟨hl.le.trans hr.le, Nat.lt_succ_self _⟩ (Code.scoped_operand hleft)
      (Code.scoped_optional List.mem_cons_self) ?_
    apply (hr.scoped config support).within (List.mem_cons_of_mem _ List.mem_cons_self)
    simp only [Set.mem_sdiff, Set.mem_Ico, Set.mem_singleton_iff]
    omega
  | .letIfAnd hl hr => by
    have hle := hl.le
    have hle' := hr.le
    have hleft := (hl.scoped config support).widen_right (Nat.le_succ_of_le hr.le)
    refine Code.scoped_letIf ⟨hl.le.trans hr.le, Nat.lt_succ_self _⟩ hleft ?_
      (Code.scoped_optional List.mem_cons_self)
    apply (hr.scoped config support).within (List.mem_cons_of_mem _ List.mem_cons_self)
    simp only [Set.mem_sdiff, Set.mem_Ico, Set.mem_singleton_iff]
    omega

theorem EmitsItems.scoped (config : AccessorConfig) (support : String) {style : NullCheck}
    {es : List Expr} {x : Var} {n n' : Nat} {cs : List Code} : EmitsItems style es x n cs n' →
    ∀ p ∈ Code.scripts support cs, Scoped config p [x] (Set.Ico n n')
  | .nil x n => nofun
  | .cons h hs => by
    rw [Code.scripts]
    refine List.forall_mem_cons.2 ⟨?_, fun p hp ↦ ?_⟩
    · exact (h.scoped config support).widen_right hs.le
    · exact (hs.scoped config support p hp).widen_left h.le

theorem EmitsPairs.scoped (config : AccessorConfig) (support : String) {style : NullCheck}
    {ps : List (String × Expr)} {x : Var} {n n' : Nat} {cs : List (String × Code)} :
    EmitsPairs style ps x n cs n' →
    ∀ entry ∈ Code.entryScripts support cs, Scoped config entry.2 [x] (Set.Ico n n')
  | .nil x n => nofun
  | .cons key h hs => by
    rw [Code.entryScripts]
    refine List.forall_mem_cons.2 ⟨?_, fun entry hentry ↦ ?_⟩
    · exact (Code.scoped_operand (h.scoped config support)).widen_right hs.le
    · exact (hs.scoped config support entry hentry).widen_left h.le

end

/-- `CallsHandOut config es n ts`: when accessors for `es` are asked for one after another, the
first with the count `n`, the temporaries `ts` are taken. The count goes on from where it was left,
also by a failure. -/
inductive CallsHandOut (config : AccessorConfig) : List Expr → Nat → List Nat → Prop
  | nil (n : Nat) : CallsHandOut config [] n []
  | cons {e : Expr} {es : List Expr} {n : Nat} {ts us : List Nat} :
    HandsOut (e.accessor config) n ts →
    CallsHandOut config es (count (e.accessor config) n) us →
    CallsHandOut config (e :: es) n (ts ++ us)

namespace CallsHandOut

variable {config : AccessorConfig} {es : List Expr} {n : Nat} {ts : List Nat}

theorem exists_of_calls (config : AccessorConfig) : (es : List Expr) → (n : Nat) →
    ∃ ts, CallsHandOut config es n ts
  | [], n => ⟨[], .nil n⟩
  | e :: es, n => by
    obtain ⟨ts, hts, -⟩ := e.runs_accessor config n
    obtain ⟨us, hus⟩ := exists_of_calls config es (count (e.accessor config) n)
    exact ⟨ts ++ us, .cons hts hus⟩

theorem consecutive (h : CallsHandOut config es n ts) : ts = List.range' n ts.length := by
  induction h with
  | nil n => rfl
  | @cons e es n ts us hts _ ih =>
    obtain ⟨hrange, hcount⟩ := hts.consecutive
    rw [hcount] at ih
    rw [List.length_append, ← List.range'_append_1, ← hrange, ← ih]

/-- No temporary is taken twice. -/
theorem nodup_names (h : CallsHandOut config es n ts) :
    (ts.map (Code.tempText config)).Nodup := by
  rw [h.consecutive]
  exact (List.nodup_range' ..).map (Code.tempText_injective config)

end CallsHandOut

theorem Script.offers_of_input {config : AccessorConfig} {x : Var} {ts : Set Nat}
    (hname : Lexer.isName config.temporaries.toList = true)
    (h : ∀ t ∈ ts, Code.varText config x ≠ Code.tempText config t) :
    Offers config [.ofVar x] [x] ts where
  found y hy := by
    obtain rfl := List.mem_singleton.1 hy
    exact List.find?_cons_of_pos (beq_self_eq_true _)
  bindable t _ := bindable_tempText hname t
  unused t ht b hb := by
    obtain rfl := List.mem_singleton.1 hb
    exact h t ht

/-- Under settings that are accepted, the temporaries of all calls have names of their own, and none
has the name of the input or of a variable that there was before it. The code for an expression
binds only temporaries with numbers from the count before to the count after. Whatever the input is
called, if the code reads from a name that it does not bind itself, then no other name is free in
it, and no name in it is captured if and only if each free name is one that can be bound. -/
theorem Expr.accessors_hygienic (config : AccessorConfig) (hconfig : config.check = .ok ()) :
    (∀ es n, (∃ ts, CallsHandOut config es n ts) ∧ ∀ ts, CallsHandOut config es n ts →
      (ts.map (Code.tempText config)).Nodup ∧ config.input ∉ ts.map (Code.tempText config)) ∧
    (∀ (x : Var) (n t : Nat), x.Before n → n ≤ t →
      Code.varText config x ≠ Code.tempText config t) ∧
    ∀ (e : Expr) (x : Var) (n n' : Nat) (c : Code), e.code config.nullCheck x n = .ok c n' →
      (∀ b ∈ (c.script config.support).binders,
        b = .parameter ∨ ∃ t, n ≤ t ∧ t < n' ∧ b = .ofVar (.temp t)) ∧
      ∀ names : AccessorConfig, names.support = config.support →
        names.temporaries = config.temporaries →
        (c.script config.support).render names = c.text names ∧
        ((∀ t, n ≤ t → t < n' → Code.varText names x ≠ Code.tempText names t) →
          (∀ name ∈ (c.script config.support).free names, name = Code.varText names x) ∧
          ((c.script config.support).Hygienic names [.ofVar x] ↔
            ∀ name ∈ (c.script config.support).free names, Bindable name)) := by
  have htemporaries := (AccessorConfig.check_eq_ok_iff.1 hconfig).1
  refine ⟨fun es n ↦ ⟨CallsHandOut.exists_of_calls config es n, fun ts h ↦ ⟨h.nodup_names, ?_⟩⟩,
    fun x n t hx ht ↦ Code.varText_ne_tempText hconfig hx ht, fun e x n n' c hc ↦ ?_⟩
  · rw [List.mem_map]
    rintro ⟨t, -, ht⟩
    exact Code.input_ne_tempText hconfig t ht.symm
  · have hemits := emits_of_code config.nullCheck hc
    refine ⟨fun b hb ↦ ?_, fun names hsupport hnames ↦ ⟨?_, fun hother ↦ ⟨?_, ?_, ?_⟩⟩⟩
    · obtain hb | ⟨t, ht, hb⟩ := (hemits.scoped config config.support).binders b hb
      · exact .inl hb
      · exact .inr ⟨t, ht.1, ht.2, hb⟩
    · rw [← c.render_script names, hsupport]
    · intro name hname
      obtain ⟨y, hy, rfl⟩ := (hemits.scoped names config.support).free name hname
      rw [List.mem_singleton.1 hy]
    · intro hhygienic name hname
      exact hhygienic.bindable_of_mem_free hname
    · intro hbindable
      have hoffers : Offers names [.ofVar x] [x] (Set.Ico n n') := by
        apply Script.offers_of_input
        · rw [hnames]
          exact htemporaries
        · intro t ht
          exact hother t ht.1 ht.2
      exact (hemits.scoped names config.support).hygienic [.ofVar x] hoffers hbindable

/-- The settings are checked for the form of a name alone, so the input may have the name of a
constructor. -/
theorem Expr.accessors_not_hygienic_of_input_none :
    AccessorConfig.check { input := "None" } = .ok () ∧
      ∃ c, code .explicitIf (.multiSelectList [.field "a"]) .input 0 = .ok c 1 ∧
        c.text { input := "None" } =
          "if None.is_null() \x7b None \x7d else \x7b let jp_0 = None; " ++
            "Some(serde_json::Value::Array(vec![jp_0.get(\"a\").cloned()" ++
              ".unwrap_or(serde_json::Value::Null)])) \x7d" ∧
        ¬ (c.script "jmes_lang::runtime").Hygienic { input := "None" } [.ofVar .input] := by
  have hconfig : AccessorConfig.check { input := "None" } = .ok () := by cbv
  refine ⟨hconfig, _, rfl, by decide +kernel, fun h ↦ ?_⟩
  have hbindable : Bindable "None" := h.bindable_of_mem_free List.mem_cons_self
  exact absurd hbindable (by decide)

/-- The input may have the name of the parameter. -/
theorem Expr.accessors_hygienic_of_input_v :
    AccessorConfig.check { input := "v" } = .ok () ∧
      ∃ c, code .explicitIf (.or .currentNode (.projection (.field "a") .currentNode)) .input 4 =
          .ok c 9 ∧
        (∀ name ∈ (c.script "jmes_lang::runtime").free { input := "v" }, name = "v") ∧
        (c.script "jmes_lang::runtime").Hygienic { input := "v" } [.ofVar .input] := by
  have hconfig : AccessorConfig.check { input := "v" } = .ok () := by cbv
  have hv : Bindable "v" := by decide
  obtain ⟨-, hnames, hcode⟩ := Expr.accessors_hygienic { input := "v" } hconfig
  refine ⟨hconfig, _, rfl, ?_⟩
  have hscript := (hcode (.or .currentNode (.projection (.field "a") .currentNode)) .input 4 9 _
    rfl).2 { input := "v" } rfl rfl
  obtain ⟨hfree, hhygienic⟩ := hscript.2 fun t ht _ ↦ hnames .input 4 t trivial ht
  refine ⟨hfree, hhygienic.2 fun name hname ↦ ?_⟩
  rw [hfree name hname]
  exact hv

end PathQuery
