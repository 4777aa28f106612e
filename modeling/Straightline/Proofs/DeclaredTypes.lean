/-
  Declared types are only ever added.

  The checker may be told anything, in any order.  Its stack may then run out
  of slots, hold tokens where types belong, or be cut short.  For all that, the
  symbol table is written to by declarations alone, and only when nothing can
  go wrong any more: a name without a type may get one, or a new name comes to
  the end.

  * `Symbols.Distinct`: every name has one entry;
  * `Symbols.Grows`: what a declaration can do to a symbol table;
  * `Checker.heed`, `Checker.heedAll`: what the checker makes of any notices;
  * `Checker.Keeps`, `Checker.Declares`: steps that do not touch the symbol
    table, and those that make it grow when they succeed;
  * `Checker.Tabled.heed`, `Checker.Tabled.retains_heedAll`: what a notice and
    a sequence of notices leave of the table;
  * `Checker.declared_types_only_added`: what is refused, what is not, and what
    stays for ever.
-/
import Straightline.Proofs.Notices

namespace Straightline

/-! ## Symbol tables that grow -/

namespace Symbols

variable {s s' : Symbols} {x : String} {type : Option SourceType}

/-- Every name has one entry. -/
def Distinct (s : Symbols) : Prop :=
  (s.entries.map Entry.name).Nodup

/-- A table grows by a declaration: all entries stay in place, but one without
    a type may get one, or there is one more behind them, for a new name. -/
inductive Grows : Symbols → Symbols → Prop where
  | typed (front back : List Entry) (x : String) (type : Option SourceType) :
      Grows ⟨front ++ ⟨x, none⟩ :: back⟩ ⟨front ++ ⟨x, type⟩ :: back⟩
  | added (entries : List Entry) (x : String) (type : Option SourceType) :
      x ∉ entries.map Entry.name → Grows ⟨entries⟩ ⟨entries ++ [⟨x, type⟩]⟩

/-- To add a name that has no entry keeps the names distinct. -/
theorem Distinct.concat {entries : List Entry} (hs : Distinct ⟨entries⟩)
    (hx : x ∉ entries.map Entry.name) : Distinct ⟨entries ++ [⟨x, type⟩]⟩ := by
  rw [Distinct, List.map_append, List.map_singleton, ← List.concat_eq_append]
  exact List.Nodup.concat hx hs

/-- The names before and behind an entry are others. -/
theorem Distinct.notMem_of_split {front back : List Entry}
    (hs : Distinct ⟨front ++ ⟨x, type⟩ :: back⟩) :
    x ∉ front.map Entry.name ∧ x ∉ back.map Entry.name := by
  simp only [Distinct, List.map_append, List.map_cons, List.nodup_append, List.nodup_cons] at hs
  obtain ⟨-, ⟨hback, -⟩, hothers⟩ := hs
  exact ⟨fun hx => hothers x hx x List.mem_cons_self rfl, hback⟩

theorem contains_iff : s.contains x = true ↔ x ∈ s.entries.map Entry.name := by
  simp [contains]

/-- The operations of a table keep its names distinct, so they are distinct in
    every table that is made by these. -/
theorem Distinct.of_operation (hs : s.Distinct)
    (h : s.add x = .ok s' ∨ s.setType x type = .ok s') : s'.Distinct := by
  rcases h with h | h
  · unfold add at h
    split at h
    · cases h
    · next hnew =>
      cases h
      exact hs.concat fun hmem => hnew (contains_iff.2 hmem)
  · unfold setType at h
    split at h
    · cases h
      have hnames : (s.retype x type).entries.map Entry.name = s.entries.map Entry.name := by
        rw [retype, List.map_map]
        refine List.map_congr_left fun e _ => ?_
        rw [Function.comp_apply]
        split <;> rfl
      rw [Distinct, hnames]
      exact hs
    · cases h

theorem Grows.distinct (h : s.Grows s') (hs : s.Distinct) : s'.Distinct := by
  cases h with
  | typed front back x type => simpa [Distinct] using hs
  | added entries x type hx => exact hs.concat hx

/-- An entry with a type stays as it is and where it is. -/
theorem Grows.getElem? (h : s.Grows s') {k : Nat} {t : SourceType}
    (hk : s.entries[k]? = some ⟨x, some t⟩) : s'.entries[k]? = some ⟨x, some t⟩ := by
  cases h with
  | typed front back y type =>
    -- The entry that gets a type had none, so it is another one.
    rw [List.getElem?_append] at hk ⊢
    split at hk
    · next hlt => rwa [if_pos hlt]
    · next hlt =>
      rw [if_neg hlt]
      cases hindex : k - front.length with
      | zero =>
        rw [hindex] at hk
        cases hk
      | succ j =>
        rw [hindex] at hk
        exact hk
  | added entries y type hy =>
    rw [List.getElem?_append_left (List.getElem?_eq_some_iff.1 hk).1]
    exact hk

/-- Entries of other names are left alone. -/
theorem map_retype_of_notMem {entries : List Entry} (h : x ∉ entries.map Entry.name) :
    entries.map (fun e => if e.name = x then ⟨e.name, type⟩ else e) = entries := by
  refine (List.map_congr_left fun e he => ?_).trans (List.map_id _)
  have hne : e.name ≠ x := by
    rintro rfl
    exact h (List.mem_map_of_mem he)
  rw [if_neg hne, id]

/-- **To declare a name without a type makes a table grow.** -/
theorem grows_declare (hs : s.Distinct) (hx : s.typeOf? x = none) (type : Option SourceType) :
    s.Grows ((s.register x).retype x type) := by
  obtain ⟨entries⟩ := s
  by_cases hcontains : (Symbols.mk entries).contains x = true
  · rw [register, if_pos hcontains]
    obtain ⟨⟨y, type'⟩, hmem, rfl⟩ := List.mem_map.1 (contains_iff.1 hcontains)
    obtain ⟨front, back, rfl⟩ := List.append_of_mem hmem
    obtain ⟨hfront, hback⟩ := hs.notMem_of_split
    have hfind : front.find? (·.name = y) = none := by
      rw [List.find?_eq_none]
      intro e he heq
      exact hfront (List.mem_map.2 ⟨e, he, by simpa using heq⟩)
    obtain rfl : type' = none := by
      simpa [typeOf?, get?, List.find?_append, hfind] using hx
    rw [retype, List.map_append, List.map_cons, map_retype_of_notMem hfront,
      map_retype_of_notMem hback, if_pos rfl]
    exact .typed front back y type
  · have hnew : x ∉ entries.map Entry.name := fun hmem => hcontains (contains_iff.2 hmem)
    rw [register, if_neg hcontains, retype, append, List.map_append, List.map_singleton,
      map_retype_of_notMem hnew, if_pos rfl]
    exact .added entries x type hnew

end Symbols

/-! ## Steps of the checker -/

namespace Checker

/-- What the checker does with a notice. -/
def heed : Notice → Step Unit
  | .shift token => shift token
  | .reduce ref => reduce ref
  | .accept => pure ()

/-- The checker after some notices, those included that it refused. -/
def heedAll (c : Checker) (notices : List Notice) : Checker :=
  Attempt.afterEach heed c notices

variable {α β : Type} {c : Checker} {s : Symbols}

/-- A step leaves the symbol table as it was. -/
def Keeps (m : Step α) : Prop :=
  ∀ c, (m.exec c).2.symbols = c.symbols

/-- A step leaves the symbol table as it was, or it succeeds and makes the
    table grow. -/
def Declares (m : Step Unit) : Prop :=
  ∀ c, (m.exec c).2.symbols = c.symbols ∨
    ∃ s s', c.symbols = some s ∧ (m.exec c).1 = .ok () ∧ (m.exec c).2.symbols = some s' ∧
      (s.Distinct → s.Grows s')

theorem Keeps.bind {m : Step α} {f : α → Step β} (hm : Keeps m) (hf : ∀ a, Keeps (f a)) :
    Keeps (m >>= f) := by
  intro c
  have hfirst := hm c
  rw [Attempt.exec_bind]
  rcases hout : m.exec c with ⟨e | a, c₁⟩
  · rw [hout] at hfirst
    exact hfirst
  · rw [hout] at hfirst
    exact (hf a c₁).trans hfirst

/-- What comes before a declaration does not touch the table. -/
theorem Keeps.declares {m : Step α} {f : α → Step Unit} (hm : Keeps m)
    (hf : ∀ a, Declares (f a)) : Declares (m >>= f) := by
  intro c
  have hfirst := hm c
  rw [Attempt.exec_bind]
  rcases hout : m.exec c with ⟨e | a, c₁⟩
  · rw [hout] at hfirst
    exact .inl hfirst
  · rw [hout] at hfirst
    have hrest := hf a c₁
    rw [show c₁.symbols = c.symbols from hfirst] at hrest
    exact hrest

theorem keeps_push (slot : Slot) : Keeps (push slot) :=
  fun _ => rfl

theorem keeps_drop (n : Nat) : Keeps (drop n) :=
  fun _ => rfl

theorem keeps_slotAt (n : Nat) : Keeps (slotAt n) := by
  intro c
  rw [slotAt, Attempt.exec_bind, Attempt.exec_get]
  dsimp only
  cases c.stack[n]? <;> rfl

/-- A look-up finds the table and a name, or it is refused. -/
theorem exec_lookUp_cases (slot : Slot) (c : Checker) :
    (∃ e, (lookUp slot).exec c = (.error e, c)) ∨
      ∃ s name, c.symbols = some s ∧ (lookUp slot).exec c = (.ok (s, name), c) := by
  obtain ⟨stack, symbols⟩ := c
  obtain ⟨token, type⟩ := slot
  cases symbols with
  | none => exact .inl ⟨_, rfl⟩
  | some s =>
    cases token with
    | none => exact .inl ⟨_, rfl⟩
    | some name => exact .inr ⟨s, name, rfl, rfl⟩

theorem keeps_lookUp (slot : Slot) : Keeps (lookUp slot) := by
  intro c
  rcases exec_lookUp_cases slot c with ⟨e, hexec⟩ | ⟨s, name, -, hexec⟩
  · rw [hexec]
  · rw [hexec]

theorem keeps_requireDeclared (slot : Slot) : Keeps (requireDeclared slot) := by
  refine (keeps_lookUp slot).bind fun found => ?_
  obtain ⟨symbols, name⟩ := found
  dsimp only
  cases symbols.typeOf? name.value <;> exact fun _ => rfl

/-- **A declaration writes last**: it has looked up all it needs by then. -/
theorem declares_declare (slot : Slot) (type : Option SourceType) :
    Declares (do declare slot type; push {}) := by
  intro c
  rw [declare, bind_assoc, Attempt.exec_bind]
  rcases exec_lookUp_cases slot c with ⟨e, hexec⟩ | ⟨s, name, hsymbols, hexec⟩
  · rw [hexec]
    exact .inl rfl
  · rw [hexec]
    cases htype : s.typeOf? name.value with
    | some type' =>
      simp only [htype]
      exact .inl rfl
    | none =>
      simp only [htype]
      exact .inr ⟨s, _, hsymbols, rfl, rfl, fun hs => Symbols.grows_declare hs htype type⟩

theorem keeps_reduceBy {p : Production} (hp : p ≠ .declaration) : Keeps (reduceBy p) := by
  have hplain : Keeps (do drop p.body.length; push {}) :=
    (keeps_drop _).bind fun _ => keeps_push {}
  cases p with
  | declaration => exact absurd rfl hp
  | intType =>
    exact (keeps_slotAt 0).bind fun slot => (keeps_drop 1).bind fun _ => keeps_push _
  | assignment =>
    exact (keeps_slotAt 2).bind fun slot => (keeps_requireDeclared slot).bind fun _ => hplain
  | factorName =>
    exact (keeps_slotAt 0).bind fun slot => (keeps_requireDeclared slot).bind fun _ => hplain
  | program | statementsMore | statementsLast | returnValue | add | sub | expressionTerm | mul
  | termFactor | parentheses | factorConstant => exact hplain

theorem declares_declaration : Declares (reduceBy .declaration) :=
  (keeps_slotAt 0).declares fun name => (keeps_slotAt 1).declares fun type =>
    (keeps_drop 2).declares fun _ => declares_declare name type.type

/-- Only a declaration may do more than to keep the table. -/
theorem keeps_heed {notice : Notice} (h : notice ≠ .reduce (.production .declaration)) :
    Keeps (heed notice) := by
  cases notice with
  | shift token => exact keeps_push _
  | reduce ref =>
    cases ref with
    | production p => exact keeps_reduceBy fun hp => h (by rw [hp])
    | number n => exact fun _ => rfl
    | name text => exact fun _ => rfl
    | nothing => exact fun _ => rfl
  | accept => exact fun _ => rfl

/-! ## Notices -/

/-- The checker has a symbol table in which every name has one entry. -/
def Tabled (s : Symbols) (c : Checker) : Prop :=
  c.symbols = some s ∧ s.Distinct

/-- **A notice leaves the table as it was, or it is a declaration that makes it
    grow.** -/
theorem Tabled.heed (h : Tabled s c) (notice : Notice) :
    ((heed notice).exec c).2.symbols = some s ∨
      notice = .reduce (.production .declaration) ∧ ((heed notice).exec c).1 = .ok () ∧
        ∃ s', ((heed notice).exec c).2.symbols = some s' ∧ s.Grows s' := by
  by_cases hnotice : notice = .reduce (.production .declaration)
  · subst hnotice
    rcases declares_declaration c with hsame | ⟨s₀, s', hs₀, hok, hs', hgrows⟩
    · exact .inl (hsame.trans h.1)
    · cases hs₀.symm.trans h.1
      exact .inr ⟨rfl, hok, s', hs', hgrows h.2⟩
  · exact .inl ((keeps_heed hnotice c).trans h.1)

/-- The checker has a symbol table with distinct names and all entries with
    types that another table has. -/
def Retains (s : Symbols) (c : Checker) : Prop :=
  ∃ s', Tabled s' c ∧ ∀ (k : Nat) (x : String) (t : SourceType),
    s.entries[k]? = some ⟨x, some t⟩ → s'.entries[k]? = some ⟨x, some t⟩

theorem Retains.heed (h : Retains s c) (notice : Notice) :
    Retains s ((heed notice).exec c).2 := by
  obtain ⟨s₁, h₁, hkept⟩ := h
  rcases h₁.heed notice with hsame | ⟨-, -, s', hs', hgrows⟩
  · exact ⟨s₁, ⟨hsame, h₁.2⟩, hkept⟩
  · exact ⟨s', ⟨hs', hgrows.distinct h₁.2⟩, fun k x t hk => hgrows.getElem? (hkept k x t hk)⟩

/-- After any more notices there is a table with all entries that had types. -/
theorem Tabled.retains_heedAll (h : Tabled s c) (notices : List Notice) :
    Retains s (heedAll c notices) := by
  have hstart : Retains s c := ⟨s, h, fun _ _ _ => id⟩
  exact Attempt.afterEach_invariant hstart (fun _ notice hc => hc.heed notice) notices

/-- **Declared types are only ever added.**  Take a symbol table in which every
    name has one entry, and a checker with any slots that has heard any
    notices, those included that it refused.  It has a symbol table then, and:

    * a notice that it refuses leaves this table exactly as it was;
    * so does one that it does not refuse, unless it is a reduction to a
      declaration; then all entries may stay as they were, or one of them that
      had no type may get one, or one entry is added behind the others, for a
      name that had none;
    * an entry of type `int` is at its place with this type after any more
      notices. -/
theorem declared_types_only_added {symbols : Symbols} (hsymbols : symbols.Distinct)
    (stack : List Slot) (notices : List Notice) :
    let c := heedAll ⟨stack, some symbols⟩ notices
    ∃ s, c.symbols = some s ∧
      (∀ notice e c', (heed notice).exec c = (.error e, c') → c'.symbols = some s) ∧
      (∀ notice u c', (heed notice).exec c = (.ok u, c') →
        c'.symbols = some s ∨ notice = .reduce (.production .declaration) ∧
          ∃ s', c'.symbols = some s' ∧ s.Grows s') ∧
      ∀ (k : Nat) (x : String), s.entries[k]? = some ⟨x, some .int⟩ → ∀ more,
        ∃ s', (heedAll c more).symbols = some s' ∧ s'.entries[k]? = some ⟨x, some .int⟩ := by
  intro c
  have hstart : Tabled symbols ⟨stack, some symbols⟩ := ⟨rfl, hsymbols⟩
  obtain ⟨s, hs, -⟩ := hstart.retains_heedAll notices
  refine ⟨s, hs.1, fun notice e c' h => ?_, fun notice u c' h => ?_, fun k x hk more => ?_⟩
  · rcases hs.heed notice with hsame | ⟨-, hok, -⟩
    · rwa [h] at hsame
    · rw [h] at hok
      cases hok
  · rcases hs.heed notice with hsame | ⟨hnotice, -, s', hs', hgrows⟩
    · rw [h] at hsame
      exact .inl hsame
    · rw [h] at hs'
      exact .inr ⟨hnotice, s', hs', hgrows⟩
  · obtain ⟨s', hs', hkept⟩ := hs.retains_heedAll more
    exact ⟨s', hs'.1, hkept k x .int hk⟩

/-- No text leads to these notices.  First a name stands where a type should,
    and another one is added without a type.  Then a name is declared that has
    a type: its slots are gone, but the table is as it was.  Afterwards the name
    between these two is declared. -/
theorem declared_types_only_added_redeclared :
    let name (x : String) : Notice := .shift ⟨.identifier, x, {}⟩
    let type : List Notice := [.shift ⟨.intWord, "", {}⟩, .reduce (.production .intType)]
    let declaration : Notice := .reduce (.production .declaration)
    let table : Symbols := ⟨[⟨"x", some .int⟩, ⟨"y", none⟩]⟩
    let c := heedAll ⟨[], some table⟩ ([name "a", name "z", declaration] ++ type ++ [name "x"])
    let more := [declaration] ++ type ++ [name "y", declaration]
    c.symbols = some ⟨table.entries ++ [⟨"z", none⟩]⟩ ∧
      (∃ e c', (heed declaration).exec c = (.error e, c') ∧ c'.stack.length < c.stack.length ∧
        c'.symbols = c.symbols) ∧
      (heedAll c more).symbols = some ⟨[⟨"x", some .int⟩, ⟨"y", some .int⟩, ⟨"z", none⟩]⟩ ∧
      ∃ s', (heedAll c more).symbols = some s' ∧ s'.entries[0]? = some ⟨"x", some .int⟩ := by
  intro name type declaration table c more
  have hc : c.symbols = some ⟨table.entries ++ [⟨"z", none⟩]⟩ := by decide +kernel
  have hrefused : (heed declaration).exec c =
      (.error (.redeclared ⟨.identifier, "x", {}⟩), ((heed declaration).exec c).2) := by
    decide +kernel
  obtain ⟨s, hs, hkept, -, hstays⟩ := declared_types_only_added
    (show table.Distinct by unfold Symbols.Distinct; decide) []
    ([name "a", name "z", declaration] ++ type ++ [name "x"])
  obtain rfl := Option.some.inj (hs.symm.trans hc)
  refine ⟨hc, ⟨_, _, hrefused, by decide +kernel, ?_⟩, by decide +kernel, hstays 0 "x" rfl more⟩
  exact (hkept declaration _ _ hrefused).trans hc.symm

end Checker

end Straightline
