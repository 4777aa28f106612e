/-
  The checker follows the tree.

  Over the post-order of a tree the checker gives the declared names a type,
  and makes sure that a name has one where it is assigned or read.

  * `Symbols.typeOf?_declare`: a declaration types its name and no other;
  * `Checker.exec_reduceBy`: a reduction that succeeds, case by case;
  * `Tree.exec_checker`: the actions of a whole tree;
  * `ProgramTree.mem_declared_of_uses`: from a table without types, every name
    in use is declared.
-/
import Straightline.Declarations
import Straightline.Proofs.Phrase

namespace Straightline

/-! ## Types of names -/

namespace Symbols

/-- Whether a name has a type. -/
def Typed (s : Symbols) (x : String) : Prop :=
  (s.typeOf? x).isSome = true

theorem get?_retype (s : Symbols) (name x : String) (type : Option SourceType) :
    (s.retype name type).get? x =
      (s.get? x).map fun e => if e.name = name then ⟨e.name, type⟩ else e := by
  simp only [get?, retype, List.find?_map]
  congr 2
  funext e
  simp only [Function.comp_apply]
  split <;> rfl

theorem typeOf?_register (s : Symbols) (name x : String) :
    (s.register name).typeOf? x = s.typeOf? x := by
  unfold register
  split
  · rfl
  · simp only [typeOf?, get?, append, List.find?_append]
    cases s.entries.find? (·.name = x) with
    | some e => rfl
    | none => by_cases h : name = x <;> simp [h]

theorem exists_get?_register (s : Symbols) (name : String) :
    ∃ e, (s.register name).get? name = some e := by
  rw [← Option.isSome_iff_exists]
  unfold register
  split
  · next h => simpa [contains, get?, List.find?_isSome] using h
  · simp [append, get?, List.find?_append]

/-- A declaration types its name and no other. -/
theorem typeOf?_declare (s : Symbols) (name x : String) (type : Option SourceType) :
    ((s.register name).retype name type).typeOf? x =
      if x = name then type else s.typeOf? x := by
  rw [← typeOf?_register s name x]
  split
  · next h =>
    obtain ⟨e, he⟩ := exists_get?_register s name
    have hname : e.name = name := by simpa using List.find?_some he
    simp [typeOf?, get?_retype, h, he, hname]
  · next h =>
    rw [typeOf?, typeOf?, get?_retype]
    cases he : (s.register name).get? x with
    | none => rfl
    | some e =>
      have hname : e.name = x := by simpa using List.find?_some he
      simp [hname, h]

theorem typed_declare {s : Symbols} {name x : String} {type : SourceType} :
    ((s.register name).retype name (some type)).Typed x ↔ x = name ∨ s.Typed x := by
  rw [Typed, typeOf?_declare]
  split
  · next h => simp [h]
  · next h => simp [h, Typed]

end Symbols

/-! ## Single actions -/

/-- The slot that the checker keeps for a phrase. -/
def Symbol.checkSlot : (s : Symbol) → s.Phrase → Checker.Slot
  | .terminal kind, token => ⟨some token, if kind = .intWord then some .int else none⟩
  | .nonterminal .typeName, _ => ⟨none, some .int⟩
  | .nonterminal _, _ => {}

/-- The slots that the checker keeps for some phrases, top first. -/
def Phrases.checkSlots : (xs : List Symbol) → Phrases xs → List Checker.Slot
  | [], _ => []
  | s :: xs, (phrase, others) => checkSlots xs others ++ [s.checkSlot phrase]

/-- What a successful reduction says of the symbol tables before and after
    it: a declared name had no type and gets one, an assigned or read name
    has one. -/
def Production.Checked (before after : Symbols) : (p : Production) → Phrases p.body → Prop
  | .declaration, (_, name, _) =>
    before.typeOf? name.value = none ∧
      after = (before.register name.value).retype name.value (some .int)
  | .assignment, (name, _) | .factorName, (name, _) =>
    before.Typed name.value ∧ after = before
  | _, _ => after = before

namespace Checker

variable {c c' : Checker} {slot : Slot} {name : Token} {symbols : Symbols} {u : Unit}

theorem exec_lookUp (hslot : slot.token = some name) (hsymbols : c.symbols = some symbols) :
    (lookUp slot).exec c = (.ok (symbols, name), c) := by
  simp only [lookUp, Attempt.exec_bind, Attempt.exec_get, hslot, hsymbols]
  rfl

theorem exec_requireDeclared (hslot : slot.token = some name) (hsymbols : c.symbols = some symbols)
    (h : (requireDeclared slot).exec c = (.ok u, c')) : symbols.Typed name.value ∧ c' = c := by
  rw [requireDeclared, Attempt.exec_bind, exec_lookUp hslot hsymbols] at h
  cases htype : symbols.typeOf? name.value with
  | none =>
    simp only [htype] at h
    cases h
  | some type =>
    simp only [htype] at h
    cases h
    exact ⟨by simp [Symbols.Typed, htype], rfl⟩

theorem exec_declare {type : Option SourceType} (hslot : slot.token = some name)
    (hsymbols : c.symbols = some symbols) (h : (declare slot type).exec c = (.ok u, c')) :
    symbols.typeOf? name.value = none ∧
      c' = ⟨c.stack, some ((symbols.register name.value).retype name.value type)⟩ := by
  rw [declare, Attempt.exec_bind, exec_lookUp hslot hsymbols] at h
  cases htype : symbols.typeOf? name.value with
  | none =>
    simp only [htype] at h
    cases h
    exact ⟨rfl, rfl⟩
  | some type =>
    simp only [htype] at h
    cases h

theorem exec_required (n : Nat) (slot : Slot) (hslot : slot.token = some name)
    (stack : List Slot)
    (h : (requireDeclared slot >>= fun _ => drop n >>= fun _ => push {}).exec
      ⟨stack, some symbols⟩ = (.ok u, c')) :
    symbols.Typed name.value ∧ c' = ⟨{} :: discard n stack, some symbols⟩ := by
  obtain ⟨_, c₁, hrequire, hpush⟩ := Attempt.exec_bind_eq_ok h
  obtain ⟨htyped, rfl⟩ := exec_requireDeclared hslot rfl hrequire
  cases hpush
  exact ⟨htyped, rfl⟩

/-- A reduction puts the slot of the head in place of those of the body. -/
theorem exec_reduceBy {rest : List Slot} : ∀ (p : Production) (phrases : Phrases p.body),
    (reduceBy p).exec ⟨Phrases.checkSlots p.body phrases ++ rest, some symbols⟩ = (.ok u, c') →
    ∃ symbols', p.Checked symbols symbols' phrases ∧
      c' = ⟨Symbol.checkSlot (.nonterminal p.head) (p.build phrases) :: rest, some symbols'⟩
  | .declaration, (_, name, _), h => by
    obtain ⟨_, c₁, hdeclare, hpush⟩ := Attempt.exec_bind_eq_ok
      (show ((declare ⟨some name, none⟩ (some .int)) >>= fun _ => push {}).exec
        ⟨rest, some symbols⟩ = (.ok u, c') from h)
    obtain ⟨hnone, rfl⟩ := exec_declare rfl rfl hdeclare
    cases hpush
    exact ⟨_, ⟨hnone, rfl⟩, rfl⟩
  | .assignment, (name, sign, e, last), h => by
    obtain ⟨htyped, rfl⟩ := exec_required 3 ⟨some name, none⟩ rfl
      (Phrases.checkSlots Production.assignment.body (name, sign, e, last) ++ rest) h
    exact ⟨symbols, ⟨htyped, rfl⟩, rfl⟩
  | .factorName, (name, last), h => by
    obtain ⟨htyped, rfl⟩ := exec_required 1 ⟨some name, none⟩ rfl
      (Phrases.checkSlots Production.factorName.body (name, last) ++ rest) h
    exact ⟨symbols, ⟨htyped, rfl⟩, rfl⟩
  | .intType, (_, _), h | .program, (_, _), h | .expressionTerm, (_, _), h
  | .termFactor, (_, _), h | .factorConstant, (_, _), h => by
    cases h
    exact ⟨_, rfl, rfl⟩
  | .statementsLast, (_, _, _), h | .returnValue, (_, _, _), h => by
    cases h
    exact ⟨_, rfl, rfl⟩
  | .statementsMore, (_, _, _, _), h | .add, (_, _, _, _), h | .sub, (_, _, _, _), h
  | .mul, (_, _, _, _), h | .parentheses, (_, _, _, _), h => by
    cases h
    exact ⟨_, rfl, rfl⟩

end Checker

/-! ## Names in use and declared names -/

/-- Whether a variable is read or assigned inside a phrase; a name alone is
    not in use yet. -/
def Symbol.UsesInside (x : String) : (s : Symbol) → s.Phrase → Prop
  | .terminal _, _ => False
  | .nonterminal n, phrase => Symbol.Uses x (.nonterminal n) phrase

@[inherit_doc Symbol.UsesInside]
def Phrases.UsesInside (x : String) : (xs : List Symbol) → Phrases xs → Prop
  | [], _ => False
  | s :: xs, (phrase, others) => s.UsesInside x phrase ∨ Phrases.UsesInside x xs others

/-- Whether a phrase declares a name. -/
def Symbol.Declares (x : String) : (s : Symbol) → s.Phrase → Prop
  | .nonterminal .goal, p | .nonterminal .program, p | .nonterminal .statements, p =>
    x ∈ Program.declared p
  | .nonterminal .statement, s => x ∈ Program.declared [s]
  | _, _ => False

@[inherit_doc Symbol.Declares]
def Phrases.Declares (x : String) : (xs : List Symbol) → Phrases xs → Prop
  | [], _ => False
  | s :: xs, (phrase, others) => s.Declares x phrase ∨ Phrases.Declares x xs others

theorem Program.mem_declared_cons {x : String} {s : Statement} {p : Program} :
    x ∈ declared (s :: p) ↔ x ∈ declared [s] ∨ x ∈ declared p := by
  cases s <;> simp [declared]

namespace Production

variable {before after : Symbols} {x : String}

theorem declares_build : ∀ (p : Production) (phrases : Phrases p.body),
    Phrases.Declares x p.body phrases → Symbol.Declares x (.nonterminal p.head) (p.build phrases)
  | .program, (_, _), h => h.resolve_right id
  | .statementsMore, (_, _, _, _), h => Program.mem_declared_cons.2
    (h.imp_right fun h => (h.resolve_left id).resolve_right id)
  | .statementsLast, (_, _, _), h => h.resolve_right fun h => h.elim id id
  | .declaration, _, h | .returnValue, _, h => by rcases h with h | h | h <;> cases h
  | .intType, _, h => by rcases h with h | h <;> cases h
  | .assignment, _, h => by rcases h with h | h | h | h <;> cases h
  | .add, _, h | .sub, _, h | .mul, _, h | .parentheses, _, h => by
    rcases h with h | h | h | h <;> cases h
  | .expressionTerm, _, h | .termFactor, _, h | .factorName, _, h | .factorConstant, _, h => by
    rcases h with h | h <;> cases h

/-- The symbol table changes by the declaration of a name only. -/
theorem Checked.eq_or_declares : ∀ (p : Production) (phrases : Phrases p.body),
    p.Checked before after phrases → after = before ∨
      ∃ name, after = (before.register name).retype name (some .int) ∧
        Symbol.Declares name (.nonterminal p.head) (p.build phrases)
  | .declaration, (_, name, _), h => .inr ⟨name.value, h.2, List.mem_singleton_self _⟩
  | .assignment, (_, _, _, _), h => .inl h.2
  | .factorName, (_, _), h => .inl h.2
  | .program, _, h | .statementsMore, _, h | .statementsLast, _, h | .intType, _, h
  | .returnValue, _, h | .add, _, h | .sub, _, h | .expressionTerm, _, h | .mul, _, h
  | .termFactor, _, h | .parentheses, _, h | .factorConstant, _, h => .inl h

/-- A name in use is in use further inside, or its type was looked up. -/
theorem Checked.typed_of_uses : ∀ (p : Production) (phrases : Phrases p.body),
    p.Checked before after phrases →
    Symbol.Uses x (.nonterminal p.head) (p.build phrases) →
      Phrases.UsesInside x p.body phrases ∨ after.Typed x
  | .program, (_, _), _, h | .expressionTerm, (_, _), _, h | .termFactor, (_, _), _, h =>
    .inl (.inl h)
  | .statementsMore, (_, _, _, _), _, h =>
    .inl ((Bool.or_eq_true_iff.1 h).imp_right fun h => .inr (.inl h))
  | .statementsLast, (_, _, _), _, h => .inl ((Bool.or_eq_true_iff.1 h).imp_right nofun)
  | .assignment, (name, _, _, _), hchecked, h => by
    obtain ⟨htyped, rfl⟩ := hchecked
    rcases Bool.or_eq_true_iff.1 h with h | h
    · exact .inr (of_decide_eq_true h ▸ htyped)
    · exact .inl (.inr (.inr (.inl h)))
  | .returnValue, (_, _, _), _, h | .parentheses, (_, _, _, _), _, h => .inl (.inr (.inl h))
  | .add, (_, _, _, _), _, h | .sub, (_, _, _, _), _, h | .mul, (_, _, _, _), _, h =>
    .inl ((Bool.or_eq_true_iff.1 h).imp_right fun h => .inr (.inl h))
  | .factorName, (name, _), hchecked, h => by
    obtain ⟨htyped, rfl⟩ := hchecked
    exact .inr (of_decide_eq_true h ▸ htyped)
  | .declaration, _, _, h | .intType, _, _, h | .factorConstant, _, _, h => by cases h

end Production

/-! ## Trees -/

/-- What the checker makes sure of between two symbol tables: names keep their
    types, only declared names get one, and names in use have one in the end. -/
structure Scope (before after : Symbols) (uses declares : String → Prop) : Prop where
  keeps : ∀ x, before.Typed x → after.Typed x
  types : ∀ x, after.Typed x → before.Typed x ∨ declares x
  finds : ∀ x, uses x → after.Typed x

namespace Scope

variable {a b c : Symbols} {uses uses' declares declares' : String → Prop}

theorem trans (h : Scope a b uses declares) (h' : Scope b c uses' declares') :
    Scope a c (fun x => uses x ∨ uses' x) (fun x => declares x ∨ declares' x) where
  keeps x hx := h'.keeps x (h.keeps x hx)
  types x hx := by
    rcases h'.types x hx with hx | hx
    · exact (h.types x hx).imp_right .inl
    · exact .inr (.inr hx)
  finds x hx := hx.elim (fun hx => h'.keeps x (h.finds x hx)) (h'.finds x)

/-- A reduction after what its body stands for. -/
theorem build {p : Production} {phrases : Phrases p.body}
    (h : Scope a b (Phrases.UsesInside · p.body phrases) (Phrases.Declares · p.body phrases))
    (hp : p.Checked b c phrases) :
    Scope a c (Symbol.UsesInside · (.nonterminal p.head) (p.build phrases))
      (Symbol.Declares · (.nonterminal p.head) (p.build phrases)) := by
  have hkeeps : ∀ x, b.Typed x → c.Typed x := by
    intro x hx
    rcases hp.eq_or_declares with rfl | ⟨name, rfl, -⟩
    · exact hx
    · exact Symbols.typed_declare.2 (.inr hx)
  have hbefore : ∀ x, b.Typed x →
      a.Typed x ∨ Symbol.Declares x (.nonterminal p.head) (p.build phrases) :=
    fun x hx => (h.types x hx).imp_right (p.declares_build phrases)
  refine ⟨fun x hx => hkeeps x (h.keeps x hx), fun x hx => ?_, fun x hx => ?_⟩
  · rcases hp.eq_or_declares with rfl | ⟨name, rfl, hname⟩
    · exact hbefore x hx
    · rcases Symbols.typed_declare.1 hx with rfl | hx
      · exact .inr hname
      · exact hbefore x hx
  · exact (hp.typed_of_uses p phrases hx).elim (fun hx => hkeeps x (h.finds x hx)) id

end Scope

mutual

/-- **The checker follows the tree**: it types the names that the tree
    declares and finds a type for those it uses. -/
theorem Tree.exec_checker {s : Symbol} : ∀ (t : Tree s) {stack : List Checker.Slot}
    {before : Symbols} {c' : Checker} {u : Unit},
    (forM t.events Checker.handle).exec ⟨stack, some before⟩ = (.ok u, c') →
      ∃ after, c' = ⟨s.checkSlot t.phrase :: stack, some after⟩ ∧
        Scope before after (s.UsesInside · t.phrase) (s.Declares · t.phrase)
  | .leaf token, stack, before, c', u, h => by
    cases h
    exact ⟨before, rfl, fun _ hx => hx, fun _ hx => .inl hx, nofun⟩
  | .node p children, stack, before, c', u, h => by
    rw [Tree.events, List.forM_append] at h
    obtain ⟨_, c₁, hchildren, h⟩ := Attempt.exec_bind_eq_ok h
    obtain ⟨between, rfl, hscope⟩ := children.exec_checker hchildren
    obtain ⟨_, c₂, hreduce, hdone⟩ := Attempt.exec_bind_eq_ok h
    obtain ⟨after, hchecked, rfl⟩ := Checker.exec_reduceBy p children.phrases hreduce
    cases hdone
    exact ⟨after, rfl, hscope.build hchecked⟩

@[inherit_doc Tree.exec_checker]
theorem Forest.exec_checker {xs : List Symbol} : ∀ (f : Forest xs) {stack : List Checker.Slot}
    {before : Symbols} {c' : Checker} {u : Unit},
    (forM f.events Checker.handle).exec ⟨stack, some before⟩ = (.ok u, c') →
      ∃ after, c' = ⟨Phrases.checkSlots xs f.phrases ++ stack, some after⟩ ∧
        Scope before after (Phrases.UsesInside · xs f.phrases) (Phrases.Declares · xs f.phrases)
  | .nil, stack, before, c', u, h => by
    cases h
    exact ⟨before, rfl, fun _ hx => hx, fun _ hx => .inl hx, nofun⟩
  | .cons tree others, stack, before, c', u, h => by
    rw [Forest.events, List.forM_append] at h
    obtain ⟨_, c₁, htree, h⟩ := Attempt.exec_bind_eq_ok h
    obtain ⟨between, rfl, hscope⟩ := tree.exec_checker htree
    obtain ⟨after, rfl, hscope'⟩ := others.exec_checker h
    refine ⟨after, ?_, hscope.trans hscope'⟩
    simp [Phrases.checkSlots, Forest.phrases]

end

end Straightline
