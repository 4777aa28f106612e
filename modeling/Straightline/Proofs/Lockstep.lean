/-
  Stacks in step.

  The emitter and the checker keep stacks of their own beside the stack of a
  run, and take slots off and put slots on by rules of their own.  At every
  head of the loop they have put one slot on for each symbol on the stack of
  the run, whatever they held at the start.

  * `Emitter.Represents`: what a slot of the emitter holds for a symbol;
  * `Constituent.checkSlot`: the slot of the checker for a constituent;
  * `Emitter.InStep.handle`, `Checker.outcome_handle`: what comes of an action
    that fits the stack;
  * `stacks_in_step`: the stacks of a whole audience at every head.
-/
import Mathlib.Data.List.Forall2
import Straightline.Audience
import Straightline.Proofs.Constituents

namespace Straightline

namespace Constituent

theorem exists_token {c : Constituent} {kind : Terminal} (h : c.symbol = .terminal kind) :
    ∃ t, c = .token t ∧ t.kind = kind := by
  cases c with
  | token t => exact ⟨t, rfl, Symbol.terminal.inj h⟩
  | phrase n => cases h

theorem eq_phrase {c : Constituent} {n : Nonterminal} (h : c.symbol = .nonterminal n) :
    c = .phrase n := by
  cases c with
  | token t => cases h
  | phrase n' => rw [Symbol.nonterminal.inj h]

/-- A reduction that fits finds its body on top of the stack. -/
theorem Admits.exists_split {stack : List Constituent} {p : Production}
    (h : Admits stack (.reduce p)) :
    ∃ front rest, stack = front ++ rest ∧ front.map symbol = p.body.reverse ∧
      after stack (.reduce p) = .phrase p.head :: rest :=
  ⟨_, _, (List.take_append_drop p.body.length stack).symm, h, rfl⟩

end Constituent

/-! ## The emitter -/

namespace Emitter

/-- Whether a slot is one for a symbol: an identifier has a variable, a
    constant and an expression have an operand, and every other symbol has a
    placeholder. -/
def Represents (slot : Option Operand) : Symbol → Prop
  | .terminal .identifier => ∃ name, slot = some (.var name)
  | .terminal .constant | .nonterminal .expression | .nonterminal .term | .nonterminal .factor =>
    ∃ operand, slot = some operand
  | _ => slot = none

/-- On the slots it started with, an emitter has those for some symbols. -/
def InStep (xs : List Symbol) (start e : Emitter) : Prop :=
  ∃ slots, List.Forall₂ Represents slots xs ∧ e.stack = slots ++ start.stack

/-- A reduction over the slots for its body succeeds, and leaves one for its
    head. -/
theorem exec_reduceBy_of_represents (code : List Instruction) (n : Nat)
    (rest : List (Option Operand)) (p : Production) {slots : List (Option Operand)}
    (h : List.Forall₂ Represents slots p.body.reverse) :
    ∃ code' n' slot, Represents slot (.nonterminal p.head) ∧
      (reduceBy p).exec ⟨code, n, slots ++ rest⟩ = (.ok (), ⟨code', n', slot :: rest⟩) := by
  cases p
  case assignment =>
    rcases h with _ | ⟨⟨value, rfl⟩, _ | ⟨_, _ | ⟨⟨target, rfl⟩, ⟨⟩⟩⟩⟩
    exact ⟨_, _, none, rfl, rfl⟩
  case returnValue =>
    rcases h with _ | ⟨⟨value, rfl⟩, _ | ⟨_, ⟨⟩⟩⟩
    exact ⟨_, _, none, rfl, rfl⟩
  case add | sub | mul =>
    rcases h with _ | ⟨⟨right, rfl⟩, _ | ⟨_, _ | ⟨⟨left, rfl⟩, ⟨⟩⟩⟩⟩
    exact ⟨_, _, some (.var (temporary n)), ⟨_, rfl⟩, rfl⟩
  case parentheses =>
    rcases h with _ | ⟨_, _ | ⟨⟨value, rfl⟩, _ | ⟨_, ⟨⟩⟩⟩⟩
    exact ⟨code, n, some value, ⟨value, rfl⟩, rfl⟩
  case expressionTerm | termFactor | factorName | factorConstant =>
    rcases h with _ | ⟨⟨value, rfl⟩, ⟨⟩⟩
    exact ⟨code, n, some _, ⟨_, rfl⟩, rfl⟩
  -- The others take their slots off without a look at them.
  case statementsMore =>
    rcases h with _ | ⟨_, _ | ⟨_, _ | ⟨_, ⟨⟩⟩⟩⟩
    exact ⟨code, n, none, rfl, rfl⟩
  case statementsLast | declaration =>
    rcases h with _ | ⟨_, _ | ⟨_, ⟨⟩⟩⟩
    exact ⟨code, n, none, rfl, rfl⟩
  case program | intType =>
    rcases h with _ | ⟨_, ⟨⟩⟩
    exact ⟨code, n, none, rfl, rfl⟩

/-- A token that is no end mark has a slot, unless it is a constant that
    cannot be read. -/
theorem slotFor_cases {token : Token} (hkind : token.kind ≠ .endMark) :
    (∃ slot, slotFor token = .ok slot ∧ Represents slot (.terminal token.kind)) ∨
    ∃ d, slotFor token = .error (.badConstant d) ∧ token.kind = .constant ∧
      Text.readDecimal token.value = .error d := by
  rcases heq : token.kind
  case endMark => exact absurd heq hkind
  case identifier => exact .inl ⟨some (.var token.value), by simp only [slotFor, heq], _, rfl⟩
  case constant =>
    rcases hread : Text.readDecimal token.value with d | value
    · exact .inr ⟨d, by simp only [slotFor, heq, hread], rfl, rfl⟩
    · exact .inl ⟨some (.imm value), by simp only [slotFor, heq, hread], _, rfl⟩
  all_goals exact .inl ⟨none, by simp only [slotFor, heq], rfl⟩

variable {stack : List Constituent} {event : Event} {start e : Emitter}

/-- **An action that fits keeps the emitter in step**, unless it shifts a
    constant that cannot be read. -/
theorem InStep.handle (h : InStep (stack.map Constituent.symbol) start e)
    (hadmits : Constituent.Admits stack event) :
    (∃ e', (Emitter.handle event).exec e = (.ok (), e') ∧
      InStep ((Constituent.after stack event).map Constituent.symbol) start e') ∨
    ∃ token d, event = .shift token ∧ token.kind = .constant ∧
      Text.readDecimal token.value = .error d ∧
      (Emitter.handle event).exec e = (.error (.badConstant d), e) := by
  obtain ⟨slots, hslots, hstack⟩ := h
  obtain ⟨code, n, _⟩ := e
  cases hstack
  cases event with
  | shift token =>
    rcases slotFor_cases hadmits with ⟨slot, hslot, hrepresents⟩ | ⟨d, hslot, hkind, hread⟩
    · refine .inl ⟨⟨code, n, slot :: slots ++ start.stack⟩, ?_, _, .cons hrepresents hslots, rfl⟩
      simp only [Emitter.handle, shift, hslot]
      rfl
    · refine .inr ⟨token, d, rfl, hkind, hread, ?_⟩
      simp only [Emitter.handle, shift, hslot]
      rfl
  | reduce p =>
    obtain ⟨front, rest, rfl, hfront, hafter⟩ := hadmits.exists_split
    rw [List.map_append, hfront] at hslots
    have htop := List.forall₂_take_append _ _ _ hslots
    have hbelow := List.forall₂_drop_append _ _ _ hslots
    obtain ⟨code', n', slot, hrepresents, hexec⟩ := exec_reduceBy_of_represents code n
      (slots.drop p.body.reverse.length ++ start.stack) p htop
    rw [← List.append_assoc, List.take_append_drop] at hexec
    refine .inl ⟨_, hexec, slot :: slots.drop p.body.reverse.length, ?_, rfl⟩
    rw [hafter, List.map_cons]
    exact .cons hrepresents hbelow
  | accept => exact .inl ⟨_, rfl, slots, hslots, rfl⟩

end Emitter

/-! ## The checker -/

/-- The slot of the checker for a constituent: a terminal has its token, and
    the word `int` and what is reduced from it have their type. -/
def Constituent.checkSlot : Constituent → Checker.Slot
  | .token t => ⟨some t, if t.kind = .intWord then some .int else none⟩
  | .phrase n => ⟨none, if n = .typeName then some .int else none⟩

/-- The refusals that say something of a text: an identifier on the stack is
    declared twice or not at all.  Without a symbol table there is one more. -/
def CheckError.IsProper (symbols : Option Symbols) (stack : List Constituent) : CheckError → Prop
  | .redeclared name | .undeclared name => .token name ∈ stack ∧ name.kind = .identifier
  | .noSymbols => symbols = none
  | _ => False

namespace Checker

/-- What comes of an action over some constituents, if there was a symbol
    table or none before: it leaves some slots and takes no symbol table away,
    or it is refused for a reason of the text. -/
inductive Outcome (symbols : Option Symbols) (stack : List Constituent) (slots : List Slot) :
    Except CheckError Unit × Checker → Prop where
  | done (symbols' : Option Symbols) (h : symbols.isSome → symbols'.isSome) :
      Outcome symbols stack slots (.ok (), ⟨slots, symbols'⟩)
  | refused (e : CheckError) (c : Checker) (h : e.IsProper symbols stack) :
      Outcome symbols stack slots (.error e, c)

variable {stack front : List Constituent} {name : Token} {slots slots' : List Slot}
  {symbols : Option Symbols}

/-- A step that only changes the stack comes after one that may be refused. -/
theorem Outcome.bind {m : Step Unit} {c : Checker} {f : Step Unit}
    (h : Outcome symbols stack slots (m.exec c))
    (hf : ∀ symbols', f.exec ⟨slots, symbols'⟩ = (.ok (), ⟨slots', symbols'⟩)) :
    Outcome symbols stack slots' ((m >>= fun _ => f).exec c) := by
  rw [Attempt.exec_bind]
  generalize m.exec c = result at h
  cases h with
  | done symbols' hsome =>
    simp only [hf]
    exact .done symbols' hsome
  | refused e c' hproper => exact .refused e c' hproper

theorem outcome_requireDeclared (hname : .token name ∈ stack) (hkind : name.kind = .identifier)
    (slots : List Slot) (symbols : Option Symbols) :
    Outcome symbols stack slots
      ((requireDeclared (Constituent.token name).checkSlot).exec ⟨slots, symbols⟩) := by
  simp only [requireDeclared, lookUp, Constituent.checkSlot, Attempt.exec_bind, Attempt.exec_get]
  cases symbols with
  | none => exact .refused .noSymbols _ rfl
  | some symbols =>
    cases htype : symbols.typeOf? name.value with
    | none =>
      simp only [Attempt.exec_pure, htype]
      exact .refused (.undeclared name) _ ⟨hname, hkind⟩
    | some type =>
      simp only [Attempt.exec_pure, htype]
      exact .done (some symbols) id

theorem outcome_declare (hname : .token name ∈ stack) (hkind : name.kind = .identifier)
    (type : Option SourceType) (slots : List Slot) (symbols : Option Symbols) :
    Outcome symbols stack slots
      ((declare (Constituent.token name).checkSlot type).exec ⟨slots, symbols⟩) := by
  simp only [declare, lookUp, Constituent.checkSlot, Attempt.exec_bind, Attempt.exec_get]
  cases symbols with
  | none => exact .refused .noSymbols _ rfl
  | some symbols =>
    cases htype : symbols.typeOf? name.value with
    | none =>
      simp only [Attempt.exec_pure, htype]
      exact .done (some _) fun _ => rfl
    | some type' =>
      simp only [Attempt.exec_pure, htype]
      exact .refused (.redeclared name) _ ⟨hname, hkind⟩

/-- A reduction that looks at no slot puts an empty one in place of those for
    its body. -/
theorem outcome_of_exec {p : Production} (symbols : Option Symbols) (rest : List Slot)
    (hlength : front.length = p.body.length) (hhead : p.head ≠ .typeName)
    (hexec : ∀ c : Checker,
      (reduceBy p).exec c = (.ok (), ⟨{} :: discard p.body.length c.stack, c.symbols⟩)) :
    Outcome symbols stack ((Constituent.phrase p.head).checkSlot :: rest)
      ((reduceBy p).exec ⟨front.map Constituent.checkSlot ++ rest, symbols⟩) := by
  have hslot : (Constituent.phrase p.head).checkSlot = {} := by
    rw [Constituent.checkSlot, if_neg hhead]
  have hrest : discard p.body.length (front.map Constituent.checkSlot ++ rest) = rest := by
    rw [← hlength, ← List.length_map Constituent.checkSlot, discard_append]
  rw [hexec, hslot, hrest]
  exact .done symbols id

/-- A reduction over the slots for its body leaves the slot for its head. -/
theorem outcome_reduceBy (symbols : Option Symbols) (rest : List Slot) (p : Production)
    (hfront : List.Forall₂ (·.symbol = ·) front p.body.reverse) (hstack : front ⊆ stack) :
    Outcome symbols stack ((Constituent.phrase p.head).checkSlot :: rest)
      ((reduceBy p).exec ⟨front.map Constituent.checkSlot ++ rest, symbols⟩) := by
  have hlength : front.length = p.body.length := by simpa using hfront.length_eq
  cases p
  case declaration =>
    rcases hfront with _ | ⟨hname, _ | ⟨htype, ⟨⟩⟩⟩
    obtain ⟨name, rfl, hkind⟩ := Constituent.exists_token hname
    obtain rfl := Constituent.eq_phrase htype
    have hmem : .token name ∈ stack := hstack (by simp)
    exact (outcome_declare hmem hkind (some .int) rest symbols).bind fun _ => rfl
  case intType =>
    rcases hfront with _ | ⟨hword, ⟨⟩⟩
    obtain ⟨word, rfl, hkind⟩ := Constituent.exists_token hword
    have htype : (Constituent.token word).checkSlot.type = some .int := if_pos hkind
    have hexec : (reduceBy .intType).exec
        ⟨[Constituent.token word].map Constituent.checkSlot ++ rest, symbols⟩ =
        (.ok (), ⟨⟨none, (Constituent.token word).checkSlot.type⟩ :: rest, symbols⟩) := rfl
    rw [hexec, htype]
    exact .done symbols id
  case assignment =>
    rcases hfront with _ | ⟨_, _ | ⟨_, _ | ⟨hname, ⟨⟩⟩⟩⟩
    obtain ⟨name, rfl, hkind⟩ := Constituent.exists_token hname
    have hmem : .token name ∈ stack := hstack (by simp)
    exact (outcome_requireDeclared hmem hkind _ symbols).bind fun _ => rfl
  case factorName =>
    rcases hfront with _ | ⟨hname, ⟨⟩⟩
    obtain ⟨name, rfl, hkind⟩ := Constituent.exists_token hname
    have hmem : .token name ∈ stack := hstack (by simp)
    exact (outcome_requireDeclared hmem hkind _ symbols).bind fun _ => rfl
  all_goals exact outcome_of_exec symbols rest hlength (by decide) fun _ => rfl

/-- **An action that fits keeps the checker in step**, unless it is refused
    for a reason of the text. -/
theorem outcome_handle {event : Event} (rest : List Slot) (symbols : Option Symbols)
    (hadmits : Constituent.Admits stack event) :
    Outcome symbols stack ((Constituent.after stack event).map Constituent.checkSlot ++ rest)
      ((handle event).exec ⟨stack.map Constituent.checkSlot ++ rest, symbols⟩) := by
  cases event with
  | shift token => exact .done symbols id
  | reduce p =>
    obtain ⟨front, below, rfl, hfront, hafter⟩ := hadmits.exists_split
    rw [hafter, List.map_append, List.append_assoc, List.map_cons]
    refine outcome_reduceBy symbols _ p ?_ (List.subset_append_left front below)
    rw [← List.forall₂_map_left_iff, List.forall₂_eq_eq_eq, hfront]
  | accept => exact .done symbols id

end Checker

/-! ## Audiences -/

namespace Audience

/-- The stack of a member is what it was at the start, and on it the slots for
    some constituents. -/
def Member.InStep (stack : List Constituent) : Member → Member → Prop
  | .recorder _, .recorder _ => True
  | .emitter start, .emitter e => Emitter.InStep (stack.map Constituent.symbol) start e
  | .checker start, .checker slots => slots = stack.map Constituent.checkSlot ++ start
  | _, _ => False

variable {stack : List Constituent} {r : Report}

theorem Member.InStep.refl : ∀ m : Member, m.InStep [] m
  | .recorder _ => trivial
  | .emitter _ => ⟨[], .nil, rfl⟩
  | .checker _ => rfl

/-- A member that hears of an action that fits, and does not fail, stays in
    step. -/
theorem Member.InStep.hear {start m m' : Member} {symbols symbols' : Option Symbols}
    (h : Member.InStep stack start m) (hadmits : Constituent.Admits stack r.event)
    (hhear : m.hear r symbols = (none, m', symbols')) :
    Member.InStep (Constituent.after stack r.event) start m' := by
  cases start <;> cases m
  case recorder.recorder =>
    cases hhear
    trivial
  case emitter.emitter start e =>
    simp only [Member.hear, Attempt.outcome] at hhear
    rcases Emitter.InStep.handle h hadmits with ⟨e', hexec, hstep⟩ | ⟨token, d, -, -, -, hexec⟩
    · rw [hexec] at hhear
      cases hhear
      exact hstep
    · rw [hexec] at hhear
      cases hhear
  case checker.checker start slots =>
    have hout := Checker.outcome_handle start symbols hadmits
    simp only [Member.hear, Attempt.outcome, show slots = _ from h] at hhear
    generalize (Checker.handle r.event).exec _ = result at hhear hout
    cases hout with
    | done symbols' _ =>
      cases hhear
      rfl
    | refused e c _ => cases hhear
  all_goals cases h

/-- All members stay in step, if none of them fails. -/
theorem forall₂_inStep_hearAll {start members : List Member} {symbols : Option Symbols}
    {a : Audience} (h : List.Forall₂ (Member.InStep stack) start members)
    (hadmits : Constituent.Admits stack r.event) (hhear : hearAll r symbols members = (none, a)) :
    List.Forall₂ (Member.InStep (Constituent.after stack r.event)) start a.members := by
  induction h generalizing symbols a with
  | nil =>
    cases hhear
    exact .nil
  | @cons start m starts members hm _ ih =>
    simp only [hearAll] at hhear
    rcases hfirst : m.hear r symbols with ⟨_ | e, m', symbols'⟩
    · rcases hrest : hearAll r symbols' members with ⟨failure, others⟩
      simp only [hfirst, hrest] at hhear
      cases hhear
      exact .cons (hm.hear hadmits hfirst) (ih hrest)
    · simp only [hfirst] at hhear
      cases hhear

theorem hearAll_of_exec_watch {a a' : Audience} {u : Unit} (h : (watch r).exec a = (.ok u, a')) :
    hearAll r a.symbols a.members = (none, a') := by
  rw [watch, Attempt.exec_bind, Attempt.exec_get] at h
  rcases hhear : hearAll r a.symbols a.members with ⟨_ | e, a₁⟩
  · simp only [hhear] at h
    cases h
    rfl
  · simp only [hhear] at h
    cases h

/-- At every head all members are in step. -/
theorem forall₂_inStep_of_atHead {tokens : List Token} {start a : Audience}
    {reports : List Report} {c : Configuration} {t : Table} (ht : t.Lawful)
    (h : t.AtHead tokens watch start reports c a) :
    List.Forall₂ (Member.InStep (constituents (reports.map Report.event))) start.members
      a.members := by
  let P (stack : List Constituent) (a : Audience) : Prop :=
    List.Forall₂ (Member.InStep stack) start.members a.members
  refine ht.invariant_of_atHead (P := P) ?_ (fun h hadmits hexec => ?_) h
  · exact List.forall₂_same.2 fun m _ => .refl m
  · exact forall₂_inStep_hearAll h hadmits (hearAll_of_exec_watch hexec)

end Audience

/-- **The stacks stay in step.**  Take any audience with any stacks at the
    start, and any head of the loop of a run over any tokens.  The run passes
    through the head, the states on its stack are behind the symbols of the
    constituents and of no other list, and every member of the audience has
    put a slot on its stack for each of them:

    * an emitter a variable for an identifier, an operand for a constant and
      an expression, and a placeholder for anything else;
    * a checker the token that was shifted for a terminal and none for a
      nonterminal, and a type for the word `int` and what is reduced from
      it only. -/
theorem stacks_in_step {tokens : List Token} {start a : Audience} {reports : List Report}
    {c : Configuration} (h : Table.standard.AtHead tokens Audience.watch start reports c a) :
    let stack := constituents (reports.map Report.event)
    (∃ fuel, Table.standard.run tokens Audience.watch start =
      Table.standard.runFrom (endTokenOf tokens) Audience.watch (fuel + 1) c a) ∧
    c.depth = stack.length ∧
    (∀ xs, Table.standard.Spells c.states xs ↔ xs = stack.map Constituent.symbol) ∧
    List.Forall₂ (Audience.Member.InStep stack) start.members a.members := by
  intro stack
  have ht := Table.standard_lawful
  have hspells := ht.spells_of_atHead h
  refine ⟨h.run_eq ht, ?_, fun xs => ⟨fun hxs => ht.spells_unique hxs hspells, ?_⟩,
    Audience.forall₂_inStep_of_atHead ht h⟩
  · have hlength := hspells.length_eq
    rw [List.length_map] at hlength
    simp only [Configuration.depth, hlength, stack]
    omega
  · rintro rfl
    exact hspells

/-- In the middle of an assignment, with something left over from before on
    both stacks. -/
theorem stacks_in_step_assignment :
    let name : Token := ⟨.identifier, "x", ⟨1, 1⟩⟩
    let sign : Token := ⟨.assign, "", ⟨1, 3⟩⟩
    let tokens : List Token := [name, sign, ⟨.constant, "7", ⟨1, 5⟩⟩, ⟨.semicolon, "", ⟨1, 6⟩⟩]
    let audience (slots : List (Option Operand)) (checks : List Checker.Slot) : Audience :=
      ⟨[.emitter ⟨[], 0, slots ++ [some (.imm 3)]⟩, .checker (checks ++ [⟨none, some .int⟩])], none⟩
    let stack : List Constituent := [.phrase .factor, .token sign, .token name]
    let a := audience [some (.imm 7), none, some (.var "x")]
      [⟨none, none⟩, ⟨some sign, none⟩, ⟨some name, none⟩]
    ∃ reports c, Table.standard.AtHead tokens Audience.watch (audience [] []) reports c a ∧
      constituents (reports.map Report.event) = stack ∧ c.depth = stack.length ∧
      List.Forall₂ (Audience.Member.InStep stack) (audience [] []).members a.members := by
  intro name sign tokens audience stack a
  let number : Token := ⟨.constant, "7", ⟨1, 5⟩⟩
  let AtHead := Table.standard.AtHead tokens Audience.watch (audience [] [])
  let reports : List Report := [⟨[0], .shift name⟩, ⟨[5, 0], .shift sign⟩,
    ⟨[10, 5, 0], .shift number⟩, ⟨[15, 10, 5, 0], .reduce .factorConstant⟩]
  let move := Table.standard.move (endTokenOf tokens)
  obtain ⟨hname, hsign, hnumber, hreduce⟩ :
      move (.start tokens) = .step ⟨[0], .shift name⟩ ⟨[5, 0], tokens.drop 1⟩ ∧
      move ⟨[5, 0], tokens.drop 1⟩ =
        .step ⟨[5, 0], .shift sign⟩ ⟨[10, 5, 0], tokens.drop 2⟩ ∧
      move ⟨[10, 5, 0], tokens.drop 2⟩ =
        .step ⟨[10, 5, 0], .shift number⟩ ⟨[15, 10, 5, 0], tokens.drop 3⟩ ∧
      move ⟨[15, 10, 5, 0], tokens.drop 3⟩ =
        .step ⟨[15, 10, 5, 0], .reduce .factorConstant⟩ ⟨[13, 10, 5, 0], tokens.drop 3⟩ := by
    decide +kernel
  have h₀ : AtHead [] (.start tokens) (audience [] []) := .start (by simp [tokens])
  have h₁ : AtHead (reports.take 1) ⟨[5, 0], tokens.drop 1⟩
      (audience [some (.var "x")] [⟨some name, none⟩]) := h₀.step hname rfl
  have h₂ : AtHead (reports.take 2) ⟨[10, 5, 0], tokens.drop 2⟩
      (audience [none, some (.var "x")] [⟨some sign, none⟩, ⟨some name, none⟩]) :=
    h₁.step hsign rfl
  have h₃ : AtHead (reports.take 3) ⟨[15, 10, 5, 0], tokens.drop 3⟩
      (audience [some (.imm 7), none, some (.var "x")]
        [⟨some number, none⟩, ⟨some sign, none⟩, ⟨some name, none⟩]) :=
    h₂.step (u := ()) hnumber (by decide +kernel)
  have h₄ : AtHead reports ⟨[13, 10, 5, 0], tokens.drop 3⟩ a := h₃.step hreduce rfl
  obtain ⟨-, hdepth, -, hmembers⟩ := stacks_in_step h₄
  exact ⟨reports, _, h₄, rfl, hdepth, hmembers⟩

end Straightline
