/-
  Declarations are checked exactly.

  The checker sees reductions, and tells a declared name by the type that the
  symbol table has for it.  Over the tokens of a text this comes to the rule
  that one would state about the text itself: the names are gone through in
  their order, and the first that is declared again, or used undeclared, is
  reported.

  * `Symbols.meet`: what a name does to a symbol table;
  * `Tree.exec_checker_occurrences`: the checker does this for the names of a
    tree, and nothing else;
  * `Symbols.foldlM_meet_of_faultFree`, `Symbols.foldlM_meet_of_firstFault`:
    what comes of it;
  * `FrontEnd.run_tree`: over a program, the front end ends as the checker
    does;
  * `declarations_checked_exactly`: all of it, for the tokens of a text.
-/
import Straightline.Proofs.Occurrences
import Straightline.Proofs.Meaning
import Straightline.Proofs.Refusals

namespace Straightline

/-- What fails is not gone on with. -/
theorem Attempt.fst_exec_bind_eq_error {ε σ α β : Type} {m : Attempt ε σ α} {s : σ} {e : ε}
    (h : (m.exec s).1 = .error e) (next : α → Attempt ε σ β) :
    ((m >>= next).exec s).1 = .error e := by
  rw [exec_bind]
  rcases hm : m.exec s with ⟨_ | _, s'⟩
  · rw [hm] at h
    exact congrArg _ (Except.error.inj h)
  · rw [hm] at h
    cases h

/-- How the fault of a name is reported. -/
def Occurrence.refusal : Occurrence → CheckError
  | declares name => .redeclared name
  | uses name => .undeclared name

/-- What is said about the fault of a name: what is wrong, the name, and its
    line and column. -/
def Occurrence.complaint : Occurrence → String
  | declares name =>
    s!"redeclaration of \x27{name.value}\x27 at {name.place.line}:{name.place.column}"
  | uses name =>
    s!"use of undeclared identifier \x27{name.value}\x27 at {name.place.line}:{name.place.column}"

theorem Place.append_text (front : String) (p : Place) :
    front ++ p.text = front ++ toString p.line ++ ":" ++ toString p.column := by
  show front ++ (toString p.line ++ ":" ++ toString p.column) = _
  rw [← String.append_assoc, ← String.append_assoc]

theorem Occurrence.message_refusal (o : Occurrence) : o.refusal.message = o.complaint := by
  cases o with
  | declares name => exact Place.append_text _ name.place
  | uses name => exact Place.append_text _ name.place

/-! ## The checker and the names of a tree -/

/-- What a name does to a symbol table. -/
def Symbols.meet (s : Symbols) : Occurrence → Except CheckError Symbols
  | .declares name =>
    match s.typeOf? name.value with
    | some _ => .error (.redeclared name)
    | none => .ok ((s.register name.value).retype name.value (some .int))
  | .uses name =>
    match s.typeOf? name.value with
    | some _ => .ok s
    | none => .error (.undeclared name)

namespace Checker

/-- The checker ends as the checks of a symbol table do: with these slots and
    the table that comes of them, or with the refusal. -/
def EndsWith (stack : List Slot) :
    Except CheckError Symbols → Except CheckError Unit × Checker → Prop
  | .ok symbols, out => out = (.ok (), ⟨stack, some symbols⟩)
  | .error e, out => out.1 = .error e

variable {stack stack' : List Slot} {symbols : Symbols} {name : Token}

theorem EndsWith.bind {checks : Except CheckError Symbols} {m : Step Unit} {c : Checker}
    (h : EndsWith stack checks (m.exec c)) (next : Unit → Step Unit)
    {more : Symbols → Except CheckError Symbols}
    (hnext : ∀ symbols, EndsWith stack' (more symbols) ((next ()).exec ⟨stack, some symbols⟩)) :
    EndsWith stack' (checks >>= more) ((m >>= next).exec c) := by
  cases checks with
  | ok symbols =>
    rw [Attempt.exec_bind, show m.exec c = (.ok (), ⟨stack, some symbols⟩) from h]
    exact hnext symbols
  | error e => exact Attempt.fst_exec_bind_eq_error h next

theorem endsWith_declare :
    EndsWith stack (symbols.meet (.declares name))
      ((declare ⟨some name, none⟩ (some .int)).exec ⟨stack, some symbols⟩) := by
  rw [declare, Attempt.exec_bind, exec_lookUp rfl rfl, Symbols.meet]
  dsimp only
  cases symbols.typeOf? name.value <;> rfl

theorem endsWith_requireDeclared :
    EndsWith stack (symbols.meet (.uses name))
      ((requireDeclared ⟨some name, none⟩).exec ⟨stack, some symbols⟩) := by
  rw [requireDeclared, Attempt.exec_bind, exec_lookUp rfl rfl, Symbols.meet]
  dsimp only
  cases symbols.typeOf? name.value <;> rfl

/-- A reduction checks the name that it is for, if any. -/
theorem endsWith_reduceBy {rest : List Slot} : ∀ (p : Production) (phrases : Phrases p.body),
    EndsWith (Symbol.checkSlot (.nonterminal p.head) (p.build phrases) :: rest)
      ((p.occurrence? phrases).toList.foldlM Symbols.meet symbols)
      ((reduceBy p).exec ⟨Phrases.checkSlots p.body phrases ++ rest, some symbols⟩)
  | .declaration, (_, _, _) => endsWith_declare.bind (fun _ => push {}) fun _ => rfl
  | .assignment, (_, _, _, _) =>
    endsWith_requireDeclared.bind (fun _ => drop 3 >>= fun _ => push {}) fun _ => rfl
  | .factorName, (_, _) =>
    endsWith_requireDeclared.bind (fun _ => drop 1 >>= fun _ => push {}) fun _ => rfl
  | .intType, (_, _) | .program, (_, _) | .expressionTerm, (_, _) | .termFactor, (_, _)
  | .factorConstant, (_, _) => rfl
  | .statementsLast, (_, _, _) | .returnValue, (_, _, _) => rfl
  | .statementsMore, (_, _, _, _) | .add, (_, _, _, _) | .sub, (_, _, _, _) | .mul, (_, _, _, _)
  | .parentheses, (_, _, _, _) => rfl

end Checker

mutual

/-- **The checker checks the names of a tree** in their order. -/
theorem Tree.exec_checker_occurrences {x : Symbol} : ∀ (t : Tree x) (stack : List Checker.Slot)
    (symbols : Symbols),
    Checker.EndsWith (x.checkSlot t.phrase :: stack) (t.occurrences.foldlM Symbols.meet symbols)
      ((forM t.events Checker.handle).exec ⟨stack, some symbols⟩)
  | .leaf token, stack, symbols => rfl
  | .node p children, stack, symbols => by
    rw [Tree.events, List.forM_append, Tree.occurrences, List.foldlM_append]
    refine (children.exec_checker_occurrences stack symbols).bind _ fun symbols' => ?_
    rw [List.forM_cons, List.forM_nil, bind_pure_unit]
    exact Checker.endsWith_reduceBy p children.phrases

@[inherit_doc Tree.exec_checker_occurrences]
theorem Forest.exec_checker_occurrences {xs : List Symbol} : ∀ (f : Forest xs)
    (stack : List Checker.Slot) (symbols : Symbols),
    Checker.EndsWith (Phrases.checkSlots xs f.phrases ++ stack)
      (f.occurrences.foldlM Symbols.meet symbols)
      ((forM f.events Checker.handle).exec ⟨stack, some symbols⟩)
  | .nil, stack, symbols => rfl
  | .cons tree others, stack, symbols => by
    rw [Forest.events, List.forM_append, Forest.occurrences, List.foldlM_append]
    refine (tree.exec_checker_occurrences stack symbols).bind _ fun symbols' => ?_
    rw [Forest.phrases, Phrases.checkSlots, List.append_assoc]
    exact others.exec_checker_occurrences _ symbols'

end

/-- The acceptance at the end is nothing to the checker. -/
theorem Checker.endsWith_tree (tree : ProgramTree) (symbols : Symbols) :
    EndsWith [{}] (tree.occurrences.foldlM Symbols.meet symbols)
      ((forM (tree.events ++ [.accept]) handle).exec ⟨[], some symbols⟩) := by
  rw [List.forM_append, ← bind_pure (tree.occurrences.foldlM Symbols.meet symbols)]
  exact (tree.exec_checker_occurrences [] symbols).bind _ fun _ => rfl

/-! ## Names and their types -/

namespace Symbols

open Occurrence (FaultFree FirstFault declared declared_append)

/-- A symbol table for some names, with types for those that are declared. -/
def declaring (names declared : List String) : Symbols :=
  ⟨names.map fun x => ⟨x, if x ∈ declared then some .int else none⟩⟩

variable {names : List String} {x : String} {occurrences : List Occurrence} {o : Occurrence}

theorem typeOf?_declaring (hx : x ∈ names) (declared : List String) :
    (declaring names declared).typeOf? x = if x ∈ declared then some .int else none := by
  have hfind : names.find? (fun y => y = x) = some x := by
    induction names with
    | nil => cases hx
    | cons y names ih => grind
  rw [typeOf?, get?, declaring, List.find?_map]
  show ((names.find? fun y => y = x).map _).bind Entry.type = _
  rw [hfind]
  rfl

/-- To declare a name is to add it to the declared ones. -/
theorem retype_register_declaring (hx : x ∈ names) (declared : List String) :
    ((declaring names declared).register x).retype x (some .int) =
      declaring names (declared ++ [x]) := by
  have hcontains : (declaring names declared).contains x = true := by
    simpa [contains, declaring] using hx
  rw [register, if_pos hcontains, retype, declaring, declaring, List.map_map]
  congr 1
  refine List.map_congr_left fun y _ => ?_
  by_cases hy : y = x <;> simp [hy]

theorem declaring_of_subset {declared : List String} (h : ∀ x ∈ names, x ∈ declared) :
    declaring names declared = ⟨names.map fun x => ⟨x, some .int⟩⟩ := by
  rw [declaring]
  congr 1
  exact List.map_congr_left fun x hx => by rw [if_pos (h x hx)]

/-- **A name is refused if it is at fault**, and else noted. -/
theorem meet_declaring (before : List Occurrence) (ho : o.name.value ∈ names) :
    (declaring names (declared before)).meet o =
      if o.IsFaulty before then .error o.refusal
      else .ok (declaring names (declared (before ++ [o]))) := by
  cases o with
  | declares name =>
    replace ho : name.value ∈ names := ho
    have hdeclared : declared (before ++ [.declares name]) = declared before ++ [name.value] :=
      declared_append before [.declares name]
    rw [meet, typeOf?_declaring ho, hdeclared, ← retype_register_declaring ho]
    by_cases hname : name.value ∈ declared before <;>
      simp [Occurrence.IsFaulty, Occurrence.refusal, hname]
  | uses name =>
    replace ho : name.value ∈ names := ho
    have hdeclared : declared (before ++ [.uses name]) = declared before :=
      (declared_append before [.uses name]).trans (List.append_nil _)
    rw [meet, typeOf?_declaring ho, hdeclared]
    by_cases hname : name.value ∈ declared before <;>
      simp [Occurrence.IsFaulty, Occurrence.refusal, hname]

theorem foldlM_meet_of_faultFree (hnames : ∀ o ∈ occurrences, o.name.value ∈ names)
    (h : FaultFree occurrences) : occurrences.foldlM meet (declaring names []) =
      .ok (declaring names (declared occurrences)) := by
  -- From the end, since a name is judged by those before it.
  induction occurrences using List.reverseRecOn with
  | nil => rfl
  | append_singleton front last ih =>
    obtain ⟨hfront, hlast⟩ := Occurrence.faultFree_concat.1 h
    have hmeet := meet_declaring front (hnames last List.mem_concat_self)
    rw [if_neg hlast] at hmeet
    rw [List.foldlM_append, ih (fun o ho => hnames o (List.mem_append_left _ ho)) hfront]
    show ([last].foldlM meet _ : Except CheckError Symbols) = _
    rw [List.foldlM_cons, hmeet]
    rfl

theorem foldlM_meet_of_firstFault (hnames : ∀ o ∈ occurrences, o.name.value ∈ names)
    (h : FirstFault occurrences o) :
    occurrences.foldlM meet (declaring names []) = .error o.refusal := by
  obtain ⟨before, after, rfl, ho, hbefore⟩ := h
  rw [List.forall_mem_append, List.forall_mem_cons] at hnames
  have hmeet := meet_declaring before hnames.2.1
  rw [if_pos ho] at hmeet
  rw [List.foldlM_append, foldlM_meet_of_faultFree hnames.1 hbefore]
  show ((o :: after).foldlM meet _ : Except CheckError Symbols) = _
  rw [List.foldlM_cons, hmeet]
  rfl

/-- The table of some names has each of them once, without a type. -/
theorem ofNames_eq (names : List String) : ofNames names = declaring names.eraseDups [] := by
  induction names using List.reverseRecOn with
  | nil => rfl
  | append_singleton front last ih =>
    rw [ofNames] at ih
    rw [ofNames, List.foldl_append, ih, List.eraseDups_append]
    by_cases hlast : last ∈ front
    · simp [register, contains, declaring, List.removeAll, hlast]
    · simp [register, contains, declaring, List.removeAll, append, hlast, List.eraseDups_cons]

theorem eq_of_scanText {source : String} {tokens : List Token} {symbols : Symbols}
    (h : scanText source = .ok (tokens, symbols)) :
    symbols = declaring ((identifiers tokens).map Token.value).eraseDups [] := by
  unfold scanText at h
  dsimp only at h
  split at h
  · cases h
    rw [← ofNames_eq, ofNames, List.foldl_map]
    rfl
  · cases h

end Symbols

/-! ## The front end -/

/-- A replay that is stopped has shown the watcher what makes it fail. -/
theorem Watcher.exec_forM_of_stopped {ε σ : Type} {watch : Watcher ε σ} {finish : Finish ε}
    {depth : Int} {reports : List Report} {s : σ} {e : ε} (hfinish : finish ≠ .stopped e)
    (h : (watch.replay (fun s => ⟨finish, depth, s⟩) reports s).finish = .stopped e) :
    ((forM reports watch).exec s).1 = .error e := by
  induction reports generalizing s with
  | nil => exact absurd h hfinish
  | cons r rest ih =>
    rw [replay] at h
    rw [List.forM_cons, Attempt.exec_bind]
    rcases hr : (watch r).exec s with ⟨_ | _, s'⟩
    · simp only [hr] at h
      cases h
      rfl
    · simp only [hr] at h
      exact ih h

/-- The emitter does not fail. -/
theorem Emitter.exec_tree (tree : ProgramTree) {last : Token} (hlast : last.kind = .endMark)
    (hconstants : ∀ token ∈ tree.tokens ++ [last], token.kind = .constant →
      Text.isDecimal token.value.toList = true ∧ token.value.toList.length ≤ Text.digitLimit) :
    ∃ e, (forM (tree.events ++ [.accept]) handle).exec {} = (.ok (), e) := by
  have ht := Table.standard_lawful
  obtain ⟨reports, hevents, hrun⟩ := ht.run_tokens tree rfl (.inr ⟨last, [], rfl, hlast⟩)
  have hend : ([last].headD last).kind = .endMark := hlast
  have hsentence : IsSentence ((beforeEnd (tree.tokens ++ [last])).map Token.kind) := by
    rw [beforeEnd_of_tree tree hend]
    exact (isSentence_iff _).2 ⟨tree, rfl⟩
  have haccepted := run_accepted ht (by simp) hsentence hconstants {}
  rw [hrun] at haccepted
  rw [← hevents, List.forM_map]
  exact ⟨_, watch.exec_forM_of_replay (fun e => by simp) haccepted⟩

namespace FrontEnd

variable {f : FrontEnd} {e : Error} {reports : List Report}

/-- A failure is one of the checker, or else one of the emitter. -/
theorem exec_forM_watch_eq_error (h : ((forM reports watch).exec f).1 = .error e) :
    (∃ e', ((forM (reports.map Report.event) Checker.handle).exec f.checker).1 = .error e' ∧
      e = .check e') ∨
    ∃ e', ((forM (reports.map Report.event) Emitter.handle).exec f.emitter).1 = .error e' ∧
      e = .emit e' := by
  induction reports generalizing f with
  | nil => cases h
  | cons r rest ih =>
    rw [List.forM_cons, Attempt.exec_bind] at h
    rw [List.map_cons, List.forM_cons, List.forM_cons]
    rcases hr : (watch r).exec f with ⟨_ | _, f'⟩
    · simp only [hr] at h
      cases h
      rcases exec_watch_eq_error (congrArg Prod.fst hr) with ⟨e', he', rfl⟩ | ⟨e', he', rfl⟩
      · exact .inl ⟨e', Attempt.fst_exec_bind_eq_error he' _, rfl⟩
      · exact .inr ⟨e', Attempt.fst_exec_bind_eq_error he' _, rfl⟩
    · obtain ⟨hcheck, hemit⟩ := exec_watch hr
      simp only [hr] at h
      simp only [Attempt.exec_bind, hcheck, hemit]
      exact ih h

theorem snd_run (tokens : List Token) (symbols : Symbols) :
    (run tokens symbols).2 =
      (Table.standard.run tokens watch ⟨⟨[], some symbols⟩, {}, []⟩).watched := by
  rw [run]
  generalize Table.standard.run tokens watch _ = r
  rcases r with ⟨_ | _ | _ | _, _, _⟩ <;> rfl

/-- **Over a program the front end ends as the checks of its names do**, if
    its constants can be read. -/
theorem run_tree (tree : ProgramTree) {last : Token} (hlast : last.kind = .endMark)
    (hconstants : ∀ token ∈ tree.tokens ++ [last], token.kind = .constant →
      Text.isDecimal token.value.toList = true ∧ token.value.toList.length ≤ Text.digitLimit)
    (symbols : Symbols) :
    match tree.occurrences.foldlM Symbols.meet symbols with
    | .ok after =>
      (run (tree.tokens ++ [last]) symbols).1 = .ok () ∧
        (run (tree.tokens ++ [last]) symbols).2.checker.symbols = some after
    | .error e => (run (tree.tokens ++ [last]) symbols).1 = .error (.check e) := by
  obtain ⟨reports, hevents, hrun⟩ :=
    Table.standard_lawful.run_tokens tree rfl (.inr ⟨last, [], rfl, hlast⟩)
  have hchecker := Checker.endsWith_tree tree symbols
  obtain ⟨emitter, hemitter⟩ := Emitter.exec_tree tree hlast hconstants
  rw [← hevents] at hchecker hemitter
  rw [fst_run, snd_run, hrun]
  generalize tree.occurrences.foldlM Symbols.meet symbols = checks at hchecker ⊢
  rcases watch.finish_replay .accepted 1 reports ⟨⟨[], some symbols⟩, {}, []⟩ with
    hfinish | ⟨e, hfinish⟩
  · have hexec := watch.exec_forM_of_replay (fun e => by simp) hfinish
    rw [(exec_forM_watch hexec).1] at hchecker
    rw [hfinish]
    cases checks with
    | ok after => exact ⟨rfl, congrArg (fun out => out.2.symbols) hchecker⟩
    | error e => cases hchecker
  · have hexec := Watcher.exec_forM_of_stopped (by simp) hfinish
    rw [hfinish]
    rcases exec_forM_watch_eq_error hexec with ⟨e', he', rfl⟩ | ⟨e', he', rfl⟩
    · cases checks with
      | ok after =>
        rw [hchecker] at he'
        cases he'
      | error e =>
        cases he'.symm.trans hchecker
        rfl
    · -- The emitter does not fail, so it was the checker that stopped the run.
      rw [hemitter] at he'
      cases he'

/-- The same for the tokens of a text. -/
theorem run_sentence {source : String} {tokens : List Token} {symbols : Symbols}
    (hscan : scanText source = .ok (tokens, symbols))
    (hsentence : IsSentence ((beforeEnd tokens).map Token.kind))
    (hconstants : ∀ token ∈ tokens, token.kind = .constant →
      token.value.toList.length ≤ Text.digitLimit) :
    match (Occurrence.ofTokens tokens).foldlM Symbols.meet symbols with
    | .ok after =>
      (run tokens symbols).1 = .ok () ∧ (run tokens symbols).2.checker.symbols = some after
    | .error e => (run tokens symbols).1 = .error (.check e) := by
  obtain ⟨⟨body, last, rfl, hlast, hlexical⟩, -⟩ := scanText_tokens hscan
  have hbody : beforeEnd (body ++ [last]) = body :=
    beforeEnd_append (fun token h => (hlexical token h).kind_ne_endMark)
      (show ([last].headD last).kind = .endMark from hlast)
  rw [hbody] at hsentence
  obtain ⟨tree, rfl⟩ := (isSentence_iff _).1 hsentence
  rw [← tree.occurrences_eq hlast]
  refine run_tree tree hlast (fun token hmem hkind => ⟨?_, hconstants token hmem hkind⟩) symbols
  rcases List.mem_append.1 hmem with hmem | hmem
  · exact (hlexical token hmem).isDecimal_value hkind
  · rw [List.mem_singleton.1 hmem, hlast] at hkind
    cases hkind

end FrontEnd

/-- **Declarations are checked exactly.**  Take a text whose tokens are a
    sentence and whose constants are short enough to be read.  Of the names in
    it, in their order:

    * the front end refuses the text by a check iff one of them is at fault
      after those before it;
    * the refusal is that of the first one at fault, and its wording tells
      what is wrong, the name, and where it stands;
    * if there is none, the front end succeeds, and then the symbol table has
      the identifiers of the text, each once, in the order in which they first
      occur, and all of type `int`. -/
theorem declarations_checked_exactly {source : String} {tokens : List Token} {symbols : Symbols}
    (hscan : scanText source = .ok (tokens, symbols))
    (hsentence : IsSentence ((beforeEnd tokens).map Token.kind))
    (hconstants : ∀ token ∈ tokens, token.kind = .constant →
      token.value.toList.length ≤ Text.digitLimit) :
    let occurrences := Occurrence.ofTokens tokens
    let result := (FrontEnd.run tokens symbols).1
    ((∃ e, result = .error (.check e)) ↔
      ∃ before o after, occurrences = before ++ o :: after ∧ o.IsFaulty before) ∧
    (∀ o, Occurrence.FirstFault occurrences o →
      result = .error (.check o.refusal) ∧ o.refusal.message = o.complaint) ∧
    ((¬ ∃ before o after, occurrences = before ++ o :: after ∧ o.IsFaulty before) →
      result = .ok () ∧ (FrontEnd.run tokens symbols).2.checker.symbols =
        some ⟨((identifiers tokens).map Token.value).eraseDups.map fun x => ⟨x, some .int⟩⟩) := by
  intro occurrences result
  have hrun := FrontEnd.run_sentence hscan hsentence hconstants
  have hsymbols := Symbols.eq_of_scanText hscan
  have hnames : ∀ o ∈ occurrences,
      o.name.value ∈ ((identifiers tokens).map Token.value).eraseDups := by
    intro o ho
    exact List.mem_eraseDups.2 (Occurrence.mem_map_value_identifiers.2 ⟨o, ho, rfl⟩)
  have hfault : ∀ o, Occurrence.FirstFault occurrences o → result = .error (.check o.refusal) := by
    intro o ho
    have hchecks := Symbols.foldlM_meet_of_firstFault hnames ho
    rw [← hsymbols] at hchecks
    rw [hchecks] at hrun
    exact hrun
  have hfree : Occurrence.FaultFree occurrences → result = .ok () ∧
      (FrontEnd.run tokens symbols).2.checker.symbols =
        some ⟨((identifiers tokens).map Token.value).eraseDups.map fun x => ⟨x, some .int⟩⟩ := by
    intro h
    have hchecks := Symbols.foldlM_meet_of_faultFree hnames h
    rw [← hsymbols] at hchecks
    rw [hchecks] at hrun
    refine ⟨hrun.1, hrun.2.trans (congrArg some (Symbols.declaring_of_subset fun x hx => ?_))⟩
    obtain ⟨o, ho, rfl⟩ := Occurrence.mem_map_value_identifiers.1 (List.mem_eraseDups.1 hx)
    exact h.mem_declared ho
  refine ⟨⟨?_, ?_⟩, fun o ho => ⟨hfault o ho, o.message_refusal⟩, fun h => hfree ?_⟩
  · rintro ⟨e, he⟩
    by_contra hnone
    have hok := (hfree fun before o after heq ho => hnone ⟨before, o, after, heq, ho⟩).1
    cases he.symm.trans hok
  · rintro ⟨before, o, after, heq, ho⟩
    obtain ⟨first, hfirst⟩ := Occurrence.exists_firstFault fun h => h before o after heq ho
    exact ⟨_, hfault first hfirst⟩
  · exact fun before o after heq ho => h ⟨before, o, after, heq, ho⟩

/-- Target and right-hand side are both at fault, and so is the declaration
    behind them.  The right-hand side comes first. -/
theorem declarations_checked_exactly_right_hand_side :
    ∃ tokens symbols, scanText "int b; a = b + c; int b;" = .ok (tokens, symbols) ∧
      (FrontEnd.run tokens symbols).1 =
        .error (.check (.undeclared ⟨.identifier, "c", ⟨1, 16⟩⟩)) := by
  let mark (kind : Terminal) (column : Int) : Token := ⟨kind, "", ⟨1, column⟩⟩
  let name (x : String) (column : Int) : Token := ⟨.identifier, x, ⟨1, column⟩⟩
  let body : List Token :=
    [mark .intWord 1, name "b" 5, mark .semicolon 6, name "a" 8, mark .assign 10, name "b" 12,
      mark .plus 14, name "c" 16, mark .semicolon 17, mark .intWord 19, name "b" 23,
      mark .semicolon 24]
  let tokens := body ++ [mark .endMark 25]
  have hscan : scanText "int b; a = b + c; int b;" =
      .ok (tokens, ⟨[⟨"b", none⟩, ⟨"a", none⟩, ⟨"c", none⟩]⟩) := by
    decide +kernel
  have haccepted : (Table.standard.run tokens Watcher.recorder []).finish = .accepted := by
    decide +kernel
  have hsentence : IsSentence ((beforeEnd tokens).map Token.kind) := by
    obtain ⟨tree, rest, htokens, hend⟩ :=
      Table.standard_lawful.exists_tree (by simp [tokens]) haccepted
    rw [htokens, beforeEnd_of_tree tree hend]
    exact (isSentence_iff _).2 ⟨tree, rfl⟩
  obtain ⟨-, hfirst, -⟩ := declarations_checked_exactly hscan hsentence (by decide)
  refine ⟨_, _, hscan, (hfirst (.uses (name "c" 16)) ?_).1⟩
  refine ⟨[.declares (name "b" 5), .uses (name "b" 12)],
    [.uses (name "a" 8), .declares (name "b" 23)], by decide +kernel, by decide, ?_⟩
  have hdeclaration := Occurrence.faultFree_concat.2
    ⟨Occurrence.faultFree_nil, show ¬ Occurrence.IsFaulty [] (.declares (name "b" 5)) by decide⟩
  exact Occurrence.faultFree_concat.2 ⟨hdeclaration, by decide⟩

end Straightline
