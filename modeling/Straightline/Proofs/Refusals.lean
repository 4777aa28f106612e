/-
  Why programs are refused.

  The front end has many ways to fail, most of which say that an action does
  not fit the slots.  None of these is ever seen: over the tokens of a text a
  run of the front end succeeds, or it is the text that is at fault.

  * `FrontEnd.Error.Blames`: the refusals that tell of a fault in the text;
  * `FrontEnd.InStep`: checker and emitter have a slot for each constituent;
  * `FrontEnd.InStep.blames`: an action that fits can only fail by a fault in
    the text;
  * `refusals_blame_text`: every run over the tokens of a text.
-/
import Straightline.Proofs.Lockstep
import Straightline.Proofs.Correctness

namespace Straightline

/-! ## Faults -/

/-- A refusal tells of a fault in a text: its tokens are no sentence, one of
    its identifiers is declared twice or not at all, or one of its constants
    is too long. -/
inductive FrontEnd.Error.Blames (tokens : List Token) : FrontEnd.Error → Prop where
  | unexpected {token : Token} {expected : List String}
      (h : ¬ IsSentence ((beforeEnd tokens).map Token.kind)) :
      Blames tokens (.parse (.unexpected token expected))
  | redeclared {name : Token} (hmem : name ∈ tokens) (hkind : name.kind = .identifier) :
      Blames tokens (.check (.redeclared name))
  | undeclared {name : Token} (hmem : name ∈ tokens) (hkind : name.kind = .identifier) :
      Blames tokens (.check (.undeclared name))
  | tooLong {constant : Token} (hmem : constant ∈ tokens) (hkind : constant.kind = .constant)
      (hlength : Text.digitLimit < constant.value.toList.length) :
      Blames tokens (.emit (.badConstant (.tooLong constant.value.toList.length)))

/-! ## Checker and emitter together -/

namespace FrontEnd

/-- Checker and emitter have a slot for each constituent, and there is a
    symbol table. -/
structure InStep (stack : List Constituent) (f : FrontEnd) : Prop where
  checks : f.checker.stack = stack.map Constituent.checkSlot
  symbols : f.checker.symbols.isSome = true
  slots : Emitter.InStep (stack.map Constituent.symbol) {} f.emitter

theorem checker_note (f : FrontEnd) (event : Event) : (f.note event).checker = f.checker := by
  cases event <;> rfl

theorem emitter_note (f : FrontEnd) (event : Event) : (f.note event).emitter = f.emitter := by
  cases event <;> rfl

/-- A failure is one of the checker, or else one of the emitter. -/
theorem exec_watch_eq_error {r : Report} {f : FrontEnd} {e : Error}
    (h : ((watch r).exec f).1 = .error e) :
    (∃ e', ((Checker.handle r.event).exec f.checker).1 = .error e' ∧ e = .check e') ∨
      ∃ e', ((Emitter.handle r.event).exec f.emitter).1 = .error e' ∧ e = .emit e' := by
  simp only [watch, checkStep, emitStep, Attempt.exec_bind, Attempt.exec_modify, Attempt.exec_get,
    checker_note] at h
  rcases hcheck : (Checker.handle r.event).exec f.checker with ⟨e' | _, checker⟩
  · simp only [hcheck, Attempt.exec_bind, Attempt.exec_set, Attempt.exec_throw] at h
    cases h
    exact .inl ⟨e', rfl, rfl⟩
  · simp only [hcheck, Attempt.exec_set, emitter_note] at h
    rcases hemit : (Emitter.handle r.event).exec f.emitter with ⟨e' | _, emitter⟩
    · simp only [hemit, Attempt.exec_bind, Attempt.exec_set, Attempt.exec_throw] at h
      cases h
      exact .inr ⟨e', rfl, rfl⟩
    · simp only [hemit, Attempt.exec_set] at h
      cases h

variable {stack : List Constituent} {f f' : FrontEnd} {r : Report} {u : Unit}

/-- What comes of an action that fits for the checker. -/
theorem InStep.outcome (h : InStep stack f) (hadmits : Constituent.Admits stack r.event) :
    Checker.Outcome f.checker.symbols stack
      ((Constituent.after stack r.event).map Constituent.checkSlot)
      ((Checker.handle r.event).exec f.checker) := by
  have hout := Checker.outcome_handle [] f.checker.symbols hadmits
  rw [List.append_nil, List.append_nil, ← h.checks] at hout
  exact hout

/-- An action that fits keeps both in step, if neither fails. -/
theorem InStep.watch (h : InStep stack f) (hadmits : Constituent.Admits stack r.event)
    (hexec : (watch r).exec f = (.ok u, f')) : InStep (Constituent.after stack r.event) f' := by
  obtain ⟨hcheck, hemit⟩ := exec_watch hexec
  have hout := h.outcome hadmits
  rw [hcheck] at hout
  have hchecker : f'.checker.stack = (Constituent.after stack r.event).map Constituent.checkSlot ∧
      f'.checker.symbols.isSome = true := by
    generalize f'.checker = checker at hout
    cases hout with
    | done symbols hsome => exact ⟨rfl, hsome h.symbols⟩
  rcases h.slots.handle hadmits with ⟨e', hexec', hslots⟩ | ⟨token, d, -, -, -, hexec'⟩
  · cases hemit.symm.trans hexec'
    exact ⟨hchecker.1, hchecker.2, hslots⟩
  · cases hemit.symm.trans hexec'

/-- **An action that fits fails only by a fault in the text**: in the tokens
    on the stack, or in the one that is shifted. -/
theorem InStep.blames {tokens : List Token} {e : Error} (h : InStep stack f)
    (hadmits : Constituent.Admits stack r.event)
    (hstack : ∀ token, .token token ∈ stack → token ∈ tokens)
    (hshift : ∀ token, r.event.token? = some token → token ∈ tokens)
    (htokens : ∀ token ∈ tokens, token.kind = .constant →
      Text.isDecimal token.value.toList = true)
    (hfails : ((FrontEnd.watch r).exec f).1 = .error e) : e.Blames tokens := by
  rcases exec_watch_eq_error hfails with ⟨e', hcheck, rfl⟩ | ⟨e', hemit, rfl⟩
  · have hout := h.outcome hadmits
    generalize (Checker.handle r.event).exec f.checker = result at hout hcheck
    cases hout with
    | done => cases hcheck
    | refused e c hproper =>
      cases hcheck
      cases e' with
      | redeclared name => exact .redeclared (hstack name hproper.1) hproper.2
      | undeclared name => exact .undeclared (hstack name hproper.1) hproper.2
      | noSymbols =>
        have hsymbols := h.symbols
        rw [show f.checker.symbols = none from hproper] at hsymbols
        cases hsymbols
      | noSlot | noToken | notProduction => exact hproper.elim
  · rcases h.slots.handle hadmits with ⟨_, hexec, -⟩ | ⟨token, d, hevent, hkind, hread, hexec⟩
    · rw [hexec] at hemit
      cases hemit
    · rw [hexec] at hemit
      cases hemit
      have hmem : token ∈ tokens := hshift token (by rw [hevent]; rfl)
      obtain ⟨rfl, hlength⟩ := Text.readDecimal_eq_error (htokens token hmem hkind) hread
      exact .tooLong hmem hkind hlength

/-- The result of the front end is how its run ends. -/
theorem fst_run (tokens : List Token) (symbols : Symbols) :
    (run tokens symbols).1 =
      match (Table.standard.run tokens FrontEnd.watch ⟨⟨[], some symbols⟩, {}, []⟩).finish with
      | .accepted => .ok ()
      | .failed e => .error (.parse e)
      | .stopped e => .error e
      | .unfinished => .error .unfinished := by
  rw [run]
  generalize Table.standard.run tokens FrontEnd.watch _ = r
  rcases r with ⟨_ | _ | _ | _, _, _⟩ <;> rfl

/-- At every head both are in step. -/
theorem inStep_of_atHead {t : Table} (ht : t.Lawful) {tokens : List Token} {symbols : Symbols}
    {reports : List Report} {c : Configuration}
    (h : t.AtHead tokens FrontEnd.watch ⟨⟨[], some symbols⟩, {}, []⟩ reports c f) :
    InStep (constituents (reports.map Report.event)) f := by
  refine ht.invariant_of_atHead ?_ (fun h hadmits hexec => ?_) h
  · exact ⟨rfl, rfl, [], .nil, rfl⟩
  · exact h.watch hadmits hexec

end FrontEnd

/-- **A refusal blames the text.**  Over the tokens of a text, and with the
    symbol table that the scanner filled, the front end succeeds, or it ends
    at a token that does not fit, at an identifier that is declared twice or
    not at all, or at a constant with too many digits. -/
theorem refusals_blame_text {source : String} {tokens : List Token} {symbols : Symbols}
    (h : scanText source = .ok (tokens, symbols)) :
    (FrontEnd.run tokens symbols).1 = .ok () ∨
      ∃ e, (FrontEnd.run tokens symbols).1 = .error e ∧ e.Blames tokens := by
  have ht := Table.standard_lawful
  obtain ⟨⟨body, last, rfl, hlast, hlexical⟩, -⟩ := scanText_tokens h
  have hdecimal : ∀ token ∈ body ++ [last], token.kind = .constant →
      Text.isDecimal token.value.toList = true := by
    intro token hmem hkind
    rcases List.mem_append.1 hmem with hmem | hmem
    · exact (hlexical token hmem).isDecimal_value hkind
    · rw [List.mem_singleton.1 hmem, hlast] at hkind
      cases hkind
  have hne : body ++ [last] ≠ [] := by simp
  rw [FrontEnd.fst_run]
  rcases ht.run_finish hne FrontEnd.watch ⟨⟨[], some symbols⟩, {}, []⟩ with
    hfinish | ⟨token, expected, hfinish⟩ | ⟨e, reports, c, f, r, hfinish, hfails⟩
  · rw [hfinish]
    exact .inl rfl
  · rw [hfinish]
    exact .inr ⟨_, rfl, .unexpected (ht.not_isSentence_of_failed hfinish)⟩
  · rw [hfinish]
    have hstep := FrontEnd.inStep_of_atHead ht hfails.atHead
    exact .inr ⟨e, rfl, hstep.blames hfails.admits (fun _ => hfails.atHead.mem_tokens ht)
      hfails.mem_tokens hdecimal hfails.fails⟩

/-- A parenthesis is not closed.  The run makes three reductions before it
    finds that out. -/
theorem refusals_blame_text_parenthesis :
    ∃ tokens symbols, scanText "int a; return (a;" = .ok (tokens, symbols) ∧
      (FrontEnd.run tokens symbols).2.reductions.take 3 =
        [.expressionTerm, .termFactor, .factorName] ∧
      ∃ e, (FrontEnd.run tokens symbols).1 = .error e ∧ e.Blames tokens := by
  have hresult : ((scanText "int a; return (a;").toOption.map fun (tokens, symbols) =>
      let (result, f) := FrontEnd.run tokens symbols
      (result.isOk, f.reductions.take 3)) =
        some (false, [.expressionTerm, .termFactor, .factorName]) := by
    decide +kernel
  rcases hscan : scanText "int a; return (a;" with _ | ⟨tokens, symbols⟩
  · rw [hscan] at hresult
    cases hresult
  · rw [hscan] at hresult
    obtain ⟨hok, hreductions⟩ : (FrontEnd.run tokens symbols).1.isOk = false ∧
        (FrontEnd.run tokens symbols).2.reductions.take 3 =
          [.expressionTerm, .termFactor, .factorName] :=
      Prod.mk.inj (Option.some.inj hresult)
    refine ⟨tokens, symbols, rfl, hreductions, ?_⟩
    refine (refusals_blame_text hscan).resolve_left fun hrun => ?_
    rw [hrun] at hok
    cases hok

end Straightline
