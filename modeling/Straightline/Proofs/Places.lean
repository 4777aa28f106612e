/-
  Places do not matter.

  A token knows where it stands, and messages say so, but nothing else depends
  on it.  Forgetting the places of all tokens first and running the front end
  then gives the same as running it first and forgetting the places then: this
  is so for every step of the checker and the emitter, and for every move of a
  run.

  * `Token.unplaced`, and the same for whatever holds tokens;
  * `Attempt.Mirrors`: two attempts that do the same but for what is forgotten;
  * `FrontEnd.run_unplaced`: runs of the front end;
  * `compile_unplaced`: compilations.
-/
import Straightline.Compilation
import Straightline.Proofs.Replay

namespace Straightline

/-! ## Forgetting places -/

/-- A token without its place. -/
def Token.unplaced (t : Token) : Token :=
  ⟨t.kind, t.value, {}⟩

/-- An action without the place of its token. -/
def Event.unplaced : Event → Event
  | .shift token => .shift token.unplaced
  | event => event

/-- A report without the place of its token. -/
def Report.unplaced (r : Report) : Report :=
  ⟨r.states, r.event.unplaced⟩

/-- A configuration without the places of its tokens. -/
def Configuration.unplaced (c : Configuration) : Configuration :=
  ⟨c.states, c.rest.map Token.unplaced⟩

/-- A refusal without the place of its token. -/
def ParseError.unplaced : ParseError → ParseError
  | .unexpected token expected => .unexpected token.unplaced expected
  | e => e

/-- A move without the places of its tokens. -/
def Move.unplaced : Move → Move
  | .stuck e => .stuck e.unplaced
  | .accept r => .accept r.unplaced
  | .step r next => .step r.unplaced next.unplaced
  | .lost r left e => .lost r.unplaced left.unplaced e.unplaced

@[inherit_doc ParseError.unplaced]
def CheckError.unplaced : CheckError → CheckError
  | .redeclared name => .redeclared name.unplaced
  | .undeclared name => .undeclared name.unplaced
  | e => e

@[inherit_doc ParseError.unplaced]
def FrontEnd.Error.unplaced : FrontEnd.Error → FrontEnd.Error
  | .parse e => .parse e.unplaced
  | .check e => .check e.unplaced
  | e => e

/-- A slot without the place of its token. -/
def Checker.Slot.unplaced (slot : Checker.Slot) : Checker.Slot :=
  ⟨slot.token.map Token.unplaced, slot.type⟩

/-- A checker without the places of its tokens. -/
def Checker.unplaced (c : Checker) : Checker :=
  ⟨c.stack.map Checker.Slot.unplaced, c.symbols⟩

/-- A front end without the places of its tokens. -/
def FrontEnd.unplaced (f : FrontEnd) : FrontEnd :=
  { f with checker := f.checker.unplaced }

/-! ## Attempts that mirror each other -/

namespace Attempt

variable {ε σ α β : Type} {onError : ε → ε} {onState : σ → σ}

/-- From a state of which something is forgotten, the second attempt does what
    the first one does from the whole state, but for what is forgotten. -/
def Mirrors (onError : ε → ε) (onState : σ → σ) (onValue : α → α) (m m' : Attempt ε σ α) : Prop :=
  ∀ s, m'.exec (onState s) = (((m.exec s).1.map onValue).mapError onError, onState (m.exec s).2)

theorem Mirrors.bind {onValue : α → α} {onValue' : β → β} {m m' : Attempt ε σ α}
    {k k' : α → Attempt ε σ β} (hm : Mirrors onError onState onValue m m')
    (hk : ∀ a, Mirrors onError onState onValue' (k a) (k' (onValue a))) :
    Mirrors onError onState onValue' (m >>= k) (m' >>= k') := by
  intro s
  rw [exec_bind, exec_bind, hm s]
  rcases m.exec s with ⟨e | a, s'⟩
  · rfl
  · exact hk a s'

theorem mirrors_throw (onValue : α → α) (e : ε) :
    Mirrors onError onState onValue (throw e) (throw (onError e)) :=
  fun _ => rfl

theorem mirrors_pure (onValue : α → α) (a : α) :
    Mirrors onError onState onValue (pure a) (pure (onValue a)) :=
  fun _ => rfl

end Attempt

/-! ## The checker -/

theorem discard_map {α β : Type} (f : α → β) (n : Nat) (stack : List α) :
    discard n (stack.map f) = (discard n stack).map f := by
  simp only [discard, List.length_take, List.length_map]
  split <;> rw [List.map_drop]

namespace Checker

/-- Two steps of the checker that do the same but for places. -/
abbrev Mirrors {α : Type} (onValue : α → α) (m m' : Step α) : Prop :=
  Attempt.Mirrors CheckError.unplaced unplaced onValue m m'

theorem mirrors_push (slot : Slot) : Mirrors id (push slot) (push slot.unplaced) :=
  fun _ => rfl

theorem mirrors_drop (n : Nat) : Mirrors id (drop n) (drop n) := by
  intro c
  show (_, Checker.mk (discard n (c.stack.map Slot.unplaced)) c.symbols) = _
  rw [discard_map]
  rfl

theorem mirrors_slotAt (n : Nat) : Mirrors Slot.unplaced (slotAt n) (slotAt n) := by
  intro c
  have hslot : c.unplaced.stack[n]? = c.stack[n]?.map Slot.unplaced := List.getElem?_map
  simp only [slotAt, Attempt.exec_bind, Attempt.exec_get, hslot]
  cases c.stack[n]? <;> rfl

theorem mirrors_lookUp (slot : Slot) :
    Mirrors (fun found => (found.1, found.2.unplaced)) (lookUp slot) (lookUp slot.unplaced) := by
  intro c
  have hsymbols : c.unplaced.symbols = c.symbols := rfl
  have htoken : slot.unplaced.token = slot.token.map Token.unplaced := rfl
  simp only [lookUp, Attempt.exec_bind, Attempt.exec_get, hsymbols, htoken]
  cases c.symbols <;> cases slot.token <;> rfl

theorem mirrors_declare (slot : Slot) (type : Option SourceType) :
    Mirrors id (declare slot type) (declare slot.unplaced type) := by
  refine (mirrors_lookUp slot).bind fun found => ?_
  obtain ⟨symbols, name⟩ := found
  have hvalue : name.unplaced.value = name.value := rfl
  cases htype : symbols.typeOf? name.value with
  | some type =>
    simp only [hvalue, htype]
    exact Attempt.mirrors_throw id (CheckError.redeclared name)
  | none =>
    simp only [hvalue, htype]
    exact fun _ => rfl

theorem mirrors_requireDeclared (slot : Slot) :
    Mirrors id (requireDeclared slot) (requireDeclared slot.unplaced) := by
  refine (mirrors_lookUp slot).bind fun found => ?_
  obtain ⟨symbols, name⟩ := found
  have hvalue : name.unplaced.value = name.value := rfl
  cases htype : symbols.typeOf? name.value with
  | some type =>
    simp only [hvalue, htype]
    exact Attempt.mirrors_pure id ()
  | none =>
    simp only [hvalue, htype]
    exact Attempt.mirrors_throw id (CheckError.undeclared name)

theorem mirrors_reduceBy (p : Production) : Mirrors id (reduceBy p) (reduceBy p) := by
  have hpush : Mirrors id (push {}) (push {}) := mirrors_push {}
  have hplain : Mirrors id (do drop p.body.length; push {}) (do drop p.body.length; push {}) :=
    (mirrors_drop _).bind fun _ => hpush
  cases p with
  | declaration =>
    exact (mirrors_slotAt 0).bind fun name => (mirrors_slotAt 1).bind fun type =>
      (mirrors_drop 2).bind fun _ => (mirrors_declare name type.type).bind fun _ => hpush
  | intType =>
    exact (mirrors_slotAt 0).bind fun slot => (mirrors_drop 1).bind fun _ =>
      mirrors_push ⟨none, slot.type⟩
  | assignment =>
    exact (mirrors_slotAt 2).bind fun slot => (mirrors_requireDeclared slot).bind fun _ => hplain
  | factorName =>
    exact (mirrors_slotAt 0).bind fun slot => (mirrors_requireDeclared slot).bind fun _ => hplain
  | program => exact hplain
  | statementsMore => exact hplain
  | statementsLast => exact hplain
  | returnValue => exact hplain
  | add => exact hplain
  | sub => exact hplain
  | expressionTerm => exact hplain
  | mul => exact hplain
  | termFactor => exact hplain
  | parentheses => exact hplain
  | factorConstant => exact hplain

theorem mirrors_handle (event : Event) : Mirrors id (handle event) (handle event.unplaced) := by
  cases event with
  | shift token => exact mirrors_push _
  | reduce p => exact mirrors_reduceBy p
  | accept => exact Attempt.mirrors_pure id ()

end Checker

/-! ## The front end -/

theorem Emitter.handle_unplaced (event : Event) : handle event.unplaced = handle event := by
  cases event <;> rfl

namespace FrontEnd

/-- Two steps of the front end that do the same but for places. -/
abbrev Mirrors (m m' : Attempt Error FrontEnd Unit) : Prop :=
  Attempt.Mirrors Error.unplaced unplaced id m m'

theorem mirrors_checkStep {m m' : Checker.Step Unit} (h : Checker.Mirrors id m m') :
    Mirrors (checkStep m) (checkStep m') := by
  intro f
  have hm : m'.exec f.unplaced.checker = _ := h f.checker
  simp only [checkStep, Attempt.exec_bind, Attempt.exec_get, hm]
  rcases m.exec f.checker with ⟨_ | _, checker⟩ <;> rfl

theorem mirrors_emitStep (m : Emitter.Step Unit) : Mirrors (emitStep m) (emitStep m) := by
  intro f
  have hemitter : f.unplaced.emitter = f.emitter := rfl
  simp only [emitStep, Attempt.exec_bind, Attempt.exec_get, hemitter]
  rcases m.exec f.emitter with ⟨_ | _, emitter⟩ <;> rfl

theorem mirrors_watch (r : Report) : Mirrors (watch r) (watch r.unplaced) := by
  have hnote : Mirrors (modify (note · r.event)) (modify (note · r.event.unplaced)) := by
    intro f
    cases r.event <;> rfl
  refine hnote.bind fun _ => (mirrors_checkStep (Checker.mirrors_handle r.event)).bind fun _ => ?_
  show Mirrors _ (emitStep (Emitter.handle r.event.unplaced))
  rw [Emitter.handle_unplaced]
  exact mirrors_emitStep _

end FrontEnd

/-! ## Runs -/

theorem Table.reduceBy_unplaced (t : Table) (p : Production) (c : Configuration) :
    t.reduceBy p c.unplaced = (t.reduceBy p c).unplaced := by
  have hstates : c.unplaced.states = c.states := rfl
  simp only [reduceBy, hstates]
  rcases discard p.body.length c.states with _ | ⟨below, others⟩
  · rfl
  · dsimp only
    cases t.goto? below p.head <;> rfl

/-- **Forgetting places and moving.** -/
theorem Table.move_unplaced (t : Table) (last : Token) (c : Configuration) :
    t.move last.unplaced c.unplaced = (t.move last c).unplaced := by
  obtain ⟨states, rest⟩ := c
  cases states with
  | nil => rfl
  | cons state states =>
    have htoken : (rest.map Token.unplaced).headD last.unplaced =
        (rest.headD last).unplaced := by
      cases rest <;> rfl
    have htail : (rest.map Token.unplaced).tail = rest.tail.map Token.unplaced :=
      List.map_tail.symm
    have hkind : (rest.headD last).unplaced.kind = (rest.headD last).kind := rfl
    simp only [move, Configuration.unplaced, htoken, htail, hkind]
    rcases t.action? state (rest.headD last).kind with _ | next | p | _
    · rfl
    · rfl
    · exact t.reduceBy_unplaced p ⟨state :: states, rest⟩
    · rfl

namespace FrontEnd

/-- The end of a run without places. -/
def unplacedRun (run : Run Error FrontEnd) : Run Error FrontEnd :=
  { depth := run.depth
    watched := run.watched.unplaced
    finish := match run.finish with
      | .failed e => .failed e.unplaced
      | .stopped e => .stopped e.unplaced
      | finish => finish }

/-- **Forgetting places and running.** -/
theorem runFrom_unplaced (t : Table) (last : Token) (fuel : Nat) (c : Configuration)
    (f : FrontEnd) :
    t.runFrom last.unplaced watch fuel c.unplaced f.unplaced =
      unplacedRun (t.runFrom last watch fuel c f) := by
  have hdepth : ∀ c : Configuration, c.unplaced.depth = c.depth := fun _ => rfl
  induction fuel generalizing c f with
  | zero => rfl
  | succ fuel ih =>
    rw [Table.runFrom, Table.runFrom, t.move_unplaced]
    rcases t.move last c with e | r | ⟨r, next⟩ | ⟨r, left, e⟩
    · rfl
    · simp only [Move.unplaced, mirrors_watch r f]
      rcases (watch r).exec f with ⟨_ | _, f'⟩ <;> rfl
    · simp only [Move.unplaced, mirrors_watch r f]
      rcases (watch r).exec f with ⟨_ | _, f'⟩
      · rfl
      · exact ih next f'
    · simp only [Move.unplaced, mirrors_watch r f]
      rcases (watch r).exec f with ⟨_ | _, f'⟩ <;> rfl

theorem endTokenOf_unplaced (tokens : List Token) :
    endTokenOf (tokens.map Token.unplaced) = (endTokenOf tokens).unplaced := by
  rw [endTokenOf, List.getLast?_map]
  cases tokens.getLast? <;> rfl

/-- **What the front end does depends on the kinds and values of tokens alone.** -/
theorem run_unplaced (tokens : List Token) (symbols : Symbols) :
    run (tokens.map Token.unplaced) symbols =
      ((run tokens symbols).1.mapError Error.unplaced, (run tokens symbols).2.unplaced) := by
  let start : FrontEnd := ⟨⟨[], some symbols⟩, {}, []⟩
  have hrun : Table.standard.run (tokens.map Token.unplaced) watch start =
      unplacedRun (Table.standard.run tokens watch start) := by
    cases tokens with
    | nil => rfl
    | cons token tokens =>
      have hpatience : Table.standard.patience ((token :: tokens).map Token.unplaced) =
          Table.standard.patience (token :: tokens) := by
        rw [Table.patience, List.length_map, Table.patience]
      show Table.standard.runFrom (endTokenOf ((token :: tokens).map Token.unplaced)) watch
        (Table.standard.patience ((token :: tokens).map Token.unplaced)) _ _ = _
      rw [endTokenOf_unplaced, hpatience]
      exact runFrom_unplaced _ _ _ (.start (token :: tokens)) start
  simp only [run]
  rw [hrun]
  rcases Table.standard.run tokens watch start with ⟨_ | _ | _ | _, depth, f⟩ <;> rfl

end FrontEnd

/-! ## Compilations -/

/-- A refusal without its place. -/
def ScanError.unplaced (e : ScanError) : ScanError :=
  ⟨e.char, {}⟩

@[inherit_doc ScanError.unplaced]
def CompileError.unplaced : CompileError → CompileError
  | .scan e => .scan e.unplaced
  | .frontEnd e => .frontEnd e.unplaced
  | e => e

/-- What a scan finds, without places. -/
def unplacedScan (found : Except ScanError (List Token × Symbols)) :
    Except ScanError (List Token × Symbols) :=
  (found.map (Prod.map (List.map Token.unplaced) id)).mapError ScanError.unplaced

/-- The result of a compilation without places. -/
def Compilation.unplaced (c : Compilation) : Compilation :=
  ⟨c.error?.map CompileError.unplaced, c.tokens.map Token.unplaced, c.code, c.assembly⟩

/-- Results that differ only in places agree on all the rest. -/
theorem Compilation.agree_of_unplaced {c c' : Compilation} (h : c'.unplaced = c.unplaced) :
    c'.succeeded = c.succeeded ∧
      c'.tokens.map (fun t => (t.kind, t.value)) = c.tokens.map (fun t => (t.kind, t.value)) ∧
      c'.code = c.code ∧ c'.assembly = c.assembly := by
  obtain ⟨herror, htokens, hcode, hassembly⟩ := Compilation.mk.inj h
  refine ⟨?_, ?_, hcode, hassembly⟩
  · have hnone := congrArg Option.isNone herror
    rwa [Option.isNone_map, Option.isNone_map] at hnone
  · have hpairs := congrArg (List.map fun t => (t.kind, t.value)) htokens
    rwa [List.map_map, List.map_map] at hpairs

theorem scanTrail_unplaced (tokens : List Token) (symbols : Symbols) :
    scanTrail (tokens.map Token.unplaced) symbols = scanTrail tokens symbols := by
  have htexts : (tokens.map Token.unplaced).map (fun t => t.text ++ "\n") =
      tokens.map fun t => t.text ++ "\n" := by
    rw [List.map_map]
    rfl
  simp only [scanTrail, List.length_map, htexts]

/-- What a front end leaves behind does not depend on places. -/
theorem FrontEnd.trails_eq {f f' : FrontEnd} (h : f'.unplaced = f.unplaced) :
    f'.emitter = f.emitter ∧ reductionTrail f' = reductionTrail f ∧ codeTrail f' = codeTrail f := by
  have hemitter := congrArg FrontEnd.emitter h
  have hreductions := congrArg FrontEnd.reductions h
  have hsymbols := congrArg (Checker.symbols ∘ FrontEnd.checker) h
  change f'.emitter = f.emitter at hemitter
  change f'.reductions = f.reductions at hreductions
  change f'.checker.symbols = f.checker.symbols at hsymbols
  refine ⟨hemitter, ?_, ?_⟩
  · rw [reductionTrail, reductionTrail, hreductions]
  · rw [codeTrail, codeTrail, hemitter, hsymbols]

/-- Texts with the same tokens, but for their places, are compiled alike. -/
theorem compile_of_same_tokens {source source' : String} {tokens tokens' : List Token}
    {symbols : Symbols} (loadRight : Bool) (hscan : scanText source = .ok (tokens, symbols))
    (hscan' : scanText source' = .ok (tokens', symbols))
    (htokens : tokens'.map Token.unplaced = tokens.map Token.unplaced) :
    (compile loadRight source').1.unplaced = (compile loadRight source).1.unplaced ∧
      (compile loadRight source').2 = (compile loadRight source).2 := by
  have hscanned : scanTrail tokens' symbols = scanTrail tokens symbols := by
    rw [← scanTrail_unplaced, htokens, scanTrail_unplaced]
  have hsame := FrontEnd.run_unplaced tokens' symbols
  rw [htokens, FrontEnd.run_unplaced] at hsame
  rcases hrun : FrontEnd.run tokens symbols with ⟨out, f⟩
  rcases hrun' : FrontEnd.run tokens' symbols with ⟨out', f'⟩
  rw [hrun, hrun'] at hsame
  have hout : out.mapError FrontEnd.Error.unplaced = out'.mapError FrontEnd.Error.unplaced :=
    (Prod.mk.inj hsame).1
  have hf : f.unplaced = f'.unplaced := (Prod.mk.inj hsame).2
  obtain ⟨hemitter, hreductions, hcode⟩ := FrontEnd.trails_eq hf
  simp only [compile, hscan, hscan', hrun, hrun']
  rcases out with e | u <;> rcases out' with e' | u'
  · have he : e.unplaced = e'.unplaced := Except.error.inj hout
    simp [Compilation.unplaced, CompileError.unplaced, he, htokens, hscanned, hreductions]
  · cases hout
  · cases hout
  · simp only [hscanned, hreductions, hcode, hemitter]
    rcases lower loadRight f'.emitter.instructions with ⟨_ | _, l⟩ <;>
      simp only [Compilation.unplaced, htokens, and_self]

/-- **Texts with the same scan, but for places, are compiled alike.**  The
    results differ only in places, and what is left behind does not. -/
theorem compile_unplaced {source source' : String} (loadRight : Bool)
    (h : unplacedScan (scanText source') = unplacedScan (scanText source)) :
    (compile loadRight source').1.unplaced = (compile loadRight source).1.unplaced ∧
      (compile loadRight source').2 = (compile loadRight source).2 := by
  rcases hscan : scanText source with e | ⟨tokens, symbols⟩ <;>
    rcases hscan' : scanText source' with e' | ⟨tokens', symbols'⟩ <;>
    rw [hscan, hscan'] at h
  · have he : e'.unplaced = e.unplaced := Except.error.inj h
    simp [compile, hscan, hscan', Compilation.failure, Compilation.unplaced,
      CompileError.unplaced, he]
  · cases h
  · cases h
  · obtain ⟨htokens, hsymbols⟩ := Prod.mk.inj (Except.ok.inj h)
    cases hsymbols
    exact compile_of_same_tokens loadRight hscan hscan' htokens

end Straightline
