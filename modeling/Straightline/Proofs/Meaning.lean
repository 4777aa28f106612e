/-
  What the emitted instructions mean.

  The emitter works on the actions of a run and builds no tree.  Its
  instructions nevertheless mean what the only tree of the tokens means: they
  return the same value and leave the same values in the variables of the
  program, whatever these held at the start.

  * `finalValues`, `Program.finalValues`: the values of variables in the end,
    for instructions and for programs;
  * `Program.finalValues_translate`: the instructions for a program leave the
    values that the program leaves;
  * `Emitter.run_accepted`: the emitter stops no run over a sentence whose
    constants can be read;
  * `emission_preserves_meaning`: the instructions of a whole run.
-/
import Straightline.Proofs.Unambiguous
import Straightline.Proofs.Emission
import Straightline.Proofs.Lockstep

namespace Straightline

/-! ## Values in the end -/

/-- The values of variables after some instructions, up to the first
    return. -/
def finalValues : List Instruction → Environment → Environment
  | [], env => env
  | i :: rest, env => if i.opcode = .ret then env else finalValues rest (i.perform env)

theorem finalValues_append {pre : List Instruction} (hpre : NoReturn pre)
    (rest : List Instruction) (env : Environment) :
    finalValues (pre ++ rest) env = finalValues rest (performAll pre env) := by
  induction pre generalizing env with
  | nil => rfl
  | cons i pre ih =>
    rw [List.cons_append, finalValues, if_neg (hpre i List.mem_cons_self)]
    exact ih (fun j hj => hpre j (List.mem_cons_of_mem i hj)) _

namespace Program

/-- The values of variables after the statements of a program, up to the
    first return. -/
def finalValues : Program → Environment → Environment
  | [], env => env
  | .declare _ :: rest, env => finalValues rest env
  | .assign x e :: rest, env => finalValues rest (Function.update env x (e.value env))
  | .ret _ :: _, env => env

/-- **The instructions for a program leave the values that it leaves**, if its
    variables are no temporaries. -/
theorem finalValues_translate {p : Program}
    (hplain : ∀ x, uses x p = true → isTemporary x = false) (n : Nat) {env env' : Environment}
    (henv : ∀ x, isTemporary x = false → env' x = env x) {x : String}
    (hx : isTemporary x = false) :
    Straightline.finalValues (translate n p).1 env' x = finalValues p env x := by
  induction p generalizing n env env' with
  | nil => exact henv x hx
  | cons s rest ih =>
    have hrest : ∀ x, uses x rest = true → isTemporary x = false :=
      fun x hx => hplain x (by simp_all [uses])
    cases s with
    | declare y => exact ih hrest n henv
    | assign y e =>
      have he : ∀ x, e.reads x = true → isTemporary x = false :=
        fun x hx => hplain x (by simp [uses, Statement.uses, hx])
      rw [translate, finalValues_append Statement.noReturn_translate_assign]
      exact ih hrest _ fun x hx => Statement.performAll_translate_assign he henv hx
    | ret e =>
      rw [translate, Statement.translate, List.append_assoc,
        finalValues_append (e.noReturn_translate n)]
      exact (Expr.performAll_translate_of_not_isTemporary env' hx).trans (henv x hx)

end Program

/-! ## Runs of the emitter -/

namespace Emitter

/-- At every head the emitter is in step. -/
theorem inStep_of_atHead {t : Table} (ht : t.Lawful) {tokens : List Token} {start e : Emitter}
    {reports : List Report} {c : Configuration}
    (h : t.AtHead tokens watch start reports c e) :
    InStep ((constituents (reports.map Report.event)).map Constituent.symbol) start e := by
  let P (stack : List Constituent) (e : Emitter) : Prop :=
    InStep (stack.map Constituent.symbol) start e
  refine ht.invariant_of_atHead (P := P) ?_ (fun h hadmits hexec => ?_) h
  · exact ⟨[], .nil, rfl⟩
  · rcases h.handle hadmits with ⟨e', hexec', hstep⟩ | ⟨token, d, -, -, -, hexec'⟩
    · cases hexec'.symm.trans hexec
      exact hstep
    · cases hexec'.symm.trans hexec

/-- **The emitter stops no run over a sentence** whose constants can be
    read. -/
theorem run_accepted {t : Table} (ht : t.Lawful) {tokens : List Token} (htokens : tokens ≠ [])
    (hsentence : IsSentence ((beforeEnd tokens).map Token.kind))
    (hconstants : ∀ token ∈ tokens, token.kind = .constant →
      Text.isDecimal token.value.toList = true ∧ token.value.toList.length ≤ Text.digitLimit)
    (start : Emitter) : (t.run tokens watch start).finish = .accepted := by
  rcases ht.run_finish htokens watch start with
    hfinish | ⟨token, expected, hfinish⟩ | ⟨error, reports, c, e, r, -, hfails⟩
  · exact hfinish
  · exact absurd hsentence (ht.not_isSentence_of_failed hfinish)
  · -- The failure would be that of a constant that cannot be read.
    have hstep := inStep_of_atHead ht hfails.atHead
    have hexec := hfails.fails
    rcases hstep.handle hfails.admits with ⟨e', hok, -⟩ | ⟨token, d, hevent, hkind, hread, -⟩
    · rw [watch, hok] at hexec
      cases hexec
    · have hmem : token ∈ tokens := hfails.mem_tokens token (by rw [hevent]; rfl)
      obtain ⟨hdecimal, hlength⟩ := hconstants token hmem hkind
      have hlong := (Text.readDecimal_eq_error hdecimal hread).2
      omega

/-- An accepted run leaves the instructions for the program of the tree. -/
theorem instructions_of_accepted {t : Table} (ht : t.Lawful) {tree : ProgramTree}
    {tokens rest : List Token} (htokens : tokens = tree.tokens ++ rest)
    (hend : rest = [] ∨ ∃ e rest', rest = e :: rest' ∧ e.kind = .endMark)
    (h : (t.run tokens watch {}).finish = .accepted) :
    (t.run tokens watch {}).watched.instructions = (Program.translate 0 tree.program).1 := by
  obtain ⟨reports, hevents, hrun⟩ := ht.run_tokens tree htokens hend
  rw [hrun] at h ⊢
  have hexec := watch.exec_forM_of_replay (fun e => by simp) h
  have hforM : forM reports watch = forM (reports.map Report.event) handle := by
    rw [List.forM_map]
    rfl
  rw [hforM, hevents, List.forM_append] at hexec
  -- The acceptance itself emits nothing.
  obtain ⟨_, e, htree, hdone⟩ := Attempt.exec_bind_eq_ok hexec
  cases hdone
  rw [tree.exec_emitter htree]
  rfl

end Emitter

/-! ## Meaning -/

/-- **The emitted instructions mean what the program means.**  Take tokens
    that are accepted, with identifiers that are no temporaries and constants
    that can be read.  They have exactly one tree, the run with a fresh emitter
    is accepted, and whatever the values of variables at the start:

    * the instructions return what the program of the tree returns, or
      nothing if it returns nothing;
    * they leave the values that the program leaves, in all variables but
      temporaries. -/
theorem emission_preserves_meaning {tokens : List Token}
    (haccepted : (Table.standard.run tokens Watcher.recorder []).finish = .accepted)
    (hnames : ∀ token ∈ tokens, token.kind = .identifier → isTemporary token.value = false)
    (hconstants : ∀ token ∈ tokens, token.kind = .constant →
      Text.isDecimal token.value.toList = true ∧ token.value.toList.length ≤ Text.digitLimit) :
    ∃ tree : ProgramTree, (∀ tree' : ProgramTree, tree'.tokens = beforeEnd tokens ↔ tree' = tree) ∧
      (Table.standard.run tokens Emitter.watch {}).finish = .accepted ∧
      ∀ env : Environment,
        let code := (Table.standard.run tokens Emitter.watch {}).watched.instructions
        returned code env = Program.value tree.program env ∧
        ∀ x, isTemporary x = false →
          finalValues code env x = Program.finalValues tree.program env x := by
  have ht := Table.standard_lawful
  have hne : tokens ≠ [] := by
    rintro rfl
    cases haccepted
  obtain ⟨tree, rest, htokens, hend⟩ := ht.exists_tree hne haccepted
  have hbefore : beforeEnd tokens = tree.tokens := by rw [htokens, beforeEnd_of_tree tree hend]
  have hsentence : IsSentence ((beforeEnd tokens).map Token.kind) :=
    (isSentence_iff _).2 ⟨tree, hbefore.symm⟩
  have hrun := Emitter.run_accepted ht hne hsentence hconstants {}
  have hrest : rest = [] ∨ ∃ e rest', rest = e :: rest' ∧ e.kind = .endMark := by
    cases rest with
    | nil => exact .inl rfl
    | cons e rest' => exact .inr ⟨e, rest', rfl, hend⟩
  have hplain : ∀ x, Program.uses x tree.program = true → isTemporary x = false := by
    intro x hx
    obtain ⟨token, hmem, hkind, rfl⟩ := tree.exists_identifier_of_uses hx
    exact hnames token (htokens ▸ List.mem_append_left rest hmem) hkind
  refine ⟨tree, fun tree' => ⟨fun h => ?_, fun h => ?_⟩, hrun, fun env => ?_⟩
  · exact ProgramTree.eq_of_tokens (h.trans hbefore)
  · rw [h, hbefore]
  · rw [Emitter.instructions_of_accepted ht htokens hrest hrun]
    exact ⟨Program.returned_translate hplain 0 fun _ _ => rfl,
      fun x hx => Program.finalValues_translate hplain 0 (fun _ _ => rfl) hx⟩

/-- The assigned variable is read inside parentheses before it is
    overwritten. -/
theorem emission_preserves_meaning_parentheses :
    let name (x : String) : Token := ⟨.identifier, x, {}⟩
    let mark (kind : Terminal) : Token := ⟨kind, "", {}⟩
    let tokens : List Token :=
      [name "x", mark .assign, name "y", mark .minus, mark .openParen, name "x", mark .minus,
        ⟨.constant, "02", {}⟩, mark .closeParen, mark .semicolon, mark .returnWord, name "x",
        mark .semicolon, mark .endMark]
    (Table.standard.run tokens Emitter.watch {}).finish = .accepted ∧ ∀ env : Environment,
      let code := (Table.standard.run tokens Emitter.watch {}).watched.instructions
      returned code env = some (env "y" - (env "x" - 2)) ∧
      finalValues code env "x" = env "y" - (env "x" - 2) ∧ finalValues code env "y" = env "y" := by
  intro name mark tokens
  let factor (x : String) : Tree (.nonterminal .factor) :=
    .node .factorName (.cons (.leaf (name x)) .nil)
  let expression (f : Tree (.nonterminal .factor)) : Tree (.nonterminal .expression) :=
    .node .expressionTerm (.cons (.node .termFactor (.cons f .nil)) .nil)
  let difference (e : Tree (.nonterminal .expression)) (f : Tree (.nonterminal .factor)) :
      Tree (.nonterminal .expression) :=
    .node .sub (.cons e (.cons (.leaf (mark .minus)) (.cons (.node .termFactor (.cons f .nil)) .nil)))
  let inner := difference (expression (factor "x"))
    (.node .factorConstant (.cons (.leaf ⟨.constant, "02", {}⟩) .nil))
  let outer := difference (expression (factor "y")) (.node .parentheses
    (.cons (.leaf (mark .openParen)) (.cons inner (.cons (.leaf (mark .closeParen)) .nil))))
  let result : Tree (.nonterminal .statement) :=
    .node .returnValue (.cons (.leaf (mark .returnWord)) (.cons (expression (factor "x")) .nil))
  let tree : ProgramTree :=
    .node .program (.cons (.node .statementsMore (.cons
      (.node .assignment (.cons (.leaf (name "x")) (.cons (.leaf (mark .assign)) (.cons outer .nil))))
      (.cons (.leaf (mark .semicolon)) (.cons
        (.node .statementsLast (.cons result (.cons (.leaf (mark .semicolon)) .nil))) .nil)))) .nil)
  have haccepted : (Table.standard.run tokens Watcher.recorder []).finish = .accepted := by
    decide +kernel
  have hnames : ∀ token ∈ tokens, token.kind = .identifier → isTemporary token.value = false := by
    decide +kernel
  have hconstants : ∀ token ∈ tokens, token.kind = .constant →
      Text.isDecimal token.value.toList = true ∧
        token.value.toList.length ≤ Text.digitLimit := by
    decide +kernel
  obtain ⟨tree', hunique, hrun, hmeaning⟩ :=
    emission_preserves_meaning haccepted hnames hconstants
  have htree : tree = tree' := (hunique tree).1 rfl
  subst htree
  have hprogram : tree.program = [.assign "x" (.operation .sub (.name "y")
      (.operation .sub (.name "x") (.constant 2))), .ret (.name "x")] := by
    decide +kernel
  refine ⟨hrun, fun env => ?_⟩
  obtain ⟨hreturned, hfinal⟩ := hmeaning env
  rw [hprogram] at hreturned hfinal
  exact ⟨hreturned, hfinal "x" (by decide), hfinal "y" (by decide)⟩

end Straightline
