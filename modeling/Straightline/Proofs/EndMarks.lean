/-
  The end mark is optional and final.

  A run looks at an end mark, and may make many reductions on it, but never
  shifts it.  So what stands behind the first end mark is not read at all.  If
  there is no end mark, the run acts as if there were one behind the last
  token.  Both times it is the run over the tokens up to the end mark.

  * `upToEnd`: the tokens up to the first end mark, which is put behind them if
    they have none;
  * `Table.Lawful.move_upToEnd`: a move reads no further;
  * `Table.Lawful.runFrom_upToEnd`: nor do several moves;
  * `Table.Lawful.run_upToEnd`: nor does a whole run;
  * `end_mark_optional_and_final`: what comes of it for the two ways to write
    the end of a text.
-/
import Straightline.Proofs.Constituents

namespace Straightline

variable {ε σ : Type} {last last' token : Token} {tokens front rest : List Token}

/-! ## The tokens up to the end -/

/-- The tokens up to the first end mark, with `last` behind them if there is
    none. -/
def upToEnd (last : Token) : List Token → List Token
  | [] => [last]
  | token :: rest => if token.kind = .endMark then [token] else token :: upToEnd last rest

theorem headD_upToEnd (last last' : Token) (tokens : List Token) :
    (upToEnd last tokens).headD last' = tokens.headD last := by
  cases tokens with
  | nil => rfl
  | cons token rest =>
    rw [upToEnd]
    split <;> rfl

/-- A token that is no end mark can be taken off first. -/
theorem tail_upToEnd (hlast : last.kind = .endMark) (h : (tokens.headD last).kind ≠ .endMark) :
    (upToEnd last tokens).tail = upToEnd last tokens.tail := by
  cases tokens with
  | nil => exact absurd hlast h
  | cons token rest =>
    have hkind : token.kind ≠ .endMark := h
    simp [upToEnd, hkind]

theorem upToEnd_ne_nil (last : Token) (tokens : List Token) : upToEnd last tokens ≠ [] := by
  cases tokens with
  | nil => simp [upToEnd]
  | cons token rest =>
    rw [upToEnd]
    split <;> simp

theorem upToEnd_of_forall_ne (h : ∀ token ∈ tokens, token.kind ≠ .endMark) :
    upToEnd last tokens = tokens ++ [last] := by
  induction tokens with
  | nil => rfl
  | cons token rest ih =>
    rw [List.forall_mem_cons] at h
    rw [upToEnd, if_neg h.1, ih h.2, List.cons_append]

/-- Behind an end mark there is nothing to read. -/
theorem upToEnd_append (hmem : token ∈ front) (hkind : token.kind = .endMark) :
    upToEnd last (front ++ rest) = upToEnd last' front := by
  induction front with
  | nil => cases hmem
  | cons first front ih =>
    rw [List.cons_append, upToEnd, upToEnd]
    by_cases hfirst : first.kind = .endMark
    · rw [if_pos hfirst, if_pos hfirst]
    · have hne : token ≠ first := by
        rintro rfl
        exact hfirst hkind
      rw [if_neg hfirst, if_neg hfirst, ih (List.mem_of_ne_of_mem hne hmem)]

/-- A configuration with only the tokens up to the end. -/
def Configuration.upToEnd (last : Token) (c : Configuration) : Configuration :=
  ⟨c.states, Straightline.upToEnd last c.rest⟩

/-- A move between configurations with only the tokens up to the end. -/
def Move.upToEnd (last : Token) : Move → Move
  | .step r next => .step r (next.upToEnd last)
  | .lost r left e => .lost r (left.upToEnd last) e
  | move => move

/-! ## Moves -/

namespace Table

variable {t : Table} {c : Configuration} {s : σ} {watch : Watcher ε σ}

theorem reduceBy_upToEnd (t : Table) (last : Token) (p : Production) (c : Configuration) :
    t.reduceBy p (c.upToEnd last) = (t.reduceBy p c).upToEnd last := by
  have hstates : (c.upToEnd last).states = c.states := rfl
  simp only [reduceBy, hstates]
  rcases discard p.body.length c.states with _ | ⟨below, others⟩
  · rfl
  · dsimp only
    cases t.goto? below p.head <;> rfl

/-- **A move reads no further than the end mark**, as it does not shift it. -/
theorem Lawful.move_upToEnd (ht : t.Lawful) (hlast : last.kind = .endMark) (last' : Token)
    (c : Configuration) : t.move last' (c.upToEnd last) = (t.move last c).upToEnd last := by
  obtain ⟨states, rest⟩ := c
  cases states with
  | nil => rfl
  | cons state below =>
    simp only [move, Configuration.upToEnd, headD_upToEnd]
    rcases haction : t.action? state (rest.headD last).kind with _ | next | p | _
    · rfl
    · have hkind : (rest.headD last).kind ≠ .endMark := by
        intro hkind
        rw [hkind, action?_eq_shift_iff, ht.next?_endMark] at haction
        cases haction
      dsimp only
      rw [tail_upToEnd hlast hkind]
      rfl
    · exact t.reduceBy_upToEnd last p ⟨state :: below, rest⟩
    · rfl

/-! ## Runs -/

theorem Lawful.runFrom_upToEnd (ht : t.Lawful) (hlast : last.kind = .endMark) (last' : Token)
    (watch : Watcher ε σ) (fuel : Nat) (c : Configuration) (s : σ) :
    t.runFrom last' watch fuel (c.upToEnd last) s = t.runFrom last watch fuel c s := by
  have hdepth : ∀ c : Configuration, (c.upToEnd last).depth = c.depth := fun _ => rfl
  induction fuel generalizing c s with
  | zero => rfl
  | succ fuel ih =>
    rw [runFrom, runFrom, ht.move_upToEnd hlast]
    rcases t.move last c with e | r | ⟨r, next⟩ | ⟨r, left, e⟩
    · rfl
    · rfl
    · simp only [Move.upToEnd, hdepth, ih]
    · simp only [Move.upToEnd, hdepth]

/-- Runs from one configuration that come to an end are the same, however many
    moves they were allowed. -/
theorem runFrom_eq_runFrom {fuel fuel' : Nat}
    (h : (t.runFrom last watch fuel c s).finish ≠ .unfinished)
    (h' : (t.runFrom last watch fuel' c s).finish ≠ .unfinished) :
    t.runFrom last watch fuel c s = t.runFrom last watch fuel' c s := by
  induction fuel generalizing fuel' c s with
  | zero => exact absurd rfl h
  | succ fuel ih =>
    cases fuel' with
    | zero => exact absurd rfl h'
    | succ fuel' =>
      rw [runFrom] at h h'
      rw [runFrom, runFrom]
      rcases hmove : t.move last c with e | r | ⟨r, next⟩ | ⟨r, left, e⟩
      · rfl
      · rfl
      · simp only [hmove] at h h' ⊢
        rcases hexec : (watch r).exec s with ⟨e | u, s'⟩
        · rfl
        · simp only [hexec] at h h' ⊢
          exact ih h h'
      · rfl

theorem Lawful.finish_run_ne_unfinished (ht : t.Lawful) (htokens : tokens ≠ [])
    (watch : Watcher ε σ) (s : σ) : (t.run tokens watch s).finish ≠ .unfinished := by
  intro hfinish
  rcases ht.run_finish htokens watch s with h | ⟨_, _, h⟩ | ⟨_, _, _, _, _, h, -⟩
  all_goals cases hfinish.symm.trans h

/-- **A run reads no further than the end mark**: it is the run over the tokens
    up to there. -/
theorem Lawful.run_upToEnd (ht : t.Lawful) (htokens : tokens ≠ []) (watch : Watcher ε σ) (s : σ) :
    t.run (upToEnd (endTokenOf tokens) tokens) watch s = t.run tokens watch s := by
  have hne := upToEnd_ne_nil (endTokenOf tokens) tokens
  have hread := ht.finish_run_ne_unfinished hne watch s
  have hall := ht.finish_run_ne_unfinished htokens watch s
  have hlast : (endTokenOf tokens).kind = .endMark := rfl
  have hmoves := ht.runFrom_upToEnd hlast (endTokenOf (upToEnd (endTokenOf tokens) tokens)) watch
    (t.patience tokens) (.start tokens) s
  rw [run_eq_runFrom hne] at hread ⊢
  rw [run_eq_runFrom htokens, ← hmoves] at hall ⊢
  -- The moves are the same, but fewer or more of them are allowed.
  exact runFrom_eq_runFrom hread hall

end Table

/-- **The end mark is optional and final.**  For any tokens, whoever watches:

    * if there is an end mark among them, the run is the one over the tokens up
      to that end mark;
    * if there is none, it is the run over the tokens and an end mark behind
      them, at the place of the last one.

    Both runs end in the same way, with the same stack height, and leave the
    watcher in the same state; as it may keep all that it hears, it hears the
    same reports. -/
theorem end_mark_optional_and_final {ε σ : Type} (watch : Watcher ε σ) (init : σ)
    {tokens : List Token} (htokens : tokens ≠ []) :
    (∀ k token, tokens[k]? = some token → token.kind = .endMark →
      Table.standard.run tokens watch init =
        Table.standard.run (tokens.take (k + 1)) watch init) ∧
    ((∀ token ∈ tokens, token.kind ≠ .endMark) →
      Table.standard.run tokens watch init =
        Table.standard.run (tokens ++ [⟨.endMark, "", (tokens.getLast htokens).place⟩]) watch
          init) := by
  have ht := Table.standard_lawful
  constructor
  · intro k token htoken hkind
    have hmem : token ∈ tokens.take (k + 1) :=
      List.mem_of_getElem? (i := k) (by rwa [List.getElem?_take_of_lt (Nat.lt_succ_self k)])
    have hread := calc upToEnd (endTokenOf tokens) tokens
      _ = upToEnd (endTokenOf tokens) (tokens.take (k + 1) ++ tokens.drop (k + 1)) := by
        rw [List.take_append_drop]
      _ = upToEnd (endTokenOf (tokens.take (k + 1))) (tokens.take (k + 1)) :=
        upToEnd_append hmem hkind
    rw [← ht.run_upToEnd htokens, hread, ht.run_upToEnd (List.ne_nil_of_mem hmem)]
  · intro hnone
    have hlast : endTokenOf tokens = ⟨.endMark, "", (tokens.getLast htokens).place⟩ := by
      simp [endTokenOf, List.getLast?_eq_some_getLast htokens]
    rw [← ht.run_upToEnd htokens, upToEnd_of_forall_ne hnone, hlast]

/-- A program is followed by an end mark and a parenthesis that would not fit;
    the last two reductions are made on the end mark.  Without its semicolon,
    and without an end mark, the program fails at the place of its last
    token. -/
theorem end_mark_optional_and_final_return :
    let program : List Token := [⟨.returnWord, "", ⟨1, 1⟩⟩, ⟨.constant, "7", ⟨1, 8⟩⟩]
    let semicolon : Token := ⟨.semicolon, "", ⟨1, 9⟩⟩
    let mark : Token := ⟨.endMark, "", ⟨1, 8⟩⟩
    let junk : Token := ⟨.openParen, "", ⟨1, 11⟩⟩
    let run (tokens : List Token) := Table.standard.run tokens Watcher.recorder []
    run (program ++ [semicolon, mark, junk]) = run (program ++ [semicolon, mark]) ∧
      (run (program ++ [semicolon, mark])).finish = .accepted ∧
      run program = run (program ++ [mark]) ∧
      ∃ e, (run (program ++ [mark])).finish = .failed e ∧ e.token? = some mark := by
  intro program semicolon mark junk run
  obtain ⟨hfinal, -⟩ := end_mark_optional_and_final Watcher.recorder []
    (show program ++ [semicolon, mark, junk] ≠ [] by decide)
  obtain ⟨-, hoptional⟩ := end_mark_optional_and_final Watcher.recorder []
    (show program ≠ [] by decide)
  refine ⟨hfinal 3 mark rfl rfl, by decide +kernel, hoptional (by decide), ?_⟩
  have htoken : (match (run (program ++ [mark])).finish with
      | .failed e => e.token?
      | _ => none) = some mark := by
    decide +kernel
  rcases hfinish : (run (program ++ [mark])).finish with _ | e | e | _
  · rw [hfinish] at htoken
    cases htoken
  · rw [hfinish] at htoken
    exact ⟨e, rfl, htoken⟩
  · cases e
  · rw [hfinish] at htoken
    cases htoken

end Straightline
