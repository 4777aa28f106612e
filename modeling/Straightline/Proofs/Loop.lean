/-
  The loop of a run.

  A run makes one move after the other until there is none left.  Reductions
  take no token from the input, and many of them leave the stack as high as it
  was; still there are no more than five moves for each token.  On the way the
  stack is never used up: every reduction finds its body above state 0, and a
  goto for its head behind it.

  * `Table.actionFor?`: the action that a configuration asks for;
  * `Table.StackSound`: what a reduction needs of the stack is there;
  * `Table.Lawful.progress_of_steps`: what the loop keeps from head to head;
  * `loop_ends_on_sound_stack`: the loop over any tokens, whoever watches it.
-/
import Straightline.Proofs.Constituents

namespace Straightline

namespace Table

/-- The action that a configuration asks for, if the end mark `last` stands
    behind its tokens. -/
def actionFor? (t : Table) (last : Token) (c : Configuration) : Option Action :=
  c.states.head?.bind fun s => t.action? s (c.rest.headD last).kind

/-- Nothing is wrong with the stack: state 0 is at its bottom, and a reduction
    finds the states for its body above that one, and a goto for its head in
    the state below them. -/
def StackSound (t : Table) (last : Token) (c : Configuration) : Prop :=
  ∃ above, c.states = above ++ [0] ∧ ∀ p, t.actionFor? last c = some (.reduce p) →
    p.body.length ≤ above.length ∧
      ∃ s below k, c.states.drop p.body.length = s :: below ∧ t.goto? s p.head = some k

variable {t : Table} {last : Token} {tokens : List Token} {reports : List Report}
  {c c' : Configuration} {trees : List (Sigma Tree)}

theorem Stacked.exists_above {states : List Nat} (h : t.Stacked states trees) :
    ∃ above, states = above ++ [0] := by
  induction h with
  | bottom => exact ⟨[], rfl⟩
  | @push s k below _ _ _ _ ih =>
    obtain ⟨above, habove⟩ := ih
    exact ⟨k :: above, by rw [habove, List.cons_append]⟩

namespace Lawful

/-- A stack that stands for trees is sound: a complete rule has its body on
    top, and below the body its head is expected. -/
theorem stackSound (ht : t.Lawful) (last : Token) (h : t.Stacked c.states trees) :
    t.StackSound last c := by
  obtain ⟨above, habove⟩ := h.exists_above
  refine ⟨above, habove, fun p hp => ?_⟩
  obtain ⟨s, hs, haction⟩ := Option.bind_eq_some_iff.1 hp
  obtain ⟨below, hstates⟩ := List.head?_eq_some_iff.1 hs
  obtain ⟨hcomplete, -⟩ := ht.reduce haction
  rw [hstates] at h
  obtain ⟨-, s', below', trees', hdrop, hstack', hstart, -⟩ := ht.pop_complete h hcomplete
  rcases ht.expected_of_start_mem hstack'.reached hstart with ⟨-, hgoal⟩ | ⟨i, hi, hnext⟩
  · cases hgoal
  obtain ⟨k, hk⟩ := ht.next_exists hi hnext
  refine ⟨?_, s', below', k, by rw [hstates]; exact hdrop, hk⟩
  have hlength := congrArg List.length hdrop
  rw [← hstates, habove] at hlength
  simp only [Rule.body, List.length_drop, List.length_append, List.length_cons,
    List.length_nil] at hlength
  omega

/-- What has been reported so far stays on the stack, move by move. -/
theorem Progress.steps_trans (ht : t.Lawful) (h : Progress t tokens reports c trees)
    {reports' : List Report} (hsteps : t.Steps (endTokenOf tokens) c reports' c') :
    ∃ trees', Progress t tokens (reports ++ reports') c' trees' := by
  induction hsteps generalizing reports trees with
  | refl => exact ⟨trees, by rwa [List.append_nil]⟩
  | head hmove _ ih =>
    obtain ⟨trees₁, h₁⟩ := h.step ht hmove
    rw [List.append_cons]
    exact ih h₁

theorem progress_of_steps (ht : t.Lawful)
    (h : t.Steps (endTokenOf tokens) (.start tokens) reports c) :
    ∃ trees, Progress t tokens reports c trees := by
  have hstart : Progress t tokens [] (.start tokens) [] := ⟨.refl _, .bottom, rfl, rfl⟩
  exact hstart.steps_trans ht h

/-- The loop comes to a configuration without a next move. -/
theorem exists_last_head (ht : t.Lawful) (tokens : List Token) :
    ∃ reports c, t.Steps (endTokenOf tokens) (.start tokens) reports c ∧
      ∀ r c', t.move (endTokenOf tokens) c ≠ .step r c' := by
  cases ht.run_ends tokens with
  | accepted tree rest htokens hend =>
    obtain ⟨reports, k, -, -, hsteps, hmove⟩ := ht.steps_tokens tree htokens hend
    exact ⟨reports, _, hsteps, fun r c' h => by cases hmove.symm.trans h⟩
  | stuck reports c expected hsteps hmove =>
    exact ⟨reports, c, hsteps, fun r c' h => by cases hmove.symm.trans h⟩

end Lawful

end Table

/-- **The loop ends, and its stack is sound all the way.**  Over any tokens:

    * every sequence of moves from the start has at most five moves for each
      token, and at each of its heads state 0 is at the bottom of the stack, a
      reduction finds its body above it and a goto for its head behind it;
    * some sequence of moves comes to a head from which there is no move;
    * a run that its watcher does not stop ends in acceptance or at a token
      that does not fit, or there are no tokens to begin with. -/
theorem loop_ends_on_sound_stack (tokens : List Token) :
    (∀ reports c, Table.standard.Steps (endTokenOf tokens) (.start tokens) reports c →
      reports.length ≤ 5 * tokens.length ∧ Table.standard.StackSound (endTokenOf tokens) c) ∧
    (∃ reports c, Table.standard.Steps (endTokenOf tokens) (.start tokens) reports c ∧
      ∀ r c', Table.standard.move (endTokenOf tokens) c ≠ .step r c') ∧
    ∀ {ε σ : Type} (watch : Watcher ε σ) (init : σ),
      let finish := (Table.standard.run tokens watch init).finish
      (∀ e, finish ≠ .stopped e) →
        finish = .accepted ∨ (∃ token expected, finish = .failed (.unexpected token expected)) ∨
          (tokens = [] ∧ finish = .failed .noTokens) := by
  have ht := Table.standard_lawful
  refine ⟨fun reports c hsteps => ?_, ht.exists_last_head tokens, ?_⟩
  · obtain ⟨trees, hprogress⟩ := ht.progress_of_steps hsteps
    exact ⟨hprogress.length_le, ht.stackSound _ hprogress.stacked⟩
  · intro ε σ watch init finish hfinish
    by_cases htokens : tokens = []
    · subst htokens
      exact .inr (.inr ⟨rfl, rfl⟩)
    · rcases ht.run_finish htokens watch init with h | h | ⟨e, _, _, _, _, h, -⟩
      · exact .inl h
      · exact .inr (.inl h)
      · exact absurd h (hfinish e)

/-- A parenthesis is not closed.  The semicolon makes the run reduce the name
    before it, and only then is it found not to fit. -/
theorem loop_ends_on_sound_stack_parenthesis :
    let mark (kind : Terminal) : Token := ⟨kind, "", {}⟩
    let tokens : List Token :=
      [mark .returnWord, mark .openParen, ⟨.identifier, "a", {}⟩, mark .semicolon]
    ∃ reports c, Table.standard.Steps (endTokenOf tokens) (.start tokens) reports c ∧
      Table.standard.actionFor? (endTokenOf tokens) c = some (.reduce .factorName) ∧
      (∃ s below k, c.states.drop 1 = s :: below ∧ Table.standard.goto? s .factor = some k) ∧
      ∃ token expected, (Table.standard.run tokens Watcher.recorder []).finish =
        .failed (.unexpected token expected) := by
  intro mark tokens
  obtain ⟨hreturn, hparen, hname, haction⟩ :
      Table.standard.move (endTokenOf tokens) (.start tokens) =
        .step ⟨[0], .shift (mark .returnWord)⟩ ⟨[7, 0], tokens.drop 1⟩ ∧
      Table.standard.move (endTokenOf tokens) ⟨[7, 0], tokens.drop 1⟩ =
        .step ⟨[7, 0], .shift (mark .openParen)⟩ ⟨[11, 7, 0], tokens.drop 2⟩ ∧
      Table.standard.move (endTokenOf tokens) ⟨[11, 7, 0], tokens.drop 2⟩ =
        .step ⟨[11, 7, 0], .shift ⟨.identifier, "a", {}⟩⟩ ⟨[16, 11, 7, 0], tokens.drop 3⟩ ∧
      Table.standard.actionFor? (endTokenOf tokens) ⟨[16, 11, 7, 0], tokens.drop 3⟩ =
        some (.reduce .factorName) := by
    decide +kernel
  have hsteps := Table.Steps.head hreturn (.head hparen (.single hname))
  obtain ⟨hheads, -, hends⟩ := loop_ends_on_sound_stack tokens
  obtain ⟨-, above, -, hreduce⟩ := hheads _ _ hsteps
  have hrun : (Table.standard.run tokens Watcher.recorder []).finish ≠ .accepted := by
    decide +kernel
  refine ⟨_, _, hsteps, haction, (hreduce _ haction).2, ?_⟩
  rcases hends Watcher.recorder [] nofun with h | h | ⟨h, -⟩
  · exact absurd h hrun
  · exact h
  · exact absurd h (by simp [tokens])

end Straightline
