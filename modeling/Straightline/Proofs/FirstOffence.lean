/-
  Where a run gets stuck.

  On a token that does not fit, a run may still make some reductions before it
  finds that out.  It shifts nothing, however, that no sentence goes on with:
  what has been read can always be completed to a sentence, and the token at
  which the run gets stuck is the first one with which it cannot.

  * `StartsSentence`: what a sentence and an end mark behind it start with;
  * `Table.move_eq_step`: what a move does, shift or reduction;
  * `Table.Lawful.steps_of_same_start`: the moves depend on the tokens up to
    the next one only;
  * `Table.Lawful.startsSentence_of_stacked`: what is on a stack can be
    completed;
  * `Table.Lawful.not_startsSentence_of_stuck`: with the token at which a run
    gets stuck it cannot;
  * `fails_at_first_offending_token`: both, for every run that fails.
-/
import Straightline.Proofs.Loop
import Straightline.Proofs.ViablePrefix

namespace Straightline

/-- Whether some sentence, with an end mark behind it, starts with these
    kinds. -/
def StartsSentence (kinds : List Terminal) : Prop :=
  ∃ sentence, IsSentence sentence ∧ kinds <+: sentence ++ [.endMark]

theorem IsSentence.endMark_notMem {kinds : List Terminal} (h : IsSentence kinds) :
    .endMark ∉ kinds := by
  let tokens : List Token := kinds.map fun kind => ⟨kind, "", {}⟩
  have hkinds : tokens.map Token.kind = kinds := by simp [tokens, Function.comp_def]
  rw [← hkinds] at h
  obtain ⟨tree, htree⟩ := (isSentence_iff tokens).1 h
  rw [← hkinds, ← htree]
  intro hmem
  obtain ⟨token, htoken, hkind⟩ := List.mem_map.1 hmem
  exact tree.kind_ne_endMark (by simp) token htoken hkind

/-- The kinds before the end mark that closes a sentence. -/
theorem IsSentence.map_kind_beforeEnd {kinds : List Terminal} (h : IsSentence kinds)
    {tokens : List Token} (htokens : tokens.map Token.kind = kinds ++ [.endMark]) :
    (beforeEnd tokens).map Token.kind = kinds := by
  have hmap : (tokens.map Token.kind).takeWhile (fun kind => decide (kind ≠ .endMark)) =
      (beforeEnd tokens).map Token.kind := List.takeWhile_map
  have hall : ∀ kind ∈ kinds, decide (kind ≠ .endMark) = true := by
    intro kind hkind
    exact decide_eq_true fun heq => h.endMark_notMem (heq ▸ hkind)
  rw [htokens, List.takeWhile_append_of_pos hall] at hmap
  simpa using hmap.symm

/-! ## What can be completed -/

/-- Some terminals behind a list that an item fits complete a program. -/
theorem Item.ValidFor.exists_completion {i : Item} {xs : List Symbol} (h : i.ValidFor xs) :
    ∃ kinds : List Terminal, Derives [.nonterminal .program] (xs ++ kinds.map .terminal) := by
  obtain ⟨left, right, hform, -, rfl⟩ := h
  obtain ⟨f⟩ := i.rule.exists_forest_drop i.dot
  refine ⟨f.tokens.map Token.kind ++ right, ?_⟩
  have hbody := hform.derives_of_rightYields ⟨i.rule, left, right, rfl, rfl⟩
  rw [← List.take_append_drop i.dot i.rule.body] at hbody
  have hrest : Derives (left ++ i.rule.body.take i.dot ++ i.rule.body.drop i.dot ++
      right.map .terminal) (left ++ i.rule.body.take i.dot ++ symbolsOf f.tokens ++
      right.map .terminal) :=
    ((Derives.append .refl f.derives).append .refl)
  rw [symbolsOf_eq_map] at hrest
  simp only [List.append_assoc, List.map_append] at hbody hrest ⊢
  exact Relation.ReflTransGen.trans hbody hrest

/-- The symbols of the trees on a stack, from the bottom. -/
def stackSymbols (trees : List (Sigma Tree)) : List Symbol :=
  (trees.map Sigma.fst).reverse

theorem derives_stackEvents (trees : List (Sigma Tree)) :
    Derives (stackSymbols trees) (symbolsOf ((stackEvents trees).filterMap Event.token?)) := by
  induction trees with
  | nil => exact .refl
  | cons tree trees ih =>
    rw [stackEvents, List.filterMap_append, tree.2.filterMap_events, symbolsOf_append, stackSymbols,
      List.map_cons, List.reverse_cons]
    exact ih.append tree.2.derives

namespace Table

variable {t : Table} {last : Token} {s : Nat} {below : List Nat} {trees : List (Sigma Tree)}
  {c c' : Configuration} {r : Report} {reports : List Report} {tokens : List Token}

theorem Stacked.path?_eq (h : t.Stacked (s :: below) trees) :
    t.path? (stackSymbols trees) = some s := by
  induction trees generalizing s below with
  | nil =>
    cases h
    rfl
  | cons tree trees ih =>
    cases h with
    | push _ hstack hk =>
      rw [stackSymbols, List.map_cons, List.reverse_cons]
      exact path?_concat_of_next? (ih hstack) hk

/-- **What has been read can be completed**, if it stands on the stack. -/
theorem Lawful.startsSentence_of_stacked (ht : t.Lawful) (h : t.Stacked (s :: below) trees) :
    StartsSentence (((stackEvents trees).filterMap Event.token?).map Token.kind) := by
  obtain ⟨i, hi⟩ := List.exists_mem_of_ne_nil _ (ht.itemsAt_ne_nil h.path?_eq)
  obtain ⟨kinds, hkinds⟩ := (ht.validFor_of_mem h.path?_eq hi).exists_completion
  refine ⟨((stackEvents trees).filterMap Event.token?).map Token.kind ++ kinds, ?_, ?_⟩
  · have hrest : Derives (kinds.map .terminal) (kinds.map .terminal) := .refl
    have hread := (derives_stackEvents trees).append hrest
    rw [symbolsOf_eq_map, ← List.map_append] at hread
    exact Relation.ReflTransGen.trans hkinds hread
  · rw [List.append_assoc]
    exact List.prefix_append _ _

/-! ## Moves and the next token -/

/-- **What a move does**: it shifts the next token, or it reduces. -/
theorem move_eq_step (h : t.move last c = .step r c') :
    (∃ s below k, c.states = s :: below ∧
      t.action? s (c.rest.headD last).kind = some (.shift k) ∧
      r = ⟨c.states, .shift (c.rest.headD last)⟩ ∧ c' = ⟨k :: c.states, c.rest.tail⟩) ∨
    ∃ s below p states, c.states = s :: below ∧
      t.action? s (c.rest.headD last).kind = some (.reduce p) ∧
      r = ⟨c.states, .reduce p⟩ ∧ c' = ⟨states, c.rest⟩ ∧
      ∀ rest, t.reduceBy p ⟨c.states, rest⟩ = .step r ⟨states, rest⟩ := by
  obtain ⟨states, rest⟩ := c
  cases states with
  | nil => cases h
  | cons s below =>
    simp only [move] at h
    rcases haction : t.action? s (rest.headD last).kind with _ | action
    · simp only [haction] at h
      cases h
    · cases action with
      | shift k =>
        simp only [haction] at h
        cases h
        exact .inl ⟨s, below, k, rfl, haction, rfl, rfl⟩
      | reduce p =>
        simp only [haction, reduceBy] at h
        split at h
        · cases h
        · next s' below' hbelow =>
          split at h
          · cases h
          · next k hk =>
            cases h
            refine .inr ⟨s, below, p, _, rfl, haction, rfl, rfl, fun rest' => ?_⟩
            simp only [reduceBy, hbelow, hk]
      | accept =>
        simp only [haction] at h
        cases h

theorem Steps.rest_suffix (h : t.Steps last c reports c') : c'.rest <:+ c.rest := by
  induction h with
  | refl => exact List.suffix_rfl
  | head hmove _ ih =>
    rcases move_eq_step hmove with ⟨_, _, _, _, _, _, rfl⟩ | ⟨_, _, _, _, _, _, _, rfl, _⟩
    · exact ih.trans (List.tail_suffix _)
    · exact ih

/-- **The moves depend on the tokens up to the next one only**: what comes
    behind what they read may be exchanged, if only the kind of the token that
    they look at next is the same. -/
theorem Lawful.steps_of_same_start (ht : t.Lawful) (hlast : last.kind = .endMark)
    (h : t.Steps last c reports c') {front : List Token} (hfront : c.rest = front ++ c'.rest)
    {last' : Token} {rest : List Token}
    (hkind : (rest.headD last').kind = (c'.rest.headD last).kind) :
    t.Steps last' ⟨c.states, front ++ rest⟩ reports ⟨c'.states, rest⟩ := by
  induction h generalizing front with
  | refl c =>
    obtain rfl := List.self_eq_append_left.1 hfront
    exact .refl _
  | @head c c₁ c' r reports hmove hsteps ih =>
    obtain ⟨front₁, hfront₁⟩ := hsteps.rest_suffix
    rcases move_eq_step hmove with ⟨s, below, k, hstates, haction, rfl, rfl⟩ |
      ⟨s, below, p, states, hstates, haction, -, rfl, hall⟩
    · -- The end mark is never shifted, so the token is one that was there to be read.
      rcases hrest : c.rest with _ | ⟨token, rest'⟩
      · rw [hrest, List.headD_nil, hlast, action?_eq_shift_iff, ht.next?_endMark] at haction
        cases haction
      · have hrest' : rest' = front₁ ++ c'.rest := by simpa [hrest] using hfront₁.symm
        rw [hrest, hrest', ← List.cons_append, List.append_cancel_right_eq] at hfront
        subst hfront
        rw [hrest, List.headD_cons, action?_eq_shift_iff] at haction
        refine .head ?_ (ih hfront₁.symm hkind)
        rw [hstates, List.cons_append, move_shift haction]
        rfl
    · have hhead : ((front ++ rest).headD last').kind = (c.rest.headD last).kind := by
        rw [hfront]
        cases front with
        | nil => exact hkind
        | cons token front => rfl
      refine .head ?_ (ih hfront hkind)
      rw [← hhead] at haction
      rw [hstates] at hall ⊢
      simp only [move, haction, hall]

theorem move_eq_stuck {token : Token} {expected : List String}
    (h : t.move last c = .stuck (.unexpected token expected)) :
    ∃ s below, c.states = s :: below ∧ t.action? s (c.rest.headD last).kind = none ∧
      token = c.rest.headD last ∧ expected = t.expected s := by
  obtain ⟨states, rest⟩ := c
  cases states with
  | nil => cases h
  | cons s below =>
    simp only [move] at h
    rcases haction : t.action? s (rest.headD last).kind with _ | action
    · simp only [haction] at h
      cases h
      exact ⟨s, below, rfl, haction, rfl, rfl⟩
    · cases action with
      | shift k =>
        simp only [haction] at h
        cases h
      | reduce p =>
        simp only [haction, reduceBy] at h
        split at h
        · cases h
        · split at h <;> cases h
      | accept =>
        simp only [haction] at h
        cases h

/-- **With the token at which a run gets stuck no sentence goes on**: a run
    over such a sentence would get stuck there too. -/
theorem Lawful.not_startsSentence_of_stuck (ht : t.Lawful) {read : List Token} {token : Token}
    {expected : List String} (htokens : tokens = read ++ c.rest)
    (hsteps : t.Steps (endTokenOf tokens) (.start tokens) reports c)
    (hmove : t.move (endTokenOf tokens) c = .stuck (.unexpected token expected)) :
    ¬ StartsSentence ((read ++ [token]).map Token.kind) := by
  rintro ⟨sentence, hsentence, more, hmore⟩
  obtain ⟨s, below, hstates, haction, rfl, rfl⟩ := move_eq_stuck hmove
  -- The sentence, from the token on with tokens that have a kind only.
  let token := c.rest.headD (endTokenOf tokens)
  let rest : List Token := more.map fun kind => ⟨kind, "", {}⟩
  let tokens' := read ++ token :: rest
  have hkinds : tokens'.map Token.kind = sentence ++ [.endMark] := by
    rw [← hmore]
    simp [tokens', token, rest, Function.comp_def]
  have hsteps' : t.Steps (endTokenOf tokens') (.start tokens') reports ⟨c.states, token :: rest⟩ :=
    ht.steps_of_same_start rfl hsteps htokens rfl
  have hmove' : t.move (endTokenOf tokens') ⟨c.states, token :: rest⟩ =
      .stuck (.unexpected token (t.expected s)) := by
    simp only [move, hstates, List.headD_cons, token, haction]
  obtain ⟨trees, hprogress⟩ := ht.progress_of_steps hsteps'
  have hpatience := Nat.lt_of_le_of_lt hprogress.length_le (ht.five_mul_length_lt_patience tokens')
  have hrun := run_of_stuck (by simp [tokens']) hsteps' hpatience hmove' Watcher.recorder []
  rw [Watcher.replay_recorder] at hrun
  refine ht.not_isSentence_of_failed (congrArg _ hrun) ?_
  rw [hsentence.map_kind_beforeEnd hkinds]
  exact hsentence

end Table

/-- The token behind those that have been read, or the one behind them all. -/
theorem getElem?_length_concat (read rest : List Token) (last : Token) :
    (read ++ rest ++ [last])[read.length]? = some (rest.headD last) := by
  rw [List.append_assoc, List.getElem?_append_right (Nat.le_refl _), Nat.sub_self]
  cases rest <;> rfl

/-- **A run fails at the first token that does not fit.**  If a run over some
    tokens fails, no matter who watches it, then at a token of which the
    following is true, where an end mark stands behind the tokens:

    * some sentence starts with the tokens before it;
    * no sentence, with the end mark behind it, starts with them and this one;
    * whoever watches is told of the tokens before it, in their order, and of
      no other. -/
theorem fails_at_first_offending_token {ε₀ σ₀ : Type} {watch₀ : Watcher ε₀ σ₀} {init₀ : σ₀}
    {tokens : List Token} {e : ParseError} (htokens : tokens ≠ [])
    (hfailed : (Table.standard.run tokens watch₀ init₀).finish = .failed e) :
    ∃ (i : Nat) (token : Token) (expected : List String) (reports : List Report) (depth : Int),
      e = .unexpected token expected ∧
      (tokens ++ [endTokenOf tokens])[i]? = some token ∧
      StartsSentence ((tokens.take i).map Token.kind) ∧
      ¬ StartsSentence (((tokens ++ [endTokenOf tokens]).take (i + 1)).map Token.kind) ∧
      (reports.map Report.event).filterMap Event.token? = tokens.take i ∧
      ∀ {ε σ : Type} (watch : Watcher ε σ) (init : σ), Table.standard.run tokens watch init =
        watch.replay (fun s => ⟨.failed e, depth, s⟩) reports init := by
  have ht := Table.standard_lawful
  cases ht.run_ends tokens with
  | accepted tree rest heq hend =>
    refine absurd ((isSentence_iff _).2 ⟨tree, rfl⟩) ?_
    rw [← beforeEnd_of_tree tree hend, ← heq]
    exact ht.not_isSentence_of_failed hfailed
  | stuck reports c expected hsteps hmove hlength =>
    obtain ⟨trees, hprogress⟩ := ht.progress_of_steps hsteps
    have hpatience := Nat.lt_of_le_of_lt hlength (ht.five_mul_length_lt_patience tokens)
    have hrun : ∀ {ε σ : Type} (watch : Watcher ε σ) (init : σ), _ :=
      Table.run_of_stuck htokens hsteps hpatience hmove
    have he : e = .unexpected (c.rest.headD (endTokenOf tokens)) expected := by
      rw [hrun] at hfailed
      rcases watch₀.finish_replay _ c.depth reports init₀ with h | ⟨e', h⟩
      · cases hfailed.symm.trans h
        rfl
      · cases hfailed.symm.trans h
    let read := (stackEvents trees).filterMap Event.token?
    have hread : tokens = read ++ c.rest := hprogress.tokens_eq
    have htake : tokens.take read.length = read := by rw [hread, List.take_left]
    have hnext := getElem?_length_concat read c.rest (endTokenOf tokens)
    rw [← hread] at hnext
    have htake' : (tokens ++ [endTokenOf tokens]).take (read.length + 1) =
        read ++ [c.rest.headD (endTokenOf tokens)] := by
      rw [List.take_add_one, hnext, List.take_append_of_le_length (by simp [hread]), htake]
      rfl
    refine ⟨read.length, _, expected, reports, c.depth, he, hnext, ?_, ?_, ?_, he ▸ hrun⟩
    · obtain ⟨s, below, hstates, -⟩ := Table.move_eq_stuck hmove
      rw [htake]
      exact ht.startsSentence_of_stacked (hstates ▸ hprogress.stacked)
    · rw [htake']
      exact ht.not_startsSentence_of_stuck hread hsteps hmove
    · rw [htake, ← hprogress.events]

/-- A parenthesis is closed that was not opened.  It may stand behind a name,
    so the run reduces that name and the term it makes, and then gets stuck
    before the parenthesis. -/
theorem fails_at_first_offending_token_parenthesis :
    StartsSentence [.identifier, .assign, .identifier] ∧
      ¬ StartsSentence [.identifier, .assign, .identifier, .closeParen] := by
  let name : Token := ⟨.identifier, "a", {}⟩
  let mark (kind : Terminal) : Token := ⟨kind, "", {}⟩
  let tokens := [name, mark .assign, name, mark .closeParen, mark .semicolon]
  have hne : tokens ≠ [] := by simp [tokens]
  obtain ⟨hrun, hshifts⟩ : (Table.standard.run tokens Watcher.recorder []).finish ≠ .accepted ∧
      (((Table.standard.run tokens Watcher.recorder []).watched.map Report.event).filterMap
        Event.token?).length = 3 := by
    decide +kernel
  rcases Table.standard_lawful.run_finish hne Watcher.recorder [] with
    h | ⟨token, expected, h⟩ | ⟨e, -⟩
  · exact absurd h hrun
  · obtain ⟨i, _, _, reports, _, -, -, hstarts, hnot, hread, hall⟩ :=
      fails_at_first_offending_token hne h
    rw [hall, Watcher.replay_recorder] at hshifts
    have hi : (tokens.take i).length = 3 := by
      rw [← hread]
      simpa using hshifts
    obtain rfl : i = 3 := by
      simp [tokens] at hi
      omega
    exact ⟨hstarts, hnot⟩
  · exact e.elim

end Straightline
