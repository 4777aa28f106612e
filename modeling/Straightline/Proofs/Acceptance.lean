/-
  What is accepted.

  The states on the stack of a run stand for trees: those of what has been
  read so far, one tree a state.  A shift puts a leaf on them, and a reduction
  a node over the topmost ones.  So the reports of a run are at every moment
  the post-orders of these trees, an acceptance is that of a program's tree,
  and there cannot be many more reports than tokens.

  * `Table.Stacked`: states that stand for trees;
  * `Table.Lawful.move_stacked`: what a move does with the trees;
  * `Table.Lawful.run_ends`: every run comes to an end, with a tree of all
    that was read or with a token that does not fit;
  * `accepts_iff_isSentence`: exactly the sentences of the grammar are
    accepted.
-/
import Straightline.Proofs.TreeRuns

namespace Straightline

/-! ## Stacks of trees -/

/-- The post-orders of the trees on a stack, from the bottom. -/
def stackEvents : List (Sigma Tree) → List Event
  | [] => []
  | tree :: trees => stackEvents trees ++ tree.2.events

theorem length_stackEvents_le (trees : List (Sigma Tree)) :
    (stackEvents trees).length ≤ 5 * ((stackEvents trees).filterMap Event.token?).length := by
  induction trees with
  | nil => simp [stackEvents]
  | cons tree trees ih =>
    have htree := tree.2.length_events_le
    simp only [stackEvents, List.length_append, List.filterMap_append, tree.2.filterMap_events]
    omega

namespace Table

/-- The states on a stack, top first, are those behind the symbols of the
    trees. -/
inductive Stacked (t : Table) : List Nat → List (Sigma Tree) → Prop where
  | bottom : Stacked t [0] []
  | push {s k : Nat} {below : List Nat} {trees : List (Sigma Tree)} (tree : Sigma Tree) :
      Stacked t (s :: below) trees → t.next? s tree.1 = some k →
      Stacked t (k :: s :: below) (tree :: trees)

variable {t : Table} {last : Token} {s : Nat} {below : List Nat} {trees : List (Sigma Tree)}

theorem Stacked.reached (h : t.Stacked (s :: below) trees) : t.Reached s := by
  cases h with
  | bottom => exact .inl rfl
  | push tree _ hk => exact .inr ⟨_, _, hk⟩

namespace Lawful

theorem dot_eq_zero (ht : t.Lawful) {r : Rule} {d : Nat} (h : ⟨r, d⟩ ∈ t.itemsAt 0) : d = 0 := by
  rw [ht.start] at h
  rcases eq_start_of_mem_closure h with hgoal | ⟨r', hstart, -⟩
  · simp only [Item.start, List.mem_singleton, Item.mk.injEq] at hgoal
    exact hgoal.2
  · simp only [Item.start, Item.mk.injEq] at hstart
    exact hstart.2

/-- Behind the first `d` symbols of a body, the topmost `d` trees are trees for
    these symbols: together with trees for the other symbols they make up the
    whole body, and the rule is started in the state below them. -/
theorem pop (ht : t.Lawful) {r : Rule} : ∀ (d : Nat) {s : Nat} {below : List Nat}
    {trees : List (Sigma Tree)}, t.Stacked (s :: below) trees → ⟨r, d⟩ ∈ t.itemsAt s →
    ∀ g : Forest (r.body.drop d), ∃ (f : Forest r.body) (s' : Nat) (below' : List Nat)
      (trees' : List (Sigma Tree)), (s :: below).drop d = s' :: below' ∧
      t.Stacked (s' :: below') trees' ∧ Item.start r ∈ t.itemsAt s' ∧
      stackEvents trees ++ g.events = stackEvents trees' ++ f.events
  | 0, s, below, trees, hstack, hi, g => ⟨g, s, below, trees, rfl, hstack, hi, rfl⟩
  | d + 1, s, below, trees, hstack, hi, g => by
    cases hstack with
    | bottom => exact absurd (ht.dot_eq_zero hi) (Nat.succ_ne_zero d)
    | @push s₀ _ below₀ trees₀ tree hstack hk =>
      obtain ⟨hi₀, hx⟩ := ht.retreat hk hi
      have hdrop : r.body.drop d = tree.1 :: r.body.drop (d + 1) := by
        obtain ⟨hlt, hget⟩ := List.getElem?_eq_some_iff.1 hx
        rw [List.drop_eq_getElem_cons hlt, hget]
      obtain ⟨g', hg'⟩ : ∃ g' : Forest (r.body.drop d), g'.events = tree.2.events ++ g.events := by
        rw [hdrop]
        exact ⟨.cons tree.2 g, rfl⟩
      obtain ⟨f, s', below', trees', hbelow, hstack', hstart, hevents⟩ := ht.pop d hstack hi₀ g'
      refine ⟨f, s', below', trees', hbelow, hstack', hstart, ?_⟩
      rw [← hevents, hg', stackEvents, List.append_assoc]

/-- With a complete rule on top, the topmost trees make up its body. -/
theorem pop_complete (ht : t.Lawful) {r : Rule} (hstack : t.Stacked (s :: below) trees)
    (hi : .complete r ∈ t.itemsAt s) :
    ∃ (f : Forest r.body) (s' : Nat) (below' : List Nat) (trees' : List (Sigma Tree)),
      (s :: below).drop r.body.length = s' :: below' ∧ t.Stacked (s' :: below') trees' ∧
      Item.start r ∈ t.itemsAt s' ∧ stackEvents trees = stackEvents trees' ++ f.events := by
  obtain ⟨g, hg⟩ : ∃ g : Forest (r.body.drop r.body.length), g.events = [] := by
    rw [List.drop_length]
    exact ⟨.nil, rfl⟩
  obtain ⟨f, s', below', trees', hbelow, hstack', hstart, hevents⟩ := ht.pop _ hstack hi g
  rw [hg, List.append_nil] at hevents
  exact ⟨f, s', below', trees', hbelow, hstack', hstart, hevents⟩

/-! ## Moves -/

/-- What a move does in a configuration whose states stand for trees. -/
inductive MoveStacked (t : Table) (last : Token) (c : Configuration) (trees : List (Sigma Tree)) :
    Prop where
  /-- The token does not fit. -/
  | stuck (expected : List String)
      (h : t.move last c = .stuck (.unexpected (c.rest.headD last) expected))
  /-- The trees are that of a program, and the text ends. -/
  | accept (r : Report) (tree : ProgramTree) (h : t.move last c = .accept r)
      (hevent : r.event = .accept) (htrees : stackEvents trees = tree.events)
      (hend : (c.rest.headD last).kind = .endMark)
  /-- The action becomes part of the trees. -/
  | step (r : Report) (c' : Configuration) (trees' : List (Sigma Tree))
      (h : t.move last c = .step r c') (hstack : t.Stacked c'.states trees')
      (htrees : stackEvents trees' = stackEvents trees ++ [r.event])
      (hrest : c.rest = r.event.token?.toList ++ c'.rest)

theorem move_stacked (ht : t.Lawful) (hlast : last.kind = .endMark) (rest : List Token)
    (hstack : t.Stacked (s :: below) trees) : MoveStacked t last ⟨s :: below, rest⟩ trees := by
  rcases haction : t.action? s (rest.headD last).kind with _ | action
  · exact .stuck (t.expected s) (by simp only [move, haction])
  cases action with
  | shift k =>
    have hk := action?_eq_shift_iff.1 haction
    cases rest with
    | nil =>
      rw [List.headD_nil, hlast, ht.next?_endMark] at hk
      cases hk
    | cons token rest =>
      have hpush := Stacked.push ⟨_, .leaf token⟩ hstack hk
      exact .step _ _ _ (move_shift hk) hpush rfl rfl
  | reduce p =>
    obtain ⟨hcomplete, -⟩ := ht.reduce haction
    obtain ⟨f, s', below', trees', hbelow, hstack', hstart, hevents⟩ :=
      ht.pop_complete hstack hcomplete
    rcases ht.expected_of_start_mem hstack'.reached hstart with ⟨-, hgoal⟩ | ⟨i, hi, hnext⟩
    · cases hgoal
    obtain ⟨k, hk⟩ := ht.next_exists hi hnext
    have hpush := Stacked.push ⟨_, .node p f⟩ hstack' hk
    refine .step _ _ _ (move_reduce haction hbelow hk) hpush ?_ rfl
    rw [hevents, List.append_assoc]
    rfl
  | accept =>
    obtain ⟨hcomplete, hend⟩ := ht.accept haction
    obtain ⟨f, s', below', trees', hbelow, hstack', hstart, hevents⟩ :=
      ht.pop_complete hstack hcomplete
    rcases ht.expected_of_start_mem hstack'.reached hstart with ⟨rfl, -⟩ | ⟨i, hi, hnext⟩
    · cases hstack' with
      | bottom =>
        cases f with
        | cons tree others =>
          cases others
          have htree : stackEvents trees = tree.events :=
            hevents.trans (List.append_nil tree.events)
          exact .accept ⟨s :: below, .accept⟩ tree (by simp only [move, haction]) rfl htree hend
      | push _ _ hk => exact absurd hk (ht.next?_ne_zero _ _)
    · exact absurd (List.mem_of_getElem? hnext) i.rule.goal_notMem_body

/-! ## Runs -/

/-- How a run over some tokens goes. -/
inductive Course (t : Table) (tokens : List Token) : Prop where
  /-- The leaves of a program are read, and an end mark is next. -/
  | accepted (tree : ProgramTree) (rest : List Token) (htokens : tokens = tree.tokens ++ rest)
      (hend : (rest.headD (endTokenOf tokens)).kind = .endMark)
  /-- A token does not fit. -/
  | stuck (reports : List Report) (c : Configuration) (expected : List String)
      (hsteps : t.Steps (endTokenOf tokens) (.start tokens) reports c)
      (hmove : t.move (endTokenOf tokens) c =
        .stuck (.unexpected (c.rest.headD (endTokenOf tokens)) expected))
      (hlength : reports.length ≤ 5 * tokens.length)

/-- What has been reported on the way to a configuration is on the stack. -/
structure Progress (t : Table) (tokens : List Token) (reports : List Report) (c : Configuration)
    (trees : List (Sigma Tree)) : Prop where
  steps : t.Steps (endTokenOf tokens) (.start tokens) reports c
  stacked : t.Stacked c.states trees
  events : stackEvents trees = reports.map Report.event
  tokens_eq : tokens = (stackEvents trees).filterMap Event.token? ++ c.rest

theorem Progress.length_le {tokens : List Token} {reports : List Report} {c : Configuration}
    (h : Progress t tokens reports c trees) : reports.length ≤ 5 * tokens.length := by
  have hle := length_stackEvents_le trees
  have htokens := congrArg List.length h.tokens_eq
  have hevents := congrArg List.length h.events
  simp only [List.length_append, List.length_map] at htokens hevents
  omega

/-- A step goes on from what has been reported. -/
theorem Progress.step (ht : t.Lawful) {tokens : List Token} {reports : List Report}
    {c c' : Configuration} {r : Report} (h : Progress t tokens reports c trees)
    (hmove : t.move (endTokenOf tokens) c = .step r c') :
    ∃ trees', Progress t tokens (reports ++ [r]) c' trees' := by
  obtain ⟨states, rest⟩ := c
  obtain ⟨s, below, rfl⟩ : ∃ s below, states = s :: below := by
    cases h.stacked <;> exact ⟨_, _, rfl⟩
  have hlast : (endTokenOf tokens).kind = .endMark := rfl
  cases ht.move_stacked hlast rest h.stacked with
  | stuck expected hmove' => cases hmove'.symm.trans hmove
  | accept r' tree hmove' => cases hmove'.symm.trans hmove
  | step r' c'' trees' hmove' hstack htrees hrest =>
    cases hmove'.symm.trans hmove
    refine ⟨trees', h.steps.trans (.single hmove), hstack, ?_, ?_⟩
    · rw [htrees, h.events, List.map_append]
      rfl
    · rw [htrees, List.filterMap_append, List.append_assoc]
      have htaken : [r.event].filterMap Event.token? = r.event.token?.toList := by
        cases r.event <;> rfl
      rw [htaken, ← hrest]
      exact h.tokens_eq

/-- A run goes on until it ends: every move adds a report, and there are no
    more than five reports for each token. -/
theorem course_of_progress (ht : t.Lawful) {tokens : List Token} : ∀ (n : Nat)
    (reports : List Report) (c : Configuration) (trees : List (Sigma Tree)),
    Progress t tokens reports c trees → 5 * tokens.length < reports.length + n →
    Course t tokens
  | 0, _, _, _, h, hn => absurd h.length_le (Nat.not_le_of_lt hn)
  | n + 1, reports, ⟨states, rest⟩, trees, h, hn => by
    obtain ⟨s, below, rfl⟩ : ∃ s below, states = s :: below := by
      cases h.stacked <;> exact ⟨_, _, rfl⟩
    have hlast : (endTokenOf tokens).kind = .endMark := rfl
    cases ht.move_stacked hlast rest h.stacked with
    | stuck expected hmove => exact .stuck reports _ expected h.steps hmove h.length_le
    | accept r tree hmove hevent htrees hend =>
      refine .accepted tree rest ?_ hend
      rw [← tree.filterMap_events, ← htrees]
      exact h.tokens_eq
    | step r c' _ hmove =>
      obtain ⟨trees', h'⟩ := h.step ht hmove
      refine ht.course_of_progress n (reports ++ [r]) c' trees' h' ?_
      simp only [List.length_append, List.length_singleton]
      omega

/-- **Every run comes to an end**: with the tree of a program, or with a token
    that does not fit. -/
theorem run_ends (ht : t.Lawful) (tokens : List Token) : Course t tokens :=
  ht.course_of_progress (5 * tokens.length + 1) [] (.start tokens) []
    ⟨.refl _, .bottom, rfl, rfl⟩ (by simp)

/-- What is accepted is the leaves of a program up to an end mark. -/
theorem exists_tree (ht : t.Lawful) {ε σ : Type} {watch : Watcher ε σ} {init : σ}
    {tokens : List Token} (htokens : tokens ≠ [])
    (h : (t.run tokens watch init).finish = .accepted) :
    ∃ (tree : ProgramTree) (rest : List Token), tokens = tree.tokens ++ rest ∧
      (rest.headD (endTokenOf tokens)).kind = .endMark := by
  cases ht.run_ends tokens with
  | accepted tree rest heq hend => exact ⟨tree, rest, heq, hend⟩
  | stuck reports c expected hsteps hmove hlength =>
    have hpatience := Nat.lt_of_le_of_lt hlength (ht.five_mul_length_lt_patience tokens)
    rw [run_of_stuck htokens hsteps hpatience hmove] at h
    rcases watch.finish_replay _ c.depth reports init with hfailed | ⟨e, hstopped⟩
    · cases h.symm.trans hfailed
    · cases h.symm.trans hstopped

end Lawful

end Table

/-! ## Sentences -/

mutual

theorem Tree.kind_ne_endMark {x : Symbol} : ∀ t : Tree x, x ≠ .terminal .endMark →
    ∀ token ∈ t.tokens, token.kind ≠ .endMark
  | .leaf token, hx, _, h => by
    rw [Tree.tokens, List.mem_singleton] at h
    rw [h]
    exact fun hkind => hx (congrArg Symbol.terminal hkind)
  | .node p children, _, token, h =>
    children.kind_ne_endMark (Rule.endMark_notMem_body (.production p)) token h

theorem Forest.kind_ne_endMark {xs : List Symbol} : ∀ f : Forest xs, .terminal .endMark ∉ xs →
    ∀ token ∈ f.tokens, token.kind ≠ .endMark
  | .nil, _, _, h => by cases h
  | .cons tree others, hxs, token, h => by
    rw [List.mem_cons, not_or] at hxs
    rcases List.mem_append.1 h with h | h
    · exact tree.kind_ne_endMark (Ne.symm hxs.1) token h
    · exact others.kind_ne_endMark hxs.2 token h

end

/-- The tokens before the first end mark. -/
def beforeEnd (tokens : List Token) : List Token :=
  tokens.takeWhile (·.kind ≠ .endMark)

theorem beforeEnd_append {body rest : List Token} {last : Token}
    (hbody : ∀ token ∈ body, token.kind ≠ .endMark) (hend : (rest.headD last).kind = .endMark) :
    beforeEnd (body ++ rest) = body := by
  have hall : ∀ token ∈ body, decide (token.kind ≠ .endMark) = true :=
    fun token h => decide_eq_true (hbody token h)
  rw [beforeEnd, List.takeWhile_append_of_pos hall]
  cases rest with
  | nil => simp
  | cons token rest =>
    have hkind : token.kind = .endMark := by simpa using hend
    simp [hkind]

theorem beforeEnd_of_tree (tree : ProgramTree) {last : Token} {rest : List Token}
    (hend : (rest.headD last).kind = .endMark) :
    beforeEnd (tree.tokens ++ rest) = tree.tokens :=
  beforeEnd_append (tree.kind_ne_endMark (by simp)) hend

/-- The tokens from the first end mark on. -/
theorem dropWhile_eq_nil_or (tokens : List Token) :
    tokens.dropWhile (·.kind ≠ .endMark) = [] ∨
      ∃ e rest, tokens.dropWhile (·.kind ≠ .endMark) = e :: rest ∧ e.kind = .endMark := by
  rcases h : tokens.dropWhile (·.kind ≠ .endMark) with _ | ⟨e, rest⟩
  · exact .inl h
  · refine .inr ⟨e, rest, h, ?_⟩
    have hhead := List.head?_dropWhile_not (·.kind ≠ .endMark) tokens
    rw [h] at hhead
    simpa using hhead

/-- A run over a sentence does not get stuck. -/
theorem Table.Lawful.not_isSentence_of_failed {t : Table} (ht : t.Lawful) {ε σ : Type}
    {watch : Watcher ε σ} {init : σ} {tokens : List Token} {e : ParseError}
    (h : (t.run tokens watch init).finish = .failed e) :
    ¬ IsSentence ((beforeEnd tokens).map Token.kind) := by
  intro hsentence
  obtain ⟨tree, htree⟩ := (isSentence_iff _).1 hsentence
  have hsplit : tokens = tree.tokens ++ tokens.dropWhile (·.kind ≠ .endMark) := by
    rw [htree, beforeEnd, List.takeWhile_append_dropWhile]
  obtain ⟨reports, -, hrun⟩ := ht.run_tokens tree hsplit (dropWhile_eq_nil_or tokens)
  rw [hrun] at h
  rcases watch.finish_replay .accepted 1 reports init with hfinish | ⟨e', hfinish⟩
  · cases h.symm.trans hfinish
  · cases h.symm.trans hfinish

/-- **Exactly the sentences of the grammar are accepted.**  Unless its watcher
    stops it, a run over some tokens ends in acceptance if the program symbol
    derives the kinds of those before the first end mark, and else at a token
    that does not fit. -/
theorem accepts_iff_isSentence {ε σ : Type} (watch : Watcher ε σ) (s : σ) {tokens : List Token}
    (htokens : tokens ≠ []) (hwatch : ∀ e, (Table.standard.run tokens watch s).finish ≠ .stopped e) :
    ((Table.standard.run tokens watch s).finish = .accepted ↔
      IsSentence ((beforeEnd tokens).map Token.kind)) ∧
    (¬ IsSentence ((beforeEnd tokens).map Token.kind) →
      ∃ token expected,
        (Table.standard.run tokens watch s).finish = .failed (.unexpected token expected)) := by
  have ht := Table.standard_lawful
  have hsentence : ∀ {tree : ProgramTree} {rest : List Token}, tokens = tree.tokens ++ rest →
      (rest.headD (endTokenOf tokens)).kind = .endMark →
      IsSentence ((beforeEnd tokens).map Token.kind) := by
    intro tree rest heq hend
    rw [heq, beforeEnd_of_tree tree hend]
    exact (isSentence_iff _).2 ⟨tree, rfl⟩
  -- The watcher does not stop the run, so a replay is known by how it ends.
  have hfinish : ∀ {finish depth reports}, Table.standard.run tokens watch s =
      watch.replay (fun s => ⟨finish, depth, s⟩) reports s →
      (Table.standard.run tokens watch s).finish = finish := by
    intro finish depth reports hrun
    rw [hrun] at hwatch ⊢
    rcases watch.finish_replay finish depth reports s with h | ⟨e, h⟩
    · exact h
    · exact absurd h (hwatch e)
  refine ⟨⟨fun h => ?_, fun h => ?_⟩, fun h => ?_⟩
  · obtain ⟨tree, rest, heq, hend⟩ := ht.exists_tree htokens h
    exact hsentence heq hend
  · obtain ⟨tree, htree⟩ := (isSentence_iff _).1 h
    have hsplit : tokens = tree.tokens ++ tokens.dropWhile (·.kind ≠ .endMark) := by
      rw [htree, beforeEnd, List.takeWhile_append_dropWhile]
    obtain ⟨reports', -, hreplay⟩ := ht.run_tokens tree hsplit (dropWhile_eq_nil_or tokens)
    exact hfinish (hreplay watch s)
  · cases ht.run_ends tokens with
    | accepted tree rest heq hend => exact absurd (hsentence heq hend) h
    | stuck reports c expected hsteps hmove hlength =>
      have hpatience := Nat.lt_of_le_of_lt hlength (ht.five_mul_length_lt_patience tokens)
      exact ⟨_, expected, hfinish (Table.run_of_stuck htokens hsteps hpatience hmove watch s)⟩

/-- A subtraction lacks its right operand: the run ends at the semicolon. -/
theorem accepts_iff_isSentence_return_minus :
    let tokens : List Token :=
      [⟨.returnWord, "", ⟨1, 1⟩⟩, ⟨.constant, "7", ⟨1, 8⟩⟩, ⟨.minus, "", ⟨1, 9⟩⟩,
        ⟨.semicolon, "", ⟨1, 10⟩⟩, ⟨.endMark, "", ⟨1, 11⟩⟩]
    ¬ IsSentence ((beforeEnd tokens).map Token.kind) ∧
      ∃ token expected, (Table.standard.run tokens Watcher.recorder []).finish =
        .failed (.unexpected token expected) := by
  intro tokens
  have hne : tokens ≠ [] := by simp [tokens]
  have hsplit := accepts_iff_isSentence Watcher.recorder [] hne nofun
  have hrun : (Table.standard.run tokens Watcher.recorder []).finish ≠ .accepted := by
    decide +kernel
  have hsentence := mt hsplit.1.2 hrun
  exact ⟨hsentence, hsplit.2 hsentence⟩

end Straightline
