/-
  Runs over the leaves of a tree.

  Where a symbol is expected, a run over the leaves of one of its trees
  reports the post-order of the tree and ends in the state behind the symbol.
  The only condition is on the token behind the leaves: it has to be one that
  the expecting item allows there.

  * `Tree.steps`, `Forest.steps`: the run over the leaves of a tree, by
    induction on the tree;
  * `Table.Lawful.run_tokens`: the run over the leaves of a whole program
    reports its post-order and accepts.
-/
import Straightline.Proofs.TableLaws
import Straightline.Proofs.Replay

namespace Straightline

variable {t : Table} {last : Token} {s k : Nat} {below : List Nat} {rest : List Token}

/-! ## Single moves -/

theorem Table.move_shift {token : Token} (h : t.next? s (.terminal token.kind) = some k) :
    t.move last ⟨s :: below, token :: rest⟩ =
      .step ⟨s :: below, .shift token⟩ ⟨k :: s :: below, rest⟩ := by
  simp only [move, List.headD_cons, action?_eq_shift_iff.2 h, List.tail_cons]

theorem Table.move_reduce {p : Production} {states : List Nat} {top : Nat}
    (haction : t.action? top (rest.headD last).kind = some (.reduce p))
    (hbelow : (top :: states).drop p.body.length = s :: below)
    (hgoto : t.next? s (.nonterminal p.head) = some k) :
    t.move last ⟨top :: states, rest⟩ =
      .step ⟨top :: states, .reduce p⟩ ⟨k :: s :: below, rest⟩ := by
  have hlength : p.body.length ≤ (top :: states).length := by
    have h := congrArg List.length hbelow
    simp only [List.length_drop, List.length_cons] at h ⊢
    omega
  simp only [move, haction, reduceBy, discard_of_le hlength, hbelow]
  rw [show t.goto? s p.head = some k from hgoto]

/-! ## Trees -/

/-- Behind a symbol of a body come the leaves of the symbols after it, or what
    follows the head; the item before the symbol allows both. -/
theorem Forest.headD_mem_lookahead {p : Production} {d : Nat} {x : Symbol} {xs : List Symbol}
    (hbody : p.body.drop d = x :: xs) (f : Forest xs)
    (hrest : (rest.headD last).kind ∈ follow p.head) :
    ((f.tokens ++ rest).headD last).kind ∈ Item.lookahead ⟨.production p, d⟩ := by
  have hnext : p.body[d + 1]? = xs.head? := by
    rw [← List.head?_drop, ← List.tail_drop, hbody, List.tail_cons]
  simp only [Item.lookahead, Rule.body, Rule.head, hnext]
  cases f with
  | nil => simpa [Forest.tokens] using hrest
  | cons tree others =>
    obtain ⟨token, tokens, htokens, hfirst⟩ := tree.tokens_eq_cons
    simpa [Forest.tokens, htokens] using hfirst

mutual

/-- **The run over the leaves of a tree** reports its post-order. -/
theorem Tree.steps (ht : t.Lawful) {x : Symbol} : ∀ (tree : Tree x) (below : List Nat) {s k : Nat}
    {rest : List Token} {i : Item}, t.Reached s → i ∈ t.itemsAt s → i.next? = some x →
    t.next? s x = some k → (rest.headD last).kind ∈ i.lookahead →
    ∃ reports, reports.map Report.event = tree.events ∧
      t.Steps last ⟨s :: below, tree.tokens ++ rest⟩ reports ⟨k :: s :: below, rest⟩
  | .leaf token, _, _, _, _, _, _, _, _, hk, _ => ⟨_, rfl, .single (Table.move_shift hk)⟩
  | .node p children, below, s, k, rest, i, hs, hi, hnext, hk, hrest => by
    have hfollow := Item.lookahead_subset_follow hnext hrest
    have hstart : Item.start (.production p) ∈ t.itemsAt s := ht.start_mem hs hi hnext
    obtain ⟨reports, top, states, hevents, hsteps, hbelow, hcomplete⟩ :=
      children.steps ht below hs (Nat.zero_le _) rfl hstart hfollow
    have hreduce := Table.move_reduce (ht.reduce_exists hcomplete hfollow) hbelow hk
    refine ⟨reports ++ [⟨top :: states, .reduce p⟩], ?_, hsteps.trans (.single hreduce)⟩
    rw [List.map_append, hevents, Tree.events]
    rfl

/-- The run over the leaves of the rest of a body takes the dot to its end. -/
theorem Forest.steps (ht : t.Lawful) {xs : List Symbol} : ∀ (f : Forest xs) (below : List Nat)
    {s : Nat} {rest : List Token} {p : Production} {d : Nat}, t.Reached s → d ≤ p.body.length →
    p.body.drop d = xs → ⟨.production p, d⟩ ∈ t.itemsAt s →
    (rest.headD last).kind ∈ follow p.head →
    ∃ reports top states, reports.map Report.event = f.events ∧
      t.Steps last ⟨s :: below, f.tokens ++ rest⟩ reports ⟨top :: states, rest⟩ ∧
      (top :: states).drop xs.length = s :: below ∧ .complete (.production p) ∈ t.itemsAt top
  | .nil, below, s, rest, p, d, _, hd, hbody, hi, _ => by
    have hcomplete : Item.complete (.production p) = ⟨.production p, d⟩ := by
      rw [Item.complete, Rule.body, Nat.le_antisymm (List.drop_eq_nil_iff.1 hbody) hd]
    exact ⟨[], s, below, rfl, .refl _, rfl, hcomplete ▸ hi⟩
  | @Forest.cons x xs tree others, below, s, rest, p, d, hs, _, hbody, hi, hrest => by
    have hnext : Item.next? ⟨.production p, d⟩ = some x := by
      rw [Item.next?, Rule.body, ← List.head?_drop, hbody]
      rfl
    have hbody' : p.body.drop (d + 1) = xs := by rw [← List.tail_drop, hbody, List.tail_cons]
    have hd : d + 1 ≤ p.body.length := (List.getElem?_eq_some_iff.1 hnext).1
    obtain ⟨k, hk⟩ := ht.next_exists hi hnext
    have hlook := others.headD_mem_lookahead hbody hrest
    obtain ⟨reports, hevents, hsteps⟩ := tree.steps ht below hs hi hnext hk hlook
    have hk' : t.Reached k := .inr ⟨s, x, hk⟩
    obtain ⟨reports', top, states, hevents', hsteps', hbelow, hcomplete⟩ :=
      others.steps ht (s :: below) hk' hd hbody' (ht.advance hi hnext hk) hrest
    refine ⟨reports ++ reports', top, states, ?_, ?_, ?_, hcomplete⟩
    · rw [List.map_append, hevents, hevents', Forest.events]
    · rw [Forest.tokens, List.append_assoc]
      exact hsteps.trans hsteps'
    · rw [List.length_cons, ← List.tail_drop, hbelow, List.tail_cons]

end

/-! ## Programs -/

namespace Table.Lawful

/-- The run over the leaves of a program comes to an acceptance. -/
theorem steps_program (ht : t.Lawful) (tree : ProgramTree)
    (hrest : (rest.headD last).kind = .endMark) :
    ∃ reports k, reports.map Report.event = tree.events ∧
      t.Steps last ⟨[0], tree.tokens ++ rest⟩ reports ⟨[k, 0], rest⟩ ∧
      t.move last ⟨[k, 0], rest⟩ = .accept ⟨[k, 0], .accept⟩ := by
  have hnext : (Item.start .goal).next? = some (.nonterminal .program) := rfl
  obtain ⟨k, hk⟩ := ht.next_exists ht.goal_mem hnext
  have hlook : (rest.headD last).kind ∈ (Item.start .goal).lookahead := by
    rw [hrest]
    exact endMark_mem_follow_goal
  obtain ⟨reports, hevents, hsteps⟩ := tree.steps ht [] (.inl rfl) ht.goal_mem hnext hk hlook
  have hcomplete : .complete .goal ∈ t.itemsAt k := ht.advance ht.goal_mem hnext hk
  refine ⟨reports, k, hevents, hsteps, ?_⟩
  simp only [move, hrest, ht.accept_exists hcomplete]

theorem actions_ne_nil (ht : t.Lawful) : t.actions ≠ [] := by
  obtain ⟨k, hk⟩ := ht.next_exists ht.goal_mem (x := .nonterminal .program) rfl
  have haccept := ht.accept_exists (s := k) (ht.advance ht.goal_mem rfl hk)
  intro hnil
  simp [action?, hnil] at haccept

/-- A run is not given up before it has made five moves for each token. -/
theorem five_mul_length_lt_patience (ht : t.Lawful) (tokens : List Token) :
    5 * tokens.length < t.patience tokens := by
  have hactions : 3 ≤ t.actions.length + 2 := by
    have := List.length_pos_iff.2 ht.actions_ne_nil
    omega
  calc 5 * tokens.length < (tokens.length + 2) * (3 * 3) := by omega
    _ ≤ t.patience tokens := Nat.mul_le_mul_left _ (Nat.mul_le_mul hactions hactions)

/-- The run over the leaves of a program comes to an acceptance before it is
    given up, whatever comes behind an end mark. -/
theorem steps_tokens (ht : t.Lawful) (tree : ProgramTree) {tokens rest : List Token}
    (htokens : tokens = tree.tokens ++ rest)
    (hend : (rest.headD (endTokenOf tokens)).kind = .endMark) :
    ∃ reports k, reports.map Report.event = tree.events ∧ reports.length < t.patience tokens ∧
      t.Steps (endTokenOf tokens) (.start tokens) reports ⟨[k, 0], rest⟩ ∧
      t.move (endTokenOf tokens) ⟨[k, 0], rest⟩ = .accept ⟨[k, 0], .accept⟩ := by
  obtain ⟨reports, k, hevents, hsteps, hmove⟩ := ht.steps_program tree hend
  have hlength : reports.length ≤ 5 * tokens.length := by
    have hle := tree.length_events_le
    have heq := congrArg List.length hevents
    simp only [List.length_map] at heq
    simp only [htokens, List.length_append]
    omega
  have hpatience := Nat.lt_of_le_of_lt hlength (ht.five_mul_length_lt_patience tokens)
  rw [← htokens] at hsteps
  exact ⟨reports, k, hevents, hpatience, hsteps, hmove⟩

/-- **The run over the leaves of a program reports its post-order and
    accepts**, whatever comes behind an end mark. -/
theorem run_tokens (ht : t.Lawful) (tree : ProgramTree) {tokens rest : List Token}
    (htokens : tokens = tree.tokens ++ rest)
    (hrest : rest = [] ∨ ∃ e rest', rest = e :: rest' ∧ e.kind = .endMark) :
    ∃ reports, reports.map Report.event = tree.events ++ [.accept] ∧
      ∀ {ε σ : Type} (watch : Watcher ε σ) (s : σ),
        t.run tokens watch s = watch.replay (fun s => ⟨.accepted, 1, s⟩) reports s := by
  have hend : (rest.headD (endTokenOf tokens)).kind = .endMark := by
    rcases hrest with rfl | ⟨e, rest', rfl, he⟩
    · rfl
    · exact he
  obtain ⟨reports, k, hevents, hpatience, hsteps, hmove⟩ := ht.steps_tokens tree htokens hend
  have hne : tokens ≠ [] := by
    obtain ⟨token, tail, hcons, -⟩ := tree.tokens_eq_cons
    rw [htokens, hcons]
    simp
  refine ⟨reports ++ [⟨[k, 0], .accept⟩], by rw [List.map_append, hevents]; rfl, ?_⟩
  intro ε σ watch s
  exact run_of_accept hne hsteps hpatience hmove watch s

end Table.Lawful

end Straightline
