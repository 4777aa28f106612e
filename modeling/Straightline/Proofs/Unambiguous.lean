/-
  One tree for each text.

  A run over the leaves of a program reports the post-order of its tree, and
  the same tokens make the same run; so no two trees have the same leaves.
  This holds of the trees of every symbol, since each is part of some program.

  * `Tree.shape`: a tree with the kinds of its leaves only;
  * `Tree.eq_of_tokens`: a tree can be told from its leaves;
  * `runs_post_order_of_only_tree`: what a run reports, that no other tree
    explains it, and what this says of the operators.
-/
import Straightline.Proofs.TreeRuns

namespace Straightline

/-! ## Shapes -/

/-- A token of which the kind alone is left. -/
def Token.bare (token : Token) : Token :=
  ⟨token.kind, "", {}⟩

theorem Token.map_bare_eq {tokens tokens' : List Token}
    (h : tokens.map Token.kind = tokens'.map Token.kind) :
    tokens.map Token.bare = tokens'.map Token.bare := by
  have hbare : Token.bare = (fun kind => ⟨kind, "", {}⟩) ∘ Token.kind := rfl
  rw [hbare, ← List.map_map, ← List.map_map, h]

mutual

/-- A tree of which the leaves are kinds and nothing else. -/
def Tree.shape {x : Symbol} : Tree x → Tree x
  | .leaf token => .leaf token.bare
  | .node p children => .node p children.shape

@[inherit_doc Tree.shape]
def Forest.shape {xs : List Symbol} : Forest xs → Forest xs
  | .nil => .nil
  | .cons tree others => .cons tree.shape others.shape

end

mutual

theorem Tree.tokens_shape {x : Symbol} : ∀ t : Tree x, t.shape.tokens = t.tokens.map Token.bare
  | .leaf _ => rfl
  | .node _ children => children.tokens_shape

theorem Forest.tokens_shape {xs : List Symbol} :
    ∀ f : Forest xs, f.shape.tokens = f.tokens.map Token.bare
  | .nil => rfl
  | .cons tree others => by
    rw [Forest.shape, Forest.tokens, tree.tokens_shape, others.tokens_shape, ← List.map_append]
    rfl

end

/-! ## Trees from their leaves -/

/-- Two trees of one program: the recorded run over their leaves is the
    post-order of both. -/
theorem ProgramTree.eq_of_tokens {tree tree' : ProgramTree} (h : tree.tokens = tree'.tokens) :
    tree = tree' := by
  have ht := Table.standard_lawful
  obtain ⟨reports, hevents, hrun⟩ := ht.run_tokens tree (List.append_nil _).symm (.inl rfl)
  obtain ⟨reports', hevents', hrun'⟩ := ht.run_tokens tree' (List.append_nil _).symm (.inl rfl)
  have hreports : reports = reports' := by
    have hrecorded := (hrun Watcher.recorder []).symm.trans (h ▸ hrun' Watcher.recorder [])
    rw [Watcher.replay_recorder, Watcher.replay_recorder, Run.mk.injEq] at hrecorded
    simpa using hrecorded.2.2
  apply Tree.eq_of_events
  rw [hreports, hevents'] at hevents
  exact (List.append_cancel_right hevents).symm

theorem Forest.append_left_cancel {xs ys : List Symbol} {g g' : Forest ys} :
    ∀ f : Forest xs, f.append g = f.append g' → g = g'
  | .nil, h => h
  | .cons _ others, h => append_left_cancel others (Forest.cons.inj h).2

/-- Where the trees for a head can be told from their leaves, so can those for
    a symbol of the body, if only there are some for the other symbols. -/
theorem Tree.eq_of_tokens_of_head {p : Production} {left right : List Symbol} {x : Symbol}
    (hhead : ∀ t t' : Tree (.nonterminal p.head), t.tokens = t'.tokens → t = t')
    (hbody : p.body = left ++ x :: right) (front : Forest left) (back : Forest right)
    {t t' : Tree x} (h : t.tokens = t'.tokens) : t = t' := by
  have hforest : ∀ f f' : Forest (left ++ x :: right), f.tokens = f'.tokens → f = f' := by
    rw [← hbody]
    intro f f' h
    have hnode := hhead (.node p f) (.node p f') h
    injection hnode
  have happend : front.append (.cons t back) = front.append (.cons t' back) := by
    apply hforest
    simp only [Forest.tokens_append, Forest.tokens, h]
  exact (Forest.cons.inj (Forest.append_left_cancel front happend)).1

theorem Tree.ne_goal {x : Symbol} : Tree x → x ≠ .nonterminal .goal
  | .leaf _ => by simp
  | .node p _ => by cases p <;> decide

/-- **A tree can be told from its leaves.** -/
theorem Tree.eq_of_tokens {n : Nonterminal} {t t' : Tree (.nonterminal n)}
    (h : t.tokens = t'.tokens) : t = t' := by
  -- Each nonterminal stands, with terminals at most beside it, in the body of
  -- one that is nearer to the program.
  have hstatements : ∀ t t' : Tree (.nonterminal .statements), t.tokens = t'.tokens → t = t' :=
    fun _ _ => Tree.eq_of_tokens_of_head (p := .program) (fun _ _ => ProgramTree.eq_of_tokens)
      rfl .nil .nil
  have hstatement : ∀ t t' : Tree (.nonterminal .statement), t.tokens = t'.tokens → t = t' :=
    fun _ _ => Tree.eq_of_tokens_of_head (p := .statementsLast) hstatements
      rfl .nil (.cons (.leaf ⟨.semicolon, "", {}⟩) .nil)
  have hexpression : ∀ t t' : Tree (.nonterminal .expression), t.tokens = t'.tokens → t = t' :=
    fun _ _ => Tree.eq_of_tokens_of_head (p := .returnValue) hstatement
      rfl (.cons (.leaf ⟨.returnWord, "", {}⟩) .nil) .nil
  have hterm : ∀ t t' : Tree (.nonterminal .term), t.tokens = t'.tokens → t = t' :=
    fun _ _ => Tree.eq_of_tokens_of_head (p := .expressionTerm) hexpression rfl .nil .nil
  cases n with
  | goal => exact absurd rfl t.ne_goal
  | program => exact ProgramTree.eq_of_tokens h
  | statements => exact hstatements t t' h
  | statement => exact hstatement t t' h
  | typeName =>
    exact Tree.eq_of_tokens_of_head (p := .declaration) hstatement rfl .nil
      (.cons (.leaf ⟨.identifier, "", {}⟩) .nil) h
  | expression => exact hexpression t t' h
  | term => exact hterm t t' h
  | factor => exact Tree.eq_of_tokens_of_head (p := .termFactor) hterm rfl .nil .nil h

/-- The shape of a tree can be told from the kinds of its leaves. -/
theorem Tree.shape_eq_of_kinds {n : Nonterminal} {t t' : Tree (.nonterminal n)}
    (h : t.tokens.map Token.kind = t'.tokens.map Token.kind) : t.shape = t'.shape := by
  apply Tree.eq_of_tokens
  rw [t.tokens_shape, t'.tokens_shape, Token.map_bare_eq h]

/-! ## Runs -/

/-- **A run reports the post-order of the only tree there is.**

    * Over tokens whose kinds are the leaves of a program's tree, with or
      without an end mark behind them, a run shows every watcher the
      post-order of that tree over those tokens, and then the acceptance.
    * No two trees of programs have leaves of the same kinds.
    * Moreover, a tree for the head of a production whose leaves are those of
      the body is a node for that production.  So an expression `e + a` or
      `e - a`, where `e` is any expression and `a` any term, is that sum or
      difference, and a term `a * f` that product: sums and products group to
      the left, and the star binds tighter than both signs. -/
theorem runs_post_order_of_only_tree :
    (∀ (tree : ProgramTree) (body tokens : List Token),
      body.map Token.kind = tree.tokens.map Token.kind →
      (tokens = body ∨ ∃ e : Token, e.kind = .endMark ∧ tokens = body ++ [e]) →
      ∃ (labelled : ProgramTree) (reports : List Report),
        labelled.shape = tree.shape ∧ labelled.tokens = body ∧
        reports.map Report.event = labelled.events ++ [.accept] ∧
        ∀ {ε σ : Type} (watch : Watcher ε σ) (s : σ), Table.standard.run tokens watch s =
          watch.replay (fun s => ⟨.accepted, 1, s⟩) reports s) ∧
    (∀ tree tree' : ProgramTree,
      tree.tokens.map Token.kind = tree'.tokens.map Token.kind → tree.shape = tree'.shape) ∧
    (∀ (p : Production) (children : Forest p.body) (tree : Tree (.nonterminal p.head)),
      tree.tokens.map Token.kind = children.tokens.map Token.kind →
        tree.shape = .node p children.shape) := by
  refine ⟨?_, fun _ _ => Tree.shape_eq_of_kinds, fun p children tree h =>
    show tree.shape = (Tree.node p children).shape from Tree.shape_eq_of_kinds h⟩
  intro tree body tokens hbody htokens
  obtain ⟨labelled, hlabelled⟩ : ∃ labelled : ProgramTree, labelled.tokens = body := by
    rw [← isSentence_iff, hbody, isSentence_iff]
    exact ⟨tree, rfl⟩
  have hshape : labelled.shape = tree.shape := by
    apply Tree.shape_eq_of_kinds
    rw [hlabelled, hbody]
  obtain ⟨rest, hsplit, hrest⟩ : ∃ rest, tokens = labelled.tokens ++ rest ∧
      (rest = [] ∨ ∃ e rest', rest = e :: rest' ∧ e.kind = .endMark) := by
    rcases htokens with rfl | ⟨e, he, rfl⟩
    · exact ⟨[], by rw [hlabelled, List.append_nil], .inl rfl⟩
    · exact ⟨[e], by rw [hlabelled], .inr ⟨e, [], rfl, he⟩⟩
  obtain ⟨reports, hevents, hrun⟩ := Table.standard_lawful.run_tokens labelled hsplit hrest
  exact ⟨labelled, reports, hshape, hlabelled, hevents, hrun⟩

/-- The run over `return 5 - 2 - 1;` reports a difference whose left operand
    is a difference. -/
theorem runs_post_order_of_only_tree_differences :
    let term : Tree (.nonterminal .term) :=
      .node .termFactor (.cons (.node .factorConstant (.cons (.leaf ⟨.constant, "", {}⟩) .nil)) .nil)
    let minus : Tree (.terminal .minus) := .leaf ⟨.minus, "", {}⟩
    let inner : Tree (.nonterminal .expression) :=
      .node .sub (.cons (.node .expressionTerm (.cons term .nil)) (.cons minus (.cons term .nil)))
    let outer : Tree (.nonterminal .expression) :=
      .node .sub (.cons inner (.cons minus (.cons term .nil)))
    let tree : ProgramTree :=
      .node .program (.cons (.node .statementsLast (.cons
        (.node .returnValue (.cons (.leaf ⟨.returnWord, "", {}⟩) (.cons outer .nil)))
        (.cons (.leaf ⟨.semicolon, "", {}⟩) .nil))) .nil)
    let body : List Token :=
      [⟨.returnWord, "return", ⟨1, 1⟩⟩, ⟨.constant, "5", ⟨1, 8⟩⟩, ⟨.minus, "-", ⟨1, 10⟩⟩,
        ⟨.constant, "2", ⟨1, 12⟩⟩, ⟨.minus, "-", ⟨1, 14⟩⟩, ⟨.constant, "1", ⟨1, 16⟩⟩,
        ⟨.semicolon, ";", ⟨1, 17⟩⟩]
    ∃ (labelled : ProgramTree) (reports : List Report),
      labelled.shape = tree.shape ∧ labelled.tokens = body ∧
      reports.map Report.event = labelled.events ++ [.accept] ∧
      Table.standard.run (body ++ [⟨.endMark, "", ⟨1, 18⟩⟩]) Watcher.recorder [] =
        Watcher.recorder.replay (fun s => ⟨.accepted, 1, s⟩) reports [] := by
  intro term minus inner outer tree body
  obtain ⟨labelled, reports, hshape, htokens, hevents, hrun⟩ :=
    runs_post_order_of_only_tree.1 tree body _ rfl (.inr ⟨⟨.endMark, "", ⟨1, 18⟩⟩, rfl, rfl⟩)
  exact ⟨labelled, reports, hshape, htokens, hevents, hrun Watcher.recorder []⟩

end Straightline
