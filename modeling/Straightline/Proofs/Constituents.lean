/-
  The stack of a run, symbol by symbol.

  A run keeps states on its stack, and every state but the lowest is behind
  one grammar symbol: that of a token that was shifted, or that of a phrase to
  which a reduction was made.  These constituents can be told from the actions
  so far: they are the roots of the trees that the states stand for.  So a
  reduction always finds those of its body on top.

  * `Constituent`, `constituents`: what is on the stack after some actions;
  * `constituents_stackEvents`: the constituents are the roots of trees;
  * `Table.Spells`: the symbols that the states on a stack are behind, which
    the states determine (`Table.Lawful.spells_unique`);
  * `Table.AtHead`: the moments of a run at which it looks for its next move,
    with the state of its watcher (`Table.AtHead.run_eq`);
  * `Table.Lawful.run_finish`: a run is accepted, or ends at a token that does
    not fit, or its watcher fails at an action that fits the stack.
-/
import Straightline.Proofs.Acceptance

namespace Straightline

variable {ε σ : Type}

/-! ## Constituents -/

/-- What a state on the stack stands for: a token, or a phrase of some kind. -/
inductive Constituent where
  | token (t : Token)
  | phrase (n : Nonterminal)
  deriving DecidableEq, Repr

namespace Constituent

/-- The grammar symbol of a constituent. -/
def symbol : Constituent → Symbol
  | .token t => .terminal t.kind
  | .phrase n => .nonterminal n

/-- The constituents on a stack, top first, after one more action. -/
def after (stack : List Constituent) : Event → List Constituent
  | .shift t => .token t :: stack
  | .reduce p => .phrase p.head :: stack.drop p.body.length
  | .accept => stack

/-- Whether an action fits the constituents on a stack: no end mark is
    shifted, and a reduction finds those of its body on top. -/
def Admits (stack : List Constituent) : Event → Prop
  | .shift t => t.kind ≠ .endMark
  | .reduce p => (stack.take p.body.length).map symbol = p.body.reverse
  | .accept => True

end Constituent

/-- The constituents on the stack, top first, after some actions. -/
def constituents (events : List Event) : List Constituent :=
  events.foldl Constituent.after []

theorem constituents_append (events : List Event) (event : Event) :
    constituents (events ++ [event]) = Constituent.after (constituents events) event := by
  rw [constituents, List.foldl_append]
  rfl

/-- A token on the stack was shifted. -/
theorem shift_mem_of_token_mem {token : Token} (events : List Event)
    (h : .token token ∈ constituents events) : .shift token ∈ events := by
  have hfold : ∀ (events : List Event) (stack : List Constituent),
      .token token ∈ events.foldl Constituent.after stack →
        .token token ∈ stack ∨ .shift token ∈ events := by
    intro events
    induction events with
    | nil => exact fun stack hmem => .inl hmem
    | cons event events ih =>
      intro stack hmem
      rcases ih _ hmem with hmem | hmem
      · cases event with
        | shift t =>
          rcases List.mem_cons.1 hmem with heq | hmem
          · cases heq
            exact .inr List.mem_cons_self
          · exact .inl hmem
        | reduce p =>
          rcases List.mem_cons.1 hmem with heq | hmem
          · cases heq
          · exact .inl (List.mem_of_mem_drop hmem)
        | accept => exact .inl hmem
      · exact .inr (List.mem_cons_of_mem _ hmem)
  exact (hfold events [] h).resolve_left List.not_mem_nil

/-! ## Roots of trees -/

/-- The constituent that a tree makes. -/
def Tree.root : {x : Symbol} → Tree x → Constituent
  | _, .leaf token => .token token
  | _, .node p _ => .phrase p.head

/-- The constituents that some trees make, the last one first. -/
def Forest.roots : {xs : List Symbol} → Forest xs → List Constituent
  | _, .nil => []
  | _, .cons tree others => others.roots ++ [tree.root]

theorem Tree.symbol_root {x : Symbol} (t : Tree x) : t.root.symbol = x := by
  cases t with
  | leaf token => rfl
  | node p children => rfl

theorem Forest.map_symbol_roots {xs : List Symbol} (f : Forest xs) :
    f.roots.map Constituent.symbol = xs.reverse := by
  induction xs with
  | nil =>
    cases f
    rfl
  | cons x xs ih =>
    cases f with
    | cons tree others =>
      rw [roots, List.map_append, ih others, List.map_singleton, tree.symbol_root,
        List.reverse_cons]

theorem Forest.length_roots {xs : List Symbol} (f : Forest xs) : f.roots.length = xs.length := by
  simpa using congrArg List.length f.map_symbol_roots

mutual

/-- The post-order of a tree leaves its root on the stack. -/
theorem Tree.foldl_after {x : Symbol} (stack : List Constituent) : ∀ t : Tree x,
    t.events.foldl Constituent.after stack = t.root :: stack
  | .leaf _ => rfl
  | .node p children => by
    rw [Tree.events, List.foldl_append, children.foldl_after stack]
    have hdrop : (children.roots ++ stack).drop p.body.length = stack := by
      rw [← children.length_roots, List.drop_left]
    exact congrArg (Constituent.phrase p.head :: ·) hdrop

@[inherit_doc Tree.foldl_after]
theorem Forest.foldl_after {xs : List Symbol} (stack : List Constituent) : ∀ f : Forest xs,
    f.events.foldl Constituent.after stack = f.roots ++ stack
  | .nil => rfl
  | .cons tree others => by
    rw [Forest.events, List.foldl_append, tree.foldl_after, others.foldl_after, Forest.roots,
      List.append_assoc]
    rfl

end

/-- **The constituents are the roots** of the trees on a stack. -/
theorem constituents_stackEvents (trees : List (Sigma Tree)) :
    constituents (stackEvents trees) = trees.map fun tree => tree.2.root := by
  induction trees with
  | nil => rfl
  | cons tree trees ih =>
    rw [constituents] at ih
    rw [constituents, stackEvents, List.foldl_append, ih, tree.2.foldl_after, List.map_cons]

/-! ## Symbols and states -/

namespace Table

/-- The states on a stack, top first, are those behind the symbols of a list,
    and the lowest one is state 0. -/
inductive Spells (t : Table) : List Nat → List Symbol → Prop where
  | bottom : Spells t [0] []
  | push {s k : Nat} {below : List Nat} {x : Symbol} {xs : List Symbol} :
      Spells t (s :: below) xs → t.next? s x = some k → Spells t (k :: s :: below) (x :: xs)

variable {t : Table} {states : List Nat} {xs ys : List Symbol} {trees : List (Sigma Tree)}

theorem Spells.length_eq (h : t.Spells states xs) : states.length = xs.length + 1 := by
  induction h with
  | bottom => rfl
  | push _ _ ih =>
    simp only [List.length_cons] at ih ⊢
    omega

theorem Stacked.spells (h : t.Stacked states trees) :
    t.Spells states ((constituents (stackEvents trees)).map Constituent.symbol) := by
  rw [constituents_stackEvents, List.map_map]
  induction h with
  | bottom => exact .bottom
  | push tree _ hk ih =>
    rw [List.map_cons, Function.comp_apply, tree.2.symbol_root]
    exact ih.push hk

namespace Lawful

/-- A state is behind one symbol only. -/
theorem symbol_unique (ht : t.Lawful) {s s' k : Nat} {x y : Symbol} (hx : t.next? s x = some k)
    (hy : t.next? s' y = some k) : x = y := by
  obtain ⟨i, hi, hnext⟩ := ht.expected_of_next hx
  have hmem := ht.advance hi hnext hx
  exact Option.some.inj (hnext.symm.trans (ht.retreat hy hmem).2)

/-- **The states on a stack determine the symbols.** -/
theorem spells_unique (ht : t.Lawful) (hx : t.Spells states xs) (hy : t.Spells states ys) :
    xs = ys := by
  induction hx generalizing ys with
  | bottom =>
    cases hy
    rfl
  | push _ hk ih =>
    cases hy with
    | push hy hk' => rw [ih hy, ht.symbol_unique hk hk']

/-- The last action that led to a stack of trees made the topmost one, so it
    fitted the constituents before it. -/
theorem admits_of_stacked (ht : t.Lawful) {events : List Event} {event : Event}
    (hstack : t.Stacked states trees) (h : stackEvents trees = events ++ [event]) :
    Constituent.Admits (constituents events) event := by
  cases hstack with
  | bottom => exact absurd h.symm (List.append_ne_nil_of_right_ne_nil _ (by simp))
  | @push s k below trees tree _ hk =>
    obtain ⟨x, tree⟩ := tree
    cases tree with
    | leaf token =>
      obtain ⟨-, hlast⟩ := List.append_inj' h rfl
      cases hlast
      replace hk : t.next? s (.terminal token.kind) = some k := hk
      intro hkind
      rw [hkind, ht.next?_endMark] at hk
      cases hk
    | node p children =>
      rw [stackEvents, Tree.events, ← List.append_assoc] at h
      obtain ⟨hevents, hlast⟩ := List.append_inj' h rfl
      cases hlast
      rw [Constituent.Admits, ← hevents, constituents, List.foldl_append, children.foldl_after,
        ← children.length_roots, List.take_left, children.map_symbol_roots]

end Lawful

/-! ## Heads of the loop -/

/-- The moments of a run at which it looks for its next move: what has been
    reported so far, the configuration, and the state of the watcher, which has
    not failed up to there. -/
inductive AtHead (t : Table) (tokens : List Token) (watch : Watcher ε σ) (init : σ) :
    List Report → Configuration → σ → Prop where
  | start : tokens ≠ [] → AtHead t tokens watch init [] (.start tokens) init
  | step {reports : List Report} {c c' : Configuration} {r : Report} {w w' : σ} {u : Unit} :
      AtHead t tokens watch init reports c w → t.move (endTokenOf tokens) c = .step r c' →
      (watch r).exec w = (.ok u, w') → AtHead t tokens watch init (reports ++ [r]) c' w'

variable {tokens : List Token} {watch : Watcher ε σ} {init : σ} {reports : List Report}
  {c : Configuration} {w : σ}

/-- What has been reported at a head is on the stack. -/
theorem AtHead.progress (ht : t.Lawful) (h : t.AtHead tokens watch init reports c w) :
    ∃ trees, Lawful.Progress t tokens reports c trees := by
  induction h with
  | start => exact ⟨[], .refl _, .bottom, rfl, rfl⟩
  | step _ hmove _ ih =>
    obtain ⟨trees, hprogress⟩ := ih
    exact hprogress.step ht hmove

/-- From a head on the run goes on by itself. -/
theorem AtHead.runFrom_eq (h : t.AtHead tokens watch init reports c w) (fuel : Nat) :
    t.runFrom (endTokenOf tokens) watch (fuel + reports.length) (.start tokens) init =
      t.runFrom (endTokenOf tokens) watch fuel c w := by
  induction h generalizing fuel with
  | start => rfl
  | @step reports c c' r w w' u _ hmove hexec ih =>
    have hfuel : fuel + (reports ++ [r]).length = fuel + 1 + reports.length := by
      rw [List.length_append, List.length_singleton]
      omega
    rw [hfuel, ih, runFrom, hmove]
    simp only [hexec]

/-- **The run passes through every head**, with moves to spare. -/
theorem AtHead.run_eq (ht : t.Lawful) (h : t.AtHead tokens watch init reports c w) :
    ∃ fuel, t.run tokens watch init = t.runFrom (endTokenOf tokens) watch (fuel + 1) c w := by
  obtain ⟨trees, hprogress⟩ := h.progress ht
  have hpatience := Nat.lt_of_le_of_lt hprogress.length_le (ht.five_mul_length_lt_patience tokens)
  obtain ⟨fuel, hfuel⟩ := Nat.exists_eq_add_of_lt hpatience
  have hne : tokens ≠ [] := by
    clear hprogress hpatience hfuel
    induction h with
    | start hne => exact hne
    | step _ _ _ ih => exact ih
  refine ⟨fuel, ?_⟩
  rw [run_eq_runFrom hne, ← h.runFrom_eq (fuel + 1)]
  congr 1
  omega

/-- At every head the states spell the constituents. -/
theorem Lawful.spells_of_atHead (ht : t.Lawful) (h : t.AtHead tokens watch init reports c w) :
    t.Spells c.states ((constituents (reports.map Report.event)).map Constituent.symbol) := by
  obtain ⟨trees, hprogress⟩ := h.progress ht
  rw [← hprogress.events]
  exact hprogress.stacked.spells

/-- The tokens on the stack are among those of the run. -/
theorem AtHead.mem_tokens (ht : t.Lawful) (h : t.AtHead tokens watch init reports c w)
    {token : Token} (hmem : .token token ∈ constituents (reports.map Report.event)) :
    token ∈ tokens := by
  obtain ⟨trees, hprogress⟩ := h.progress ht
  rw [hprogress.tokens_eq, hprogress.events, List.mem_append, List.mem_filterMap]
  exact .inl ⟨.shift token, shift_mem_of_token_mem _ hmem, rfl⟩

/-- The action after a head fits the constituents, and what it shifts is one
    of the tokens. -/
theorem Lawful.admits_of_atHead (ht : t.Lawful) (h : t.AtHead tokens watch init reports c w)
    {r : Report} {c' : Configuration} (hmove : t.move (endTokenOf tokens) c = .step r c') :
    Constituent.Admits (constituents (reports.map Report.event)) r.event ∧
      ∀ token, r.event.token? = some token → token ∈ tokens := by
  obtain ⟨trees, hprogress⟩ := h.progress ht
  obtain ⟨trees', hprogress'⟩ := hprogress.step ht hmove
  have hevents : stackEvents trees' = reports.map Report.event ++ [r.event] := by
    rw [hprogress'.events, List.map_append, List.map_singleton]
  refine ⟨ht.admits_of_stacked hprogress'.stacked hevents, fun token htoken => ?_⟩
  rw [hprogress'.tokens_eq, hevents, List.mem_append, List.mem_filterMap]
  exact .inl ⟨r.event, by simp, htoken⟩

/-- What holds at the start, and is kept by the actions that fit, holds at
    every head. -/
theorem Lawful.invariant_of_atHead (ht : t.Lawful) {P : List Constituent → σ → Prop}
    (hinit : P [] init)
    (hstep : ∀ {stack : List Constituent} {r : Report} {w w' : σ} {u : Unit}, P stack w →
      Constituent.Admits stack r.event → (watch r).exec w = (.ok u, w') →
      P (Constituent.after stack r.event) w')
    (h : t.AtHead tokens watch init reports c w) :
    P (constituents (reports.map Report.event)) w := by
  induction h with
  | start => exact hinit
  | step hhead hmove hexec ih =>
    rw [List.map_append, List.map_singleton, constituents_append]
    exact hstep ih (ht.admits_of_atHead hhead hmove).1 hexec

/-! ## Endings -/

/-- A watcher fails after some head with an action that fits the constituents
    there. -/
structure FailsWith (t : Table) (tokens : List Token) (watch : Watcher ε σ) (init : σ) (e : ε)
    (reports : List Report) (c : Configuration) (w : σ) (r : Report) : Prop where
  atHead : t.AtHead tokens watch init reports c w
  admits : Constituent.Admits (constituents (reports.map Report.event)) r.event
  mem_tokens : ∀ token, r.event.token? = some token → token ∈ tokens
  fails : ((watch r).exec w).1 = .error e

/-- A replay from a head on: the watcher fails, or has seen all reports. -/
theorem Lawful.replay_of_atHead (ht : t.Lawful) {c' : Configuration} {rest : List Report}
    (h : t.AtHead tokens watch init reports c w) (hsteps : t.Steps (endTokenOf tokens) c rest c')
    (after : σ → Run ε σ) :
    (∃ e reports' c₁ w₁ r, (watch.replay after rest w).finish = .stopped e ∧
      t.FailsWith tokens watch init e reports' c₁ w₁ r) ∨
    ∃ w', t.AtHead tokens watch init (reports ++ rest) c' w' ∧
      watch.replay after rest w = after w' := by
  induction hsteps generalizing reports w with
  | refl c => exact .inr ⟨w, by simpa using h, rfl⟩
  | @head c c₁ c' r rest hmove _ ih =>
    rw [Watcher.replay]
    rcases hexec : (watch r).exec w with ⟨e | u, w₁⟩
    · obtain ⟨hadmits, hmem⟩ := ht.admits_of_atHead h hmove
      exact .inl ⟨e, reports, c, w, r, rfl, h, hadmits, hmem, congrArg Prod.fst hexec⟩
    · rw [List.append_cons]
      exact ih (h.step hmove hexec)

/-- **How a run ends**: it is accepted, or a token does not fit, or the
    watcher fails with an action that fits. -/
theorem Lawful.run_finish (ht : t.Lawful) (htokens : tokens ≠ []) (watch : Watcher ε σ)
    (init : σ) :
    (t.run tokens watch init).finish = .accepted ∨
    (∃ token expected, (t.run tokens watch init).finish = .failed (.unexpected token expected)) ∨
    ∃ e reports c w r, (t.run tokens watch init).finish = .stopped e ∧
      t.FailsWith tokens watch init e reports c w r := by
  cases ht.run_ends tokens with
  | accepted tree rest heq hend =>
    obtain ⟨reports, k, -, hpatience, hsteps, hmove⟩ := ht.steps_tokens tree heq hend
    rw [run_of_accept htokens hsteps hpatience hmove, Watcher.replay_append]
    rcases ht.replay_of_atHead (.start htokens) hsteps _ with hfails | ⟨w, hhead, hreplay⟩
    · exact .inr (.inr hfails)
    -- Only the acceptance itself is left to be reported.
    let last : Report := ⟨[k, 0], .accept⟩
    rw [hreplay, Watcher.replay]
    rcases hexec : (watch last).exec w with ⟨e | _, w'⟩
    · have hfails : t.FailsWith tokens watch init e ([] ++ reports) ⟨[k, 0], rest⟩ w last := by
        refine ⟨hhead, trivial, fun token htoken => ?_, congrArg Prod.fst hexec⟩
        simp [last, Event.token?] at htoken
      exact .inr (.inr ⟨e, _, _, _, last, rfl, hfails⟩)
    · exact .inl rfl
  | stuck reports c expected hsteps hmove hlength =>
    have hpatience := Nat.lt_of_le_of_lt hlength (ht.five_mul_length_lt_patience tokens)
    rw [run_of_stuck htokens hsteps hpatience hmove]
    rcases ht.replay_of_atHead (.start htokens) hsteps _ with hfails | ⟨w, -, hreplay⟩
    · exact .inr (.inr hfails)
    · rw [hreplay]
      exact .inr (.inl ⟨_, expected, rfl⟩)

end Table

end Straightline
