/-
  What can come next.

  After some kinds have been read, a terminal can come next if some sentence,
  with an end mark behind it, goes on with it.  A stack of symbols that derives
  what has been read tells of some terminals that they can: those that an item
  of its top state expects, and the only one that can follow a complete rule.
  Behind a complete factor the three operators can come.

  * `CanComeNext`: a sentence goes on with the terminal;
  * `Item.ValidFor.canComeNext`, `Item.ValidFor.canComeNext_of_follow`,
    `Item.ValidFor.canComeNext_of_factor`: what the items that fit a list of
    symbols tell about what comes behind it;
  * `Table.Lawful.exists_symbols`: the symbols on the stack of a run;
  * `Table.ReadsTo`: a stack that depends on the tokens read only, and not on
    the next one, as after a shift; a terminal for which its top state has no
    action cannot come next (`Table.Lawful.not_canComeNext`);
  * `Table.LastShift`: how far a run has come since its last shift, and
    `Table.Lawful.exists_lastShift`.
-/
import Straightline.Proofs.FirstOffence
import Straightline.Proofs.SententialForms

namespace Straightline

/-- Whether some sentence, with an end mark behind it, goes on with a terminal
    after some kinds. -/
def CanComeNext (kinds : List Terminal) (a : Terminal) : Prop :=
  StartsSentence (kinds ++ [a])

/-! ## Items and what comes behind them -/

section

variable {kinds : List Terminal} {xs left : List Symbol} {i : Item} {a : Terminal}
  (hderives : Derives xs (kinds.map .terminal))
include hderives

/-- A terminal that an item expects can come next. -/
theorem Item.ValidFor.canComeNext (hi : i.ValidFor xs) (hnext : i.next? = some (.terminal a)) :
    CanComeNext kinds a := by
  obtain ⟨more, hmore⟩ := (hi.advance hnext).exists_completion
  refine ⟨kinds ++ [a] ++ more, ?_, ?_⟩
  · have hread : Derives (xs ++ [.terminal a] ++ more.map .terminal)
        (kinds.map .terminal ++ [.terminal a] ++ more.map .terminal) :=
      (hderives.append .refl).append .refl
    rw [IsSentence, List.map_append, List.map_append]
    exact Relation.ReflTransGen.trans hmore hread
  · rw [List.append_assoc]
    exact List.prefix_append _ _

/-- Behind a complete rule whose head only one terminal can follow, that
    terminal can come next. -/
theorem Item.ValidFor.canComeNext_of_follow {p : Production}
    (hi : (Item.complete (.production p)).ValidFor xs) (hfollow : follow p.head = [a]) :
    CanComeNext kinds a := by
  obtain ⟨left, right, hform, -, rfl⟩ := hi
  rw [Item.complete, List.take_length] at hderives
  have hsentence : IsSentence (kinds ++ right) := by
    have hbody := hform.derives_of_rightYields ⟨.production p, left, right, rfl, rfl⟩
    have hread : Derives (left ++ Rule.body (.production p) ++ right.map .terminal)
        (kinds.map .terminal ++ right.map .terminal) := hderives.append .refl
    rw [IsSentence, List.map_append]
    exact Relation.ReflTransGen.trans hbody hread
  -- The form, with its end mark, shows what follows the head.
  have hfollows : ∀ {b rest}, right ++ [.endMark] = b :: rest → b = a := by
    intro b rest hb
    have hmem : b ∈ follow p.head := by
      refine mem_follow_iff.2 ⟨left, rest.map .terminal, ?_⟩
      have hderives' := hform.ruleDerives
      have hmap := congrArg (List.map Symbol.terminal) hb
      rw [List.map_append, List.map_singleton, List.map_cons] at hmap
      rwa [List.append_assoc, List.cons_append, hmap] at hderives'
    rw [hfollow] at hmem
    exact List.mem_singleton.1 hmem
  refine ⟨kinds ++ right, hsentence, ?_⟩
  obtain ⟨b, rest, hb⟩ := List.exists_cons_of_ne_nil
    (List.append_ne_nil_of_right_ne_nil right (List.cons_ne_nil Terminal.endMark []))
  rw [List.append_assoc, hb, ← hfollows hb]
  exact (List.prefix_append_right_inj kinds).2 (List.prefix_append [b] rest)

end

/-! ## Behind a factor -/

theorem Rule.eq_of_factor {r : Rule} {d : Nat} (h : r.body[d]? = some (.nonterminal .factor)) :
    (r = .production .mul ∧ d = 2) ∨ (r = .production .termFactor ∧ d = 0) := by
  have hall : ∀ r ∈ Rule.all, ∀ d < r.body.length, r.body[d]? = some (.nonterminal .factor) →
      (r = .production .mul ∧ d = 2) ∨ (r = .production .termFactor ∧ d = 0) := by
    decide
  exact hall r r.mem_all d (List.getElem?_eq_some_iff.1 h).1 h

theorem Rule.eq_of_term {r : Rule} {d : Nat} (h : r.body[d]? = some (.nonterminal .term)) :
    (r = .production .mul ∧ d = 0) ∨ (r = .production .expressionTerm ∧ d = 0) ∨
      (r = .production .add ∧ d = 2) ∨ (r = .production .sub ∧ d = 2) := by
  have hall : ∀ r ∈ Rule.all, ∀ d < r.body.length, r.body[d]? = some (.nonterminal .term) →
      (r = .production .mul ∧ d = 0) ∨ (r = .production .expressionTerm ∧ d = 0) ∨
        (r = .production .add ∧ d = 2) ∨ (r = .production .sub ∧ d = 2) := by
    decide
  exact hall r r.mem_all d (List.getElem?_eq_some_iff.1 h).1 h

theorem Derives.of_production (p : Production) (left : List Symbol) :
    Derives (left ++ [.nonterminal p.head]) (left ++ p.body) :=
  Relation.ReflTransGen.single ⟨p, left, [], rfl, by simp⟩

/-- In place of the last symbol of a body, with the rest of the body before it,
    there may be the head. -/
theorem Derives.of_last {p : Production} {d : Nat} {x : Symbol}
    (hbody : p.body = p.body.take d ++ [x]) (left : List Symbol) :
    Derives (left ++ [.nonterminal p.head]) (left ++ p.body.take d ++ [x]) := by
  rw [List.append_assoc, ← hbody]
  exact Derives.of_production p left

/-- A factor ends a term. -/
theorem Expects.exists_term {left : List Symbol} (h : Expects left .factor) :
    ∃ left', Expects left' .term ∧
      Derives (left' ++ [.nonterminal .term]) (left ++ [.nonterminal .factor]) := by
  cases h with
  | @within left r d _ hexpects hd =>
    obtain ⟨rfl, rfl⟩ | ⟨rfl, rfl⟩ := Rule.eq_of_factor hd
    · exact ⟨left, hexpects, Derives.of_last (p := .mul) rfl left⟩
    · exact ⟨left, hexpects, Derives.of_last (p := .termFactor) rfl left⟩

/-- A term ends an expression, or else begins a longer term that stands in its
    place. -/
theorem Expects.exists_expression {left : List Symbol} {n : Nonterminal} (h : Expects left n)
    (hn : n = .term) :
    ∃ left', Expects left' .expression ∧
      Derives (left' ++ [.nonterminal .expression]) (left ++ [.nonterminal .term]) := by
  induction h with
  | goal => cases hn
  | @within left r d n hexpects hd ih =>
    subst hn
    obtain ⟨rfl, rfl⟩ | ⟨rfl, rfl⟩ | ⟨rfl, rfl⟩ | ⟨rfl, rfl⟩ := Rule.eq_of_term hd
    · simpa using ih rfl
    · exact ⟨left, hexpects, Derives.of_last (p := .expressionTerm) rfl left⟩
    · exact ⟨left, hexpects, Derives.of_last (p := .add) rfl left⟩
    · exact ⟨left, hexpects, Derives.of_last (p := .sub) rfl left⟩

/-- **Behind a complete factor the operators can come.** -/
theorem Item.ValidFor.canComeNext_of_factor {kinds : List Terminal} {xs : List Symbol}
    {p : Production} (hderives : Derives xs (kinds.map .terminal))
    (hi : (Item.complete (.production p)).ValidFor xs) (hp : p.head = .factor) :
    CanComeNext kinds .star ∧ CanComeNext kinds .plus ∧ CanComeNext kinds .minus := by
  obtain ⟨left, hfactor, -, rfl⟩ := Item.validFor_iff.1 hi
  rw [Item.complete, List.take_length] at hderives
  have hfactor : Expects left .factor := hp ▸ hfactor
  have hread : Derives (left ++ [.nonterminal .factor]) (kinds.map .terminal) := by
    have hbody := Derives.of_production p left
    rw [hp] at hbody
    exact Relation.ReflTransGen.trans hbody hderives
  obtain ⟨left₁, hterm, hderives₁⟩ := hfactor.exists_term
  have hread₁ := Relation.ReflTransGen.trans hderives₁ hread
  obtain ⟨left₂, hexpression, hderives₂⟩ := hterm.exists_expression rfl
  have hread₂ := Relation.ReflTransGen.trans hderives₂ hread₁
  refine ⟨?_, ?_, ?_⟩
  · exact (hterm.validFor (r := .production .mul) (d := 1) (by decide)).canComeNext hread₁ rfl
  · exact (hexpression.validFor (r := .production .add) (d := 1) (by decide)).canComeNext hread₂ rfl
  · exact (hexpression.validFor (r := .production .sub) (d := 1) (by decide)).canComeNext hread₂ rfl

/-! ## What the top of a stack tells -/

namespace Table

/-- Whether a state is sure that a terminal can come next: it shifts the
    terminal, or it reduces to a nonterminal that nothing else can follow. -/
def isSureOf (t : Table) (s : Nat) (a : Terminal) : Bool :=
  match t.action? s a with
  | some (.shift _) => true
  | some (.reduce p) => follow p.head = [a]
  | _ => false

variable {t : Table} {tokens read : List Token} {reports : List Report} {c c' : Configuration}
  {s : Nat} {below : List Nat} {a : Terminal}

section

variable (ht : t.Lawful) (hsteps : t.Steps (endTokenOf tokens) (.start tokens) reports c)
  (hread : tokens = read ++ c.rest) (hstates : c.states = s :: below)
include ht hsteps hread hstates

/-- The trees on the stack hold what has been read. -/
theorem Lawful.exists_trees : ∃ trees, t.Stacked (s :: below) trees ∧
    (stackEvents trees).filterMap Event.token? = read := by
  obtain ⟨trees, hprogress⟩ := ht.progress_of_steps hsteps
  exact ⟨trees, hstates ▸ hprogress.stacked,
    List.append_cancel_right (hprogress.tokens_eq.symm.trans hread)⟩

/-- **The symbols on the stack** derive what has been read, and the items of the
    top state fit them. -/
theorem Lawful.exists_symbols : ∃ xs, Derives xs ((read.map Token.kind).map .terminal) ∧
    ∀ i ∈ t.itemsAt s, i.ValidFor xs := by
  obtain ⟨trees, hstacked, heq⟩ := ht.exists_trees hsteps hread hstates
  refine ⟨stackSymbols trees, ?_, fun i hi => ht.validFor_of_mem hstacked.path?_eq hi⟩
  rw [← symbolsOf_eq_map, ← heq]
  exact derives_stackEvents trees

theorem Lawful.canComeNext_of_isSureOf (h : t.isSureOf s a = true) :
    CanComeNext (read.map Token.kind) a := by
  obtain ⟨xs, hderives, hvalid⟩ := ht.exists_symbols hsteps hread hstates
  unfold isSureOf at h
  split at h
  · next k hshift =>
    obtain ⟨i, hi, hnext⟩ := ht.expected_of_next (action?_eq_shift_iff.1 hshift)
    exact (hvalid i hi).canComeNext hderives hnext
  · next p hreduce =>
    exact (hvalid _ (ht.reduce hreduce).1).canComeNext_of_follow hderives (of_decide_eq_true h)
  · cases h

theorem Lawful.canComeNext_of_factor {p : Production}
    (hi : .complete (.production p) ∈ t.itemsAt s) (hp : p.head = .factor) :
    CanComeNext (read.map Token.kind) .star ∧ CanComeNext (read.map Token.kind) .plus ∧
      CanComeNext (read.map Token.kind) .minus := by
  obtain ⟨xs, hderives, hvalid⟩ := ht.exists_symbols hsteps hread hstates
  exact (hvalid _ hi).canComeNext_of_factor hderives hp

end

/-! ## Behind a shift -/

/-- Some tokens lead to a stack of states, whatever comes behind them. -/
def ReadsTo (t : Table) (read : List Token) (reports : List Report) (states : List Nat) : Prop :=
  ∀ last rest, t.Steps last (.start (read ++ rest)) reports ⟨states, rest⟩

theorem readsTo_start (t : Table) : t.ReadsTo [] [] [0] :=
  fun _ rest => .refl (.start rest)

/-- A shift leads to the same stack whatever comes behind the token. -/
theorem Lawful.readsTo_of_shift (ht : t.Lawful) {token : Token} {rest : List Token} {k : Nat}
    (hsteps : t.Steps (endTokenOf tokens) (.start tokens) reports c)
    (hread : tokens = read ++ c.rest) (hrest : c.rest = token :: rest)
    (hstates : c.states = s :: below) (hk : t.next? s (.terminal token.kind) = some k) :
    t.ReadsTo (read ++ [token]) (reports ++ [⟨c.states, .shift token⟩]) (k :: c.states) := by
  intro last more
  have hsteps' : t.Steps last (.start (read ++ token :: more)) reports
      ⟨c.states, token :: more⟩ :=
    ht.steps_of_same_start rfl hsteps hread (by rw [hrest]; rfl)
  rw [List.append_assoc]
  refine hsteps'.trans (.single ?_)
  rw [hstates]
  exact move_shift hk

/-- Without an action for the next token a run is stuck. -/
theorem move_of_action?_eq_none {last : Token} (hstates : c.states = s :: below)
    (haction : t.action? s (c.rest.headD last).kind = none) :
    t.move last c = .stuck (.unexpected (c.rest.headD last) (t.expected s)) := by
  obtain ⟨states, rest⟩ := c
  obtain rfl : states = s :: below := hstates
  simp only [move, haction]

/-- **Where no action is left to a terminal, it cannot come next.** -/
theorem Lawful.not_canComeNext (ht : t.Lawful) (h : t.ReadsTo read reports (s :: below))
    (haction : t.action? s a = none) : ¬ CanComeNext (read.map Token.kind) a := by
  let token : Token := ⟨a, "", {}⟩
  have hmove : t.move (endTokenOf (read ++ [token])) ⟨s :: below, [token]⟩ =
      .stuck (.unexpected token (t.expected s)) := move_of_action?_eq_none rfl haction
  have hsteps := h (endTokenOf (read ++ [token])) [token]
  have hnot := ht.not_startsSentence_of_stuck (c := ⟨s :: below, [token]⟩) rfl hsteps hmove
  rwa [List.map_append] at hnot

/-- The last configuration of a run whose stack depends on the tokens read only,
    and the reductions made since then, on the next token. -/
structure LastShift (t : Table) (tokens read : List Token) (c₀ c : Configuration) : Prop where
  tokens_eq : tokens = read ++ c.rest
  rest_eq : c₀.rest = c.rest
  readsTo : ∃ reports, t.ReadsTo read reports c₀.states
  reductions : ∃ reports, t.Steps (endTokenOf tokens) c₀ reports c
  /-- The stack is that of the start, or behind a terminal. -/
  top : c₀.states = [0] ∨
    ∃ s k below a, c₀.states = k :: s :: below ∧ t.next? s (.terminal a) = some k
  /-- Where the last move was a reduction, the next token can follow its
      head. -/
  reduced : c = c₀ ∨ ∃ s k below n, c.states = k :: s :: below ∧ t.goto? s n = some k ∧
    (c.rest.headD (endTokenOf tokens)).kind ∈ follow n

theorem LastShift.steps {c₀ : Configuration} (h : t.LastShift tokens read c₀ c) :
    ∃ reports, t.Steps (endTokenOf tokens) (.start tokens) reports c := by
  obtain ⟨front, hfront⟩ := h.readsTo
  obtain ⟨back, hback⟩ := h.reductions
  have hstart := hfront (endTokenOf tokens) c.rest
  rw [← h.tokens_eq, ← h.rest_eq] at hstart
  exact ⟨_, hstart.trans hback⟩

theorem reduceBy_eq_step {p : Production} {r : Report} (h : t.reduceBy p c = .step r c') :
    ∃ s k below, c'.states = k :: s :: below ∧ t.goto? s p.head = some k := by
  unfold reduceBy at h
  split at h
  · cases h
  · next s below _ =>
    split at h
    · cases h
    · next k hk =>
      cases h
      exact ⟨s, k, below, rfl, hk⟩

/-- A shift is the last one from then on; a reduction is one more since it. -/
theorem Lawful.lastShift_of_move (ht : t.Lawful) {c₀ : Configuration} {r : Report}
    (h : t.LastShift tokens read c₀ c) (hmove : t.move (endTokenOf tokens) c = .step r c') :
    ∃ read' c₀', t.LastShift tokens read' c₀' c' := by
  obtain ⟨reports, hsteps⟩ := h.steps
  rcases move_eq_step hmove with ⟨s, below, k, hstates, haction, rfl, rfl⟩ |
    ⟨s, below, p, states, hstates, haction, -, rfl, hall⟩
  · rw [action?_eq_shift_iff] at haction
    rcases hrest : c.rest with _ | ⟨token, rest⟩
    · -- The end mark is not shifted.
      rw [hrest, List.headD_nil, show (endTokenOf tokens).kind = .endMark from rfl,
        ht.next?_endMark] at haction
      cases haction
    · rw [hrest, List.headD_cons] at haction
      have hreadsTo := ht.readsTo_of_shift hsteps h.tokens_eq hrest hstates haction
      refine ⟨read ++ [token], _, ?_, rfl, ⟨_, hreadsTo⟩, ⟨[], .refl _⟩, .inr ?_, .inl rfl⟩
      · rw [List.tail_cons, List.append_assoc, h.tokens_eq, hrest]
        rfl
      · exact ⟨s, k, below, _, congrArg (k :: ·) hstates, haction⟩
  · obtain ⟨back, hback⟩ := h.reductions
    refine ⟨read, c₀, h.tokens_eq, h.rest_eq, h.readsTo, ⟨_, hback.trans (.single hmove)⟩, h.top,
      .inr ?_⟩
    obtain ⟨s', k, below', htop, hk⟩ := reduceBy_eq_step (hall c.rest)
    exact ⟨s', k, below', p.head, htop, hk, (ht.reduce haction).2⟩

/-- **Every configuration of a run** is behind a last shift, or the start, and
    some reductions. -/
theorem Lawful.exists_lastShift (ht : t.Lawful)
    (hsteps : t.Steps (endTokenOf tokens) (.start tokens) reports c) :
    ∃ read c₀, t.LastShift tokens read c₀ c := by
  have key : ∀ {c₁ c₂ : Configuration} {reports : List Report},
      t.Steps (endTokenOf tokens) c₁ reports c₂ → (∃ read c₀, t.LastShift tokens read c₀ c₁) →
      ∃ read c₀, t.LastShift tokens read c₀ c₂ := by
    intro c₁ c₂ reports h hstart
    induction h with
    | refl => exact hstart
    | head hmove _ ih =>
      obtain ⟨read, c₀, hlast⟩ := hstart
      exact ih (ht.lastShift_of_move hlast hmove)
  exact key hsteps ⟨[], .start tokens, rfl, rfl, ⟨[], t.readsTo_start⟩, ⟨[], .refl _⟩, .inl rfl,
    .inl rfl⟩

end Table

end Straightline
