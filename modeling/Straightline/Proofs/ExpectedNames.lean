/-
  The names listed where a run fails.

  A run that gets stuck lists the terminals for which its top state has an
  action.  These are not quite the terminals that can come next.  Behind a
  factor the state does not know whether a parenthesis is open, and so lists
  both the closing parenthesis and the semicolon, of which only one can come.
  And if one of these two is the token that does not fit, the run first
  reduces the factor to an expression, and then multiplication is no longer
  listed.  In all other respects, and in all other places, the list is exact.

  * `Table.FailsAt`: a run gets stuck at an index, with a list of names;
  * `Table.Surveyed`: what the states of a table are like, behind a terminal and
    behind a reduction; `Table.standard_surveyed`;
  * `Table.Surveyed.name_mem_expected_iff`: the names are those of the terminals
    with an action;
  * `expected_names_not_exact`: where the list says too much, and where it says
    too little;
  * `expected_names_exact_but_behind_factors`: what the list says in all cases.
-/
import Straightline.Proofs.Continuations

namespace Straightline

/-! ## Failures and their places -/

namespace Table

/-- A run over some tokens gets stuck at index `i`, at a token for which its top
    state has no action, and lists some names: before that it has shifted the
    tokens up to the index.  Behind the last token the end mark is read. -/
def FailsAt (t : Table) (tokens : List Token) (i : Nat) (token : Token)
    (expected : List String) : Prop :=
  let run := t.run tokens Watcher.recorder []
  run.finish = .failed (.unexpected token expected) ∧
    (run.watched.reverse.map Report.event).filterMap Event.token? = tokens.take i ∧
    (tokens ++ [endTokenOf tokens])[i]? = some token

variable {t : Table} {ε σ : Type} {watch : Watcher ε σ} {init : σ} {tokens : List Token}
  {e : ParseError} {i : Nat} {token : Token} {expected : List String}

/-- A run that fails gets stuck at a token. -/
theorem Lawful.exists_stuck (ht : t.Lawful) (htokens : tokens ≠ [])
    (hfailed : (t.run tokens watch init).finish = .failed e) :
    ∃ reports c expected, t.Steps (endTokenOf tokens) (.start tokens) reports c ∧
      t.move (endTokenOf tokens) c =
        .stuck (.unexpected (c.rest.headD (endTokenOf tokens)) expected) ∧
      e = .unexpected (c.rest.headD (endTokenOf tokens)) expected ∧
      reports.length < t.patience tokens := by
  cases ht.run_ends tokens with
  | accepted tree rest heq hend =>
    refine absurd ((isSentence_iff _).2 ⟨tree, rfl⟩) ?_
    rw [← beforeEnd_of_tree tree hend, ← heq]
    exact ht.not_isSentence_of_failed hfailed
  | stuck reports c expected hsteps hmove hlength =>
    have hpatience := Nat.lt_of_le_of_lt hlength (ht.five_mul_length_lt_patience tokens)
    refine ⟨reports, c, expected, hsteps, hmove, ?_, hpatience⟩
    rw [run_of_stuck htokens hsteps hpatience hmove] at hfailed
    rcases watch.finish_replay _ c.depth reports init with h | ⟨e', h⟩
    · cases hfailed.symm.trans h
      rfl
    · cases hfailed.symm.trans h

/-- What a recorder has heard when the run gets stuck. -/
theorem run_recorder_of_stuck {reports : List Report} {c : Configuration} (htokens : tokens ≠ [])
    (hsteps : t.Steps (endTokenOf tokens) (.start tokens) reports c)
    (hpatience : reports.length < t.patience tokens)
    (hmove : t.move (endTokenOf tokens) c = .stuck e) :
    t.run tokens Watcher.recorder [] = ⟨.failed e, c.depth, reports.reverse⟩ := by
  rw [run_of_stuck htokens hsteps hpatience hmove, Watcher.replay_recorder, List.append_nil]

/-- **A run that fails does so at an index**, whoever watches it. -/
theorem Lawful.exists_failsAt (ht : t.Lawful) (htokens : tokens ≠ [])
    (hfailed : (t.run tokens watch init).finish = .failed e) :
    ∃ i token expected, e = .unexpected token expected ∧ t.FailsAt tokens i token expected := by
  obtain ⟨reports, c, expected, hsteps, hmove, rfl, hpatience⟩ := ht.exists_stuck htokens hfailed
  obtain ⟨trees, hprogress⟩ := ht.progress_of_steps hsteps
  have hrun := run_recorder_of_stuck htokens hsteps hpatience hmove
  let read := (stackEvents trees).filterMap Event.token?
  have hread : tokens = read ++ c.rest := hprogress.tokens_eq
  refine ⟨read.length, _, expected, rfl, congrArg _ hrun, ?_, ?_⟩
  · rw [hrun, List.reverse_reverse, ← hprogress.events]
    exact (congrArg (List.take read.length) hread).trans (List.take_left ..) |>.symm
  · have hnext := getElem?_length_concat read c.rest (endTokenOf tokens)
    rwa [← hread] at hnext

/-- A run that does not accept fails behind the tokens that it has shifted. -/
theorem Lawful.exists_failsAt_of_shifts (ht : t.Lawful) (htokens : tokens ≠ [])
    (hrun : (t.run tokens Watcher.recorder []).finish ≠ .accepted ∧
      ((t.run tokens Watcher.recorder []).watched.reverse.map Report.event).filterMap
        Event.token? = tokens.take i)
    (htoken : (tokens ++ [endTokenOf tokens])[i]? = some token) :
    ∃ expected, t.FailsAt tokens i token expected := by
  rcases ht.run_finish htokens Watcher.recorder [] with h | ⟨token', expected, h⟩ | ⟨e, -⟩
  · exact absurd h hrun.1
  · obtain ⟨j, _, _, he, hfails⟩ := ht.exists_failsAt htokens h
    obtain ⟨rfl, rfl⟩ := ParseError.unexpected.inj he
    -- No index is behind the end mark, so as many tokens are read as the index says.
    have hlength := congrArg List.length (hfails.2.1.symm.trans hrun.2)
    have hj := (List.getElem?_eq_some_iff.1 hfails.2.2).1
    have hi := (List.getElem?_eq_some_iff.1 htoken).1
    simp only [List.length_take, List.length_append, List.length_singleton] at hlength hj hi
    obtain rfl : j = i := by omega
    obtain rfl := Option.some.inj (hfails.2.2.symm.trans htoken)
    exact ⟨_, hfails⟩
  · exact e.elim

/-- Where a run fails, its stack is behind a last shift and some reductions, and
    its top state has no action for the token. -/
theorem FailsAt.exists_lastShift (ht : t.Lawful) (htokens : tokens ≠ [])
    (h : t.FailsAt tokens i token expected) :
    ∃ c₀ c s below, t.LastShift tokens (tokens.take i) c₀ c ∧ c.states = s :: below ∧
      t.action? s token.kind = none ∧ token = c.rest.headD (endTokenOf tokens) ∧
      expected = t.expected s := by
  obtain ⟨hfinish, hshifted, -⟩ := h
  obtain ⟨reports, c, expected', hsteps, hmove, he, hpatience⟩ := ht.exists_stuck htokens hfinish
  obtain ⟨read, c₀, hlast⟩ := ht.exists_lastShift hsteps
  obtain ⟨s, below, hstates, haction, -, rfl⟩ := move_eq_stuck hmove
  obtain ⟨rfl, rfl⟩ := ParseError.unexpected.inj he
  obtain ⟨trees, hprogress⟩ := ht.progress_of_steps hsteps
  -- What has been shifted is what has been read.
  rw [run_recorder_of_stuck htokens hsteps hpatience hmove, List.reverse_reverse,
    ← hprogress.events] at hshifted
  have hread : read = tokens.take i := by
    rw [← hshifted]
    exact List.append_cancel_right (hlast.tokens_eq.symm.trans hprogress.tokens_eq)
  exact ⟨c₀, c, s, below, hread ▸ hlast, hstates, haction, rfl, rfl⟩

section

variable (ht : t.Lawful) (htokens : tokens ≠ []) (h : t.FailsAt tokens i token expected)
include ht htokens h

/-- The token at which a run fails cannot come next. -/
theorem FailsAt.not_canComeNext : ¬ CanComeNext ((tokens.take i).map Token.kind) token.kind := by
  obtain ⟨c₀, c, s, below, hlast, hstates, haction, rfl, -⟩ := h.exists_lastShift ht htokens
  obtain ⟨reports, hsteps⟩ := hlast.steps
  have hnot := ht.not_startsSentence_of_stuck hlast.tokens_eq hsteps
    (move_of_action?_eq_none hstates haction)
  rwa [List.map_append] at hnot

/-- What a run has read before it fails starts a sentence. -/
theorem FailsAt.startsSentence : StartsSentence ((tokens.take i).map Token.kind) := by
  obtain ⟨c₀, c, s, below, hlast, hstates, -⟩ := h.exists_lastShift ht htokens
  obtain ⟨reports, hsteps⟩ := hlast.steps
  obtain ⟨trees, hstacked, hread⟩ := ht.exists_trees hsteps hlast.tokens_eq hstates
  rw [← hread]
  exact ht.startsSentence_of_stacked hstacked

end

/-! ## Names and rows -/

theorem action?_eq_none_iff {s : Nat} {label : Label} :
    t.action? s label = none ↔ ∀ action, ((s, label), action) ∉ t.actions := by
  rw [action?, List.lookup_eq_none_iff]
  constructor
  · intro h action hmem
    simpa using h _ hmem
  · rintro h ⟨key, action⟩ hmem
    rw [bne_iff_ne]
    rintro rfl
    exact h action hmem

theorem mem_expected {s : Nat} {name : String} : name ∈ t.expected s ↔
    ∃ label action, ((s, label), action) ∈ t.actions ∧ label.name = name := by
  simp only [expected, actionsOf, List.mem_map, List.mem_mergeSort, List.mem_filter]
  constructor
  · rintro ⟨_, ⟨⟨⟨s', label⟩, action⟩, ⟨hmem, hs⟩, rfl⟩, hname⟩
    obtain rfl : s' = s := of_decide_eq_true hs
    exact ⟨label, action, hmem, hname⟩
  · rintro ⟨label, action, hmem, hname⟩
    exact ⟨(label, action), ⟨_, ⟨hmem, decide_eq_true rfl⟩, rfl⟩, hname⟩

end Table

theorem Terminal.name_injective : Function.Injective Terminal.name := by
  intro a b h
  have hsame := a.ofName?_name
  rw [h, b.ofName?_name] at hsame
  exact (Option.some.inj hsame).symm

theorem mem_follow_expression {a : Terminal} : a ∈ follow .expression ↔
    a = .plus ∨ a = .minus ∨ a = .closeParen ∨ a = .semicolon := by
  have hall : ∀ a ∈ Terminal.all, a ∈ follow .expression ↔
      a = .plus ∨ a = .minus ∨ a = .closeParen ∨ a = .semicolon := by
    decide +kernel
  exact hall a a.mem_all

theorem mem_follow_factor {a : Terminal} :
    a ∈ follow .factor ↔ a = .star ∨ a ∈ follow .expression := by
  have hall : ∀ a ∈ Terminal.all, a ∈ follow .factor ↔ a = .star ∨ a ∈ follow .expression := by
    decide +kernel
  exact hall a a.mem_all

namespace Table

/-! ## A survey of the states -/

/-- A state is sure of all terminals for which it has an action. -/
def IsSure (t : Table) (s : Nat) : Prop :=
  ∀ a ∈ Terminal.all, t.action? s a = none ∨ t.isSureOf s a = true

/-- A state has actions for just the terminals of a list. -/
def ActsOn (t : Table) (s : Nat) (kinds : List Terminal) : Prop :=
  ∀ a ∈ Terminal.all, t.action? s a ≠ none ↔ a ∈ kinds

/-- A state behind a complete factor acts on all that can follow a factor
    anywhere. -/
def BehindFactor (t : Table) (s : Nat) : Prop :=
  t.ActsOn s (follow .factor) ∧
    ∃ p ∈ Production.all, p.head = .factor ∧ .complete (.production p) ∈ t.itemsAt s

/-- A state behind a terminal, or the first one, is behind a factor, or it is
    sure of its terminals and multiplication is not among them. -/
def BehindTerminal (t : Table) (s : Nat) : Prop :=
  (t.IsSure s ∧ t.action? s Terminal.star = none) ∨ t.BehindFactor s

/-- A state behind a reduction to `n`, made on a closing parenthesis or a
    semicolon for which the state then has no action, acts on all else that can
    follow an expression, and is sure of it. -/
def BehindReduction (t : Table) (n : Nonterminal) (s : Nat) : Prop :=
  ∀ b ∈ [Terminal.closeParen, Terminal.semicolon], b ∈ follow n → t.action? s b = none →
    t.IsSure s ∧ t.ActsOn s ((follow .expression).erase b)

instance (t : Table) (s : Nat) : Decidable (t.IsSure s) :=
  inferInstanceAs (Decidable (∀ _ ∈ _, _))

instance (t : Table) (s : Nat) (kinds : List Terminal) : Decidable (t.ActsOn s kinds) :=
  inferInstanceAs (Decidable (∀ _ ∈ _, _))

instance (t : Table) (s : Nat) : Decidable (t.BehindFactor s) :=
  inferInstanceAs (Decidable (_ ∧ _))

instance (t : Table) (s : Nat) : Decidable (t.BehindTerminal s) :=
  inferInstanceAs (Decidable (_ ∨ _))

instance (t : Table) (n : Nonterminal) (s : Nat) : Decidable (t.BehindReduction n s) :=
  inferInstanceAs (Decidable (∀ _ ∈ _, _))

/-- Whether an action is filed under a terminal, and a shift leads behind one. -/
def isOrderly (t : Table) : (Nat × Label) × Action → Bool
  | ((_, .terminal _), .shift k) => t.BehindTerminal k
  | ((_, .terminal _), _) => true
  | ((_, .named _), _) => false

/-- What the states of a table are like. -/
def Surveyed (t : Table) : Prop :=
  t.BehindTerminal 0 ∧ (∀ entry ∈ t.actions, t.isOrderly entry = true) ∧
    ∀ entry ∈ t.gotos, t.BehindReduction entry.1.2 entry.2

instance (t : Table) : Decidable t.Surveyed :=
  inferInstanceAs (Decidable (_ ∧ _ ∧ _))

theorem standard_surveyed : standard.Surveyed := by
  decide +kernel

section

variable {t : Table} (hs : t.Surveyed) {s k : Nat} {a : Terminal}
include hs

theorem Surveyed.exists_terminal {label : Label} {action : Action}
    (h : ((s, label), action) ∈ t.actions) : ∃ a : Terminal, label = a := by
  have horderly := hs.2.1 _ h
  cases label with
  | terminal a => exact ⟨a, rfl⟩
  | named name => cases action <;> cases horderly

theorem Surveyed.behindTerminal (h : t.next? s (.terminal a) = some k) : t.BehindTerminal k :=
  of_decide_eq_true (hs.2.1 _ (mem_of_lookup (action?_eq_shift_iff.2 h)))

theorem Surveyed.behindReduction {n : Nonterminal} (h : t.goto? s n = some k) :
    t.BehindReduction n k :=
  hs.2.2 _ (mem_of_lookup h)

/-- **The names listed are those of the terminals with an action.** -/
theorem Surveyed.name_mem_expected_iff : a.name ∈ t.expected s ↔ t.action? s a ≠ none := by
  rw [mem_expected, ne_eq, action?_eq_none_iff, not_forall_not]
  constructor
  · rintro ⟨label, action, hmem, hname⟩
    obtain ⟨b, rfl⟩ := hs.exists_terminal hmem
    rw [← Terminal.name_injective hname]
    exact ⟨action, hmem⟩
  · rintro ⟨action, hmem⟩
    exact ⟨a, action, hmem, rfl⟩

theorem Surveyed.exists_name {name : String} (h : name ∈ t.expected s) :
    ∃ a : Terminal, a.name = name := by
  obtain ⟨label, action, hmem, hname⟩ := mem_expected.1 h
  obtain ⟨a, rfl⟩ := hs.exists_terminal hmem
  exact ⟨a, hname⟩

end

/-! ## Since the last shift -/

section

variable {t : Table} {tokens read : List Token} {c₀ c : Configuration} {s s₀ : Nat}
  {below below₀ : List Nat} {a : Terminal}

/-- Where the last shift was, there is nothing since. -/
theorem LastShift.self (h : t.LastShift tokens read c₀ c) : t.LastShift tokens read c₀ c₀ where
  tokens_eq := h.rest_eq ▸ h.tokens_eq
  rest_eq := rfl
  readsTo := h.readsTo
  reductions := ⟨[], .refl c₀⟩
  top := h.top
  reduced := .inl rfl

theorem LastShift.exists_top (h : t.LastShift tokens read c₀ c) (hs : t.Surveyed) :
    ∃ s₀ below₀, c₀.states = s₀ :: below₀ ∧ t.BehindTerminal s₀ := by
  rcases h.top with htop | ⟨s, k, below, a, htop, hk⟩
  · exact ⟨0, [], htop, hs.1⟩
  · exact ⟨k, s :: below, htop, hs.behindTerminal hk⟩

/-- Without an action for the next token there are no reductions. -/
theorem LastShift.eq_of_action? (h : t.LastShift tokens read c₀ c)
    (htop : c₀.states = s₀ :: below₀)
    (haction : t.action? s₀ (c.rest.headD (endTokenOf tokens)).kind = none) : c = c₀ := by
  obtain ⟨reports, hsteps⟩ := h.reductions
  cases hsteps with
  | refl => rfl
  | head hmove _ =>
    rw [← h.rest_eq] at haction
    cases hmove.symm.trans (move_of_action?_eq_none htop haction)

variable (ht : t.Lawful)
include ht

/-- A terminal for which the state behind the last shift has no action cannot
    come next, whatever has been reduced since. -/
theorem LastShift.action?_of_canComeNext (h : t.LastShift tokens read c₀ c)
    (htop : c₀.states = s₀ :: below₀) (ha : CanComeNext (read.map Token.kind) a) :
    t.action? s₀ a ≠ none := by
  obtain ⟨reports, hreads⟩ := h.readsTo
  rw [htop] at hreads
  exact fun hnone => ht.not_canComeNext hreads hnone ha

/-- What a state is sure of can come next. -/
theorem LastShift.canComeNext_of_isSure (h : t.LastShift tokens read c₀ c)
    (hstates : c.states = s :: below) (hsure : t.IsSure s) (ha : t.action? s a ≠ none) :
    CanComeNext (read.map Token.kind) a := by
  obtain ⟨reports, hsteps⟩ := h.steps
  exact ht.canComeNext_of_isSureOf hsteps h.tokens_eq hstates ((hsure a a.mem_all).resolve_left ha)

/-- Behind a factor the operators can come next, and all else that can come may
    follow a factor. -/
theorem LastShift.behindFactor (h : t.LastShift tokens read c₀ c)
    (htop : c₀.states = s₀ :: below₀) (hfactor : t.BehindFactor s₀) :
    CanComeNext (read.map Token.kind) .star ∧ CanComeNext (read.map Token.kind) .plus ∧
      CanComeNext (read.map Token.kind) .minus ∧
      ∀ a, CanComeNext (read.map Token.kind) a → a ∈ follow .factor := by
  obtain ⟨hacts, p, -, hp, hi⟩ := hfactor
  obtain ⟨reports, hsteps⟩ := h.self.steps
  obtain ⟨hstar, hplus, hminus⟩ :=
    ht.canComeNext_of_factor hsteps h.self.tokens_eq htop hi hp
  exact ⟨hstar, hplus, hminus, fun a ha =>
    (hacts a a.mem_all).1 (h.action?_of_canComeNext ht htop ha)⟩

/-- Where multiplication can come next, the last shift was the end of a
    factor. -/
theorem LastShift.exists_factor (h : t.LastShift tokens read c₀ c) (hs : t.Surveyed)
    (hstar : CanComeNext (read.map Token.kind) .star) :
    ∃ s₀ below₀, c₀.states = s₀ :: below₀ ∧ t.BehindFactor s₀ := by
  obtain ⟨s₀, below₀, htop, ⟨-, hnone⟩ | hfactor⟩ := h.exists_top hs
  · exact absurd hnone (h.action?_of_canComeNext ht htop hstar)
  · exact ⟨s₀, below₀, htop, hfactor⟩

end

/-! ## What is listed -/

section

variable {t : Table} {tokens : List Token} {i : Nat} {token : Token} {expected : List String}
  (ht : t.Lawful) (hs : t.Surveyed) (htokens : tokens ≠ [])
  (h : t.FailsAt tokens i token expected)
include ht hs htokens h

/-- Where multiplication cannot come next, the list is exact. -/
theorem FailsAt.listed_iff (hstar : ¬ CanComeNext ((tokens.take i).map Token.kind) .star)
    (a : Terminal) : a.name ∈ expected ↔ CanComeNext ((tokens.take i).map Token.kind) a := by
  have htoken := h.not_canComeNext ht htokens
  obtain ⟨c₀, c, s, below, hlast, hstates, -, rfl, rfl⟩ := h.exists_lastShift ht htokens
  obtain ⟨s₀, below₀, htop, ⟨hsure, -⟩ | hfactor⟩ := hlast.exists_top hs
  · -- The state is sure of what it reduces on, so it does not reduce on the token.
    have hnone : t.action? s₀ (c.rest.headD (endTokenOf tokens)).kind = none := by
      by_contra haction
      exact htoken (hlast.self.canComeNext_of_isSure ht htop hsure haction)
    obtain rfl := hlast.eq_of_action? htop hnone
    obtain ⟨rfl, rfl⟩ := List.cons.inj (hstates.symm.trans htop)
    rw [hs.name_mem_expected_iff]
    exact ⟨fun ha => hlast.canComeNext_of_isSure ht hstates hsure ha,
      fun ha => hlast.action?_of_canComeNext ht hstates ha⟩
  · exact absurd (hlast.behindFactor ht htop hfactor).1 hstar

/-- Behind a factor both the closing parenthesis and the semicolon are listed,
    if neither is the token that does not fit. -/
theorem FailsAt.listed_iff_of_star (hstar : CanComeNext ((tokens.take i).map Token.kind) .star)
    (hparen : token.kind ≠ .closeParen) (hsemicolon : token.kind ≠ .semicolon) (a : Terminal) :
    a.name ∈ expected ↔ CanComeNext ((tokens.take i).map Token.kind) a ∨
      a = .closeParen ∨ a = .semicolon := by
  have htoken := h.not_canComeNext ht htokens
  obtain ⟨c₀, c, s, below, hlast, hstates, -, rfl, rfl⟩ := h.exists_lastShift ht htokens
  obtain ⟨s₀, below₀, htop, hfactor⟩ := hlast.exists_factor ht hs hstar
  obtain ⟨-, hplus, hminus, hfollow⟩ := hlast.behindFactor ht htop hfactor
  have hacts : ∀ b : Terminal, t.action? s₀ b ≠ none ↔ b ∈ follow .factor :=
    fun b => hfactor.1 b b.mem_all
  -- The other terminals that follow a factor can come, so the token is none of them.
  have hnone : t.action? s₀ (c.rest.headD (endTokenOf tokens)).kind = none := by
    by_contra haction
    rw [← ne_eq, hacts, mem_follow_factor, mem_follow_expression] at haction
    rcases haction with hkind | hkind | hkind | hkind | hkind
    · exact htoken (hkind ▸ hstar)
    · exact htoken (hkind ▸ hplus)
    · exact htoken (hkind ▸ hminus)
    · exact hparen hkind
    · exact hsemicolon hkind
  obtain rfl := hlast.eq_of_action? htop hnone
  obtain ⟨rfl, rfl⟩ := List.cons.inj (hstates.symm.trans htop)
  rw [hs.name_mem_expected_iff, hacts]
  constructor
  · rw [mem_follow_factor, mem_follow_expression]
    rintro (rfl | rfl | rfl | hclosing)
    · exact .inl hstar
    · exact .inl hplus
    · exact .inl hminus
    · exact .inr hclosing
  · rintro (ha | hclosing)
    · exact hfollow a ha
    · exact mem_follow_factor.2 (.inr (mem_follow_expression.2 (.inr (.inr hclosing))))

/-- Behind a factor, multiplication is not listed if the closing parenthesis or
    the semicolon is the token that does not fit: the factor has been reduced on
    it to an expression. -/
theorem FailsAt.listed_iff_of_closing
    (hstar : CanComeNext ((tokens.take i).map Token.kind) .star)
    (hclosing : token.kind = .closeParen ∨ token.kind = .semicolon) (a : Terminal) :
    a.name ∈ expected ↔ CanComeNext ((tokens.take i).map Token.kind) a ∧ a ≠ .star := by
  have htoken := h.not_canComeNext ht htokens
  obtain ⟨c₀, c, s, below, hlast, hstates, haction, rfl, rfl⟩ := h.exists_lastShift ht htokens
  obtain ⟨s₀, below₀, htop, hfactor⟩ := hlast.exists_factor ht hs hstar
  obtain ⟨-, -, -, hfollow⟩ := hlast.behindFactor ht htop hfactor
  -- The state behind the factor has an action for the token, so it has been reduced.
  have hreduced : c ≠ c₀ := by
    rintro rfl
    obtain ⟨rfl, rfl⟩ := List.cons.inj (hstates.symm.trans htop)
    refine (hfactor.1 _ (Terminal.mem_all _)).2 ?_ haction
    exact mem_follow_factor.2 (.inr (mem_follow_expression.2 (.inr (.inr hclosing))))
  obtain ⟨s', k, below', n, htop', hk, hn⟩ := hlast.reduced.resolve_left hreduced
  obtain ⟨rfl, -⟩ := List.cons.inj (hstates.symm.trans htop')
  obtain ⟨hsure, hacts⟩ := hs.behindReduction hk _ (by simpa using hclosing) hn haction
  have hnodup : (follow .expression).Nodup := by decide +kernel
  rw [hs.name_mem_expected_iff]
  constructor
  · intro ha
    refine ⟨hlast.canComeNext_of_isSure ht hstates hsure ha, ?_⟩
    rintro rfl
    have hmem := List.mem_of_mem_erase ((hacts _ (Terminal.mem_all _)).1 ha)
    simp [mem_follow_expression] at hmem
  · rintro ⟨ha, hne⟩
    refine (hacts a a.mem_all).2 (hnodup.mem_erase_iff.2 ⟨?_, ?_⟩)
    · rintro rfl
      exact htoken ha
    · exact (mem_follow_factor.1 (hfollow a ha)).resolve_left hne

end

end Table

/-- The list is exact in neither direction.  Behind `return 1` the closing
    parenthesis is listed, although none has been opened; and if it comes,
    multiplication is not listed, although it could have come. -/
theorem expected_names_not_exact :
    (¬ ∀ tokens i token expected, tokens ≠ [] →
      Table.standard.FailsAt tokens i token expected → ∀ a : Terminal,
        a.name ∈ expected → CanComeNext ((tokens.take i).map Token.kind) a) ∧
    ¬ ∀ tokens i token expected, tokens ≠ [] →
      Table.standard.FailsAt tokens i token expected → ∀ a : Terminal,
        CanComeNext ((tokens.take i).map Token.kind) a → a.name ∈ expected := by
  let mark (kind : Terminal) : Token := ⟨kind, "", {}⟩
  let front : List Token := [mark .returnWord, ⟨.constant, "1", {}⟩]
  have ht := Table.standard_lawful
  have hs := Table.standard_surveyed
  have hne : ∀ more : List Token, front ++ more ≠ [] := fun _ => List.cons_ne_nil _ _
  -- At the end, at a closing parenthesis, and behind a multiplication.
  have hruns : ∀ run ∈ [([], 2), ([mark .closeParen], 2), ([mark .star], 3)],
      (Table.standard.run (front ++ run.1) Watcher.recorder []).finish ≠ .accepted ∧
        ((Table.standard.run (front ++ run.1) Watcher.recorder []).watched.reverse.map
          Report.event).filterMap Event.token? = (front ++ run.1).take run.2 := by
    decide +kernel
  obtain ⟨atEnd, hend⟩ : ∃ expected,
      Table.standard.FailsAt (front ++ []) 2 (endTokenOf front) expected :=
    ht.exists_failsAt_of_shifts (hne _) (hruns ([], 2) (by simp)) rfl
  obtain ⟨atParen, hparen⟩ : ∃ expected, Table.standard.FailsAt (front ++ [mark .closeParen]) 2
      (mark .closeParen) expected :=
    ht.exists_failsAt_of_shifts (hne _) (hruns ([mark .closeParen], 2) (by simp)) rfl
  obtain ⟨behindStar, hbehind⟩ : ∃ expected, Table.standard.FailsAt (front ++ [mark .star]) 3
      (endTokenOf (front ++ [mark .star])) expected :=
    ht.exists_failsAt_of_shifts (hne _) (hruns ([mark .star], 3) (by simp)) rfl
  have hstar : CanComeNext (front.map Token.kind) .star := hbehind.startsSentence ht (hne _)
  constructor
  · intro h
    have hlisted : Terminal.closeParen.name ∈ atEnd :=
      (hend.listed_iff_of_star ht hs (hne _) hstar (by decide) (by decide) _).2 (.inr (.inl rfl))
    exact hparen.not_canComeNext ht (hne _) (h _ _ _ _ (hne _) hend .closeParen hlisted)
  · intro h
    have hlisted : Terminal.star.name ∈ atParen := h _ _ _ _ (hne _) hparen .star hstar
    exact ((hparen.listed_iff_of_closing ht hs (hne _) hstar (.inl rfl) _).1 hlisted).2 rfl

/-- **What is listed where a run fails.**  A run that fails gets stuck at an
    index, at a token that is there, and lists names of terminals.  Where
    multiplication cannot come next, these are exactly the terminals that can.
    Where it can, and the token is neither a closing parenthesis nor a
    semicolon, they are the terminals that can come next and these two.  Where
    it can, and the token is one of the two, they are the terminals that can
    come next but multiplication. -/
theorem expected_names_exact_but_behind_factors {ε σ : Type} (watch : Watcher ε σ) (init : σ)
    (tokens : List Token) (e : ParseError) (htokens : tokens ≠ [])
    (hfailed : (Table.standard.run tokens watch init).finish = .failed e) :
    ∃ i token expected, e = .unexpected token expected ∧
      Table.standard.FailsAt tokens i token expected ∧
      (∀ name ∈ expected, ∃ a : Terminal, a.name = name) ∧
      let possible := CanComeNext ((tokens.take i).map Token.kind)
      (¬ possible .star → ∀ a : Terminal, a.name ∈ expected ↔ possible a) ∧
      (possible .star → token.kind ≠ .closeParen → token.kind ≠ .semicolon →
        ∀ a : Terminal, a.name ∈ expected ↔ possible a ∨ a = .closeParen ∨ a = .semicolon) ∧
      (possible .star → token.kind = .closeParen ∨ token.kind = .semicolon →
        ∀ a : Terminal, a.name ∈ expected ↔ possible a ∧ a ≠ .star) := by
  have ht := Table.standard_lawful
  have hs := Table.standard_surveyed
  obtain ⟨i, token, expected, he, h⟩ := ht.exists_failsAt htokens hfailed
  refine ⟨i, token, expected, he, h, ?_, h.listed_iff ht hs htokens,
    h.listed_iff_of_star ht hs htokens, h.listed_iff_of_closing ht hs htokens⟩
  obtain ⟨c₀, c, s, below, -, -, -, -, rfl⟩ := h.exists_lastShift ht htokens
  exact fun name hname => hs.exists_name hname

/-- A semicolon comes before the parenthesis is closed: multiplication could
    have come, and is all that could have come and is not listed. -/
theorem expected_names_exact_but_behind_factors_parenthesis :
    let tokens : List Token := [⟨.returnWord, "", {}⟩, ⟨.openParen, "", {}⟩, ⟨.identifier, "a", {}⟩,
      ⟨.semicolon, "", {}⟩]
    let kinds : List Terminal := [.returnWord, .openParen, .identifier]
    CanComeNext kinds .star ∧ ∃ expected,
      (Table.standard.run tokens Watcher.recorder []).finish =
        .failed (.unexpected ⟨.semicolon, "", {}⟩ expected) ∧
      ∀ a : Terminal, a.name ∈ expected ↔ CanComeNext kinds a ∧ a ≠ .star := by
  intro tokens kinds
  have ht := Table.standard_lawful
  have hne : tokens ≠ [] := List.cons_ne_nil _ _
  obtain ⟨expected, hrun⟩ : ∃ expected,
      Table.standard.FailsAt tokens 3 ⟨.semicolon, "", {}⟩ expected :=
    ht.exists_failsAt_of_shifts hne (by decide +kernel) rfl
  have hstar : CanComeNext kinds .star := by
    let longer : List Token := tokens.take 3 ++ [⟨.star, "", {}⟩]
    obtain ⟨_, hlonger⟩ : ∃ expected,
        Table.standard.FailsAt longer 4 (endTokenOf longer) expected :=
      ht.exists_failsAt_of_shifts (List.cons_ne_nil _ _) (by decide +kernel) rfl
    exact hlonger.startsSentence ht (List.cons_ne_nil _ _)
  obtain ⟨i, token, _, he, h, -, -, -, hclosing⟩ :=
    expected_names_exact_but_behind_factors Watcher.recorder [] tokens _ hne hrun.1
  obtain ⟨rfl, rfl⟩ := ParseError.unexpected.inj he
  have hread : tokens.take i = tokens.take 3 := h.2.1.symm.trans hrun.2.1
  rw [hread] at hclosing
  exact ⟨hstar, expected, hrun.1, hclosing hstar (.inr rfl)⟩

end Straightline
