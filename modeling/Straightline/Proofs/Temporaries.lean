/-
  Temporaries are written once and read once.

  Every operation puts its result in a temporary of its own, and the temporary
  comes on the stack of the emitter.  From there it goes into one instruction,
  or up to the slot of a larger expression.  So each temporary is at every
  moment in one place: an operand of an instruction, or a slot.  A run that is
  accepted leaves no slot with an operand.

  * `timesRead`: how often a variable is an operand;
  * `Emitter.Numbered`, `Emitter.Linear`: the temporaries handed out are the
    results of the operations, and each is in one place;
  * `Emitter.Effect`, `Emitter.exec_reduceBy_effect`: what a reduction does
    with the slots that fit it;
  * `Emitter.Linear.effect`, `FrontEnd.tidy_of_atHead`: what a reduction and a
    run preserve;
  * `temporaries_written_and_read_once`: the instructions of a whole text.
-/
import Mathlib.Data.List.Induction
import Straightline.Proofs.DeclarationChecks

namespace Straightline

/-! ## Instructions -/

/-- Whether an operation computes a value from two others. -/
def Opcode.isArithmetic : Opcode → Bool
  | .add | .sub | .mul => true
  | _ => false

/-- How often a variable is an operand of some instructions. -/
def timesRead (x : String) (code : List Instruction) : Nat :=
  (code.flatMap Instruction.operands).count (.var x)

theorem timesRead_append (x : String) (code code' : List Instruction) :
    timesRead x (code ++ code') = timesRead x code + timesRead x code' := by
  simp [timesRead]

theorem timesRead_pos {x : String} {code : List Instruction} {i : Instruction} (hi : i ∈ code)
    (hx : i.reads x = true) : 0 < timesRead x code :=
  List.count_pos_iff.2 (List.mem_flatMap.2 ⟨i, hi, Instruction.reads_iff.1 hx⟩)

/-- Every temporary that an instruction reads is the result of an earlier
    one. -/
def WritesFirst (code : List Instruction) : Prop :=
  ∀ before i after, code = before ++ i :: after → ∀ x, isTemporary x = true → i.reads x = true →
    ∃ j ∈ before, j.result = some x

theorem WritesFirst.concat {code : List Instruction} {i : Instruction} (h : WritesFirst code)
    (hi : ∀ x, isTemporary x = true → i.reads x = true → ∃ j ∈ code, j.result = some x) :
    WritesFirst (code ++ [i]) := by
  intro before k after heq
  cases after using List.reverseRecOn with
  | nil =>
    obtain ⟨rfl, hlast⟩ := List.append_inj' heq rfl
    cases hlast
    exact hi
  | append_singleton after last =>
    rw [← List.cons_append, ← List.append_assoc] at heq
    exact h before k after (List.append_inj' heq rfl).1

namespace Emitter

/-! ## Slots and instructions -/

variable {names : String → Prop} {code new : List Instruction} {n n' : Nat}
  {slots rest : List (Option Operand)} {slot : Option Operand}

/-- The results of the operations are the temporaries that were handed out, in
    order. -/
def Numbered (e : Emitter) : Prop :=
  (e.instructions.filter (·.opcode.isArithmetic)).map Instruction.result =
    (List.range e.temporaries).map fun k => some (temporary k)

/-- The temporaries handed out are the results of the operations, and each is
    in one place: an operand of an instruction, or a slot.  All other variables
    are among some names. -/
structure Linear (names : String → Prop) (e : Emitter) : Prop where
  results : e.Numbered
  balance : ∀ x, isTemporary x = true →
    timesRead x e.instructions + e.stack.count (some (.var x)) =
      ((List.range e.temporaries).map temporary).count x
  writesFirst : WritesFirst e.instructions
  targets : ∀ i ∈ e.instructions, i.opcode.isArithmetic = false → ∀ x, i.result = some x → names x
  sources : ∀ i ∈ e.instructions, ∀ x, i.reads x = true → isTemporary x = true ∨ names x
  slots : ∀ x, some (.var x) ∈ e.stack → isTemporary x = true ∨ names x

theorem linear_empty (names : String → Prop) : Linear names {} :=
  ⟨rfl, fun _ _ => rfl, by simp [WritesFirst], nofun, nofun, nofun⟩

/-- A temporary that is in some place was handed out. -/
theorem Linear.exists_lt {e : Emitter} (h : Linear names e) {x : String}
    (hx : isTemporary x = true)
    (hpos : 0 < timesRead x e.instructions + e.stack.count (some (.var x))) :
    ∃ k < e.temporaries, x = temporary k := by
  rw [h.balance x hx, List.count_pos_iff, List.mem_map] at hpos
  obtain ⟨k, hk, rfl⟩ := hpos
  exact ⟨k, List.mem_range.1 hk, rfl⟩

/-- A temporary that was handed out is the result of an instruction. -/
theorem Linear.exists_result {e : Emitter} (h : Linear names e) {k : Nat} (hk : k < e.temporaries) :
    ∃ i ∈ e.instructions, i.result = some (temporary k) := by
  have hmem : some (temporary k) ∈
      (e.instructions.filter (·.opcode.isArithmetic)).map Instruction.result := by
    rw [h.results]
    exact List.mem_map.2 ⟨k, List.mem_range.2 hk, rfl⟩
  obtain ⟨i, hi, hresult⟩ := List.mem_map.1 hmem
  exact ⟨i, List.mem_of_mem_filter hi, hresult⟩

theorem nodup_temporaries (n : Nat) : ((List.range n).map temporary).Nodup :=
  List.nodup_range.map fun _ _ h => temporary_inj h

theorem Linear.timesRead_le_one {e : Emitter} (h : Linear names e) {x : String}
    (hx : isTemporary x = true) : timesRead x e.instructions ≤ 1 := by
  have hbalance := h.balance x hx
  have hcount := List.nodup_iff_count_le_one.1 (nodup_temporaries e.temporaries) x
  omega

/-- A temporary that is on the stack no more is read by an instruction. -/
theorem Linear.timesRead_eq_one {e : Emitter} (h : Linear names e) {k : Nat}
    (hk : k < e.temporaries) (hstack : some (.var (temporary k)) ∉ e.stack) :
    timesRead (temporary k) e.instructions = 1 := by
  have hmem : temporary k ∈ (List.range e.temporaries).map temporary :=
    List.mem_map_of_mem (List.mem_range.2 hk)
  have hbalance := h.balance (temporary k) (isTemporary_temporary k)
  rwa [List.count_eq_zero_of_not_mem hstack, Nat.add_zero,
    List.count_eq_one_of_mem (nodup_temporaries e.temporaries) hmem] at hbalance

/-- A variable in an instruction was handed out, or it is one of the names. -/
theorem Linear.exists_lt_or_names {e : Emitter} (h : Linear names e) {i : Instruction}
    (hi : i ∈ e.instructions) {x : String} (hx : i.Mentions x) :
    (∃ k < e.temporaries, x = temporary k) ∨ names x := by
  rcases hx with hresult | hreads
  · by_cases hopcode : i.opcode.isArithmetic = true
    · have hmem : i.result ∈
          (e.instructions.filter (·.opcode.isArithmetic)).map Instruction.result :=
        List.mem_map_of_mem (List.mem_filter.2 ⟨hi, hopcode⟩)
      rw [h.results, hresult, List.mem_map] at hmem
      obtain ⟨k, hk, heq⟩ := hmem
      exact .inl ⟨k, List.mem_range.1 hk, (Option.some.inj heq).symm⟩
    · exact .inr (h.targets i hi (by simpa using hopcode) x hresult)
  · rcases h.sources i hi x hreads with htemporary | hname
    · exact .inl (h.exists_lt htemporary (Nat.add_pos_left (timesRead_pos hi hreads) _))
    · exact .inr hname

/-! ## What a reduction does -/

/-- What a reduction makes of some slots, if `n` temporaries are in use: the
    instructions it adds, the number of temporaries in use then, and the slot
    it leaves. -/
inductive Effect (names : String → Prop) (n : Nat) :
    List (Option Operand) → List Instruction → Nat → Option Operand → Prop where
  /-- Nothing but names is lost. -/
  | drop {slots : List (Option Operand)} : (∀ x, some (.var x) ∈ slots → names x) →
      Effect names n slots [] n none
  /-- The one operand is kept. -/
  | keep {slots : List (Option Operand)} {value : Operand} :
      (∀ operand, slots.count (some operand) = [some value].count (some operand)) →
      Effect names n slots [] n (some value)
  | assign {value : Operand} {target : String} : names target →
      Effect names n [some value, none, some (.var target)] [⟨.mov, [value], some target⟩] n none
  | ret {value : Operand} : Effect names n [some value, none] [⟨.ret, [value], none⟩] n none
  | operate {opcode : Opcode} {lhs rhs : Operand} : opcode.isArithmetic = true →
      Effect names n [some rhs, none, some lhs] [⟨opcode, [lhs, rhs], some (temporary n)⟩] (n + 1)
        (some (.var (temporary n)))

/-- Whether a slot is one for a symbol, and if the symbol is an identifier,
    one of some names. -/
def Fits (names : String → Prop) (slot : Option Operand) (s : Symbol) : Prop :=
  Represents slot s ∧ (s = .terminal .identifier → ∀ x, slot = some (.var x) → names x)

/-- A reduction over the slots for its body. -/
theorem exec_reduceBy_effect (code : List Instruction) (n : Nat) (rest : List (Option Operand))
    (p : Production) (h : List.Forall₂ (Fits names) slots p.body.reverse) :
    ∃ new n' slot, Effect names n slots new n' slot ∧ Fits names slot (.nonterminal p.head) ∧
      (reduceBy p).exec ⟨code, n, slots ++ rest⟩ = (.ok (), ⟨code ++ new, n', slot :: rest⟩) := by
  have hdone : ∀ stack, ((.ok (), ⟨code, n, stack⟩) : Except EmitError Unit × Emitter) =
      (.ok (), ⟨code ++ [], n, stack⟩) := by
    intro stack
    rw [List.append_nil]
  cases p
  case assignment =>
    rcases h with _ | ⟨⟨⟨value, rfl⟩, -⟩, _ | ⟨⟨rfl, -⟩, _ | ⟨⟨⟨target, rfl⟩, hname⟩, ⟨⟩⟩⟩⟩
    exact ⟨_, _, _, .assign (hname rfl target rfl), ⟨rfl, nofun⟩, rfl⟩
  case returnValue =>
    rcases h with _ | ⟨⟨⟨value, rfl⟩, -⟩, _ | ⟨⟨rfl, -⟩, ⟨⟩⟩⟩
    exact ⟨_, _, _, .ret, ⟨rfl, nofun⟩, rfl⟩
  case add | sub | mul =>
    rcases h with _ | ⟨⟨⟨rhs, rfl⟩, -⟩, _ | ⟨⟨rfl, -⟩, _ | ⟨⟨⟨lhs, rfl⟩, -⟩, ⟨⟩⟩⟩⟩
    exact ⟨_, _, _, .operate rfl, ⟨⟨_, rfl⟩, nofun⟩, rfl⟩
  case parentheses =>
    rcases h with _ | ⟨⟨rfl, -⟩, _ | ⟨⟨⟨value, rfl⟩, -⟩, _ | ⟨⟨rfl, -⟩, ⟨⟩⟩⟩⟩
    refine ⟨[], n, some value, .keep fun operand => ?_, ⟨⟨_, rfl⟩, nofun⟩, hdone _⟩
    simp [List.count_cons]
  case expressionTerm | termFactor | factorName | factorConstant =>
    rcases h with _ | ⟨⟨⟨value, rfl⟩, -⟩, ⟨⟩⟩
    exact ⟨[], n, some _, .keep fun operand => rfl, ⟨⟨_, rfl⟩, nofun⟩, hdone _⟩
  -- The others leave a placeholder; only a declaration has a name among its slots.
  case declaration =>
    rcases h with _ | ⟨⟨⟨name, rfl⟩, hname⟩, _ | ⟨⟨rfl, -⟩, ⟨⟩⟩⟩
    exact ⟨[], n, none, .drop (by simpa using hname rfl), ⟨rfl, nofun⟩, hdone _⟩
  case statementsMore =>
    rcases h with _ | ⟨⟨rfl, -⟩, _ | ⟨⟨rfl, -⟩, _ | ⟨⟨rfl, -⟩, ⟨⟩⟩⟩⟩
    exact ⟨[], n, none, .drop (by simp), ⟨rfl, nofun⟩, hdone _⟩
  case statementsLast =>
    rcases h with _ | ⟨⟨rfl, -⟩, _ | ⟨⟨rfl, -⟩, ⟨⟩⟩⟩
    exact ⟨[], n, none, .drop (by simp), ⟨rfl, nofun⟩, hdone _⟩
  case program | intType =>
    rcases h with _ | ⟨⟨rfl, -⟩, ⟨⟩⟩
    exact ⟨[], n, none, .drop (by simp), ⟨rfl, nofun⟩, hdone _⟩

namespace Effect

variable (h : Effect names n slots new n' slot)
include h

/-- The operations that are added take the next temporaries. -/
theorem results : ((List.range n).map fun k => some (temporary k)) ++
    (new.filter (·.opcode.isArithmetic)).map Instruction.result =
      (List.range n').map fun k => some (temporary k) := by
  cases h with
  | drop | keep | assign | ret => exact List.append_nil _
  | operate hopcode => simp [List.range_succ, hopcode]

/-- **No temporary is lost or doubled**: what was in the slots, and what is
    handed out, is an operand or in the slot that is left. -/
theorem balance (hplain : ∀ x, names x → isTemporary x = false) {x : String}
    (hx : isTemporary x = true) :
    timesRead x new + [slot].count (some (.var x)) + ((List.range n).map temporary).count x =
      slots.count (some (.var x)) + ((List.range n').map temporary).count x := by
  have hname : ¬ names x := by
    intro hname
    rw [hplain x hname] at hx
    cases hx
  cases h with
  | drop hlost =>
    have hnotMem : some (.var x) ∉ slots := fun hmem => hname (hlost x hmem)
    simp [timesRead, List.count_eq_zero_of_not_mem hnotMem]
  | keep hkept => simp [timesRead, hkept]
  | @assign value target htarget =>
    have hne : target ≠ x := fun heq => hname (heq ▸ htarget)
    simp [timesRead, List.count_cons, hne]
  | ret => simp [timesRead, List.count_cons]
  | operate =>
    simp [timesRead, List.range_succ, List.count_cons]
    omega

/-- At most one instruction is added. -/
theorem eq_nil_or_singleton : new = [] ∨ ∃ i, new = [i] := by
  cases h with
  | drop | keep => exact .inl rfl
  | assign | ret | operate => exact .inr ⟨_, rfl⟩

theorem mem_slots_of_reads {i : Instruction} {x : String} (hi : i ∈ new)
    (hx : i.reads x = true) : some (.var x) ∈ slots := by
  rw [Instruction.reads_iff] at hx
  cases h with
  | drop | keep => cases hi
  | assign | ret | operate =>
    cases List.mem_singleton.1 hi
    simp only [List.mem_cons, List.not_mem_nil, or_false] at hx
    simp [hx, or_comm]

theorem names_of_result {i : Instruction} {x : String} (hi : i ∈ new)
    (hopcode : i.opcode.isArithmetic = false) (hx : i.result = some x) : names x := by
  cases h with
  | drop | keep => cases hi
  | assign htarget =>
    cases List.mem_singleton.1 hi
    cases hx
    exact htarget
  | ret =>
    cases List.mem_singleton.1 hi
    cases hx
  | operate hopcode' =>
    cases List.mem_singleton.1 hi
    cases hopcode'.symm.trans hopcode

/-- The slot that is left has a new temporary, or an operand that was there. -/
theorem mem_slots_of_slot {x : String} (hx : slot = some (.var x)) :
    isTemporary x = true ∨ some (.var x) ∈ slots := by
  cases h with
  | drop | assign | ret => cases hx
  | keep hkept =>
    cases hx
    refine .inr (List.count_pos_iff.1 ?_)
    simp [hkept]
  | operate =>
    cases hx
    exact .inl (isTemporary_temporary n)

end Effect

/-! ## What stays linear -/

/-- A name or a constant comes on the stack. -/
theorem Linear.push (hplain : ∀ x, names x → isTemporary x = false)
    (h : Linear names ⟨code, n, rest⟩) (hslot : ∀ x, slot = some (.var x) → names x) :
    Linear names ⟨code, n, slot :: rest⟩ := by
  refine ⟨h.results, fun x hx => ?_, h.writesFirst, h.targets, h.sources, fun x hx => ?_⟩
  · have hne : slot ≠ some (.var x) := by
      intro heq
      rw [hplain x (hslot x heq)] at hx
      cases hx
    rw [List.count_cons_of_ne hne]
    exact h.balance x hx
  · rcases List.mem_cons.1 hx with heq | hx
    · exact .inr (hslot x heq.symm)
    · exact h.slots x hx

/-- **A reduction keeps every temporary in one place.** -/
theorem Linear.effect (hplain : ∀ x, names x → isTemporary x = false)
    (h : Linear names ⟨code, n, slots ++ rest⟩) (heffect : Effect names n slots new n' slot) :
    Linear names ⟨code ++ new, n', slot :: rest⟩ where
  results := by
    rw [Numbered, List.filter_append, List.map_append, h.results, heffect.results]
  balance x hx := by
    have hbefore := h.balance x hx
    have hflow := heffect.balance hplain hx
    rw [← List.singleton_append]
    simp only [List.count_append, timesRead_append] at hbefore ⊢
    omega
  writesFirst := by
    rcases heffect.eq_nil_or_singleton with rfl | ⟨i, rfl⟩
    · rw [List.append_nil]
      exact h.writesFirst
    · refine h.writesFirst.concat fun x hx hreads => ?_
      -- What is read was on the stack, so it was handed out.
      have hmem := heffect.mem_slots_of_reads List.mem_cons_self hreads
      have hpos := List.count_pos_iff.2 (List.mem_append_left rest hmem)
      obtain ⟨k, hk, rfl⟩ := h.exists_lt hx (Nat.add_pos_right _ hpos)
      exact h.exists_result hk
  targets i hi hopcode x hx := by
    rcases List.mem_append.1 hi with hi | hi
    · exact h.targets i hi hopcode x hx
    · exact heffect.names_of_result hi hopcode hx
  sources i hi x hx := by
    rcases List.mem_append.1 hi with hi | hi
    · exact h.sources i hi x hx
    · exact h.slots x (List.mem_append_left rest (heffect.mem_slots_of_reads hi hx))
  slots x hx := by
    rcases List.mem_cons.1 hx with heq | hx
    · rcases heffect.mem_slots_of_slot heq.symm with htemporary | hmem
      · exact .inl htemporary
      · exact h.slots x (List.mem_append_left rest hmem)
    · exact h.slots x (List.mem_append_right slots hx)

/-! ## Actions -/

/-- There is a slot that fits for each symbol, and every temporary is in one
    place. -/
structure Tidy (names : String → Prop) (xs : List Symbol) (e : Emitter) : Prop where
  fits : List.Forall₂ (Fits names) e.stack xs
  linear : Linear names e

variable {stack : List Constituent} {event : Event} {e e' : Emitter}

/-- **An action that fits keeps the emitter tidy**, if an identifier that it
    shifts is one of the names. -/
theorem Tidy.handle (hplain : ∀ x, names x → isTemporary x = false)
    (h : Tidy names (stack.map Constituent.symbol) e) (hadmits : Constituent.Admits stack event)
    (hshift : ∀ token, event.token? = some token → token.kind = .identifier → names token.value)
    {u : Unit} (hexec : (Emitter.handle event).exec e = (.ok u, e')) :
    Tidy names ((Constituent.after stack event).map Constituent.symbol) e' := by
  obtain ⟨hfits, hlinear⟩ := h
  cases event with
  | shift token =>
    rw [exec_shift hexec]
    have hslot : ∀ x, token.kind.slot token = some (.var x) → names x := by
      intro x hx
      rcases hkind : token.kind
      all_goals
        rw [hkind] at hx
        cases hx
      exact hshift token rfl hkind
    have hrepresents : Represents (token.kind.slot token) (.terminal token.kind) := by
      rcases slotFor_cases hadmits with ⟨slot, hok, hrepresents⟩ | ⟨d, herror, -, -⟩
      · rwa [← slotFor_eq_ok hok]
      · rw [Emitter.handle, shift, herror] at hexec
        cases hexec
    exact ⟨.cons ⟨hrepresents, fun _ => hslot⟩ hfits, hlinear.push hplain hslot⟩
  | reduce p =>
    obtain ⟨front, rest, rfl, hfront, hafter⟩ := hadmits.exists_split
    obtain ⟨code, n, slots⟩ := e
    rw [List.map_append, hfront] at hfits
    have htop := List.forall₂_take_append _ _ _ hfits
    have hbelow := List.forall₂_drop_append _ _ _ hfits
    obtain ⟨new, n', slot, heffect, hslot, hreduce⟩ := exec_reduceBy_effect code n
      (slots.drop p.body.reverse.length) p htop
    rw [List.take_append_drop] at hreduce
    cases hexec.symm.trans hreduce
    rw [hafter, List.map_cons]
    refine ⟨.cons hslot hbelow, Linear.effect hplain ?_ heffect⟩
    rwa [List.take_append_drop]
  | accept =>
    cases hexec
    exact ⟨hfits, hlinear⟩

end Emitter

/-! ## Runs -/

namespace Table

variable {ε σ : Type} {t : Table} {tokens : List Token} {watch : Watcher ε σ} {init w : σ}
  {reports : List Report} {c : Configuration}

/-- The last thing that a watcher hears of at a head: a report that it fails
    at, or the acceptance. -/
structure LastHeard (t : Table) (tokens : List Token) (watch : Watcher ε σ) (init : σ)
    (reports : List Report) (c : Configuration) (w : σ) (r : Report) : Prop where
  atHead : t.AtHead tokens watch init reports c w
  admits : Constituent.Admits (constituents (reports.map Report.event)) r.event
  ends : r.event = .accept ∨ ∃ e, ((watch r).exec w).1 = .error e

/-- A replay from a head on ends with the failure of the watcher, or behind
    the last report. -/
theorem Lawful.watched_replay (ht : t.Lawful) {c' : Configuration} {rest : List Report}
    (h : t.AtHead tokens watch init reports c w) (hsteps : t.Steps (endTokenOf tokens) c rest c')
    (after : σ → Run ε σ) :
    (∃ reports' c₁ w₁ r, t.LastHeard tokens watch init reports' c₁ w₁ r ∧
      (watch.replay after rest w).watched = ((watch r).exec w₁).2) ∨
    ∃ w', t.AtHead tokens watch init (reports ++ rest) c' w' ∧
      watch.replay after rest w = after w' := by
  induction hsteps generalizing reports w with
  | refl c => exact .inr ⟨w, by simpa using h, rfl⟩
  | @head c c₁ c' r rest hmove _ ih =>
    rw [Watcher.replay]
    rcases hexec : (watch r).exec w with ⟨e | u, w₁⟩
    · refine .inl ⟨reports, c, w, r, ⟨h, (ht.admits_of_atHead h hmove).1, ?_⟩, by rw [hexec]⟩
      exact .inr ⟨e, congrArg Prod.fst hexec⟩
    · rw [List.append_cons]
      exact ih (h.step hmove hexec)

/-- **What a run leaves of its watcher**: the state at a head, or the one
    after the last thing that it hears of there. -/
theorem Lawful.watched_run (ht : t.Lawful) (htokens : tokens ≠ []) (watch : Watcher ε σ)
    (init : σ) :
    (∃ reports c w, t.AtHead tokens watch init reports c w ∧
      (t.run tokens watch init).watched = w) ∨
    ∃ reports c w r, t.LastHeard tokens watch init reports c w r ∧
      (t.run tokens watch init).watched = ((watch r).exec w).2 := by
  cases ht.run_ends tokens with
  | accepted tree rest heq hend =>
    obtain ⟨reports, k, -, hpatience, hsteps, hmove⟩ := ht.steps_tokens tree heq hend
    rw [run_of_accept htokens hsteps hpatience hmove, Watcher.replay_append]
    rcases ht.watched_replay (.start htokens) hsteps _ with hlast | ⟨w, hhead, hreplay⟩
    · exact .inr hlast
    · refine .inr ⟨_, _, w, ⟨[k, 0], .accept⟩, ⟨hhead, trivial, .inl rfl⟩, ?_⟩
      rw [hreplay, Watcher.replay]
      rcases (watch ⟨[k, 0], .accept⟩).exec w with ⟨_ | _, w'⟩
      · rfl
      · rfl
  | stuck reports c expected hsteps hmove hlength =>
    have hpatience := Nat.lt_of_le_of_lt hlength (ht.five_mul_length_lt_patience tokens)
    rw [run_of_stuck htokens hsteps hpatience hmove]
    rcases ht.watched_replay (.start htokens) hsteps _ with hlast | ⟨w, hhead, hreplay⟩
    · exact .inr hlast
    · exact .inl ⟨_, _, w, hhead, by rw [hreplay]⟩

end Table

namespace FrontEnd

variable {names : String → Prop} {stack : List Constituent} {f : FrontEnd} {r : Report}
  {t : Table} {tokens : List Token} {symbols : Symbols} {reports : List Report} {c : Configuration}

/-- At every head the emitter is tidy. -/
theorem tidy_of_atHead (ht : t.Lawful) (hplain : ∀ x, names x → isTemporary x = false)
    (htokens : ∀ token ∈ tokens, token.kind = .identifier → names token.value)
    (h : t.AtHead tokens watch ⟨⟨[], some symbols⟩, {}, []⟩ reports c f) :
    f.emitter.Tidy names ((constituents (reports.map Report.event)).map Constituent.symbol) := by
  induction h with
  | start => exact ⟨.nil, Emitter.linear_empty names⟩
  | step hhead hmove hexec ih =>
    obtain ⟨hadmits, hmem⟩ := ht.admits_of_atHead hhead hmove
    rw [List.map_append, List.map_singleton, constituents_append]
    exact ih.handle hplain hadmits (fun token htoken => htokens token (hmem token htoken))
      (exec_watch hexec).2

/-- A failure, like the acceptance, leaves the emitter as it was. -/
theorem InStep.emitter_of_ends (h : InStep stack f) (hadmits : Constituent.Admits stack r.event)
    (hends : r.event = .accept ∨ ∃ e, ((FrontEnd.watch r).exec f).1 = .error e) :
    ((FrontEnd.watch r).exec f).2.emitter = f.emitter := by
  simp only [FrontEnd.watch, checkStep, emitStep, Attempt.exec_bind, Attempt.exec_modify,
    Attempt.exec_get, checker_note] at hends ⊢
  rcases hcheck : (Checker.handle r.event).exec f.checker with ⟨_ | _, checker⟩
  · exact emitter_note f r.event
  · simp only [hcheck, Attempt.exec_set, emitter_note] at hends ⊢
    rcases h.slots.handle hadmits with ⟨e', hexec, -⟩ | ⟨token, d, -, -, -, hexec⟩
    · rw [hexec] at hends ⊢
      rcases hends with haccept | ⟨e, herror⟩
      · rw [haccept] at hexec
        cases hexec
        rfl
      · cases herror
    · rw [hexec]
      rfl

/-- **The emitter of a whole run** keeps every temporary in one place, also if
    the run is cut short. -/
theorem linear_run (hplain : ∀ x, names x → isTemporary x = false) (htokens : tokens ≠ [])
    (hnames : ∀ token ∈ tokens, token.kind = .identifier → names token.value) :
    (run tokens symbols).2.emitter.Linear names := by
  have ht := Table.standard_lawful
  rw [snd_run]
  rcases ht.watched_run htokens FrontEnd.watch ⟨⟨[], some symbols⟩, {}, []⟩ with
    ⟨reports, c, f, hhead, hwatched⟩ | ⟨reports, c, f, r, hlast, hwatched⟩
  · rw [hwatched]
    exact (tidy_of_atHead ht hplain hnames hhead).linear
  · have hstep := inStep_of_atHead ht hlast.atHead
    rw [hwatched, hstep.emitter_of_ends hlast.admits hlast.ends]
    exact (tidy_of_atHead ht hplain hnames hlast.atHead).linear

/-- A run that is accepted leaves no operand on the stack of the emitter. -/
theorem stack_of_run_eq_ok {body : List Token} {last : Token}
    (hbody : ∀ token ∈ body, token.kind ≠ .endMark) (hlast : last.kind = .endMark)
    (h : (run (body ++ [last]) symbols).1 = .ok ()) :
    (run (body ++ [last]) symbols).2.emitter.stack = [none] := by
  obtain ⟨tree, -, -, hemit⟩ := run_eq_ok hbody hlast (Prod.ext h rfl)
  rw [tree.exec_emitter hemit]
  rfl

end FrontEnd

/-- **Temporaries are written once and read once.**  Take the tokens of any
    text, and the instructions that the front end has emitted when its run
    ends, be it by a refusal:

    * the results of the operations are the temporaries that were handed out,
      each once and in order;
    * nothing is moved into a temporary;
    * a temporary that an instruction reads is the result of an earlier one,
      and it is read at most once in all; if the run is accepted, each one that
      was handed out is read exactly once;
    * every other variable is an identifier of the text, and so no
      temporary. -/
theorem temporaries_written_and_read_once {source : String} {tokens : List Token}
    {symbols : Symbols} (h : scanText source = .ok (tokens, symbols)) :
    let result := (FrontEnd.run tokens symbols).1
    let code := (FrontEnd.run tokens symbols).2.emitter.instructions
    let n := (FrontEnd.run tokens symbols).2.emitter.temporaries
    (code.filter (·.opcode.isArithmetic)).map Instruction.result =
      ((List.range n).map fun k => some (temporary k)) ∧
    (∀ i ∈ code, i.opcode = .mov → ∀ x, i.result = some x → isTemporary x = false) ∧
    (∀ before i after, code = before ++ i :: after → ∀ x, isTemporary x = true →
      i.reads x = true → ∃ j ∈ before, j.result = some x) ∧
    (∀ x, isTemporary x = true → timesRead x code ≤ 1) ∧
    (result = .ok () → ∀ k < n, timesRead (temporary k) code = 1) ∧
    ∀ i ∈ code, ∀ x, i.Mentions x → (∃ k < n, x = temporary k) ∨
      x ∈ (identifiers tokens).map Token.value ∧ isTemporary x = false := by
  intro result code n
  obtain ⟨⟨body, last, rfl, hlast, hlexical⟩, -⟩ := scanText_tokens h
  let names (x : String) : Prop := x ∈ (identifiers (body ++ [last])).map Token.value
  have hnames : ∀ token ∈ body ++ [last], token.kind = .identifier → names token.value :=
    fun token hmem hkind => List.mem_map_of_mem (List.mem_filter.2 ⟨hmem, by simpa using hkind⟩)
  have hplain : ∀ x, names x → isTemporary x = false := by
    intro x hx
    obtain ⟨token, hmem, rfl⟩ := List.mem_map.1 hx
    obtain ⟨hmem, hkind⟩ := List.mem_filter.1 hmem
    rw [decide_eq_true_eq] at hkind
    rcases List.mem_append.1 hmem with hmem | hmem
    · exact (hlexical token hmem).not_isTemporary hkind
    · rw [List.mem_singleton.1 hmem, hlast] at hkind
      cases hkind
  have hlinear : (FrontEnd.run (body ++ [last]) symbols).2.emitter.Linear names :=
    FrontEnd.linear_run hplain (by simp) hnames
  refine ⟨hlinear.results, fun i hi hopcode x hx => ?_, hlinear.writesFirst,
    fun x hx => hlinear.timesRead_le_one hx, fun hresult k hk => ?_, fun i hi x hx => ?_⟩
  · exact hplain x (hlinear.targets i hi (by rw [hopcode]; rfl) x hx)
  · have hstack := FrontEnd.stack_of_run_eq_ok
      (fun token hmem => (hlexical token hmem).kind_ne_endMark) hlast hresult
    exact hlinear.timesRead_eq_one hk (by simp [hstack])
  · exact (hlinear.exists_lt_or_names hi hx).imp_right fun hname => ⟨hname, hplain x hname⟩

/-- The run is cut short at a name that is not declared.  By then two
    temporaries have been read, and the third one is still on the stack. -/
theorem temporaries_written_and_read_once_undeclared :
    ∃ tokens symbols,
      scanText "int a; a = 1 - 2 * a; return 3 + a - b;" = .ok (tokens, symbols) ∧
      let (result, f) := FrontEnd.run tokens symbols
      result.isOk = false ∧ f.emitter.temporaries = 3 ∧
      f.emitter.instructions =
        [⟨.mul, [.imm 2, .var "a"], some "%t0"⟩, ⟨.sub, [.imm 1, .var "%t0"], some "%t1"⟩,
          ⟨.mov, [.var "%t1"], some "a"⟩, ⟨.add, [.imm 3, .var "a"], some "%t2"⟩] ∧
      ∀ x, isTemporary x = true → timesRead x f.emitter.instructions ≤ 1 := by
  have hrun : ((scanText "int a; a = 1 - 2 * a; return 3 + a - b;").toOption.map
      fun (tokens, symbols) =>
        let (result, f) := FrontEnd.run tokens symbols
        (result.isOk, f.emitter.temporaries, f.emitter.instructions)) =
      some (false, 3, [⟨.mul, [.imm 2, .var "a"], some "%t0"⟩,
        ⟨.sub, [.imm 1, .var "%t0"], some "%t1"⟩, ⟨.mov, [.var "%t1"], some "a"⟩,
        ⟨.add, [.imm 3, .var "a"], some "%t2"⟩]) := by
    decide +kernel
  rcases hscan : scanText "int a; a = 1 - 2 * a; return 3 + a - b;" with _ | ⟨tokens, symbols⟩
  · rw [hscan] at hrun
    cases hrun
  · rw [hscan] at hrun
    obtain ⟨hok, hrest⟩ := Prod.mk.inj (Option.some.inj hrun)
    obtain ⟨htemporaries, hcode⟩ := Prod.mk.inj hrest
    obtain ⟨-, -, -, honce, -, -⟩ := temporaries_written_and_read_once hscan
    exact ⟨tokens, symbols, rfl, hok, htemporaries, hcode, honce⟩

end Straightline
