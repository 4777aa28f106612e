/-
  Lowered code does what the instructions do.

  After each instruction, every variable that is in a register has there the
  value that the instructions so far give it.  A variable that is read before
  it is written starts with whatever is in the register that it gets; this is
  how the registers at the start determine an environment.

  * `Lowering.Selects.execute`: the lines for one instruction;
  * `Lowering.Tracks`: the relation between registers and environment;
  * `Lowering.Tracks.step`, `Lowering.exists_tracks`: what one instruction and
    a run of instructions preserve;
  * `assemble_preserves_meaning`: whole lists of instructions.
-/
import Mathlib.Data.List.Induction
import Straightline.Proofs.Reading
import Straightline.Proofs.Selection

namespace Straightline

open Assembly (Line Operation Source)

namespace Lowering

/-- Whether a variable is one of those that stand for constants. -/
def IsScratch (x : String) : Prop :=
  x = scratch 0 ∨ x = scratch 1

variable {loadRight : Bool} {a : Allocation} {i : Instruction} {new : List Line}
  {regs : Registers} {env : Environment} {x : String} {r : Register}

/-! ## The lines for an instruction -/

theorem scratch_zero_ne_one : scratch 0 ≠ scratch 1 := by
  decide

/-- Loading a constant changes no other variable. -/
theorem execute_loadImmediate (ha : a.Valid) {number : Nat} {value : Int} {s : Register}
    (hs : (scratch number, s) ∈ a.assigned) (hx : (x, r) ∈ a.assigned) (hne : x ≠ scratch number) :
    execute [.loadImmediate s value] regs r = regs r := by
  refine execute_of_dest_ne regs fun line hline => ?_
  rw [List.mem_singleton] at hline
  subst hline
  rintro rfl
  exact hne (ha.eq_of_mem hx hs)

section

variable {lhs rhs : Operand} {left right : List Line} {s : Register} {source : Source}

theorem SelectsLeft.keeps (ha : a.Valid) (h : SelectsLeft a lhs left s)
    (hx : (x, r) ∈ a.assigned) (hne : x ≠ scratch 0) : execute left regs r = regs r := by
  cases h with
  | held => rfl
  | loaded hs => exact execute_loadImmediate ha hs hx hne

theorem SelectsRight.keeps (ha : a.Valid) (h : SelectsRight loadRight a rhs right source)
    (hx : (x, r) ∈ a.assigned) (hne : x ≠ scratch 1) : execute right regs r = regs r := by
  cases h with
  | held | literal => rfl
  | loaded _ hs => exact execute_loadImmediate ha hs hx hne

theorem SelectsLeft.value (h : SelectsLeft a lhs left s)
    (hregs : ∀ x r, lhs = .var x → (x, r) ∈ a.assigned → regs r = env x) :
    execute left regs s = lhs.value env := by
  cases h with
  | held hs => exact hregs _ _ rfl hs
  | loaded => exact execute_singleton_dest (.loadImmediate _ _) regs

theorem SelectsRight.value (h : SelectsRight loadRight a rhs right source)
    (hregs : ∀ x r, rhs = .var x → (x, r) ∈ a.assigned → regs r = env x) :
    source.value (execute right regs) = rhs.value env := by
  cases h with
  | held hs => exact hregs _ _ rfl hs
  | loaded => exact execute_singleton_dest (.loadImmediate _ _) regs
  | literal => rfl

theorem SelectsLeft.exists_owner (h : SelectsLeft a lhs left s) :
    ∃ x, (x, s) ∈ a.assigned ∧ (lhs = .var x ∨ x = scratch 0) := by
  cases h with
  | held hs => exact ⟨_, hs, .inl rfl⟩
  | loaded hs => exact ⟨_, hs, .inr rfl⟩

/-- All that is done about an operand beforehand is to load it. -/
theorem SelectsLeft.eq_loadImmediate (h : SelectsLeft a lhs left s) {line : Line}
    (hline : line ∈ left) :
    ∃ r value, line = .loadImmediate r value ∧ (scratch 0, r) ∈ a.assigned := by
  cases h with
  | held => cases hline
  | loaded hs => exact ⟨_, _, List.mem_singleton.1 hline, hs⟩

@[inherit_doc SelectsLeft.eq_loadImmediate]
theorem SelectsRight.eq_loadImmediate (h : SelectsRight loadRight a rhs right source) {line : Line}
    (hline : line ∈ right) :
    ∃ r value, line = .loadImmediate r value ∧ (scratch 1, r) ∈ a.assigned := by
  cases h with
  | held | literal => cases hline
  | loaded _ hs => exact ⟨_, _, List.mem_singleton.1 hline, hs⟩

/-- Both operands are where an operation looks for them. -/
theorem execute_operands (ha : a.Valid) (hleft : SelectsLeft a lhs left s)
    (hright : SelectsRight loadRight a rhs right source)
    (hplain : ∀ x, lhs = .var x ∨ rhs = .var x → ¬ IsScratch x)
    (hregs : ∀ x r, lhs = .var x ∨ rhs = .var x → (x, r) ∈ a.assigned → regs r = env x) :
    execute (left ++ right) regs s = lhs.value env ∧
      source.value (execute (left ++ right) regs) = rhs.value env := by
  rw [execute_append]
  constructor
  · obtain ⟨x, hx, howner⟩ := hleft.exists_owner
    have hne : x ≠ scratch 1 := by
      rcases howner with h | rfl
      · exact fun heq => hplain x (.inl h) (.inr heq)
      · exact scratch_zero_ne_one
    rw [hright.keeps ha hx hne]
    exact hleft.value fun x r h => hregs x r (.inl h)
  · refine hright.value fun x r h hx => ?_
    rw [hleft.keeps ha hx fun heq => hplain x (.inr h) (.inl heq)]
    exact hregs x r (.inr h) hx

end

/-- **The lines for an instruction compute its number**, if its operands are in
    their registers. -/
theorem Selects.execute_result (ha : a.Valid) (h : Selects loadRight a i new)
    (hopcode : i.opcode ≠ .ret) (hplain : ∀ x, i.Mentions x → ¬ IsScratch x)
    (hregs : ∀ x r, i.reads x = true → (x, r) ∈ a.assigned → regs r = env x) :
    ∃ d r value, i.result = some d ∧ (d, r) ∈ a.assigned ∧ i.value? env = some value ∧
      execute new regs r = value := by
  cases h with
  | @addImmediate operands d x value r s hoperands hd hx =>
    have hvalue := hregs x s (by rcases hoperands with rfl | rfl <;> simp [Instruction.reads]) hx
    refine ⟨d, r, env x + value, rfl, hd, ?_, ?_⟩
    · rcases hoperands with rfl | rfl
      · exact congrArg some (Int.add_comm value (env x))
      · rfl
    · rw [← hvalue]
      exact execute_singleton_dest (.addImmediate r s value) regs
  | @operate op lhs rhs d left right r s source _ hd hleft hright =>
    have hreads : ∀ {x}, lhs = .var x ∨ rhs = .var x →
        Instruction.reads ⟨op.opcode, [lhs, rhs], some d⟩ x = true := by
      rintro x (rfl | rfl) <;> simp [Instruction.reads]
    obtain ⟨hlhs, hrhs⟩ := execute_operands ha hleft hright
      (fun x hx => hplain x (.inr (hreads hx))) fun x r hx => hregs x r (hreads hx)
    refine ⟨d, r, _, rfl, hd, Instruction.value?_opcode op lhs rhs _ env, ?_⟩
    rw [execute_append, ← hlhs, ← hrhs]
    exact execute_singleton_dest (.operate op r s source) _
  | @loadImmediate d value r hd =>
    exact ⟨d, r, value, rfl, hd, rfl, execute_singleton_dest (.loadImmediate r value) regs⟩
  | @move d x r s hd hx =>
    have hvalue := hregs x s (by simp [Instruction.reads]) hx
    refine ⟨d, r, env x, rfl, hd, rfl, ?_⟩
    rw [← hvalue]
    exact execute_singleton_dest (.move r s) regs
  | returnNothing | returnConstant | returnVariable => exact absurd rfl hopcode

/-- A return leaves its operand in the result register. -/
theorem Selects.execute_return (h : Selects loadRight a i new) (hopcode : i.opcode = .ret)
    (hregs : ∀ x r, i.reads x = true → (x, r) ∈ a.assigned → regs r = env x) {value : Int}
    (hvalue : i.operands.head?.map (Operand.value env) = some value) :
    execute new regs .result = value := by
  cases h with
  | operate => exact absurd hopcode (Operation.opcode_ne_ret _)
  | addImmediate | loadImmediate | move => cases hopcode
  | returnNothing => cases hvalue
  | @returnConstant _ constant =>
    cases hvalue
    exact execute_singleton_dest (.loadImmediate .result constant) regs
  | @returnVariable _ x r hx =>
    cases hvalue
    rw [Operand.value, ← hregs x r (by simp [Instruction.reads]) hx]
    exact execute_singleton_dest (.move .result r) regs

/-- The lines for an instruction write to its result and to scratch variables
    only. -/
theorem Selects.exists_owner (h : Selects loadRight a i new) (hopcode : i.opcode ≠ .ret)
    {line : Line} (hline : line ∈ new) :
    ∃ x, (x, line.dest) ∈ a.assigned ∧ (i.result = some x ∨ IsScratch x) := by
  cases h with
  | addImmediate _ hd | loadImmediate hd | move hd =>
    cases List.mem_singleton.1 hline
    exact ⟨_, hd, .inl rfl⟩
  | operate _ hd hleft hright =>
    rw [List.mem_append, List.mem_append, List.mem_singleton] at hline
    rcases hline with (hline | hline) | rfl
    · obtain ⟨r, value, rfl, hs⟩ := hleft.eq_loadImmediate hline
      exact ⟨_, hs, .inr (.inl rfl)⟩
    · obtain ⟨r, value, rfl, hs⟩ := hright.eq_loadImmediate hline
      exact ⟨_, hs, .inr (.inr rfl)⟩
    · exact ⟨_, hd, .inl rfl⟩
  | returnNothing | returnConstant | returnVariable => exact absurd rfl hopcode

/-- What an instruction works with is in registers. -/
theorem Selects.exists_register (h : Selects loadRight a i new) (hopcode : i.opcode ≠ .ret)
    (hx : i.Mentions x) : ∃ r, (x, r) ∈ a.assigned := by
  cases h with
  | addImmediate hoperands hd hs =>
    rcases hx with hx | hx
    · cases hx
      exact ⟨_, hd⟩
    · rw [Instruction.reads_iff] at hx
      rcases hoperands with rfl | rfl
      all_goals
        simp at hx
        exact ⟨_, hx ▸ hs⟩
  | operate _ hd hleft hright =>
    rcases hx with hx | hx
    · cases hx
      exact ⟨_, hd⟩
    · simp [Instruction.reads_iff] at hx
      rcases hx with rfl | rfl
      · cases hleft with
        | held hs => exact ⟨_, hs⟩
      · cases hright with
        | held hs => exact ⟨_, hs⟩
  | loadImmediate hd =>
    rcases hx with hx | hx
    · cases hx
      exact ⟨_, hd⟩
    · simp [Instruction.reads_iff] at hx
  | move hd hs =>
    rcases hx with hx | hx
    · cases hx
      exact ⟨_, hd⟩
    · simp [Instruction.reads_iff] at hx
      exact ⟨_, hx ▸ hs⟩
  | returnNothing | returnConstant | returnVariable => exact absurd rfl hopcode

theorem Selects.isProper (h : Selects loadRight a i new) {line : Line} (hline : line ∈ new) :
    line.IsProper loadRight := by
  cases h with
  | addImmediate | loadImmediate | move | returnConstant | returnVariable =>
    cases List.mem_singleton.1 hline
    trivial
  | returnNothing => cases hline
  | operate hop _ hleft hright =>
    rw [List.mem_append, List.mem_append, List.mem_singleton] at hline
    rcases hline with (hline | hline) | rfl
    · obtain ⟨r, value, rfl, -⟩ := hleft.eq_loadImmediate hline
      trivial
    · obtain ⟨r, value, rfl, -⟩ := hright.eq_loadImmediate hline
      trivial
    · cases hright with
      | held | loaded => trivial
      | literal hload => exact ⟨hload, fun heq => by cases (hop heq).2⟩

/-! ## One instruction after the other -/

section

variable {code pre rest : List Instruction} {l l' : Lowering} {u : Unit}

/-- The registers hold the values of their variables: those that the
    instructions `pre` compute from any environment that agrees with `env` on
    the variables they read before they write them. -/
structure Tracks (regs : Registers) (code pre : List Instruction) (env : Environment)
    (l : Lowering) : Prop where
  code_eq : l.allocation.code = code
  valid : l.allocation.Valid
  /-- A variable that is still read has kept its register. -/
  live : ∀ x, (∃ i ∈ pre, i.Mentions x) → (∃ j ∈ code.drop pre.length, j.reads x = true) →
    ∃ r, (x, r) ∈ l.allocation.assigned
  values : ∀ env' : Environment, (∀ x, readsFirst x pre = true → env' x = env x) →
    ∀ x r, (x, r) ∈ l.allocation.assigned → ¬ IsScratch x →
      execute l.lines regs r = performAll pre env' x

theorem Tracks.congr (h : Tracks regs code pre env l) {env₁ : Environment}
    (henv : ∀ x, readsFirst x pre = true → env₁ x = env x) : Tracks regs code pre env₁ l :=
  { h with values := fun env' henv' => h.values env' fun x hx => (henv' x hx).trans (henv x hx) }

/-- Moves on to an instruction. -/
def advance (l : Lowering) (position : Nat) (i : Instruction) : Lowering :=
  { l with allocation := l.allocation.advance position i.result }

theorem Tracks.ready (h : Tracks regs code pre env l) (hcode : code = pre ++ i :: rest) :
    Ready i (l.advance pre.length i) where
  valid := ⟨h.valid.names, h.valid.registers⟩
  needed x hx := by
    rcases hx with hx | hx
    · refine Allocation.isNeeded_of_mem_pinned ?_
      simp [advance, Allocation.advance, hx]
    · refine Allocation.isNeeded_of_reads (i := i) ?_ hx
      simp [advance, Allocation.advance, Allocation.ahead, h.code_eq, hcode]

/-- The environment from which the registers come, as far as one more
    instruction tells: what it reads first starts with the contents of the
    register that it gets. -/
def settle (regs : Registers) (pre : List Instruction) (env : Environment) (l l' : Lowering) :
    Environment := fun x =>
  if readsFirst x pre = true then env x
  else ((l'.allocation.register? x).map (execute l.lines regs)).getD 0

theorem settle_of_readsFirst (h : readsFirst x pre = true) :
    settle regs pre env l l' x = env x :=
  if_pos h

theorem settle_of_mem (hvalid : l'.allocation.Valid) (hpre : readsFirst x pre ≠ true)
    (hx : (x, r) ∈ l'.allocation.assigned) :
    settle regs pre env l l' x = execute l.lines regs r := by
  rw [settle, if_neg hpre, hvalid.register?_eq_some_iff.2 hx]
  rfl

section

variable {env' : Environment} (h : Tracks regs code pre env l) (hpre : NoReturn pre)
  (hcode : code = pre ++ i :: rest)
  (hlater : (l.advance pre.length i).allocation.Later (Touches i) l'.allocation)
  (henv : ∀ x, readsFirst x (pre ++ [i]) = true → env' x = settle regs pre env l l' x)
include h hpre hcode hlater henv

/-- What an instruction reads is in its register. -/
theorem Tracks.operand (hreads : i.reads x = true) (hx : (x, r) ∈ l'.allocation.assigned)
    (hplain : ¬ IsScratch x) : execute l.lines regs r = performAll pre env' x := by
  have hready := h.ready hcode
  have hvalid := hlater.valid hready.valid
  by_cases hmem : ∃ s, (x, s) ∈ l.allocation.assigned
  · obtain ⟨s, hs⟩ := hmem
    have hkept : (x, s) ∈ l'.allocation.assigned := hlater.kept (hready.needed x (.inr hreads)) hs
    rw [hvalid.register_eq_of_mem hx hkept]
    refine h.values env' (fun y hy => ?_) x s hs hplain
    rw [henv y (readsFirst_append_left hy [i]), settle_of_readsFirst hy]
  · -- The variable is new: it has not been mentioned, or it would have kept
    -- its register up to here.
    have hnew : ∀ j ∈ pre, ¬ j.Mentions x := by
      intro j hj hmentions
      exact hmem (h.live x ⟨j, hj, hmentions⟩ ⟨i, by simp [hcode], hreads⟩)
    have hwrite : ∀ j ∈ pre, j.result ≠ some x := fun j hj heq => hnew j hj (.inl heq)
    have hfirst : readsFirst x (pre ++ [i]) = true :=
      readsFirst_append_right hpre hwrite (by simp [readsFirst, hreads])
    have hunread : readsFirst x pre ≠ true := by
      intro hread
      obtain ⟨j, hj, hjreads⟩ := exists_reads_of_readsFirst hread
      exact hnew j hj (.inr hjreads)
    rw [performAll_of_result_ne env' hwrite, henv x hfirst, settle_of_mem hvalid hunread hx]

end

/-- **One more instruction**: the registers still hold the values of their
    variables. -/
theorem Tracks.step (h : Tracks regs code pre env l) (hpre : NoReturn pre)
    (hcode : code = pre ++ i :: rest) (hopcode : i.opcode ≠ .ret)
    (hplain : ∀ x, i.Mentions x → ¬ IsScratch x)
    (hlowers : Lowers loadRight i (l.advance pre.length i) l') :
    Tracks regs code (pre ++ [i]) (settle regs pre env l l') l' := by
  obtain ⟨new, ⟨hlater, hlines⟩, hselects⟩ := hlowers
  have hready := h.ready hcode
  have hvalid := hlater.valid hready.valid
  refine ⟨hlater.code.trans h.code_eq, hvalid, ?_, ?_⟩
  · rintro x ⟨j, hj, hmentions⟩ ⟨k, hk, hreads⟩
    rw [List.length_append, List.length_singleton] at hk
    rcases List.mem_append.1 hj with hj | hj
    · have hk' : k ∈ code.drop pre.length := (List.drop_sublist_drop_left code (by omega)).mem hk
      obtain ⟨r, hr⟩ := h.live x ⟨j, hj, hmentions⟩ ⟨k, hk', hreads⟩
      refine ⟨r, hlater.kept (Allocation.isNeeded_of_reads (i := k) ?_ hreads) hr⟩
      simpa [advance, Allocation.advance, Allocation.ahead, h.code_eq] using hk'
    · rw [List.mem_singleton] at hj
      subst hj
      exact hselects.exists_register hopcode hmentions
  · intro env' henv x r hx hscratch
    have hoperand : ∀ y s, i.reads y = true → (y, s) ∈ l'.allocation.assigned →
        execute l.lines regs s = performAll pre env' y := fun y s hreads hs =>
      h.operand hpre hcode hlater henv hreads hs (hplain y (.inr hreads))
    rw [hlines, execute_append, performAll_append]
    change execute new (execute l.lines regs) r = i.perform (performAll pre env') x
    by_cases hresult : i.result = some x
    · obtain ⟨d, s, value, hd, hs, hvalue, hexecute⟩ :=
        hselects.execute_result hvalid hopcode hplain hoperand
      cases hresult.symm.trans hd
      rw [hvalid.register_eq_of_mem hx hs, hexecute, Instruction.perform_result hresult hvalue]
    · -- The lines leave the variable alone: its register is none that they
      -- write to.
      have hkeep : execute new (execute l.lines regs) r = execute l.lines regs r := by
        refine execute_of_dest_ne _ fun line hline hdest => ?_
        obtain ⟨y, hy, howner⟩ := hselects.exists_owner hopcode hline
        rw [hdest] at hy
        cases hvalid.eq_of_mem hy hx
        exact howner.elim hresult hscratch
      rw [hkeep, Instruction.perform_of_result_ne hresult]
      by_cases hreads : i.reads x = true
      · exact hoperand x r hreads hx
      · have hold : (x, r) ∈ l.allocation.assigned := by
          refine hlater.old hx ?_
          rintro (h | h | h)
          · exact hresult h
          · exact hreads h
          · exact hscratch h
        refine h.values env' (fun y hy => ?_) x r hold hscratch
        rw [henv y (readsFirst_append_left hy [i]), settle_of_readsFirst hy]

/-- The first return: its operand ends up in the result register. -/
theorem Tracks.returns (h : Tracks regs code pre env l) (hpre : NoReturn pre)
    (hcode : code = pre ++ i :: rest) (hopcode : i.opcode = .ret)
    (hplain : ∀ x, i.Mentions x → ¬ IsScratch x)
    (hlowers : Lowers loadRight i (l.advance pre.length i) l') {env' : Environment}
    (henv : ∀ x, readsFirst x (pre ++ [i]) = true → env' x = settle regs pre env l l' x)
    {value : Int} (hvalue : returned code env' = some value) :
    execute l'.lines regs .result = value := by
  obtain ⟨new, ⟨hlater, hlines⟩, hselects⟩ := hlowers
  rw [hcode, returned_append hpre, returned, if_pos hopcode] at hvalue
  rw [hlines, execute_append]
  exact hselects.execute_return hopcode (fun x r hreads hx =>
    h.operand hpre hcode hlater henv hreads hx (hplain x (.inr hreads))) hvalue

end

/-! ## Runs of instructions -/

section

variable {code pre : List Instruction} {l l' : Lowering} {u : Unit}

/-- The start of lowering. -/
def start (code : List Instruction) : Lowering :=
  ⟨⟨code, 0, [], []⟩, [], []⟩

theorem lowerFrom_append (hpre : NoReturn pre) (position : Nat) (rest : List Instruction) :
    lowerFrom loadRight position (pre ++ rest) = (do
      lowerFrom loadRight position pre
      lowerFrom loadRight (position + pre.length) rest) := by
  induction pre generalizing position with
  | nil => simp [lowerFrom]
  | cons i pre ih =>
    have hlength : position + (i :: pre).length = position + 1 + pre.length := by
      simp only [List.length_cons]
      omega
    simp only [List.cons_append, lowerFrom, hpre i List.mem_cons_self, if_false, bind_assoc,
      ih (fun j hj => hpre j (List.mem_cons_of_mem i hj)), hlength]

theorem exec_lowerFrom_cons {position : Nat} {rest : List Instruction}
    (h : (lowerFrom loadRight position (i :: rest)).exec l = (.ok u, l')) :
    ∃ l₁, (lower loadRight i).exec (l.advance position i) = (.ok (), l₁) ∧
      (if i.opcode = .ret then pure () else lowerFrom loadRight (position + 1) rest).exec l₁ =
        (.ok u, l') := by
  obtain ⟨_, l₀, hadvance, h⟩ := Attempt.exec_bind_eq_ok h
  cases hadvance
  obtain ⟨_, l₁, hlower, h⟩ := Attempt.exec_bind_eq_ok h
  exact ⟨l₁, hlower, h⟩

/-- **A run of instructions**: there is an environment from which the
    instructions compute what is in the registers, after each of them. -/
theorem exists_tracks (regs : Registers)
    (hplain : ∀ i ∈ code, ∀ x, i.Mentions x → ¬ IsScratch x) (hwithin : pre <+: code)
    (hpre : NoReturn pre) (h : (lowerFrom loadRight 0 pre).exec (start code) = (.ok (), l)) :
    (∀ line ∈ l.lines, line.IsProper loadRight) ∧
    ∃ env, ∀ pre', pre' <+: pre →
      ∃ l', (lowerFrom loadRight 0 pre').exec (start code) = (.ok (), l') ∧ l'.lines <+: l.lines ∧
        Tracks regs code pre' env l' := by
  induction pre using List.reverseRecOn generalizing l with
  | nil =>
    cases h
    refine ⟨List.forall_mem_nil _, fun _ => 0, fun pre' hpre' => ?_⟩
    cases List.prefix_nil.1 hpre'
    exact ⟨start code, rfl, List.prefix_rfl, rfl, ⟨List.nodup_nil, List.nodup_nil⟩, nofun, nofun⟩
  | append_singleton pre i ih =>
    have hpre₁ : NoReturn pre := fun j hj => hpre j (List.mem_append_left _ hj)
    have hi : i.opcode ≠ .ret := hpre i (by simp)
    obtain ⟨rest, hcode⟩ : ∃ rest, code = pre ++ i :: rest := by
      obtain ⟨rest, rfl⟩ := hwithin
      exact ⟨rest, by simp⟩
    have hsplit := h
    rw [lowerFrom_append hpre₁, Nat.zero_add] at hsplit
    obtain ⟨_, l₁, hexec₁, hsplit⟩ := Attempt.exec_bind_eq_ok hsplit
    obtain ⟨l₂, hlower, hdone⟩ := exec_lowerFrom_cons hsplit
    rw [if_neg hi] at hdone
    cases hdone
    obtain ⟨hproper, env, htracks⟩ := ih ((List.prefix_append pre [i]).trans hwithin) hpre₁ hexec₁
    obtain ⟨l₁', hexec₁', -, htrack⟩ := htracks pre List.prefix_rfl
    cases hexec₁.symm.trans hexec₁'
    have hlowers := (htrack.ready hcode).lowers hlower
    have htrack' := htrack.step hpre₁ hcode hi (hplain i (by simp [hcode])) hlowers
    obtain ⟨new, hextends, hselects⟩ := hlowers
    refine ⟨fun line hline => ?_, settle regs pre env l₁ l, fun pre' hpre' => ?_⟩
    · rw [hextends.lines, List.mem_append] at hline
      exact hline.elim (hproper line) hselects.isProper
    · rcases List.prefix_concat_iff.1 hpre' with rfl | hpre'
      · exact ⟨l, h, List.prefix_rfl, htrack'⟩
      · obtain ⟨l', hexec, hlines, htrack₁⟩ := htracks pre' hpre'
        refine ⟨l', hexec, hlines.trans ⟨new, hextends.lines.symm⟩, htrack₁.congr fun x hx => ?_⟩
        obtain ⟨tail, rfl⟩ := hpre'
        exact settle_of_readsFirst (readsFirst_append_left hx tail)

/-- **A whole list of instructions**: moreover, if the first return has an
    operand, its value is in the result register at the end. -/
theorem exists_environment (regs : Registers)
    (hplain : ∀ i ∈ code, ∀ x, i.Mentions x → ¬ IsScratch x)
    (h : (lowerFrom loadRight 0 code).exec (start code) = (.ok (), l)) :
    (∀ line ∈ l.lines, line.IsProper loadRight) ∧
    ∃ env, (∀ pre, pre <+: code → NoReturn pre →
        ∃ l', (lowerFrom loadRight 0 pre).exec (start code) = (.ok (), l') ∧
          l'.lines <+: l.lines ∧ Tracks regs code pre env l') ∧
      ∀ env' : Environment, (∀ x, readsFirst x code = true → env' x = env x) →
        ∀ value, returned code env' = some value → execute l.lines regs .result = value := by
  rcases noReturn_or_exists_first code with hcode | ⟨pre, i, rest, hcode, hpre, hi⟩
  · obtain ⟨hproper, env, htracks⟩ := exists_tracks regs hplain List.prefix_rfl hcode h
    refine ⟨hproper, env, fun pre hwithin _ => htracks pre hwithin, fun env' _ value hvalue => ?_⟩
    rw [← List.append_nil code, returned_append hcode] at hvalue
    cases hvalue
  · have hsplit := h
    rw [hcode, lowerFrom_append hpre, Nat.zero_add, ← hcode] at hsplit
    obtain ⟨_, l₁, hexec₁, hsplit⟩ := Attempt.exec_bind_eq_ok hsplit
    obtain ⟨l₂, hlower, hdone⟩ := exec_lowerFrom_cons hsplit
    rw [if_pos hi] at hdone
    cases hdone
    obtain ⟨hproper, env, htracks⟩ :=
      exists_tracks regs hplain (hcode ▸ List.prefix_append pre _) hpre hexec₁
    obtain ⟨l₁', hexec₁', -, htrack⟩ := htracks pre List.prefix_rfl
    cases hexec₁.symm.trans hexec₁'
    have hlowers := (htrack.ready hcode).lowers hlower
    have ⟨new, hextends, hselects⟩ := hlowers
    refine ⟨fun line hline => ?_, settle regs pre env l₁ l, fun pre' hwithin hpre' => ?_,
      fun env' henv value => htrack.returns hpre hcode hi (hplain i (by simp [hcode])) hlowers
        fun x hx => henv x ?_⟩
    · rw [hextends.lines, List.mem_append] at hline
      exact hline.elim (hproper line) hselects.isProper
    · have hwithin' := hpre'.isPrefix (hcode ▸ hwithin) hi
      obtain ⟨l', hexec, hlines, htrack'⟩ := htracks pre' hwithin'
      refine ⟨l', hexec, hlines.trans ⟨new, hextends.lines.symm⟩, htrack'.congr fun x hx => ?_⟩
      obtain ⟨tail, rfl⟩ := hwithin'
      exact settle_of_readsFirst (readsFirst_append_left hx tail)
    · rw [hcode, ← List.singleton_append, ← List.append_assoc]
      exact readsFirst_append_left hx rest

end

end Lowering

/-- **Lowering preserves the meaning of instructions.**  If no instruction
    mentions a scratch variable and the code can be lowered, every line of the
    text below its heading has one of the forms of a line, and the text can be
    read.  To run what is read comes to what the instructions do, and some
    environment explains the registers:

    * up to the first return, after the lines of each instruction, every
      variable in a register has there the value that the instructions so far
      compute for it;
    * if the first return has an operand, `a0` has its value in the end.

    Of the environment no more matters than the variables that are read before
    they are written. -/
theorem assemble_preserves_meaning (loadRight : Bool) (code : List Instruction) (regs : Registers)
    (hplain : ∀ i ∈ code, ∀ x, i.Mentions x → x ≠ Lowering.scratch 0 ∧ x ≠ Lowering.scratch 1)
    {text : String} (h : assemble loadRight code = .ok text) :
    (∃ texts : List String, text = ".text\n" ++ String.join (texts.map (· ++ "\n")) ∧
      ∀ t ∈ texts, Assembly.IsLine loadRight t) ∧
    ∃ lines, Assembly.readListing? text = some lines ∧
      ∃ env : Environment, ∀ env', (∀ x, readsFirst x code = true → env' x = env x) →
        (∀ pre, pre <+: code → NoReturn pre →
          ∃ l front, (Lowering.lowerFrom loadRight 0 pre).exec (.start code) = (.ok (), l) ∧
            Assembly.readListing? l.listing = some front ∧ front <+: lines ∧
            ∀ x r, l.allocation.register? x = some r → ¬ Lowering.IsScratch x →
              execute front regs r = performAll pre env' x) ∧
        ∀ value, returned code env' = some value → execute lines regs .a0 = value := by
  unfold assemble at h
  rcases hlower : lower loadRight code with ⟨_ | _, final⟩
  · simp [hlower] at h
  · simp only [hlower] at h
    cases h
    obtain ⟨hproper, env, htracks, hreturns⟩ := Lowering.exists_environment regs
      (fun i hi x hx => not_or.2 (hplain i hi x hx)) hlower
    refine ⟨Assembly.listing_sectionTexts hproper, final.lines,
      Assembly.readListing?_listing final.lines, env, fun env' henv =>
        ⟨fun pre hwithin hpre => ?_, hreturns env' henv⟩⟩
    obtain ⟨l, hexec, hlines, htrack⟩ := htracks pre hwithin hpre
    refine ⟨l, l.lines, hexec, Assembly.readListing?_listing l.lines, hlines, fun x r hx => ?_⟩
    refine htrack.values env' (fun y hy => henv y ?_) x r (htrack.valid.register?_eq_some_iff.1 hx)
    obtain ⟨tail, rfl⟩ := hwithin
    exact readsFirst_append_left hy tail

/-- `x` is read before it is written, so its value at the start is what its
    register holds; both constants take a register. -/
theorem assemble_preserves_meaning_scratch :
    let code : List Instruction :=
      [⟨.sub, [.var "x", .imm 3], some "x"⟩, ⟨.mul, [.imm (-2), .var "x"], some "y"⟩,
        ⟨.ret, [.var "y"], none⟩]
    let text := ".text\n    li t1, 3\n    sub t0, t0, t1\n    li a0, -2\n    mul t2, a0, t0\n" ++
      "    mv a0, t2\n"
    assemble true code = .ok text ∧
      ∃ lines, Assembly.readListing? text = some lines ∧
        ∃ env : Environment, returned code env = some (-2 * (env "x" - 3)) ∧
          execute lines (fun _ => 5) .a0 = -2 * (env "x" - 3) := by
  intro code text
  have htext : assemble true code = .ok text := rfl
  have hplain : ∀ i ∈ code, ∀ x, i.Mentions x →
      x ≠ Lowering.scratch 0 ∧ x ≠ Lowering.scratch 1 := by
    intro i hi x hx
    simp only [code, List.mem_cons, List.not_mem_nil, or_false] at hi
    rcases hi with rfl | rfl | rfl <;>
      simp only [Instruction.Mentions, Instruction.reads_iff] at hx <;>
      simp at hx <;> rcases hx with rfl | rfl <;> decide
  obtain ⟨-, lines, hlines, env, henv⟩ :=
    assemble_preserves_meaning true code (fun _ => 5) hplain htext
  have hreturned : returned code env = some (-2 * (env "x" - 3)) := by
    simp [code, returned, Instruction.perform, Instruction.value?, Operand.value, Operation.apply]
  exact ⟨htext, lines, hlines, env, hreturned, (henv env fun _ _ => rfl).2 _ hreturned⟩

end Straightline
