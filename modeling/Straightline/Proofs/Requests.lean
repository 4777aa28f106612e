/-
  The registers that an instruction asks for.

  To lower an instruction is to ask for one register after the other: for its
  result, for the variables that it reads, and for the constants that have to
  be loaded.  The lines are written in between, but they have no say in which
  registers are given out.  An instruction that does not fit is refused before
  it asks for anything, and a constant that is too long where it would be
  written.

  * `Instruction.misfit?`, `Instruction.refusal?`: why an instruction is refused
    though there are registers;
  * `Instruction.requests`: what an instruction asks for until then;
  * `Allocation.grantAll`: the requests of an instruction, one after the other;
  * `Lowering.asks_lower`: lowering an instruction gives out the registers that
    it asks for, and fails only if there is none for some request, or if the
    instruction is refused.
-/
import Mathlib.Algebra.Group.Nat.Defs
import Straightline.Lowering
import Straightline.Proofs.Execution
import Straightline.Proofs.Grants

namespace Straightline

/-! ## Instructions and what they ask for -/

/-- The variable that an operand is. -/
def Operand.name? : Operand → Option String
  | var name => some name
  | imm _ => none

namespace Instruction

/-- The variables that an instruction reads. -/
def sources (i : Instruction) : List String :=
  i.operands.filterMap Operand.name?

theorem mem_sources {i : Instruction} {x : String} : x ∈ i.sources ↔ i.reads x = true := by
  rw [reads_iff, sources, List.mem_filterMap]
  constructor
  · rintro ⟨_ | _, hmem, hname⟩
    · cases hname
      exact hmem
    · cases hname
  · intro hmem
    exact ⟨_, hmem, rfl⟩

/-- Whether an instruction has a known opcode, as many operands as this asks
    for, and a result exactly if it is no return.  Two constants are never
    added. -/
def isWellFormed (i : Instruction) : Bool :=
  match i.opcode, i.operands, i.result with
  | .add, [lhs, rhs], some _ => !(lhs.isImmediate && rhs.isImmediate)
  | .sub, [_, _], some _ | .mul, [_, _], some _ => true
  | .mov, [_], some _ => true
  | .ret, [], none | .ret, [_], none => true
  | _, _, _ => false

/-- The scratch variables for the constants that have to be loaded: the left
    operand of a subtraction or multiplication, and the right one if
    `loadRight` says so. -/
def loads (loadRight : Bool) (i : Instruction) : List String :=
  match i.opcode, i.operands with
  | .sub, [lhs, rhs] | .mul, [lhs, rhs] =>
    (if lhs.isImmediate then [Lowering.scratch 0] else []) ++
      if rhs.isImmediate && loadRight then [Lowering.scratch 1] else []
  | _, _ => []

/-- Why an instruction is refused before it asks for a register: the target does
    not know it, it has too few or too many operands, it adds two constants, or
    it has no variable for its result. -/
def misfit? (i : Instruction) : Option LowerError :=
  let nameless := if i.result.isNone then some (.noResult i.opcode) else none
  match i.opcode, i.operands with
  | .add, [.imm _, .imm _] => some .bothImmediate
  | .add, [_, _] | .sub, [_, _] | .mul, [_, _] | .mov, [_] => nameless
  | .ret, [] | .ret, [_] => none
  | .mov, operands | .ret, operands => some (.arity i.opcode 1 operands.length)
  | .other name, _ => some (.unsupported name)
  | opcode, operands => some (.arity opcode 2 operands.length)

end Instruction

theorem Text.isWritable_iff {value : Int} :
    isWritable value = true ↔ value.natAbs < 10 ^ digitLimit := by
  rw [isWritable, decide_eq_true_iff, Nat.length_toDigits_le_iff (by decide) (by decide)]

/-- Whether an operand is no constant that is too long to be written. -/
def Operand.isWritable : Operand → Bool
  | var _ => true
  | imm value => Text.isWritable value

namespace Instruction

/-- Whether no constant of an instruction is too long to be written. -/
def isWritable (i : Instruction) : Bool :=
  i.operands.all Operand.isWritable

/-- Why an instruction is refused though there is a register for whatever it
    asks for. -/
def refusal? (i : Instruction) : Option LowerError :=
  match i.misfit? with
  | some e => some e
  | none => if i.isWritable then none else some .tooLong

/-- The variable for whose sake an instruction asks for a register to write to.
    A return writes to the result register. -/
def target? (i : Instruction) : Option String :=
  if i.opcode = .ret then none else i.result

/-- The scratch variables for which registers are asked for in fact: none if the
    constant on the right is too long, and not the one for it if the constant
    on the left is. -/
def loaded (loadRight : Bool) (i : Instruction) : List String :=
  match i.opcode, i.operands with
  | .sub, [lhs, rhs] | .mul, [lhs, rhs] =>
    if rhs.isWritable then
      (if lhs.isImmediate then [Lowering.scratch 0] else []) ++
        if lhs.isWritable && rhs.isImmediate && loadRight then [Lowering.scratch 1] else []
    else []
  | _, _ => []

end Instruction

/-- A request for a register. -/
structure Request where
  name : String
  /-- Whether the variable is pinned as soon as it is in a register. -/
  pins : Bool
  deriving DecidableEq, Repr

namespace Instruction

variable {loadRight : Bool} {i : Instruction} {x : String}

/-- What an instruction asks for, in this order: registers for its result, for
    the variables that it reads, and for the constants that it loads. -/
def requests (loadRight : Bool) (i : Instruction) : List Request :=
  match i.misfit? with
  | some _ => []
  | none => (i.target?.toList ++ i.sources).map (⟨·, false⟩) ++ (i.loaded loadRight).map (⟨·, true⟩)

theorem requests_of_misfit?_eq_none (h : i.misfit? = none) : i.requests loadRight =
    (i.target?.toList ++ i.sources).map (⟨·, false⟩) ++ (i.loaded loadRight).map (⟨·, true⟩) := by
  rw [requests, h]

theorem refusal?_of_misfit?_eq_none (h : i.misfit? = none) :
    i.refusal? = if i.isWritable then none else some .tooLong := by
  rw [refusal?, h]

/-- The instructions that are well formed. -/
theorem isWellFormed_cases (h : i.isWellFormed = true) :
    (∃ (op : Assembly.Operation) (lhs rhs : Operand) (d : String),
      i = ⟨op.opcode, [lhs, rhs], some d⟩ ∧
        (op = .add → (lhs.isImmediate && rhs.isImmediate) = false)) ∨
    (∃ (operand : Operand) (d : String), i = ⟨.mov, [operand], some d⟩) ∨
    i = ⟨.ret, [], none⟩ ∨ ∃ operand : Operand, i = ⟨.ret, [operand], none⟩ := by
  obtain ⟨opcode, operands, result⟩ := i
  unfold isWellFormed at h
  split at h
  · next lhs rhs d _ _ _ =>
    subst_vars
    exact .inl ⟨.add, lhs, rhs, d, rfl, fun _ => by simpa only [Bool.not_eq_true'] using h⟩
  · next lhs rhs d _ _ _ =>
    subst_vars
    exact .inl ⟨.sub, lhs, rhs, d, rfl, nofun⟩
  · next lhs rhs d _ _ _ =>
    subst_vars
    exact .inl ⟨.mul, lhs, rhs, d, rfl, nofun⟩
  · next operand d _ _ _ =>
    subst_vars
    exact .inr (.inl ⟨operand, d, rfl⟩)
  · subst_vars
    exact .inr (.inr (.inl rfl))
  · next operand _ _ _ =>
    subst_vars
    exact .inr (.inr (.inr ⟨operand, rfl⟩))
  · cases h

theorem misfit?_of_isWellFormed (h : i.isWellFormed = true) : i.misfit? = none := by
  obtain ⟨op, lhs, rhs, d, rfl, hadd⟩ | ⟨operand, d, rfl⟩ | rfl | ⟨operand, rfl⟩ :=
    isWellFormed_cases h
  · cases op with
    | add => cases lhs <;> cases rhs <;> first | rfl | cases hadd rfl
    | sub | mul => rfl
  · rfl
  · rfl
  · rfl

theorem refusal?_of_isWellFormed (h : i.isWellFormed = true) :
    i.refusal? = if i.isWritable then none else some .tooLong :=
  refusal?_of_misfit?_eq_none (misfit?_of_isWellFormed h)

theorem target?_of_isWellFormed (h : i.isWellFormed = true) : i.target? = i.result := by
  obtain ⟨op, lhs, rhs, d, rfl, -⟩ | ⟨operand, d, rfl⟩ | rfl | ⟨operand, rfl⟩ :=
    isWellFormed_cases h
  · exact if_neg op.opcode_ne_ret
  · rfl
  · rfl
  · rfl

theorem result_of_target? (h : i.target? = some x) : i.result = some x := by
  unfold target? at h
  split at h
  · cases h
  · exact h

theorem loaded_subset (loadRight : Bool) (i : Instruction) :
    i.loaded loadRight ⊆ i.loads loadRight := by
  intro x hx
  unfold loaded loads at *
  grind

theorem loaded_of_isWritable (h : i.isWritable = true) :
    i.loaded loadRight = i.loads loadRight := by
  obtain ⟨opcode, operands, result⟩ := i
  have hpair : ∀ lhs rhs, operands = [lhs, rhs] →
      lhs.isWritable = true ∧ rhs.isWritable = true := by
    rintro lhs rhs rfl
    simpa [isWritable] using h
  unfold loaded loads
  grind

/-- What is asked for is the result, what is read, or a scratch variable. -/
theorem name_mem_of_mem_requests {r : Request} (h : r ∈ i.requests loadRight) :
    r.name ∈ i.result.toList ++ i.sources ++ i.loads loadRight := by
  unfold requests at h
  split at h
  · cases h
  · rw [List.mem_append, List.mem_map, List.mem_map] at h
    rcases h with ⟨x, hx, rfl⟩ | ⟨x, hx, rfl⟩
    · rw [List.mem_append, Option.mem_toList] at hx
      refine List.mem_append_left _ ?_
      rw [List.mem_append, Option.mem_toList]
      exact hx.imp_left result_of_target?
    · exact List.mem_append_right _ (loaded_subset loadRight i hx)

/-- If nothing is wrong with an instruction, it asks for all of these. -/
theorem map_name_requests (hform : i.isWellFormed = true) (hwritable : i.isWritable = true) :
    (i.requests loadRight).map Request.name =
      i.result.toList ++ i.sources ++ i.loads loadRight := by
  rw [requests_of_misfit?_eq_none (misfit?_of_isWellFormed hform), target?_of_isWellFormed hform,
    loaded_of_isWritable hwritable]
  simp [Function.comp_def]

theorem isScratch_of_mem_loads (h : x ∈ i.loads loadRight) :
    x = Lowering.scratch 0 ∨ x = Lowering.scratch 1 := by
  unfold loads at h
  split at h
  · grind
  · grind
  · cases h

/-- A request is for a variable that the instruction mentions, or for a
    scratch variable, which is then pinned. -/
theorem mem_requests {r : Request} (h : r ∈ i.requests loadRight) :
    i.Mentions r.name ∨
      r.pins = true ∧ (r.name = Lowering.scratch 0 ∨ r.name = Lowering.scratch 1) := by
  unfold requests at h
  split at h
  · cases h
  · rw [List.mem_append, List.mem_map, List.mem_map] at h
    rcases h with ⟨x, hx, rfl⟩ | ⟨x, hx, rfl⟩
    · rw [List.mem_append, Option.mem_toList, mem_sources] at hx
      exact .inl (hx.imp_left result_of_target?)
    · exact .inr ⟨rfl, isScratch_of_mem_loads (loaded_subset loadRight i hx)⟩

end Instruction

/-! ## Granting requests -/

namespace Allocation

/-- Grants a request. -/
def grant (a : Allocation) (r : Request) : Except Exhausted Allocation :=
  match a.obtain r.name with
  | .ok (_, a') => .ok (if r.pins then a'.pin r.name else a')
  | .error e => .error e

/-- Grants some requests, one after the other. -/
def grantAll (a : Allocation) (requests : List Request) : Except Exhausted Allocation :=
  requests.foldlM grant a

theorem grantAll_cons (a : Allocation) (r : Request) (rest : List Request) :
    a.grantAll (r :: rest) =
      match a.grant r with
      | .ok a' => a'.grantAll rest
      | .error e => .error e := by
  rw [grantAll, List.foldlM_cons]
  cases a.grant r <;> rfl

theorem grantAll_append (a : Allocation) (front back : List Request) :
    a.grantAll (front ++ back) =
      match a.grantAll front with
      | .ok a' => a'.grantAll back
      | .error e => .error e := by
  rw [grantAll, List.foldlM_append]
  show (a.grantAll front >>= fun a' => a'.grantAll back) = _
  cases a.grantAll front <;> rfl

variable {a a' : Allocation} {r : Request} {requests : List Request} {P : String → Prop}

theorem later_of_grant (hname : P r.name) (h : a.grant r = .ok a') : Later P a a' := by
  unfold grant at h
  split at h
  · next granted a₁ hobtain =>
    have hlater := later_of_obtain hname hobtain
    cases h
    split
    · exact hlater.trans (later_of_pin a₁ r.name)
    · exact hlater
  · cases h

/-- Who asks for a register has one then. -/
theorem mem_of_grant (ha : a.Valid) (h : a.grant r = .ok a') :
    (∃ s, (r.name, s) ∈ a'.assigned) ∧ (r.pins = true → r.name ∈ a'.pinned) := by
  unfold grant at h
  split at h
  · next granted a₁ hobtain =>
    have hmem := mem_of_obtain ha hobtain
    cases h
    split
    · exact ⟨⟨_, hmem⟩, fun _ => List.mem_cons_self⟩
    · next hpins => exact ⟨⟨_, hmem⟩, fun h => absurd h hpins⟩
  · cases h

theorem later_of_grantAll (hnames : ∀ r ∈ requests, P r.name) (h : a.grantAll requests = .ok a') :
    Later P a a' := by
  induction requests generalizing a with
  | nil =>
    cases h
    exact .refl _
  | cons r rest ih =>
    rw [List.forall_mem_cons] at hnames
    rw [grantAll_cons] at h
    split at h
    · next a₁ hgrant => exact (later_of_grant hnames.1 hgrant).trans (ih hnames.2 h)
    · cases h

/-- Who asks for a register keeps it while the other requests are granted, if
    it is needed anyway or pinned. -/
theorem mem_of_grantAll (ha : a.Valid) (h : a.grantAll requests = .ok a') (hr : r ∈ requests)
    (hneeded : a.isNeeded r.name = true ∨ r.pins = true) :
    ∃ s, (r.name, s) ∈ a'.assigned := by
  induction requests generalizing a with
  | nil => cases hr
  | cons q rest ih =>
    rw [grantAll_cons] at h
    split at h
    · next a₁ hgrant =>
      have hlater : Later (fun _ => True) a a₁ := later_of_grant trivial hgrant
      have hvalid := hlater.valid ha
      rcases List.mem_cons.1 hr with rfl | hr
      · obtain ⟨⟨s, hs⟩, hpinned⟩ := mem_of_grant ha hgrant
        have hneeded₁ : a₁.isNeeded r.name = true :=
          hneeded.elim hlater.isNeeded fun hpins => isNeeded_of_mem_pinned (hpinned hpins)
        have hrest : Later (fun _ => True) a₁ a' := later_of_grantAll (fun _ _ => trivial) h
        exact ⟨s, hrest.kept hneeded₁ hs⟩
      · exact ih hvalid h hr (hneeded.imp_left hlater.isNeeded)
    · cases h

end Allocation

/-! ## Lowering as a list of requests -/

/-- The refusal of something that cannot be written. -/
def Lowering.tooLong? (writable : Bool) : Option LowerError :=
  if writable then none else some .tooLong

section

variable {loadRight : Bool} {opcode : Opcode} (hopcode : opcode = .sub ∨ opcode = .mul)
  (lhs rhs : Operand) (d : String)
include hopcode

/-- What a subtraction or multiplication asks for. -/
theorem Instruction.requests_binary : requests loadRight ⟨opcode, [lhs, rhs], some d⟩ =
    ⟨d, false⟩ :: ((lhs.name?.toList ++ rhs.name?.toList).map (⟨·, false⟩) ++
      if rhs.isWritable then
        (if lhs.isImmediate then [⟨Lowering.scratch 0, true⟩] else []) ++
          if lhs.isWritable && rhs.isImmediate && loadRight then [⟨Lowering.scratch 1, true⟩]
          else []
      else []) := by
  have hfit : misfit? ⟨opcode, [lhs, rhs], some d⟩ = none := by
    rcases hopcode with rfl | rfl <;> rfl
  rw [requests_of_misfit?_eq_none hfit]
  rcases hopcode with rfl | rfl <;> cases lhs <;> cases rhs <;>
    simp [target?, sources, loaded, List.filterMap_cons, Operand.name?, apply_ite (List.map _)]

theorem Instruction.refusal?_binary : refusal? ⟨opcode, [lhs, rhs], some d⟩ =
    Lowering.tooLong? (lhs.isWritable && rhs.isWritable) := by
  rcases hopcode with rfl | rfl <;>
    simp [refusal?, misfit?, isWritable, Lowering.tooLong?]

end

namespace Lowering

variable {α β : Type} {loadRight : Bool} {i : Instruction}

/-- A step of lowering gives out the registers of some requests.  It fails
    exactly if one of them cannot be granted, or if it is refused for another
    reason then. -/
def Asks (m : Step α) (requests : List Request) (refusal? : Option LowerError) : Prop :=
  ∀ l : Lowering,
    match l.allocation.grantAll requests with
    | .ok a => ∃ l', l'.allocation = a ∧
      match refusal? with
      | none => ∃ out, m.exec l = (.ok out, l')
      | some e => m.exec l = (.error e, l')
    | .error e => ∃ l', m.exec l = (.error (.exhausted e), l')

/-- A step that may be refused, and one after it. -/
theorem Asks.bind {m : Step α} {f : α → Step β} {front back : List Request}
    {first? second? : Option LowerError} (hm : Asks m front first?)
    (hf : ∀ out, Asks (f out) back second?) :
    Asks (m >>= f) (front ++ if first?.isNone then back else []) (first?.or second?) := by
  intro l
  have hl := hm l
  rw [Allocation.grantAll_append, Attempt.exec_bind]
  cases hfront : l.allocation.grantAll front with
  | error e =>
    rw [hfront] at hl
    obtain ⟨l', hexec⟩ := hl
    exact ⟨l', by rw [hexec]⟩
  | ok a =>
    rw [hfront] at hl
    cases first? with
    | some e =>
      obtain ⟨l', rfl, hexec⟩ := hl
      rw [show m.exec l = (.error e, l') from hexec]
      exact ⟨l', rfl, rfl⟩
    | none =>
      obtain ⟨l₁, rfl, out, hexec⟩ := hl
      rw [hexec]
      exact hf out l₁

theorem asks_pure (out : α) : Asks (pure out) [] none :=
  fun l => ⟨l, rfl, out, rfl⟩

theorem asks_throw (e : LowerError) : Asks (throw e : Step α) [] (some e) :=
  fun l => ⟨l, rfl, rfl⟩

theorem asks_requireWritable (value : Int) :
    Asks (requireWritable value) [] (tooLong? (Text.isWritable value)) := by
  unfold requireWritable tooLong?
  split
  · exact asks_pure ()
  · exact asks_throw .tooLong

theorem asks_emit {line : Assembly.Line} (h : line.number? = none) : Asks (emit line) [] none := by
  rw [emit, Assembly.Line.isWritable, h]
  exact fun l => ⟨l.write line, rfl, (), rfl⟩

theorem asks_emit_number {line : Assembly.Line} (value : Int) (h : line.number? = some value) :
    Asks (emit line) [] (tooLong? (Text.isWritable value)) := by
  rw [emit, Assembly.Line.isWritable, h, Option.all_some, tooLong?]
  split
  · exact fun l => ⟨l.write line, rfl, (), rfl⟩
  · exact asks_throw .tooLong

theorem asks_register (name : String) : Asks (register name) [⟨name, false⟩] none := by
  intro l
  simp only [Allocation.grantAll_cons, Allocation.grant, exec_register]
  cases l.allocation.obtain name with
  | error e => exact ⟨l, rfl⟩
  | ok granted => exact ⟨_, rfl, _, rfl⟩

theorem asks_load (number : Nat) (value : Int) :
    Asks (load number value) [⟨scratch number, true⟩] (tooLong? (Text.isWritable value)) := by
  have hregister : Asks (scratchRegister number) [⟨scratch number, true⟩] none := by
    intro l
    simp only [Allocation.grantAll_cons, Allocation.grant, scratchRegister, exec_register,
      Attempt.exec_bind]
    cases l.allocation.obtain (scratch number) with
    | error e => exact ⟨l, rfl⟩
    | ok granted => exact ⟨_, rfl, _, rfl⟩
  have hload : Asks (load number value) _ _ := hregister.bind fun r =>
    (asks_emit_number value rfl).bind fun _ => asks_pure r
  simpa using hload

/-- An instruction that fits is refused for too long a constant only. -/
theorem asks_of_misfit?_eq_none {m : Step α} {requests : List Request}
    {refusal? : Option LowerError} (h : i.misfit? = none) (hm : Asks m requests refusal?)
    (hrequests : requests = (i.target?.toList ++ i.sources).map (⟨·, false⟩) ++
      (i.loaded loadRight).map (⟨·, true⟩))
    (hrefusal : refusal? = tooLong? i.isWritable) : Asks m (i.requests loadRight) i.refusal? := by
  rw [Instruction.requests_of_misfit?_eq_none h, Instruction.refusal?_of_misfit?_eq_none h,
    ← hrequests]
  rw [hrefusal] at hm
  exact hm

section

variable {operands : List Operand} {result : Option String}

theorem asks_lowerAdd (loadRight : Bool) :
    Asks (lowerAdd ⟨.add, operands, result⟩)
      (Instruction.requests loadRight ⟨.add, operands, result⟩)
      (Instruction.refusal? ⟨.add, operands, result⟩) := by
  rcases operands with _ | ⟨x | a, _ | ⟨y | b, _ | ⟨c, rest⟩⟩⟩ <;> rcases result with _ | d
  case cons.var.cons.var.nil.some =>
    exact (asks_register d).bind fun _ => (asks_register x).bind fun _ =>
      (asks_register y).bind fun _ => asks_emit rfl
  case cons.var.cons.imm.nil.some =>
    refine asks_of_misfit?_eq_none rfl ((asks_register d).bind fun _ =>
      (asks_register x).bind fun _ => asks_emit_number b rfl) rfl ?_
    simp [Instruction.isWritable, Operand.isWritable]
  case cons.imm.cons.var.nil.some =>
    refine asks_of_misfit?_eq_none rfl ((asks_register d).bind fun _ =>
      (asks_register y).bind fun _ => asks_emit_number a rfl) rfl ?_
    simp [Instruction.isWritable, Operand.isWritable]
  -- All others are refused before they ask for anything.
  all_goals exact asks_throw _

/-- The end of a subtraction or multiplication with a constant on the right. -/
theorem asks_rightConstant_bind (loadRight : Bool) (op : Assembly.Operation) (d r : Register)
    (value : Int) :
    Asks (rightConstant loadRight value >>= fun source => emit (.operate op d r source))
      (if loadRight then [⟨scratch 1, true⟩] else []) (tooLong? (Text.isWritable value)) := by
  cases loadRight with
  | false => exact asks_emit_number value rfl
  | true =>
    have h := (asks_load 1 value).bind fun s =>
      asks_emit (show (Assembly.Line.operate op d r (.register s)).number? = none from rfl)
    simpa [rightConstant] using h

theorem asks_lowerBinary (loadRight : Bool) (op : Assembly.Operation) {opcode : Opcode}
    (hopcode : opcode = .sub ∨ opcode = .mul) :
    Asks (lowerBinary loadRight op ⟨opcode, operands, result⟩)
      (Instruction.requests loadRight ⟨opcode, operands, result⟩)
      (Instruction.refusal? ⟨opcode, operands, result⟩) := by
  have hd : ∀ d, Asks (destination ⟨opcode, operands, some d⟩) [⟨d, false⟩] none := asks_register
  rcases operands with _ | ⟨x | a, _ | ⟨y | b, _ | ⟨c, rest⟩⟩⟩ <;> rcases result with _ | d
  case cons.var.cons.var.nil.some =>
    rw [Instruction.requests_binary hopcode, Instruction.refusal?_binary hopcode]
    exact (hd d).bind fun _ => (asks_register x).bind fun _ =>
      (asks_register y).bind fun _ => asks_emit rfl
  case cons.var.cons.imm.nil.some =>
    have hsteps : Asks (lowerBinary loadRight op ⟨opcode, [.var x, .imm b], some d⟩) _ _ :=
      (hd d).bind fun _ => (asks_register x).bind fun _ => (asks_requireWritable b).bind fun _ =>
        asks_rightConstant_bind loadRight op _ _ b
    rw [Instruction.requests_binary hopcode, Instruction.refusal?_binary hopcode]
    cases loadRight <;> cases hb : Text.isWritable b <;>
      simpa [Operand.name?, Operand.isWritable, Operand.isImmediate, tooLong?, hb] using hsteps
  case cons.imm.cons.var.nil.some =>
    have hsteps : Asks (lowerBinary loadRight op ⟨opcode, [.imm a, .var y], some d⟩) _ _ :=
      (hd d).bind fun _ => (asks_register y).bind fun _ => (asks_load 0 a).bind fun _ =>
        asks_emit rfl
    rw [Instruction.requests_binary hopcode, Instruction.refusal?_binary hopcode]
    simpa [Operand.name?, Operand.isWritable, Operand.isImmediate] using hsteps
  case cons.imm.cons.imm.nil.some =>
    have hsteps : Asks (lowerBinary loadRight op ⟨opcode, [.imm a, .imm b], some d⟩) _ _ :=
      (hd d).bind fun _ => (asks_requireWritable b).bind fun _ => (asks_load 0 a).bind fun _ =>
        asks_rightConstant_bind loadRight op _ _ b
    rw [Instruction.requests_binary hopcode, Instruction.refusal?_binary hopcode]
    cases loadRight <;> cases ha : Text.isWritable a <;> cases hb : Text.isWritable b <;>
      simpa [Operand.name?, Operand.isWritable, Operand.isImmediate, tooLong?, ha, hb] using hsteps
  all_goals rcases hopcode with rfl | rfl <;> exact asks_throw _

theorem asks_lowerMove (loadRight : Bool) :
    Asks (lowerMove ⟨.mov, operands, result⟩)
      (Instruction.requests loadRight ⟨.mov, operands, result⟩)
      (Instruction.refusal? ⟨.mov, operands, result⟩) := by
  rcases operands with _ | ⟨x | a, _ | ⟨b, rest⟩⟩ <;> rcases result with _ | d
  case cons.var.nil.some =>
    exact (asks_register d).bind fun _ => (asks_register x).bind fun _ => asks_emit rfl
  case cons.imm.nil.some =>
    refine asks_of_misfit?_eq_none rfl
      ((asks_register d).bind fun _ => asks_emit_number a rfl) rfl ?_
    simp [Instruction.isWritable, Operand.isWritable]
  all_goals exact asks_throw _

theorem asks_lowerReturn (loadRight : Bool) :
    Asks (lowerReturn ⟨.ret, operands, result⟩)
      (Instruction.requests loadRight ⟨.ret, operands, result⟩)
      (Instruction.refusal? ⟨.ret, operands, result⟩) := by
  rcases operands with _ | ⟨x | a, _ | ⟨b, rest⟩⟩
  · exact asks_pure ()
  · exact (asks_register x).bind fun _ => asks_emit rfl
  · exact asks_throw _
  · refine asks_of_misfit?_eq_none rfl (asks_emit_number a rfl) rfl ?_
    simp [Instruction.isWritable, Operand.isWritable]
  · exact asks_throw _

end

/-- **Lowering an instruction gives out the registers that it asks for**, and
    fails only if there is none for some request, or if the instruction is
    refused. -/
theorem asks_lower (loadRight : Bool) (i : Instruction) :
    Asks (lower loadRight i) (i.requests loadRight) i.refusal? := by
  obtain ⟨opcode, operands, result⟩ := i
  cases opcode with
  | add => exact asks_lowerAdd loadRight
  | sub => exact asks_lowerBinary loadRight .sub (.inl rfl)
  | mul => exact asks_lowerBinary loadRight .mul (.inr rfl)
  | mov => exact asks_lowerMove loadRight
  | ret => exact asks_lowerReturn loadRight
  | other name => exact asks_throw _

end Lowering

end Straightline
