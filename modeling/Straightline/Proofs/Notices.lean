/-
  What the emitter makes of any notices.

  In a run the emitter only hears of actions that fit its slots.  Here it may
  be told anything, in any order: that a token is shifted which no text has,
  or that something is reduced which is not there, or by what is no
  production.  It may refuse this in the middle of taking slots off its stack,
  and be told more afterwards.  What it has emitted is not touched by this.

  * `Attempt.afterEach`: a sequence of attempts that goes on after failures;
  * `Notice`: what a machine beside a run may be told;
  * `Emitter.heed`, `Emitter.heedAll`: what the emitter makes of it;
  * `Emitter.Pops`, `Emitter.Reduces`: steps that take slots off the stack, and
    those that put a slot in place of them;
  * `Emitter.reduces_reduceBy`: every reduction is one of these;
  * `Emitter.Numbered.heed`, `Emitter.numbered_heedAll`: what a notice and a
    sequence of notices preserve;
  * `Emitter.refused_notices_leave_code`: what is refused, what is not, and what
    follows for the temporaries.
-/
import Straightline.Proofs.Temporaries

namespace Straightline

/-! ## Attempts that go on after failures -/

namespace Attempt

variable {ε σ ι : Type} {step : ι → Attempt ε σ Unit} {s : σ}

/-- The state after one attempt for each of some things, those included that
    fail. -/
def afterEach (step : ι → Attempt ε σ Unit) (s : σ) (xs : List ι) : σ :=
  xs.foldl (fun s x => ((step x).exec s).2) s

/-- What every attempt keeps, whether or not it fails, holds after all of
    them. -/
theorem afterEach_invariant {P : σ → Prop} (hstart : P s)
    (hstep : ∀ s x, P s → P ((step x).exec s).2) (xs : List ι) : P (afterEach step s xs) := by
  induction xs generalizing s with
  | nil => exact hstart
  | cons x xs ih => exact ih (hstep s x hstart)

end Attempt

/-- What a machine beside a run may be told, whether or not a run would.  A token
    need not be one of any text, and a reduction need not be by a production;
    but what is shifted is a token. -/
inductive Notice where
  | shift (token : Token)
  | reduce (ref : ProductionRef)
  | accept
  deriving DecidableEq, Repr

/-- The operation of the instruction that a reduction adds, if it adds one. -/
def Production.opcode? : Production → Option Opcode
  | .assignment => some .mov
  | .returnValue => some .ret
  | .add => some .add
  | .sub => some .sub
  | .mul => some .mul
  | _ => none

namespace Emitter

/-- What the emitter does with a notice. -/
def heed : Notice → Step Unit
  | .shift token => shift token
  | .reduce ref => reduce ref
  | .accept => pure ()

/-- The emitter after some notices, those included that it refused. -/
def heedAll (e : Emitter) (notices : List Notice) : Emitter :=
  Attempt.afterEach heed e notices

variable {α : Type} {e e' e'' : Emitter} {k n : Nat} {opcode? : Option Opcode}

/-! ## Taking slots off -/

/-- Nothing is different but that some slots may be gone. -/
structure Shortened (e e' : Emitter) : Prop where
  instructions : e'.instructions = e.instructions
  temporaries : e'.temporaries = e.temporaries
  stack : e'.stack <:+ e.stack

theorem Shortened.refl (e : Emitter) : Shortened e e :=
  ⟨rfl, rfl, List.suffix_rfl⟩

theorem Shortened.trans (h : Shortened e e') (h' : Shortened e' e'') : Shortened e e'' :=
  ⟨h'.instructions.trans h.instructions, h'.temporaries.trans h.temporaries,
    h'.stack.trans h.stack⟩

/-- The emitter without its topmost slots. -/
def without (n : Nat) (e : Emitter) : Emitter :=
  { e with stack := e.stack.drop n }

theorem shortened_without (n : Nat) (e : Emitter) : Shortened e (e.without n) :=
  ⟨rfl, rfl, List.drop_suffix n e.stack⟩

/-- A step takes `n` slots off the stack, or it is refused with some slots
    gone. -/
def Pops (n : Nat) (m : Step α) : Prop :=
  ∀ e, match m.exec e with
    | (.ok _, e') => n ≤ e.stack.length ∧ e' = e.without n
    | (.error _, e') => Shortened e e'

theorem pops_pop : Pops 1 pop := by
  rintro ⟨code, n, _ | ⟨slot, rest⟩⟩
  · exact .refl _
  · exact ⟨Nat.succ_le_succ (Nat.zero_le _), rfl⟩

theorem pops_popOperand : Pops 1 popOperand := by
  rintro ⟨code, n, _ | ⟨_ | operand, rest⟩⟩
  · exact .refl _
  · exact shortened_without 1 _
  · exact ⟨Nat.succ_le_succ (Nat.zero_le _), rfl⟩

theorem pops_popVariable : Pops 1 popVariable := by
  rintro ⟨code, n, _ | ⟨_ | ⟨name⟩ | ⟨value⟩, rest⟩⟩
  · exact .refl _
  · exact shortened_without 1 _
  · exact ⟨Nat.succ_le_succ (Nat.zero_le _), rfl⟩
  · exact shortened_without 1 _

/-! ## Reductions -/

/-- A step puts a slot in place of `n` others, and adds an instruction if it
    has an operation to add; a new temporary is handed out for its result if
    this is arithmetic.  Or the step is refused while it takes slots off. -/
def Reduces (n : Nat) (opcode? : Option Opcode) (m : Step Unit) : Prop :=
  ∀ e, match m.exec e with
    | (.ok _, e') => n ≤ e.stack.length ∧ ∃ (new : Option Instruction) (slot : Option Operand),
      new.map Instruction.opcode = opcode? ∧
      (∀ i, new = some i → i.opcode.isArithmetic = true →
        i.result = some (temporary e.temporaries)) ∧
      e' = ⟨e.instructions ++ new.toList,
        e.temporaries + (opcode?.toList.filter Opcode.isArithmetic).length,
        slot :: e.stack.drop n⟩
    | (.error _, e') => Shortened e e'

/-- Slots are taken off before the rest is done. -/
theorem Pops.bind {m : Step α} {f : α → Step Unit} (hm : Pops k m)
    (hf : ∀ a, Reduces n opcode? (f a)) : Reduces (k + n) opcode? (m >>= f) := by
  intro e
  have hfirst := hm e
  rw [Attempt.exec_bind]
  rcases hout : m.exec e with ⟨err | a, e₁⟩
  · rw [hout] at hfirst
    exact hfirst
  · rw [hout] at hfirst
    obtain ⟨hk, rfl⟩ := hfirst
    have hrest := hf a (e.without k)
    dsimp only
    rcases hout' : (f a).exec (e.without k) with ⟨err | u, e'⟩
    · rw [hout'] at hrest
      exact (shortened_without k e).trans hrest
    · rw [hout'] at hrest
      obtain ⟨hn, new, slot, hopcode, hresult, rfl⟩ := hrest
      have hlength : n ≤ e.stack.length - k := by simpa [without] using hn
      refine ⟨by omega, new, slot, hopcode, hresult, ?_⟩
      simp only [without, List.drop_drop]

/-- After slots, no more than a slot in place of them. -/
theorem reduces_push (slot : Option Operand) : Reduces 0 none (push slot) :=
  fun e => ⟨Nat.zero_le _, none, slot, rfl, nofun, by simp⟩

/-- After slots, an instruction without arithmetic. -/
theorem reduces_emit {opcode : Opcode} (h : opcode.isArithmetic = false) (operands : List Operand)
    (result : Option String) :
    Reduces 0 (some opcode) (do emit ⟨opcode, operands, result⟩; push none) := by
  intro e
  refine ⟨Nat.zero_le _, some ⟨opcode, operands, result⟩, none, rfl, ?_, ?_⟩
  · rintro _ ⟨⟩ hi
    cases h.symm.trans hi
  · simp [h]

/-- After slots, an instruction with a new temporary for its result. -/
theorem reduces_operate {opcode : Opcode} (h : opcode.isArithmetic = true) (lhs rhs : Operand) :
    Reduces 0 (some opcode) (do
      let result ← newTemporary
      emit ⟨opcode, [lhs, rhs], some result⟩
      push (some (.var result))) := by
  intro e
  refine ⟨Nat.zero_le _, some ⟨opcode, [lhs, rhs], some (temporary e.temporaries)⟩,
    some (.var (temporary e.temporaries)), rfl, ?_, ?_⟩
  · rintro _ ⟨⟩ -
    rfl
  · simp [h]

theorem reduces_popMany (n : Nat) : Reduces n none (do popMany n; push none) := by
  induction n with
  | zero => exact reduces_push none
  | succ n ih =>
    rw [popMany, bind_assoc, Nat.add_comm]
    exact pops_pop.bind fun _ => ih

theorem reduces_arithmetic {opcode : Opcode} (h : opcode.isArithmetic = true) :
    Reduces 3 (some opcode) (arithmetic opcode) :=
  pops_popOperand.bind fun rhs => pops_pop.bind fun _ => pops_popOperand.bind fun lhs =>
    reduces_operate h lhs rhs

/-- **Every reduction takes the slots for its body**, and then cannot fail any
    more. -/
theorem reduces_reduceBy (p : Production) : Reduces p.body.length p.opcode? (reduceBy p) := by
  cases p with
  | assignment =>
    exact pops_popOperand.bind fun value => pops_pop.bind fun _ => pops_popVariable.bind
      fun target => reduces_emit rfl [value] (some target)
  | returnValue =>
    exact pops_popOperand.bind fun value => pops_pop.bind fun _ =>
      reduces_emit rfl [value] none
  | add => exact reduces_arithmetic rfl
  | sub => exact reduces_arithmetic rfl
  | mul => exact reduces_arithmetic rfl
  | parentheses =>
    exact pops_pop.bind fun _ => pops_popOperand.bind fun value => pops_pop.bind fun _ =>
      reduces_push (some value)
  | expressionTerm | termFactor | factorName | factorConstant =>
    exact pops_popOperand.bind fun value => reduces_push (some value)
  | program | statementsMore | statementsLast | declaration | intType =>
    exact reduces_popMany _

/-! ## Notices -/

/-- A shift puts a slot on the stack, or it is refused and nothing is done. -/
theorem exec_shift_cases (token : Token) (e : Emitter) :
    (∃ slot, (shift token).exec e = (.ok (), { e with stack := slot :: e.stack })) ∨
      ∃ err, (shift token).exec e = (.error err, e) := by
  rcases hslot : slotFor token with err | slot
  · exact .inr ⟨err, by simp only [shift, hslot, Attempt.exec_throw]⟩
  · exact .inl ⟨slot, by simp only [shift, hslot, push, Attempt.exec_modify]⟩

/-- A reduction by what is no production is refused, and nothing is done. -/
theorem exec_reduce_cases (ref : ProductionRef) (e : Emitter) :
    (∃ p, ref = .production p) ∨ (reduce ref).exec e = (.error (.unknownProduction ref), e) := by
  cases ref with
  | production p => exact .inl ⟨p, rfl⟩
  | number n => exact .inr rfl
  | name text => exact .inr rfl
  | nothing => exact .inr rfl

theorem Shortened.numbered (h : Shortened e e') (he : e.Numbered) : e'.Numbered := by
  rw [Numbered, h.instructions, h.temporaries]
  exact he

/-- A reduction takes the next temporary, if any. -/
theorem Numbered.reduceBy (he : e.Numbered) (p : Production) :
    ((reduceBy p).exec e).2.Numbered := by
  have hreduces := reduces_reduceBy p e
  rcases hout : (Emitter.reduceBy p).exec e with ⟨err | u, e'⟩
  · rw [hout] at hreduces
    exact hreduces.numbered he
  · rw [hout] at hreduces
    obtain ⟨-, new, slot, hopcode, hresult, rfl⟩ := hreduces
    rw [Numbered] at he ⊢
    rw [List.filter_append, List.map_append, he, ← hopcode]
    cases new with
    | none => simp
    | some i =>
      by_cases hi : i.opcode.isArithmetic = true
      · simp [hi, hresult i rfl hi, List.range_succ]
      · simp [hi]

/-- **A notice leaves the temporaries in order**, whether or not it is
    refused. -/
theorem Numbered.heed (he : e.Numbered) (notice : Notice) :
    ((heed notice).exec e).2.Numbered := by
  cases notice with
  | shift token =>
    rw [Emitter.heed]
    rcases exec_shift_cases token e with ⟨slot, hexec⟩ | ⟨err, hexec⟩
    · rw [hexec]
      exact he
    · rw [hexec]
      exact he
  | reduce ref =>
    rcases exec_reduce_cases ref e with ⟨p, rfl⟩ | hexec
    · exact he.reduceBy p
    · rw [Emitter.heed, hexec]
      exact he
  | accept => exact he

theorem numbered_heedAll (notices : List Notice) : (heedAll {} notices).Numbered := by
  have hstart : Numbered {} := rfl
  exact Attempt.afterEach_invariant hstart (fun _ notice he => he.heed notice) notices

/-- A notice that is refused takes some slots at most, and none for a shift. -/
theorem shortened_of_refused {notice : Notice} {err : EmitError}
    (h : (heed notice).exec e = (.error err, e')) :
    Shortened e e' ∧ ∀ token, notice = .shift token → e' = e := by
  cases notice with
  | shift token =>
    rw [heed] at h
    rcases exec_shift_cases token e with ⟨slot, hexec⟩ | ⟨err', hexec⟩
    · cases hexec.symm.trans h
    · cases hexec.symm.trans h
      exact ⟨.refl e, fun _ _ => rfl⟩
  | reduce ref =>
    refine ⟨?_, nofun⟩
    rcases exec_reduce_cases ref e with ⟨p, rfl⟩ | hexec
    · have hreduces := reduces_reduceBy p e
      rw [show (reduceBy p).exec e = (.error err, e') from h] at hreduces
      exact hreduces
    · cases hexec.symm.trans h
      exact .refl e
  | accept => cases h

/-- **What is refused leaves the code alone.**  Take the emitter in any state,
    and tell it anything:

    * if it refuses, instructions and temporaries are as before, and of the
      stack some slots at the top are gone at most; a shift that is refused
      changes nothing at all;
    * if it makes a reduction, there was a slot for each symbol of the body, and
      one slot is in place of these; an instruction is added at the end, with
      the operation of the production, if it has one, and else none; and there
      is one temporary more for an addition, a subtraction and a
      multiplication, and for nothing else.

    So after any notices, those included that were refused, the results of the
    arithmetic are the temporaries that were handed out, in order, no two of
    which are the same. -/
theorem refused_notices_leave_code :
    (∀ (e : Emitter) (notice : Notice) (err : EmitError) (e' : Emitter),
      (heed notice).exec e = (.error err, e') →
        e'.instructions = e.instructions ∧ e'.temporaries = e.temporaries ∧
        e'.stack <:+ e.stack ∧ ∀ token, notice = .shift token → e' = e) ∧
    (∀ (e : Emitter) (p : Production) (u : Unit) (e' : Emitter),
      (heed (.reduce (.production p))).exec e = (.ok u, e') →
        p.body.length ≤ e.stack.length ∧
        (∃ slot, e'.stack = slot :: e.stack.drop p.body.length) ∧
        (∃ new : Option Instruction, e'.instructions = e.instructions ++ new.toList ∧
          new.map Instruction.opcode = p.opcode?) ∧
        e'.temporaries =
          if p ∈ [Production.add, .sub, .mul] then e.temporaries + 1 else e.temporaries) ∧
    ∀ notices : List Notice,
      let e := heedAll {} notices
      let results := (e.instructions.filter (·.opcode.isArithmetic)).map Instruction.result
      results = (List.range e.temporaries).map (fun k => some (temporary k)) ∧ results.Nodup := by
  refine ⟨fun e notice err e' h => ?_, fun e p u e' h => ?_, ?_⟩
  · obtain ⟨hshortened, hshift⟩ := shortened_of_refused h
    exact ⟨hshortened.instructions, hshortened.temporaries, hshortened.stack, hshift⟩
  · have hreduces := reduces_reduceBy p e
    rw [show (reduceBy p).exec e = (.ok u, e') from h] at hreduces
    obtain ⟨hlength, new, slot, hopcode, -, rfl⟩ := hreduces
    refine ⟨hlength, ⟨slot, rfl⟩, ⟨new, rfl, hopcode⟩, ?_⟩
    cases p <;> rfl
  · intro notices e results
    have hresults : results = (List.range e.temporaries).map fun k => some (temporary k) :=
      numbered_heedAll notices
    refine ⟨hresults, ?_⟩
    rw [hresults]
    exact List.nodup_range.map fun _ _ h => temporary_inj (Option.some.inj h)

/-- A sum is on the stack when a subtraction is announced that lacks its left
    operand.  The emitter finds that out at the third slot.  Told the rest of
    the subtraction, it makes it with the sum for its left operand. -/
theorem refused_notices_leave_code_subtraction :
    let mark (kind : Terminal) : Notice := .shift ⟨kind, "", {}⟩
    let number (text : String) : Notice := .shift ⟨.constant, text, {}⟩
    let reduction (p : Production) : Notice := .reduce (.production p)
    let sum : List Notice := [number "1", mark .plus, number "2", reduction .add]
    let e := heedAll {} (sum ++ [mark .openParen, mark .minus, number "3"])
    let e' : Emitter := { e with stack := [some (.var "%t0")] }
    let e'' := heedAll e' [mark .minus, number "3"]
    (heed (reduction .sub)).exec e = (.error .placeholder, e') ∧ e'.stack <:+ e.stack ∧
      ∃ new : Option Instruction,
        ((heed (reduction .sub)).exec e'').2.instructions = e.instructions ++ new.toList ∧
        new.map Instruction.opcode = some .sub := by
  intro mark number reduction sum e e' e''
  obtain ⟨hrefused, hmade, -⟩ := refused_notices_leave_code
  have hexec : (heed (reduction .sub)).exec e = (.error .placeholder, e') := by decide +kernel
  have hexec' : (heed (reduction .sub)).exec e'' =
      (.ok (), ((heed (reduction .sub)).exec e'').2) := by
    decide +kernel
  have hcode : e''.instructions = e.instructions := by decide +kernel
  obtain ⟨-, -, hstack, -⟩ := hrefused e _ _ _ hexec
  obtain ⟨-, -, hnew, -⟩ := hmade e'' .sub () _ hexec'
  rw [hcode] at hnew
  exact ⟨hexec, hstack, hnew⟩

end Emitter

end Straightline
