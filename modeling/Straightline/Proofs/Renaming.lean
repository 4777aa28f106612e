/-
  Renaming the variables of some code.

  Lowering compares names with each other and with those of the scratch
  variables, and does nothing else with them.  If all variables are renamed by
  an injective function that leaves the scratch variables alone, each step of
  lowering does the same as before: it finds the same register free, takes one
  from the renamed victim, and fails where it failed.

  * `Allocation.rename`, `LowerError.rename`;
  * `Allocation.obtain_rename`: renaming and giving out registers;
  * `Lowering.Renamed`, `Lowering.coupling_renamed`: two runs that do the same
    but for the names.

  A renaming that is injective on the variables of the code is as good as one
  that is injective on all names, since it can be extended to one
  (`exists_injective_extension`).
-/
import Mathlib.SetTheory.Cardinal.Arithmetic
import Straightline.Proofs.Coupling
import Straightline.Proofs.Pressure

namespace Straightline

open Attempt (Failures Related Relates relates_modify relates_pure)

variable {f : String → String}

/-! ## Instructions -/

theorem Operand.rename_injective (hf : Function.Injective f) :
    Function.Injective (Operand.rename f) := by
  rintro (x | a) (y | b) h
  · rw [hf (Operand.var.inj h)]
  · cases h
  · cases h
  · exact h

theorem Instruction.reads_rename (hf : Function.Injective f) (i : Instruction) (x : String) :
    (i.rename f).reads (f x) = i.reads x := by
  rw [Bool.eq_iff_iff, reads_iff, reads_iff]
  exact List.mem_map_of_injective (a := .var x) (Operand.rename_injective hf)

/-- Two renamings that agree on the variables of an instruction do the same
    to it. -/
theorem Instruction.rename_congr {g : String → String} {i : Instruction}
    (h : ∀ x, i.Mentions x → f x = g x) : i.rename f = i.rename g := by
  have hoperands : i.operands.map (Operand.rename f) = i.operands.map (Operand.rename g) := by
    refine List.map_congr_left fun operand hoperand => ?_
    cases operand with
    | imm value => rfl
    | var x => exact congrArg Operand.var (h x (.inr (reads_iff.2 hoperand)))
  have hresult : i.result.map f = i.result.map g :=
    Option.map_congr fun x hx => h x (.inl hx)
  rw [rename, rename, hoperands, hresult]

/-! ## Registers -/

/-- The way in which a renamed variable came by its register. -/
def Grant.rename (f : String → String) : Grant → Grant
  | .held r => .held r
  | .fresh r => .fresh r
  | .taken r victim => .taken r (f victim)

@[simp] theorem Grant.register_rename (g : Grant) : (g.rename f).register = g.register := by
  cases g <;> rfl

/-- A refusal of a register to a renamed variable. -/
def Exhausted.rename (f : String → String) (e : Exhausted) : Exhausted :=
  ⟨f e.name, e.position⟩

namespace Allocation

/-- An assignment of registers with all variables renamed. -/
def rename (f : String → String) (a : Allocation) : Allocation :=
  ⟨a.code.map (·.rename f), a.position, a.pinned.map f, a.assigned.map (Prod.map f id)⟩

variable {a : Allocation} {x : String}

theorem rename_advance (a : Allocation) (position : Int) (result : Option String) :
    (a.rename f).advance position (result.map f) = (a.advance position result).rename f := by
  cases result <;> rfl

theorem free?_rename (a : Allocation) : (a.rename f).free? = a.free? := by
  simp only [free?, rename, List.any_map]
  rfl

section

variable (hf : Function.Injective f)
include hf

theorem register?_rename (a : Allocation) (x : String) :
    (a.rename f).register? (f x) = a.register? x := by
  show (a.assigned.map _).lookup (f x) = a.assigned.lookup x
  induction a.assigned with
  | nil => rfl
  | cons entry assigned ih =>
    obtain ⟨y, r⟩ := entry
    have hsame : (f x == f y) = (x == y) := by
      rw [Bool.eq_iff_iff, beq_iff_eq, beq_iff_eq]
      exact hf.eq_iff
    rw [List.map_cons, Prod.map_apply, List.lookup_cons, List.lookup_cons, hsame, ih]
    rfl

theorem isNeeded_rename (a : Allocation) (x : String) :
    (a.rename f).isNeeded (f x) = a.isNeeded x := by
  have hpinned : (a.pinned.map f).contains (f x) = a.pinned.contains x := by
    rw [Bool.eq_iff_iff, List.contains_iff_mem, List.contains_iff_mem]
    exact List.mem_map_of_injective hf
  have hahead : ((a.rename f).ahead).any (·.reads (f x)) = a.ahead.any (·.reads x) := by
    show ((a.code.map _).drop _).any _ = (a.code.drop _).any _
    rw [← List.map_drop, List.any_map]
    exact congrArg _ (funext fun i => i.reads_rename hf x)
  rw [isNeeded, isNeededIn, hahead]
  show ((a.pinned.map f).contains (f x) || _ || _) = _
  rw [hpinned]
  rfl

theorem victim?_rename (a : Allocation) : (a.rename f).victim? = a.victim?.map (Prod.map f id) := by
  show (a.assigned.map (Prod.map f id)).find? (fun entry => !(a.rename f).isNeeded entry.1) = _
  rw [List.find?_map]
  refine congrArg _ (congrArg (fun p => a.assigned.find? p) (funext fun entry => ?_))
  exact congrArg _ (a.isNeeded_rename hf entry.1)

/-- **Renaming and giving out registers.**  A renamed variable gets the register
    that the variable gets. -/
theorem obtain_rename (a : Allocation) (x : String) :
    (a.rename f).obtain (f x) =
      match a.obtain x with
      | .ok (g, a') => .ok (g.rename f, a'.rename f)
      | .error e => .error (e.rename f) := by
  rw [obtain, obtain, a.register?_rename hf, free?_rename, a.victim?_rename hf]
  rcases a.register? x with _ | r
  · rcases a.free? with _ | r
    · rcases a.victim? with _ | ⟨victim, r⟩
      · rfl
      · have hkept : (a.assigned.map (Prod.map f id)).filter (·.1 ≠ f victim) =
            (a.assigned.filter (·.1 ≠ victim)).map (Prod.map f id) := by
          rw [List.filter_map]
          refine congrArg _ (congrArg (fun p => a.assigned.filter p) (funext fun entry => ?_))
          simp [hf.eq_iff]
        simp only [Option.map_some, rename, Prod.map_fst, hkept, List.map_append]
        rfl
    · simp only [rename, List.map_append]
      rfl
  · rfl

end

end Allocation

/-! ## Steps of lowering -/

/-- A refusal with the variable that it names renamed. -/
def LowerError.rename (f : String → String) : LowerError → LowerError
  | .exhausted e => .exhausted (e.rename f)
  | e => e

/-- A refusal without the name of a variable. -/
def LowerError.nameless : LowerError → LowerError
  | .exhausted e => .exhausted ⟨"", e.position⟩
  | e => e

@[simp] theorem LowerError.nameless_rename (e : LowerError) :
    (e.rename f).nameless = e.nameless := by
  cases e <;> rfl

namespace Lowering

/-- Two states that are the same but for the names.  What was said about
    registers may differ, as it names them. -/
structure Renamed (f : String → String) (l l' : Lowering) : Prop where
  allocation : l'.allocation = l.allocation.rename f
  lines : l'.lines = l.lines

/-- Both runs fail, and for the same reason but for the names. -/
def renamedFailures (f : String → String) : Failures LowerError Lowering where
  both e e' l l' := e' = e.rename f ∧ Renamed f l l'
  second _ := False

section

variable (hf : Function.Injective f)
include hf

theorem relates_register_rename (name : String) :
    Relates (renamedFailures f) (Renamed f) (Renamed f) Eq (register name) (register (f name)) := by
  intro l l' hl
  rw [exec_register, exec_register, hl.allocation, l.allocation.obtain_rename hf]
  rcases l.allocation.obtain name with e | ⟨granted, a⟩
  · exact .failed ⟨rfl, hl⟩
  · exact .ok granted.register_rename.symm ⟨rfl, hl.lines⟩

/-- **Renaming and lowering one instruction.** -/
theorem coupling_renamed (hscratch : ∀ x, IsScratch x → f x = x) (loadRight : Bool)
    (i : Instruction) :
    Coupling (renamedFailures f) f loadRight i Eq (fun _ => Renamed f) where
  refl _ := rfl
  weaken := id
  write {_ l l' line line'} hl hline := by
    refine ⟨hl.allocation, ?_⟩
    show l'.lines ++ [line'] = l.lines ++ [line]
    rw [hl.lines, hline.eq fun _ _ => Eq.symm]
  refuse {_ _ _ e} hl he := by
    refine ⟨?_, hl⟩
    cases e with
    | exhausted x => exact absurd rfl (he x)
    | _ => rfl
  target _ name _ := relates_register_rename hf name
  source _ name _ _ := relates_register_rename hf name
  constant _ number hnumber := by
    have hloads := Instruction.loaded_subset loadRight i hnumber
    have hfixed : f (scratch number) = scratch number :=
      hscratch _ (Instruction.isScratch_of_mem_loads hloads)
    have hregister := relates_register_rename hf (scratch number)
    rw [hfixed] at hregister
    refine hregister.bind fun r r' hr => (relates_modify fun l l' hl => ?_).bind fun _ _ _ =>
      relates_pure hr
    refine ⟨?_, hl.lines⟩
    show l'.allocation.pin (scratch number) = _
    rw [hl.allocation]
    simp only [Allocation.pin, Allocation.rename, List.map_cons, hfixed]

/-- **Renaming and lowering a run of instructions.** -/
theorem related_lower_rename (hscratch : ∀ x, IsScratch x → f x = x) (loadRight : Bool)
    (code : List Instruction) :
    Related (renamedFailures f) (Renamed f) (fun _ _ => True) (Straightline.lower loadRight code)
      (Straightline.lower loadRight (code.map (·.rename f))) := by
  have hrun := relates_lowerFrom (S := fun _ => Renamed f) (R := fun _ _ _ => Renamed f)
    (fun _ i _ _ _ => coupling_renamed hf hscratch loadRight i)
    ?_ (fun _ _ _ _ hl => hl) (List.nil_append code).symm (List.forall_mem_nil _)
  · exact (hrun.mono (fun _ _ ⟨_, hl⟩ => hl) fun _ _ h => h) _ _ ⟨rfl, rfl⟩
  · intro p i l l' hl
    refine ⟨?_, hl.lines⟩
    show l'.allocation.advance p (i.result.map f) = _
    rw [hl.allocation, l.allocation.rename_advance]
    rfl

end

end Lowering

/-! ## Whole lists -/

/-- The variables of some code. -/
def variablesOf (code : List Instruction) : Set String :=
  {x | ∃ i ∈ code, i.Mentions x}

theorem mem_variablesOf {code : List Instruction} {x : String} :
    x ∈ variablesOf code ↔ x ∈ code.flatMap Instruction.names := by
  simp only [List.mem_flatMap, Instruction.mem_names]
  rfl

theorem variablesOf_finite (code : List Instruction) : (variablesOf code).Finite :=
  (code.flatMap Instruction.names).finite_toSet.subset fun _ => mem_variablesOf.1

/-- An injective renaming of finitely many names can be extended to all. -/
theorem exists_injective_extension {names : Set String} (hnames : names.Finite)
    (hf : Set.InjOn f names) : ∃ g, Function.Injective g ∧ Set.EqOn g f names := by
  have hfew : Cardinal.mk names < Cardinal.mk String :=
    (Cardinal.lt_aleph0_iff_finite.2 hnames).trans_le (Cardinal.aleph0_le_mk String)
  obtain ⟨g, hg⟩ := Cardinal.extend_function_of_lt ⟨names.domRestrict f, hf.injective⟩ hfew
    ⟨Equiv.refl String⟩
  exact ⟨g, g.injective, fun x hx => hg ⟨x, hx⟩⟩

/-- A renaming of the variables of some code can be extended to all names so
    that the scratch variables keep theirs. -/
theorem exists_renaming {code : List Instruction} (hf : Set.InjOn f (variablesOf code))
    (hplain : ∀ x ∈ variablesOf code, ¬ Lowering.IsScratch x ∧ ¬ Lowering.IsScratch (f x)) :
    ∃ g, Function.Injective g ∧ (∀ x, Lowering.IsScratch x → g x = x) ∧
      Set.EqOn g f (variablesOf code) := by
  classical
  let f' : String → String := fun x => if Lowering.IsScratch x then x else f x
  have hscratch : ∀ x, Lowering.IsScratch x → f' x = x := fun x hx => if_pos hx
  have hrenamed : ∀ x ∈ variablesOf code, f' x = f x := fun x hx => if_neg (hplain x hx).1
  have hfinite : (variablesOf code ∪ {Lowering.scratch 0, Lowering.scratch 1}).Finite :=
    (variablesOf_finite code).union (Set.toFinite _)
  have hinj : Set.InjOn f' (variablesOf code ∪ {Lowering.scratch 0, Lowering.scratch 1}) := by
    rintro x (hx | hx) y (hy | hy) h
    · rw [hrenamed x hx, hrenamed y hy] at h
      exact hf hx hy h
    · rw [hrenamed x hx, hscratch y hy] at h
      exact absurd (h ▸ hy) (hplain x hx).2
    · rw [hscratch x hx, hrenamed y hy] at h
      exact absurd (h ▸ hx) (hplain y hy).2
    · rw [hscratch x hx, hscratch y hy] at h
      exact h
  obtain ⟨g, hg, heq⟩ := exists_injective_extension hfinite hinj
  exact ⟨g, hg, fun x hx => (heq (.inr hx)).trans (hscratch x hx),
    fun x hx => (heq (.inl hx)).trans (hrenamed x hx)⟩

/-- **Names do not matter.**  Let the variables of some code be renamed, no two
    of them to the same name, where neither the old names nor the new ones are
    those of scratch variables.  The new code has the assembly text of the old
    one.  If the old code cannot be lowered the new one cannot be either: it
    fails with the same refusal, but for the name of a variable, at the same
    instruction, after the same lines. -/
theorem assemble_rename (loadRight : Bool) (code : List Instruction) (f : String → String)
    (hf : Set.InjOn f (variablesOf code))
    (hplain : ∀ x ∈ variablesOf code, ¬ Lowering.IsScratch x ∧ ¬ Lowering.IsScratch (f x)) :
    let renamed := code.map (·.rename f)
    (∀ text, assemble loadRight code = .ok text → assemble loadRight renamed = .ok text) ∧
    ∀ e, assemble loadRight code = .error e →
      ∃ e', assemble loadRight renamed = .error e' ∧ e'.nameless = e.nameless ∧
        (lower loadRight renamed).2.allocation.position =
          (lower loadRight code).2.allocation.position ∧
        (lower loadRight renamed).2.lines = (lower loadRight code).2.lines := by
  intro renamed
  obtain ⟨g, hg, hscratch, heq⟩ := exists_renaming hf hplain
  have hrenamed : renamed = code.map (·.rename g) :=
    List.map_congr_left fun i hi => Instruction.rename_congr fun x hx => (heq ⟨i, hi, hx⟩).symm
  have hrelated := Lowering.related_lower_rename hg hscratch loadRight code
  rw [← hrenamed] at hrelated
  simp only [assemble]
  generalize lower loadRight code = first at hrelated ⊢
  generalize lower loadRight renamed = second at hrelated ⊢
  cases hrelated with
  | ok _ h =>
    constructor
    · intro text htext
      rw [← htext]
      simp only [Lowering.listing, Lowering.texts, h.lines]
    · intro e he
      cases he
  | failed hboth =>
    obtain ⟨rfl, h⟩ := hboth
    constructor
    · intro text htext
      cases htext
    · intro e he
      cases he
      refine ⟨_, rfl, LowerError.nameless_rename _, ?_, h.lines⟩
      rw [h.allocation]
      rfl
  | second hsecond => exact hsecond.elim

/-- Sixteen variables, two of which exchange their names.  If they are not read
    the last one takes over the register of the first one; if all are read
    there is no register for the last one. -/
theorem assemble_rename_swap :
    let names := ["a", "b", "c", "d", "e", "f", "g", "h", "i", "j", "k", "l", "m", "n", "o", "p"]
    let sets : List Instruction := names.map fun x => ⟨.mov, [.imm 7], some x⟩
    let returns : List Instruction := names.map fun x => ⟨.ret, [.var x], none⟩
    let rest : List Instruction := [⟨.sub, [.imm 1, .imm 2], some "a"⟩, ⟨.ret, [.var "a"], none⟩]
    let swap := Instruction.rename (Equiv.swap "a" "p")
    (∃ text, assemble true (sets ++ rest) = .ok text ∧
      assemble true ((sets ++ rest).map swap) = .ok text) ∧
    ∃ e, assemble true ((sets ++ returns).map swap) = .error e ∧
      e.nameless = .exhausted ⟨"", 15⟩ := by
  intro names sets returns rest swap
  have hplain : ∀ code ∈ [sets ++ rest, sets ++ returns], ∀ x ∈ variablesOf code,
      ¬ Lowering.IsScratch x ∧ ¬ Lowering.IsScratch (Equiv.swap "a" "p" x) := by
    simp only [mem_variablesOf, Lowering.IsScratch]
    decide +kernel
  have hrename : ∀ code ∈ [sets ++ rest, sets ++ returns], _ := fun code hcode =>
    assemble_rename true code _ (Equiv.swap "a" "p").injective.injOn (hplain code hcode)
  constructor
  · have hok : (assemble true (sets ++ rest)).isOk = true := by decide +kernel
    rcases htext : assemble true (sets ++ rest) with e | text
    · rw [htext] at hok
      cases hok
    · exact ⟨text, rfl, (hrename _ (by simp)).1 text htext⟩
  · have hfails : assemble true (sets ++ returns) = .error (.exhausted ⟨"p", 15⟩) := by
      decide +kernel
    obtain ⟨e, he, hsame, -⟩ := (hrename _ (by simp)).2 _ hfails
    exact ⟨e, he, hsame⟩

end Straightline
