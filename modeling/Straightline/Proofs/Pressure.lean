/-
  When registers run out.

  At each instruction some variables have to be in registers at once: those
  that it works with, and those that have been met before and are still read.
  Well-formed instructions with constants that can be written fail for no other
  reason than that these are too many: a variable that is not among them can
  always give up its register.

  * `demandAt`: the variables that have to be in registers at an instruction;
  * `Allocation.Confined`, `Allocation.Confined.card_lt_of_grantAll`: where a
    request cannot be granted, the variables that are needed are too many;
  * `Lowering.Settled`: between two instructions, exactly the variables that
    were met before and are still read cannot lose their registers;
  * `Lowering.Fate`, `Lowering.Settled.fate`: what a run of instructions comes
    to, with constants that are too long taken into account;
  * `exhausted_iff_demandAt`: lowering runs out of registers exactly where more
    than fifteen are in demand.
-/
import Mathlib.Data.Finset.Card
import Mathlib.Data.List.Perm.Subperm
import Straightline.Proofs.Simulation
import Straightline.Proofs.Requests

namespace Straightline

/-! ## Demand -/

/-- The instructions that are lowered: all up to the first return. -/
def reached : List Instruction → List Instruction
  | [] => []
  | i :: rest => i :: if i.opcode = .ret then [] else reached rest

/-- The variables that an instruction writes or reads. -/
def Instruction.names (i : Instruction) : List String :=
  i.result.toList ++ i.sources

/-- The variables that were met before index `p` and are read there or later. -/
def liveAt (code : List Instruction) (p : Nat) : Finset String :=
  ((code.take p).flatMap Instruction.names).toFinset ∩
    ((code.drop p).flatMap Instruction.sources).toFinset

/-- The variables that have to be in registers while the instruction at index
    `p` is lowered: its result, what it reads, the scratch variables for the
    constants that it loads, and what is live. -/
def demandAt (loadRight : Bool) (code : List Instruction) (p : Nat) : Finset String :=
  match code[p]? with
  | some i => (i.result.toList ++ i.sources ++ i.loads loadRight).toFinset ∪ liveAt code p
  | none => ∅

theorem Instruction.mem_names {i : Instruction} {x : String} : x ∈ i.names ↔ i.Mentions x := by
  rw [names, List.mem_append, Option.mem_toList, mem_sources]
  rfl

theorem mem_liveAt {code : List Instruction} {p : Nat} {x : String} :
    x ∈ liveAt code p ↔
      (∃ i ∈ code.take p, i.Mentions x) ∧ ∃ j ∈ code.drop p, j.reads x = true := by
  simp only [liveAt, Finset.mem_inter, List.mem_toFinset, List.mem_flatMap,
    Instruction.mem_names, Instruction.mem_sources]

/-! ## Too many needed variables -/

namespace Allocation

variable {a a' : Allocation} {x : String} {r : Request} {requests : List Request} {e : Exhausted}
  {D : Finset String}

theorem obtain_eq_error {name : String} (h : a.obtain name = .error e) :
    a.register? name = none ∧ a.free? = none ∧ a.victim? = none := by
  unfold obtain at h
  repeat' split at h
  all_goals cases h
  exact ⟨‹_›, ‹_›, ‹_›⟩

/-- There are no more variables in registers than registers. -/
theorem Valid.length_le (ha : a.Valid) : a.assigned.length ≤ 15 := by
  have hle := (List.subperm_of_subset ha.registers fun r _ => r.mem_all).length_le
  rwa [List.length_map] at hle

/-- If no register is free, all are in use. -/
theorem length_of_free?_eq_none (h : a.free? = none) : 15 ≤ a.assigned.length := by
  have hsubset : Register.all ⊆ a.assigned.map Prod.snd := by
    intro r hr
    have hused := List.find?_eq_none.1 h r hr
    simpa using hused
  have hle := (List.subperm_of_subset Register.nodup_all hsubset).length_le
  rwa [List.length_map] at hle

/-- Nobody is in a register and needed but the variables of a set. -/
structure Confined (D : Finset String) (a : Allocation) : Prop where
  valid : a.Valid
  mem : ∀ x s, (x, s) ∈ a.assigned → a.isNeeded x = true → x ∈ D

/-- Giving out a register changes nothing about who is needed. -/
theorem isNeeded_of_obtain {name : String} {granted : Grant} (h : a.obtain name = .ok (granted, a'))
    (x : String) : a'.isNeeded x = a.isNeeded x := by
  obtain ⟨r, -, -, rfl⟩ | ⟨r, -, -, -, rfl⟩ | ⟨victim, r, -, -, -, -, rfl⟩ := obtain_cases h
  all_goals rfl

theorem isNeeded_pin {name : String} :
    (a.pin name).isNeeded x = true ↔ x = name ∨ a.isNeeded x = true := by
  simp only [isNeeded, isNeededIn, pin, List.contains_cons, Bool.or_eq_true, beq_iff_eq, or_assoc]
  rfl

/-- At the start of an instruction its result is needed, and what is read
    there or later. -/
theorem isNeeded_advance {p : Nat} {result : Option String} :
    (a.advance p result).isNeeded x = true ↔
      result = some x ∨ ∃ j ∈ a.code.drop p, j.reads x = true := by
  have hposition : ¬ (p : Int) < 0 := by omega
  simp [isNeeded, isNeededIn, ahead, advance, hposition]

theorem eq_or_isNeeded_of_grant (h : a.grant r = .ok a') (hx : a'.isNeeded x = true) :
    x = r.name ∨ a.isNeeded x = true := by
  unfold grant at h
  split at h
  · next granted a₁ hobtain =>
    cases h
    rw [← isNeeded_of_obtain hobtain x]
    split at hx
    · exact isNeeded_pin.1 hx
    · exact .inr hx
  · cases h

theorem Confined.grant {a : Allocation} (ha : a.Confined D) (hr : r.name ∈ D)
    (h : a.grant r = .ok a') : a'.Confined D := by
  have hlater : Later (· ∈ D) a a' := later_of_grant hr h
  refine ⟨hlater.valid ha.valid, fun x s hs hneeded => ?_⟩
  by_contra hx
  rcases eq_or_isNeeded_of_grant h hneeded with rfl | hneeded
  · exact hx hr
  · exact hx (ha.mem x s (hlater.old hs hx) hneeded)

/-- **A request that cannot be granted** finds all registers with variables
    that are needed, and is one too many. -/
theorem Confined.card_lt_of_obtain (ha : a.Confined D) {name : String} (hname : name ∈ D)
    (h : a.obtain name = .error e) : 15 < D.card := by
  obtain ⟨hnew, hfree, hvictim⟩ := obtain_eq_error h
  have hnames : ∀ x ∈ a.assigned.map Prod.fst, x ∈ D.erase name := by
    intro x hx
    obtain ⟨⟨x, s⟩, hs, rfl⟩ := List.mem_map.1 hx
    have hneeded : a.isNeeded x = true := by
      simpa [isNeeded] using List.find?_eq_none.1 hvictim _ hs
    refine Finset.mem_erase.2 ⟨?_, ha.mem x s hs hneeded⟩
    rintro rfl
    exact notMem_of_register?_eq_none hnew s hs
  calc 15 ≤ a.assigned.length := length_of_free?_eq_none hfree
    _ = (a.assigned.map Prod.fst).toFinset.card := by
      rw [List.toFinset_card_of_nodup ha.valid.names, List.length_map]
    _ ≤ (D.erase name).card :=
      Finset.card_le_card fun x hx => hnames x (List.mem_toFinset.1 hx)
    _ < D.card := Finset.card_erase_lt_of_mem hname

theorem Confined.card_lt_of_grantAll (ha : a.Confined D) (hnames : ∀ r ∈ requests, r.name ∈ D)
    (h : a.grantAll requests = .error e) : 15 < D.card := by
  induction requests generalizing a with
  | nil => cases h
  | cons r rest ih =>
    rw [List.forall_mem_cons] at hnames
    rw [grantAll_cons] at h
    split at h
    · next a₁ hgrant => exact ih (ha.grant hnames.1 hgrant) hnames.2 h
    · next e' hgrant =>
      unfold Allocation.grant at hgrant
      split at hgrant
      · cases hgrant
      · next e'' hobtain => exact ha.card_lt_of_obtain hnames.1 hobtain

/-- The other way round, variables that are in registers at once are not too
    many. -/
theorem Valid.card_le (ha : a.Valid) (hD : ∀ x ∈ D, ∃ s, (x, s) ∈ a.assigned) : D.card ≤ 15 := by
  calc D.card ≤ (a.assigned.map Prod.fst).toFinset.card := by
        refine Finset.card_le_card fun x hx => ?_
        obtain ⟨s, hs⟩ := hD x hx
        exact List.mem_toFinset.2 (List.mem_map_of_mem hs)
    _ ≤ a.assigned.length := (List.toFinset_card_le _).trans_eq (List.length_map _)
    _ ≤ 15 := ha.length_le

end Allocation

/-! ## One instruction after the other -/

namespace Lowering

variable {loadRight : Bool} {code pre rest : List Instruction} {i : Instruction}
  {a a' : Allocation} {x : String} {e : Exhausted}

/-- What is in registers when the instructions `pre` have been lowered. -/
structure Settled (code pre : List Instruction) (a : Allocation) : Prop where
  code_eq : a.code = code
  valid : a.Valid
  /-- What is live has kept its register. -/
  live : ∀ x ∈ liveAt code pre.length, ∃ s, (x, s) ∈ a.assigned
  /-- Only what was met before is in registers, and scratch variables. -/
  old : ∀ x s, (x, s) ∈ a.assigned → (∃ j ∈ pre, j.Mentions x) ∨ IsScratch x

theorem settled_nil (code : List Instruction) : Settled code [] (start code).allocation where
  code_eq := rfl
  valid := ⟨List.nodup_nil, List.nodup_nil⟩
  live x hx := by simp [mem_liveAt] at hx
  old x s hs := nomatch hs

section

variable (hcode : code = pre ++ i :: rest)
include hcode

theorem demandAt_length : demandAt loadRight code pre.length =
    (i.result.toList ++ i.sources ++ i.loads loadRight).toFinset ∪ liveAt code pre.length := by
  have hi : code[pre.length]? = some i := by simp [hcode]
  rw [demandAt, hi]

theorem mem_demandAt_of_mem_requests {r : Request} (hr : r ∈ i.requests loadRight) :
    r.name ∈ demandAt loadRight code pre.length := by
  rw [demandAt_length hcode, Finset.mem_union, List.mem_toFinset]
  exact .inl (Instruction.name_mem_of_mem_requests hr)

/-- What is live behind an instruction was in demand there. -/
theorem liveAt_subset_demandAt :
    liveAt code (pre ++ [i]).length ⊆ demandAt loadRight code pre.length := by
  intro x hx
  obtain ⟨⟨j, hj, hmentions⟩, k, hk, hreads⟩ := mem_liveAt.1 hx
  rw [demandAt_length hcode, Finset.mem_union, List.mem_toFinset]
  have htake : code.take (pre ++ [i]).length = pre ++ [i] := by
    rw [hcode, List.append_cons pre i rest, List.take_left]
  rw [htake, List.mem_append, List.mem_singleton] at hj
  rcases hj with hj | rfl
  · refine .inr (mem_liveAt.2 ⟨⟨j, by simpa [hcode] using hj, hmentions⟩, k, ?_, hreads⟩)
    exact (List.drop_sublist_drop_left code (by simp)).mem hk
  · exact .inl (List.mem_append_left _ (Instruction.mem_names.2 hmentions))

variable (h : Settled code pre a)
include h

/-- While an instruction is lowered, nobody is in a register and needed but
    the variables in demand. -/
theorem Settled.confined (hplain : ∀ j ∈ code, ∀ x, j.Mentions x → ¬ IsScratch x) :
    (a.advance pre.length i.result).Confined (demandAt loadRight code pre.length) := by
  refine ⟨⟨h.valid.names, h.valid.registers⟩, fun x s hs hneeded => ?_⟩
  rw [demandAt_length hcode, Finset.mem_union]
  rw [Allocation.isNeeded_advance, h.code_eq] at hneeded
  rcases hneeded with hresult | ⟨j, hj, hreads⟩
  · exact .inl (by simp [hresult])
  · -- It is read, so it is no scratch variable left from before.
    refine .inr (mem_liveAt.2 ⟨?_, j, hj, hreads⟩)
    have hmet := (h.old x s hs).resolve_right (hplain j (List.mem_of_mem_drop hj) x (.inr hreads))
    simpa [hcode] using hmet

section

variable (hform : i.isWellFormed = true) (hwritable : i.isWritable = true)
  (hgrant : (a.advance pre.length i.result).grantAll (i.requests loadRight) = .ok a')
include hform hwritable hgrant

/-- Where an instruction gets all it asks for, everything in demand is in a
    register then. -/
theorem Settled.exists_register (hx : x ∈ demandAt loadRight code pre.length) :
    ∃ s, (x, s) ∈ a'.assigned := by
  have hneeded : ∀ {y}, i.Mentions y ∨ y ∈ liveAt code pre.length →
      (a.advance pre.length i.result).isNeeded y = true := by
    intro y hy
    rw [Allocation.isNeeded_advance, h.code_eq]
    rcases hy with (hy | hy) | hy
    · exact .inl hy
    · exact .inr ⟨i, by simp [hcode], hy⟩
    · exact .inr (mem_liveAt.1 hy).2
  rw [demandAt_length hcode, Finset.mem_union, List.mem_toFinset,
    ← Instruction.map_name_requests hform hwritable] at hx
  rcases hx with hx | hx
  · obtain ⟨r, hr, rfl⟩ := List.mem_map.1 hx
    have hvalid : (a.advance pre.length i.result).Valid := ⟨h.valid.names, h.valid.registers⟩
    refine Allocation.mem_of_grantAll hvalid hgrant hr ?_
    exact (Instruction.mem_requests hr).imp (fun hr => hneeded (.inl hr)) And.left
  · obtain ⟨s, hs⟩ := h.live x hx
    have hlater : Allocation.Later (fun _ => True) _ a' :=
      Allocation.later_of_grantAll (fun _ _ => trivial) hgrant
    exact ⟨s, hlater.kept (hneeded (.inr hx)) hs⟩

/-- **One more instruction.** -/
theorem Settled.step : Settled code (pre ++ [i]) a' := by
  have hlater : Allocation.Later (fun x => i.Mentions x ∨ IsScratch x) _ a' :=
    Allocation.later_of_grantAll
      (fun r hr => (Instruction.mem_requests hr).imp_right And.right) hgrant
  refine ⟨hlater.code.trans h.code_eq, hlater.valid ⟨h.valid.names, h.valid.registers⟩,
    fun x hx => h.exists_register hcode hform hwritable hgrant (liveAt_subset_demandAt hcode hx),
    fun x s hs => ?_⟩
  by_cases hx : i.Mentions x ∨ IsScratch x
  · exact hx.imp_left fun hx => ⟨i, by simp, hx⟩
  · refine (h.old x s (hlater.old hs hx)).imp_left ?_
    rintro ⟨j, hj, hmentions⟩
    exact ⟨j, List.mem_append_left _ hj, hmentions⟩

end

end

/-! ## Runs of instructions -/

/-- What a run of instructions comes to.  It gets to its end if nowhere too
    many registers are in demand and no constant is too long.  Else it runs out
    of registers where too many are in demand, or it meets a constant that is
    too long, whichever comes first.  The first instruction has index
    `position`. -/
inductive Fate (loadRight : Bool) (code : List Instruction) (position : Nat)
    (rest : List Instruction) : Except LowerError Unit → Prop where
  | done : (∀ k < (reached rest).length, (demandAt loadRight code (position + k)).card ≤ 15) →
      (∀ j ∈ reached rest, j.isWritable = true) → Fate loadRight code position rest (.ok ())
  | exhausted (e : Exhausted) (k : Nat) : k < (reached rest).length →
      15 < (demandAt loadRight code (position + k)).card →
      (∀ j ∈ (reached rest).take k, j.isWritable = true) →
      Fate loadRight code position rest (.error (.exhausted e))
  | tooLong (k : Nat) : k < (reached rest).length →
      (∀ j < k, (demandAt loadRight code (position + j)).card ≤ 15) →
      (∃ j, (reached rest)[k]? = some j ∧ j.isWritable = false) →
      Fate loadRight code position rest (.error .tooLong)

theorem reached_cons (hi : i.opcode ≠ .ret) (rest : List Instruction) :
    reached (i :: rest) = i :: reached rest := by
  rw [reached, if_neg hi]

theorem Fate.cons {out : Except LowerError Unit} {position : Nat} (hi : i.opcode ≠ .ret)
    (hcard : (demandAt loadRight code position).card ≤ 15) (hwritable : i.isWritable = true)
    (h : Fate loadRight code (position + 1) rest out) :
    Fate loadRight code position (i :: rest) out := by
  have hshift : ∀ k, position + (k + 1) = position + 1 + k := fun k => by omega
  have hcards : ∀ n, (∀ k < n, (demandAt loadRight code (position + 1 + k)).card ≤ 15) →
      ∀ k < n + 1, (demandAt loadRight code (position + k)).card ≤ 15 := by
    intro n hn k hk
    cases k with
    | zero => exact hcard
    | succ k =>
      rw [hshift]
      exact hn k (by omega)
  cases h with
  | done hrest hwritables =>
    refine .done ?_ ?_
    · rw [reached_cons hi]
      exact hcards _ hrest
    · rw [reached_cons hi]
      exact List.forall_mem_cons.2 ⟨hwritable, hwritables⟩
  | exhausted e k hk hlt hwritables =>
    refine .exhausted e (k + 1) ?_ ?_ ?_
    · rw [reached_cons hi, List.length_cons]
      omega
    · rw [hshift]
      exact hlt
    · rw [reached_cons hi, List.take_succ_cons]
      exact List.forall_mem_cons.2 ⟨hwritable, hwritables⟩
  | tooLong k hk hrest hlong =>
    refine .tooLong (k + 1) ?_ (hcards k hrest) ?_
    · rw [reached_cons hi, List.length_cons]
      omega
    · rw [reached_cons hi]
      exact hlong

/-- **A run of instructions** runs out of registers exactly if too many are in
    demand somewhere, unless a constant is too long. -/
theorem Settled.fate (loadRight : Bool)
    (hplain : ∀ j ∈ code, ∀ x, j.Mentions x → ¬ IsScratch x)
    (hshape : ∀ j ∈ reached rest, j.isWellFormed = true) (hcode : code = pre ++ rest)
    (l : Lowering) (h : Settled code pre l.allocation) :
    Fate loadRight code pre.length rest ((lowerFrom loadRight pre.length rest).exec l).1 := by
  induction rest generalizing pre l with
  | nil => exact .done (fun k hk => absurd hk (Nat.not_lt_zero k)) (List.forall_mem_nil _)
  | cons i rest ih =>
    have hform : i.isWellFormed = true := hshape i List.mem_cons_self
    have hasks := asks_lower loadRight i (l.advance pre.length i)
    rw [Instruction.refusal?_of_isWellFormed hform] at hasks
    have hexec : (lowerFrom loadRight pre.length (i :: rest)).exec l =
        (do lower loadRight i
            if i.opcode = Opcode.ret then pure ()
            else lowerFrom loadRight (pre.length + 1) rest).exec (l.advance pre.length i) := rfl
    rw [hexec, Attempt.exec_bind]
    cases hgrant : (l.advance pre.length i).allocation.grantAll (i.requests loadRight) with
    | error e =>
      rw [hgrant] at hasks
      obtain ⟨l', hlower⟩ := hasks
      rw [hlower]
      exact .exhausted e 0 (by simp [reached])
        ((h.confined hcode hplain).card_lt_of_grantAll
          (fun r => mem_demandAt_of_mem_requests hcode) hgrant) (List.forall_mem_nil _)
    | ok a' =>
      rw [hgrant] at hasks
      obtain ⟨l', rfl, hlower⟩ := hasks
      cases hwritable : i.isWritable with
      | false =>
        rw [hwritable] at hlower
        rw [show (lower loadRight i).exec (l.advance pre.length i) = _ from hlower]
        exact .tooLong 0 (by simp [reached]) (fun k hk => absurd hk (Nat.not_lt_zero k))
          ⟨i, by simp [reached], hwritable⟩
      | true =>
        rw [hwritable] at hlower
        obtain ⟨_, hlower⟩ := hlower
        have hstep := h.step hcode hform hwritable hgrant
        have hcard := hstep.valid.card_le fun x =>
          h.exists_register (x := x) hcode hform hwritable hgrant
        rw [hlower]
        by_cases hi : i.opcode = .ret
        · rw [if_pos hi]
          refine .done (fun k hk => ?_) (by simpa [reached, hi] using hwritable)
          have hk' : k = 0 := by simpa [reached, hi] using hk
          rw [hk']
          exact hcard
        · rw [if_neg hi]
          have hlength : (pre ++ [i]).length = pre.length + 1 := by simp
          have hshape' : ∀ j ∈ reached rest, j.isWellFormed = true := by
            intro j hj
            exact hshape j (by simp [reached, hi, hj])
          have hrest := ih hshape' (by simp [hcode]) l' hstep
          rw [hlength] at hrest
          exact hrest.cons hi hcard hwritable

/-- What all of a code comes to. -/
theorem fate_lower (loadRight : Bool)
    (hplain : ∀ i ∈ code, ∀ x, i.Mentions x → x ≠ scratch 0 ∧ x ≠ scratch 1)
    (hshape : ∀ i ∈ reached code, i.isWellFormed = true) :
    Fate loadRight code 0 code (Straightline.lower loadRight code).1 :=
  (settled_nil code).fate loadRight (fun i hi x hx => not_or.2 (hplain i hi x hx)) hshape rfl
    (start code)

end Lowering

/-- **Registers run out exactly where more than fifteen are in demand.**  Let no
    variable have the name of a scratch variable and the instructions up to the
    first return be well formed.  If moreover none of their constants is too
    long to be written, lowering fails for want of a register if and only if
    more than fifteen variables have to be in registers at one of these
    instructions, and if that is nowhere so, the code is lowered.  In general
    the first trouble decides, so that only an instruction with both troubles
    is left open, and code with either of them is not lowered. -/
theorem exhausted_iff_demandAt (loadRight : Bool) (code : List Instruction)
    (hplain : ∀ i ∈ code, ∀ x, i.Mentions x → x ≠ Lowering.scratch 0 ∧ x ≠ Lowering.scratch 1)
    (hshape : ∀ i ∈ reached code, i.isWellFormed = true) :
    ((∀ i ∈ reached code, i.isWritable = true) →
      ((∃ e, assemble loadRight code = .error (.exhausted e)) ↔
        ∃ p < (reached code).length, 15 < (demandAt loadRight code p).card) ∧
      ((¬ ∃ p < (reached code).length, 15 < (demandAt loadRight code p).card) →
        ∃ text, assemble loadRight code = .ok text)) ∧
    ((∃ e, assemble loadRight code = .error (.exhausted e)) →
      ∃ p < (reached code).length, 15 < (demandAt loadRight code p).card ∧
        ∀ i ∈ (reached code).take p, i.isWritable = true) ∧
    ((∃ p < (reached code).length, 15 < (demandAt loadRight code p).card ∧
        ∀ i ∈ (reached code).take (p + 1), i.isWritable = true) →
      ∃ e, assemble loadRight code = .error (.exhausted e)) ∧
    ((∃ i ∈ reached code, i.isWritable = false) →
      (∃ e, assemble loadRight code = .error (.exhausted e)) ∨
        assemble loadRight code = .error .tooLong) := by
  have hfate := Lowering.fate_lower loadRight hplain hshape
  simp only [assemble]
  rcases hlower : lower loadRight code with ⟨out, l⟩
  rw [hlower] at hfate
  cases hfate with
  | done hcard hwritable =>
    simp only [Nat.zero_add] at hcard
    have hnone : ¬ ∃ p < (reached code).length, 15 < (demandAt loadRight code p).card := by
      rintro ⟨p, hp, hlt⟩
      exact absurd hlt (Nat.not_lt.2 (hcard p hp))
    refine ⟨fun _ => ⟨⟨nofun, fun h => absurd h hnone⟩, fun _ => ⟨_, rfl⟩⟩, nofun, ?_, ?_⟩
    · rintro ⟨p, hp, hlt, -⟩
      exact absurd ⟨p, hp, hlt⟩ hnone
    · rintro ⟨i, hi, hlong⟩
      simp [hwritable i hi] at hlong
  | exhausted e k hk hlt hwritable =>
    rw [Nat.zero_add] at hlt
    exact ⟨fun _ => ⟨⟨fun _ => ⟨k, hk, hlt⟩, fun _ => ⟨e, rfl⟩⟩, fun h => absurd ⟨k, hk, hlt⟩ h⟩,
      fun _ => ⟨k, hk, hlt, hwritable⟩, fun _ => ⟨e, rfl⟩, fun _ => .inl ⟨e, rfl⟩⟩
  | tooLong k hk hcard hlong =>
    simp only [Nat.zero_add] at hcard
    obtain ⟨i, hi, hlong⟩ := hlong
    refine ⟨fun hwritable => ?_, nofun, ?_, fun _ => .inr rfl⟩
    · simp [hwritable i (List.mem_of_getElem? hi)] at hlong
    · -- The constant stands behind the instruction, where demand was still met.
      rintro ⟨p, hp, hlt, hwritable⟩
      have hkp : p < k := by
        by_contra hle
        have hmem : i ∈ (reached code).take (p + 1) :=
          List.mem_of_getElem? ((List.getElem?_take_of_lt (by omega)).trans hi)
        simp [hwritable i hmem] at hlong
      exact absurd hlt (Nat.not_lt.2 (hcard p hkp))

/-- Sixteen variables are set and all are read later, if only behind the first
    return: there is no register for the last one. -/
theorem exhausted_iff_demandAt_sixteen :
    let names := ["a", "b", "c", "d", "e", "f", "g", "h", "i", "j", "k", "l", "m", "n", "o", "p"]
    let code : List Instruction :=
      names.map (fun x => ⟨.mov, [.imm 7], some x⟩) ++ names.map (fun x => ⟨.ret, [.var x], none⟩)
    (demandAt true code 15).card = 16 ∧ (reached code).length = 17 ∧
      ∃ e, assemble true code = .error (.exhausted e) := by
  intro names code
  have hcard : (demandAt true code 15).card = 16 := by decide +kernel
  have hlength : (reached code).length = 17 := by decide +kernel
  have hnames : ∀ i ∈ code, ∀ x ∈ i.names, x ≠ Lowering.scratch 0 ∧ x ≠ Lowering.scratch 1 := by
    decide +kernel
  have hexhausted := exhausted_iff_demandAt true code
    (fun i hi x hx => hnames i hi x (Instruction.mem_names.2 hx)) (by decide +kernel)
  have hwritable : ∀ i ∈ reached code, i.isWritable = true := by decide +kernel
  exact ⟨hcard, hlength, (hexhausted.1 hwritable).1.2 ⟨15, by omega, by omega⟩⟩

/-- A constant that is too long is not written, though a single register is in
    demand. -/
theorem low_demand_not_enough :
    ¬ ∀ (loadRight : Bool) (code : List Instruction),
      (∀ i ∈ code, ∀ x, i.Mentions x → x ≠ Lowering.scratch 0 ∧ x ≠ Lowering.scratch 1) →
      (∀ i ∈ reached code, i.isWellFormed = true) →
      (¬ ∃ p < (reached code).length, 15 < (demandAt loadRight code p).card) →
      ∃ text, assemble loadRight code = .ok text := by
  intro h
  obtain ⟨value, hlong⟩ : ∃ value, Text.isWritable value = false := by
    refine ⟨10 ^ Text.digitLimit, ?_⟩
    rw [← Bool.not_eq_true, Text.isWritable_iff, Int.natAbs_pow, show Int.natAbs 10 = 10 from rfl]
    exact lt_irrefl _
  let code : List Instruction := [⟨.mov, [.imm value], some "x"⟩]
  have hplain : ∀ i ∈ code, ∀ x, i.Mentions x →
      x ≠ Lowering.scratch 0 ∧ x ≠ Lowering.scratch 1 := by
    intro i hi x hx
    rw [List.mem_singleton] at hi
    have hmem : x ∈ ["x"] := by
      rw [hi] at hx
      exact Instruction.mem_names.2 hx
    rw [List.mem_singleton.1 hmem]
    decide
  have hshape : ∀ i ∈ reached code, i.isWellFormed = true := by
    intro i hi
    rw [List.mem_singleton.1 hi]
    rfl
  have hdemand : (demandAt true code 0).card = 1 := rfl
  have hnone : ¬ ∃ p < (reached code).length, 15 < (demandAt true code p).card := by
    rintro ⟨p, hp, hlt⟩
    have hp : p = 0 := Nat.lt_one_iff.1 hp
    rw [hp, hdemand] at hlt
    omega
  obtain ⟨text, htext⟩ := h true code hplain hshape hnone
  have hfate := Lowering.fate_lower true hplain hshape
  rw [assemble] at htext
  rcases hlower : lower true code with ⟨out, l⟩
  rw [hlower] at hfate htext
  cases hfate with
  | done _ hwritable =>
    have hshort : Text.isWritable value = true := by
      simpa [code, reached, Instruction.isWritable, Operand.isWritable] using hwritable
    simp [hshort] at hlong
  | exhausted => cases htext
  | tooLong => cases htext

end Straightline
