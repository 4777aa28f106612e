/-
  Live variables keep their registers.

  A variable can lose its register to another one, but not while it is needed:
  as long as an instruction that reads it is still to come, or as long as it is
  pinned.  Whether an instruction is still to come can be told from a table of
  last uses, which one pass over the code fills.  This holds over any calls in
  between, however many registers change hands meanwhile.

  * `lastUses`, `lastUse`: the table of last uses, and what it says;
  * `le_lastUse_iff`: it covers every use of a variable;
  * `Allocation.isNeeded_iff_lastUse`: who is needed, by the table;
  * `Allocation.register?_after_of_isNeeded`, `Allocation.register?_afterAll`:
    what one call and a sequence of calls leave to a needed variable;
  * `Allocation.live_variables_keep_registers`: variables that are live, and
    those that are pinned.
-/
import Straightline.Proofs.Ledger

namespace Straightline

/-! ## Last uses -/

/-- The uses of variables in some code, each with the index of the instruction
    that reads it, latest first. -/
def lastUses (code : List Instruction) : List (String × Nat) :=
  code.zipIdx.foldl (fun uses (i, k) => i.sources.map (·, k) ++ uses) []

/-- The index of the last instruction that reads a variable, and -1 if there
    is none. -/
def lastUse (code : List Instruction) (x : String) : Int :=
  ((lastUses code).lookup x).elim (-1) Int.ofNat

variable {code : List Instruction} {i : Instruction} {x : String}

/-- One more instruction is the last use of what it reads. -/
theorem lastUse_concat (code : List Instruction) (i : Instruction) (x : String) :
    lastUse (code ++ [i]) x = if i.reads x = true then (code.length : Int) else lastUse code x := by
  have huses : lastUses (code ++ [i]) = i.sources.map (·, code.length) ++ lastUses code := by
    simp [lastUses, List.zipIdx_append]
  rw [lastUse, huses, List.lookup_append]
  by_cases hx : i.reads x = true
  · have hlookup : (i.sources.map (·, code.length)).lookup x = some code.length := by
      have hmem := Instruction.mem_sources.2 hx
      generalize i.sources = names at hmem
      induction names with
      | nil => cases hmem
      | cons y names ih => grind
    simp [hlookup, hx]
  · have hlookup : (i.sources.map (·, code.length)).lookup x = none := by
      rw [List.lookup_eq_none_iff]
      rintro ⟨y, k⟩ hy
      obtain ⟨y', hy', heq⟩ := List.mem_map.1 hy
      cases heq
      have hne : x ≠ y := by
        rintro rfl
        exact hx (Instruction.mem_sources.1 hy')
      simpa using hne
    simp [hlookup, hx, lastUse]

/-- **The table of last uses covers every use**: a position is not behind the
    last use of a variable iff it is before all of the code, or an instruction
    from there on reads the variable. -/
theorem le_lastUse_iff {p : Int} :
    p ≤ lastUse code x ↔ p < 0 ∨ ∃ i ∈ code.drop p.toNat, i.reads x = true := by
  -- From the end, as a later use replaces an earlier one.
  induction code using List.reverseRecOn with
  | nil =>
    simp [lastUse, lastUses]
    omega
  | append_singleton front last ih =>
    rw [lastUse_concat, List.drop_append]
    by_cases hx : last.reads x = true
    · rw [if_pos hx]
      constructor
      · intro hp
        have hlast : last ∈ [last].drop (p.toNat - front.length) := by
          have hzero : p.toNat - front.length = 0 := by omega
          simp [hzero]
        exact .inr ⟨last, List.mem_append_right _ hlast, hx⟩
      · rintro (hp | ⟨i, hi, -⟩)
        · omega
        · have hlength := List.length_pos_of_mem hi
          simp only [List.length_append, List.length_drop, List.length_singleton] at hlength
          omega
    · rw [if_neg hx, ih]
      refine or_congr_right ⟨?_, ?_⟩
      · rintro ⟨i, hi, hreads⟩
        exact ⟨i, List.mem_append_left _ hi, hreads⟩
      · rintro ⟨i, hi, hreads⟩
        rcases List.mem_append.1 hi with hi | hi
        · exact ⟨i, hi, hreads⟩
        · cases List.mem_singleton.1 (List.mem_of_mem_drop hi)
          exact absurd hreads hx

theorem le_lastUse_of_reads {j : Nat} (hi : code[j]? = some i) (hx : i.reads x = true) :
    (j : Int) ≤ lastUse code x := by
  refine le_lastUse_iff.2 (.inr ⟨i, ?_, hx⟩)
  exact List.mem_of_mem_head? (by simpa using hi)

namespace Allocation

variable {a : Allocation} {r : Register} {call : Call} {calls before later : List Call}

/-- **Who is needed, by the table of last uses.** -/
theorem isNeeded_iff_lastUse :
    a.isNeeded x = true ↔ x ∈ a.pinned ∨ a.position ≤ lastUse a.code x := by
  simp [isNeeded, isNeededIn, ahead, le_lastUse_iff, or_assoc]

/-! ## What calls leave as it is -/

theorem valid_afterAll (code : List Instruction) (calls : List Call) :
    (afterAll { code } calls).Valid := by
  obtain ⟨hbalanced, heq⟩ := Ledger.balanced_afterAll code calls
  rw [← heq]
  exact hbalanced.valid

theorem afterAll_append (a : Allocation) (calls more : List Call) :
    a.afterAll (calls ++ more) = (a.afterAll calls).afterAll more :=
  List.foldl_append

/-- A request, granted or refused, gives a register to nobody but its name. -/
theorem later_after_obtain (a : Allocation) (name : String) :
    Later (· = name) a (a.after (.obtain name)) := by
  unfold after
  dsimp only
  split
  · next h => exact later_of_obtain rfl h
  · exact .refl a

theorem code_after (a : Allocation) (call : Call) : (a.after call).code = a.code := by
  cases call with
  | obtain name => exact (later_after_obtain a name).code
  | advance position result => rfl
  | pin name => rfl

theorem code_afterAll (a : Allocation) (calls : List Call) : (a.afterAll calls).code = a.code := by
  induction calls generalizing a with
  | nil => rfl
  | cons call calls ih => exact (ih (a.after call)).trans (a.code_after call)

/-- A call leaves a needed variable its register. -/
theorem register?_after_of_isNeeded (ha : a.Valid) (hx : a.isNeeded x = true)
    (hr : a.register? x = some r) (call : Call) : (a.after call).register? x = some r := by
  cases call with
  | obtain name =>
    have hlater := later_after_obtain a name
    rw [(hlater.valid ha).register?_eq_some_iff]
    exact hlater.kept hx (ha.register?_eq_some_iff.1 hr)
  | advance position result => exact hr
  | pin name => exact hr

/-- **A variable that is needed at every call keeps its register.** -/
theorem register?_afterAll (hr : (afterAll { code } before).register? x = some r)
    (hx : ∀ front call, front ++ [call] <+: later →
      (afterAll { code } (before ++ front)).isNeeded x = true) :
    (afterAll { code } (before ++ later)).register? x = some r := by
  induction later using List.reverseRecOn with
  | nil => rwa [List.append_nil]
  | append_singleton front call ih =>
    have hfront := ih fun front' call' h => hx front' call' (h.trans (List.prefix_append _ _))
    rw [← List.append_assoc, afterAll_append]
    exact register?_after_of_isNeeded (valid_afterAll code _) (hx front call (List.prefix_refl _))
      hfront call

/-! ## Pinned variables -/

/-- Whether a call moves to another instruction. -/
def Call.isAdvance : Call → Bool
  | .advance _ _ => true
  | _ => false

/-- Whether a call pins a variable. -/
def Call.pins (x : String) : Call → Bool
  | .pin name => name = x
  | .advance _ result => result = some x
  | .obtain _ => false

theorem mem_pinned_of_pins (h : call.pins x = true) : x ∈ (a.after call).pinned := by
  cases call with
  | obtain name => cases h
  | advance position result =>
    have hresult : result = some x := by simpa [Call.pins] using h
    simp [after, advance, hresult]
  | pin name =>
    have hname : name = x := by simpa [Call.pins] using h
    simp [after, pin, hname]

theorem mem_pinned_after (hx : x ∈ a.pinned) (hcall : call.isAdvance = false) :
    x ∈ (a.after call).pinned := by
  cases call with
  | obtain name => exact (later_after_obtain a name).pinned x hx
  | advance position result => cases hcall
  | pin name => exact List.mem_cons_of_mem name hx

/-- What is pinned stays so until the next advance. -/
theorem mem_pinned_afterAll (hx : x ∈ a.pinned) (hcalls : ∀ call ∈ calls, call.isAdvance = false) :
    x ∈ (a.afterAll calls).pinned := by
  induction calls generalizing a with
  | nil => exact hx
  | cons call calls ih =>
    rw [List.forall_mem_cons] at hcalls
    exact ih (mem_pinned_after hx hcalls.1) hcalls.2

/-! ## Live variables -/

/-- **Live variables keep their registers.**  Take any code and any calls, and
    after some of these, at a moment when a variable is in a register, any
    later calls:

    * at every moment, who is needed can be told from what is pinned and from
      the table of last uses;
    * if an instruction reads the variable, and no position in force from then
      on is behind this instruction, the variable is in the same register at
      the end;
    * so it is if a call has pinned the variable, and there is no advance after
      that call. -/
theorem live_variables_keep_registers (code : List Instruction) (before later : List Call)
    {x : String} {r : Register} (hr : (afterAll { code } before).register? x = some r) :
    (∀ calls y, (afterAll { code } calls).isNeeded y = true ↔
      y ∈ (afterAll { code } calls).pinned ∨
        (afterAll { code } calls).position ≤ lastUse code y) ∧
    (∀ (j : Nat) i, code[j]? = some i → .var x ∈ i.operands →
      (∀ front, front <+: later → (afterAll { code } (before ++ front)).position ≤ j) →
      (afterAll { code } (before ++ later)).register? x = some r) ∧
    ∀ earlier call between, before = earlier ++ call :: between → call.pins x = true →
      (∀ c ∈ between ++ later, c.isAdvance = false) →
      (afterAll { code } (before ++ later)).register? x = some r := by
  have hneeded : ∀ calls y, (afterAll { code } calls).isNeeded y = true ↔
      y ∈ (afterAll { code } calls).pinned ∨
        (afterAll { code } calls).position ≤ lastUse code y := by
    intro calls y
    rw [isNeeded_iff_lastUse, code_afterAll]
  refine ⟨hneeded, fun j i hi hx hpositions => ?_, fun earlier call between heq hpins hcalls => ?_⟩
  · have hlast := le_lastUse_of_reads hi (Instruction.reads_iff.2 hx)
    refine register?_afterAll hr fun front call hfront => (hneeded _ x).2 (.inr ?_)
    have hposition := hpositions front ((List.prefix_append _ _).trans hfront)
    omega
  · refine register?_afterAll hr fun front call' hfront => isNeeded_of_mem_pinned ?_
    have hsplit : before ++ front = earlier ++ call :: (between ++ front) := by simp [heq]
    rw [hsplit, afterAll_append]
    show x ∈ (((afterAll { code } earlier).after call).afterAll (between ++ front)).pinned
    refine mem_pinned_afterAll (mem_pinned_of_pins hpins) fun c hc => hcalls c ?_
    rcases List.mem_append.1 hc with hc | hc
    · exact List.mem_append_left _ hc
    · exact List.mem_append_right _ (hfront.subset (List.mem_append_left _ hc))

/-- All registers are in use: `a` is read by the instruction, `b` is its
    result and `c` is pinned.  The twelve variables behind them lose their
    registers one after the other to variables that are pinned then, the last
    request is refused, and these three have stayed where they were. -/
theorem live_variables_keep_registers_crowded :
    let code : List Instruction := [⟨.mov, [.var "a"], some "b"⟩]
    let names := ["a", "b", "c", "d", "e", "f", "g", "h", "i", "j", "k", "l", "m", "n", "o"]
    let others := ["p", "q", "r", "s", "t", "u", "v", "w", "x", "y", "z", "aa"]
    let before : List Call := names.map .obtain ++ [.advance 0 (some "b"), .pin "c"]
    let later : List Call := others.flatMap (fun y => [.obtain y, .pin y]) ++ [.obtain "bb"]
    let a := afterAll { code } (before ++ later)
    (∀ y ∈ "bb" :: names.drop 3, a.register? y = none) ∧ a.register? "a" = some .t0 ∧
      a.register? "b" = some .t1 ∧ a.register? "c" = some .t2 := by
  intro code names others before later a
  obtain ⟨ha, hb, hc⟩ : (afterAll { code } before).register? "a" = some .t0 ∧
      (afterAll { code } before).register? "b" = some .t1 ∧
      (afterAll { code } before).register? "c" = some .t2 := by
    decide +kernel
  refine ⟨by decide +kernel, ?_, ?_, ?_⟩
  · refine (live_variables_keep_registers code before later ha).2.1 0 _ rfl (by decide) ?_
    intro front hfront
    have hpositions : ∀ front ∈ later.inits,
        (afterAll { code } (before ++ front)).position ≤ 0 := by
      decide +kernel
    exact hpositions front ((List.mem_inits _ _).2 hfront)
  · exact (live_variables_keep_registers code before later hb).2.2 (names.map .obtain)
      (.advance 0 (some "b")) [.pin "c"] rfl (by decide) (by decide)
  · exact (live_variables_keep_registers code before later hc).2.2
      (names.map .obtain ++ [.advance 0 (some "b")]) (.pin "c") [] rfl (by decide) (by decide)

end Allocation

end Straightline
