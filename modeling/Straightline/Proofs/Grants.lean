/-
  What giving out registers preserves.

  While an instruction is lowered, registers are given out one after the
  other, and a variable may lose its register to another one.  But it keeps it
  if it is needed, and what the instruction works with is needed until it is
  done.

  * `Allocation.Valid`: no variable has two registers, and no register two
    variables;
  * `Allocation.obtain_cases`: the ways to come by a register;
  * `Allocation.Later`: what is kept when registers are given out to some
    variables;
  * `Allocation.later_of_obtain`, `Allocation.later_of_pin`: one step of it.
-/
import Mathlib.Data.List.Nodup
import Straightline.Allocation

namespace Straightline

namespace Allocation

variable {a a' a'' : Allocation} {x y name : String} {r : Register}

/-! ## Valid allocations -/

/-- No variable has two registers, and no register two variables. -/
structure Valid (a : Allocation) : Prop where
  names : (a.assigned.map Prod.fst).Nodup
  registers : (a.assigned.map Prod.snd).Nodup

/-- A variable has one register only. -/
theorem Valid.register_eq_of_mem (ha : a.Valid) {s : Register} (hr : (x, r) ∈ a.assigned)
    (hs : (x, s) ∈ a.assigned) : r = s :=
  (Prod.mk.inj (List.inj_on_of_nodup_map ha.names hr hs rfl)).2

theorem Valid.register?_eq_some_iff (ha : a.Valid) :
    a.register? x = some r ↔ (x, r) ∈ a.assigned := by
  have hmem : ∀ {r}, a.register? x = some r → (x, r) ∈ a.assigned := by
    intro r h
    obtain ⟨before, after, heq, -⟩ := List.lookup_eq_some_iff.1 h
    simp [heq]
  refine ⟨hmem, fun h => ?_⟩
  rcases hlookup : a.register? x with _ | s
  · simpa using List.lookup_eq_none_iff.1 hlookup _ h
  · rw [ha.register_eq_of_mem h (hmem hlookup)]

/-- Two variables never share a register. -/
theorem Valid.eq_of_mem (ha : a.Valid) (hx : (x, r) ∈ a.assigned) (hy : (y, r) ∈ a.assigned) :
    x = y :=
  (Prod.mk.inj (List.inj_on_of_nodup_map ha.registers hx hy rfl)).1

theorem notMem_of_register?_eq_none (h : a.register? name = none) (r : Register) :
    (name, r) ∉ a.assigned := by
  intro hmem
  simpa using List.lookup_eq_none_iff.1 h _ hmem

/-! ## Needed variables -/

theorem isNeeded_of_mem_pinned (h : x ∈ a.pinned) : a.isNeeded x = true := by
  simp [isNeeded, isNeededIn, h]

theorem isNeeded_of_reads {i : Instruction} (hi : i ∈ a.ahead) (h : i.reads x = true) :
    a.isNeeded x = true := by
  have hany : a.ahead.any (·.reads x) = true := List.any_eq_true.2 ⟨i, hi, h⟩
  simp [isNeeded, isNeededIn, hany]

/-! ## Giving out one register -/

/-- The ways to come by a register: to have it, to find it free, or to take it
    from a variable that is not needed. -/
theorem obtain_cases {grant : Grant} (h : a.obtain name = .ok (grant, a')) :
    (∃ r, a.register? name = some r ∧ grant = .held r ∧ a' = a) ∨
    (∃ r, a.register? name = none ∧ a.free? = some r ∧ grant = .fresh r ∧
      a' = { a with assigned := a.assigned ++ [(name, r)] }) ∨
    (∃ victim r, a.register? name = none ∧ a.free? = none ∧ a.victim? = some (victim, r) ∧
      grant = .taken r victim ∧
      a' = { a with assigned := a.assigned.filter (·.1 ≠ victim) ++ [(name, r)] }) := by
  unfold obtain at h
  split at h
  · next r hr =>
    cases h
    exact .inl ⟨r, hr, rfl, rfl⟩
  · next hr =>
    split at h
    · next r hfree =>
      cases h
      exact .inr (.inl ⟨r, hr, hfree, rfl, rfl⟩)
    · next hfree =>
      split at h
      · next victim r hvictim =>
        cases h
        exact .inr (.inr ⟨victim, r, hr, hfree, hvictim, rfl, rfl⟩)
      · cases h

theorem notMem_of_free? (h : a.free? = some r) (y : String) : (y, r) ∉ a.assigned := by
  have hnone : a.assigned.any (·.2 = r) = false := by simpa using List.find?_some h
  intro hmem
  simpa using List.any_eq_false.1 hnone _ hmem

theorem mem_of_victim? {entry : String × Register} (h : a.victim? = some entry) :
    entry ∈ a.assigned ∧ a.isNeeded entry.1 = false :=
  ⟨List.mem_of_find?_eq_some h, by simpa [isNeeded] using List.find?_some h⟩

/-- A register is given to a new variable, some variables having given up
    theirs. -/
theorem Valid.give {kept : List (String × Register)} (ha : a.Valid) (hkept : kept.Sublist a.assigned)
    (hname : ∀ r, (name, r) ∉ kept) (hr : ∀ y, (y, r) ∉ kept) :
    Valid { a with assigned := kept ++ [(name, r)] } := by
  constructor
  · rw [List.map_append, List.map_singleton, ← List.concat_eq_append]
    exact (ha.names.sublist (hkept.map _)).concat (by simpa using hname)
  · rw [List.map_append, List.map_singleton, ← List.concat_eq_append]
    exact (ha.registers.sublist (hkept.map _)).concat (by simpa using hr)

theorem Valid.obtain {grant : Grant} (ha : a.Valid) (h : a.obtain name = .ok (grant, a')) :
    a'.Valid := by
  obtain ⟨r, -, -, rfl⟩ | ⟨r, hname, hfree, -, rfl⟩ | ⟨victim, r, hname, -, hvictim, -, rfl⟩ :=
    obtain_cases h
  · exact ha
  · exact ha.give (.refl _) (notMem_of_register?_eq_none hname) (notMem_of_free? hfree)
  · refine ha.give List.filter_sublist (fun s hmem => ?_) fun y hmem => ?_
    · exact notMem_of_register?_eq_none hname s (List.mem_of_mem_filter hmem)
    · -- No variable but the victim was in that register.
      have heq := ha.eq_of_mem (List.mem_of_mem_filter hmem) (mem_of_victim? hvictim).1
      simp [heq] at hmem

/-! ## Giving out several registers -/

/-- What is kept when registers are given out to variables with a property
    `P`, and variables are pinned, in the course of one instruction. -/
structure Later (P : String → Prop) (a a' : Allocation) : Prop where
  code : a'.code = a.code
  position : a'.position = a.position
  pinned : ∀ x ∈ a.pinned, x ∈ a'.pinned
  valid : a.Valid → a'.Valid
  /-- Who is needed keeps its register. -/
  kept : ∀ {x r}, a.isNeeded x = true → (x, r) ∈ a.assigned → (x, r) ∈ a'.assigned
  /-- Nobody else gets a register. -/
  old : ∀ {x r}, (x, r) ∈ a'.assigned → ¬ P x → (x, r) ∈ a.assigned

variable {P : String → Prop}

theorem Later.refl (a : Allocation) : Later P a a :=
  ⟨rfl, rfl, fun _ h => h, id, fun _ h => h, fun h _ => h⟩

theorem Later.ahead (h : Later P a a') : a'.ahead = a.ahead := by
  rw [Allocation.ahead, Allocation.ahead, h.code, h.position]

theorem Later.isNeeded (h : Later P a a') (hx : a.isNeeded x = true) : a'.isNeeded x = true := by
  simp only [Allocation.isNeeded, isNeededIn, h.ahead, h.position, Bool.or_eq_true,
    List.contains_iff_mem] at hx ⊢
  exact hx.imp_left (.imp_left (h.pinned x))

theorem Later.trans (h : Later P a a') (h' : Later P a' a'') : Later P a a'' where
  code := h'.code.trans h.code
  position := h'.position.trans h.position
  pinned x hx := h'.pinned x (h.pinned x hx)
  valid ha := h'.valid (h.valid ha)
  kept hx hmem := h'.kept (h.isNeeded hx) (h.kept hx hmem)
  old hmem hx := h.old (h'.old hmem hx) hx

theorem later_of_obtain {grant : Grant} (hname : P name) (h : a.obtain name = .ok (grant, a')) :
    Later P a a' := by
  have hvalid : a.Valid → a'.Valid := fun ha => ha.obtain h
  obtain ⟨r, -, -, rfl⟩ | ⟨r, -, -, -, rfl⟩ | ⟨victim, r, -, -, hvictim, -, rfl⟩ := obtain_cases h
  · exact .refl _
  · refine ⟨rfl, rfl, fun _ h => h, hvalid, fun _ => List.mem_append_left _, fun hmem hx => ?_⟩
    exact (List.mem_append.1 hmem).resolve_right fun h => hx (by simp_all)
  · refine ⟨rfl, rfl, fun _ h => h, hvalid, fun {x s} hx hmem => ?_, fun hmem hx => ?_⟩
    · have hne : x ≠ victim := by
        rintro rfl
        simp [(mem_of_victim? hvictim).2] at hx
      exact List.mem_append_left _ (List.mem_filter.2 ⟨hmem, by simpa using hne⟩)
    · exact List.mem_of_mem_filter
        ((List.mem_append.1 hmem).resolve_right fun h => hx (by simp_all))

theorem mem_of_obtain {grant : Grant} (ha : a.Valid) (h : a.obtain name = .ok (grant, a')) :
    (name, grant.register) ∈ a'.assigned := by
  obtain ⟨r, hr, rfl, rfl⟩ | ⟨r, -, -, rfl, rfl⟩ | ⟨victim, r, -, -, -, rfl, rfl⟩ := obtain_cases h
  · exact ha.register?_eq_some_iff.1 hr
  · simp [Grant.register]
  · simp [Grant.register]

theorem later_of_pin (a : Allocation) (name : String) : Later P a (a.pin name) :=
  ⟨rfl, rfl, fun _ => List.mem_cons_of_mem name, fun ha => ⟨ha.names, ha.registers⟩, fun _ h => h,
    fun h _ => h⟩

end Allocation

end Straightline
