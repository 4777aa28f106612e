/-
  How two allocations diverge.

  The same requests are made to two allocations, but the code of the second one
  holds more: some variables are always still to be read in it.  Such a
  variable keeps its register where the first allocation takes it away.  From
  then on the two may give out different registers, and the second one may run
  out of them.  Nothing else can happen.

  * `Outlook`: two codes, one of which reads some more variables;
  * `Outlook.Contested`: there are more variables than registers, and one of
    them is needed for the sake of the second code only;
  * `Allocation.Parallel`: what the two allocations have in common all along;
  * `Allocation.Parallel.error_of_error`, `Allocation.Parallel.of_obtain`: what
    comes of a request.
-/
import Straightline.Proofs.Ledger

namespace Straightline

/-! ## What is read, and what is asked for -/

/-- Whether a variable is read at index `p` of some code or later. -/
def ReadsFrom (code : List Instruction) (p : Nat) (x : String) : Prop :=
  ∃ j ∈ code.drop p, j.reads x = true

theorem ReadsFrom.of_le {code : List Instruction} {p q : Nat} {x : String} (hle : p ≤ q)
    (h : ReadsFrom code q x) : ReadsFrom code p x := by
  obtain ⟨j, hj, hreads⟩ := h
  exact ⟨j, (List.drop_sublist_drop_left code hle).mem hj, hreads⟩

/-- The instructions that are taken up, if there are registers enough: all up to
    the first return or the first one that is refused. -/
def takenUp : List Instruction → List Instruction
  | [] => []
  | i :: rest => i :: if i.opcode = .ret ∨ i.refusal?.isSome = true then [] else takenUp rest

/-- The variables for which the instructions that are taken up ask for
    registers: their results, what they read, and the scratch variables of the
    constants that they load.  A return does not ask for its result, and an
    instruction that does not fit asks for nothing. -/
def askedBy (loadRight : Bool) (code : List Instruction) : Finset String :=
  ((takenUp code).flatMap fun i => (i.requests loadRight).map Request.name).toFinset

/-- Some code to lower, and a second one: from any index on, it reads the same
    variables and the `extra` ones besides. -/
structure Outlook where
  loadRight : Bool
  code : List Instruction
  code' : List Instruction
  extra : String → Prop
  readsFrom_iff : ∀ p ≤ code.length, ∀ x, ReadsFrom code' p x ↔ ReadsFrom code p x ∨ extra x

/-- The runs can diverge: registers are asked for more variables than there are
    registers, and one of these variables is needed at the first return only
    for the sake of the second code. -/
def Outlook.Contested (o : Outlook) : Prop :=
  15 < (askedBy o.loadRight o.code).card ∧
    ∃ x ∈ askedBy o.loadRight o.code, o.extra x ∧
      ∀ j ∈ o.code.dropWhile (·.opcode ≠ .ret), j.reads x = false

namespace Allocation

variable {a a' b b' : Allocation} {name x : String}

/-! ## One allocation -/

theorem mem_residents_iff : x ∈ a.residents ↔ ∃ r, (x, r) ∈ a.assigned := by
  simp [residents]

theorem isNeeded_iff {p : Nat} (hp : a.position = p) :
    a.isNeeded x = true ↔ x ∈ a.pinned ∨ ReadsFrom a.code p x := by
  have hposition : ¬ (p : Int) < 0 := by omega
  simp [isNeeded, isNeededIn, ahead, hp, hposition, ReadsFrom]

/-- A request fails if fifteen other variables are in registers and needed. -/
theorem Valid.obtain_eq_error_of_card (ha : a.Valid) {N : Finset String} (hN : N ⊆ a.residents)
    (hneeded : ∀ x ∈ N, a.isNeeded x = true) (hcard : 15 ≤ N.card) (hname : name ∉ N) :
    ∃ e, a.obtain name = .error e := by
  have hle : a.residents.card ≤ N.card := by
    rw [ha.card_residents]
    exact ha.length_le.trans hcard
  obtain rfl : N = a.residents := Finset.eq_of_subset_of_card_le hN hle
  rcases h : a.obtain name with e | ⟨granted, a'⟩
  · exact ⟨e, rfl⟩
  · exfalso
    obtain ⟨r, hr, -, -⟩ | ⟨r, -, -, -, rfl⟩ | ⟨victim, r, -, -, hvictim, -, -⟩ := obtain_cases h
    · exact hname (ha.mem_residents.2 ⟨r, hr⟩)
    · -- There would be sixteen variables in registers.
      have hlength := (ha.obtain h).length_le
      rw [← (ha.obtain h).card_residents] at hlength
      have hinsert : insert name a.residents ⊆
          residents { a with assigned := a.assigned ++ [(name, r)] } := by
        intro x hx
        simpa [residents, or_comm] using hx
      have hle := Finset.card_le_card hinsert
      rw [Finset.card_insert_of_notMem hname] at hle
      omega
    · obtain ⟨hmem, hnot⟩ := mem_of_victim? hvictim
      rw [hneeded victim (mem_residents_iff.2 ⟨r, hmem⟩)] at hnot
      cases hnot

/-- Who was in a register before, or asked for one, is all there is. -/
theorem mem_residents_of_obtain {granted : Grant} (h : a.obtain name = .ok (granted, a'))
    (hx : x ∈ a'.residents) : x = name ∨ x ∈ a.residents := by
  obtain ⟨r, hr⟩ := mem_residents_iff.1 hx
  by_cases hname : x = name
  · exact .inl hname
  · have hlater : Later (· = name) a a' := later_of_obtain rfl h
    exact .inr (mem_residents_iff.2 ⟨r, hlater.old hr hname⟩)

/-- Who is needed stays. -/
theorem mem_residents_of_isNeeded {granted : Grant} (h : a.obtain name = .ok (granted, a'))
    (hx : x ∈ a.residents) (hneeded : a.isNeeded x = true) : x ∈ a'.residents := by
  obtain ⟨r, hr⟩ := mem_residents_iff.1 hx
  have hlater : Later (· = name) a a' := later_of_obtain rfl h
  exact mem_residents_iff.2 ⟨r, hlater.kept hneeded hr⟩

theorem name_mem_residents_of_obtain {granted : Grant} (ha : a.Valid)
    (h : a.obtain name = .ok (granted, a')) : name ∈ a'.residents :=
  mem_residents_iff.2 ⟨_, mem_of_obtain ha h⟩

theorem pinned_of_obtain {granted : Grant} (h : a.obtain name = .ok (granted, a')) :
    a'.pinned = a.pinned := by
  obtain ⟨r, -, -, rfl⟩ | ⟨r, -, -, -, rfl⟩ | ⟨victim, r, -, -, -, -, rfl⟩ := obtain_cases h
  all_goals rfl

/-! ## Two allocations with the same variables -/

section

variable (heq : b.assigned = a.assigned) (hmono : ∀ x, a.isNeeded x = true → b.isNeeded x = true)
include heq hmono

theorem victim?_eq_none (h : a.victim? = none) : b.victim? = none := by
  refine List.find?_eq_none.2 fun entry hentry => ?_
  rw [heq] at hentry
  have hneeded : a.isNeeded entry.1 = true := by
    simpa [isNeeded] using List.find?_eq_none.1 h entry hentry
  simpa [isNeeded] using hmono _ hneeded

/-- The oldest variable that is not needed is the same, if it is not needed in
    the second allocation either. -/
theorem victim?_eq_some {entry : String × Register} (h : a.victim? = some entry)
    (hentry : b.isNeeded entry.1 = false) : b.victim? = some entry := by
  obtain ⟨-, before, after, hsplit, hbefore⟩ := List.find?_eq_some_iff_append.1 h
  refine List.find?_eq_some_iff_append.2 ⟨by simpa [isNeeded] using hentry, before, after,
    heq.trans hsplit, fun e he => ?_⟩
  have hneeded : a.isNeeded e.1 = true := by simpa [isNeeded] using hbefore e he
  simpa [isNeeded] using hmono _ hneeded

/-- A request comes to the same in both allocations, unless the first one takes
    a register from a variable that is needed in the second one. -/
theorem obtain_eq_or (hposition : b.position = a.position) (name : String) :
    (∃ granted a', a.obtain name = .ok (granted, a') ∧
      b.obtain name = .ok (granted, { b with assigned := a'.assigned })) ∨
    (∃ e, a.obtain name = .error e ∧ b.obtain name = .error e) ∨
    ∃ victim r a', a.obtain name = .ok (.taken r victim, a') ∧ a.register? name = none ∧
      a.free? = none ∧ victim ∈ a.residents ∧ a.isNeeded victim = false ∧
      b.isNeeded victim = true := by
  have hregister : b.register? name = a.register? name := by rw [register?, register?, heq]
  have hfree : b.free? = a.free? := by rw [free?, free?, heq]
  simp only [obtain, hregister, hfree]
  rcases a.register? name with _ | r
  · rcases a.free? with _ | r
    · rcases hvictim : a.victim? with _ | ⟨victim, r⟩
      · rw [victim?_eq_none heq hmono hvictim, hposition]
        exact .inr (.inl ⟨_, rfl, rfl⟩)
      · obtain ⟨hmem, hnot⟩ := mem_of_victim? hvictim
        by_cases hneeded : b.isNeeded victim = true
        · have hresident : victim ∈ a.residents := mem_residents_iff.2 ⟨r, hmem⟩
          exact .inr (.inr ⟨victim, r, _, rfl, rfl, rfl, hresident, hnot, hneeded⟩)
        · rw [victim?_eq_some heq hmono hvictim (Bool.eq_false_iff.2 hneeded), heq]
          exact .inl ⟨_, _, rfl, rfl⟩
    · rw [heq]
      exact .inl ⟨_, _, rfl, rfl⟩
  · exact .inl ⟨_, _, rfl, by rw [← heq]⟩

end

/-! ## Two allocations on their way -/

/-- What two allocations have in common at index `p`, if the same requests have
    been made to them.  The variable `pending` is pinned, but it has not asked
    for its register yet. -/
structure Parallel (o : Outlook) (p : Nat) (pending : Option String) (a b : Allocation) : Prop where
  left_code : a.code = o.code
  right_code : b.code = o.code'
  left_position : a.position = p
  right_position : b.position = p
  pinned : b.pinned = a.pinned
  pinned_of_pending : ∀ x, pending = some x → a.pinned = [x]
  left_valid : a.Valid
  right_valid : b.Valid
  asked : a.residents ⊆ askedBy o.loadRight o.code
  /-- What the first run has to keep, the second one has as well. -/
  kept : ∀ x ∈ a.residents, ReadsFrom o.code p x ∨ (x ∈ a.pinned ∧ pending ≠ some x) →
    x ∈ b.residents
  /-- Where the runs differ, the second one has a variable that the first one
      would give up. -/
  apart : b.assigned = a.assigned ∨
    (o.Contested ∧ ∃ x ∈ b.residents, o.extra x ∧ ¬ ReadsFrom o.code p x)

namespace Parallel

variable {o : Outlook} {p : Nat} {pending : Option String} (h : Parallel o p pending a b)
include h

theorem isNeeded_left : a.isNeeded x = true ↔ x ∈ a.pinned ∨ ReadsFrom o.code p x := by
  rw [isNeeded_iff h.left_position, h.left_code]

theorem isNeeded_right (hp : p ≤ o.code.length) :
    b.isNeeded x = true ↔ a.isNeeded x = true ∨ o.extra x := by
  rw [isNeeded_iff h.right_position, h.right_code, h.pinned, o.readsFrom_iff p hp,
    h.isNeeded_left, or_assoc]

theorem pinned_iff_of_pending {y : String} (hpending : pending = some y) :
    x ∈ a.pinned ↔ x = y := by
  rw [h.pinned_of_pending y hpending, List.mem_singleton]

section

variable (hp : p ≤ o.code.length)
include hp

theorem isNeeded_mono (hx : a.isNeeded x = true) : b.isNeeded x = true :=
  (h.isNeeded_right hp).2 (.inl hx)

/-- If all registers of the first run hold variables that it has to keep, so do
    those of the second run.  If the second run is without the pending
    variable, it has another one in its place. -/
theorem obtain_eq_error_of_full {z : String} (hz : z ∈ b.residents) (hextra : o.extra z)
    (hunread : ¬ ReadsFrom o.code p z)
    (hname : pending = none ∨ pending = some name ∨ ReadsFrom o.code p name)
    (hcard : a.residents.card = 15) (hout : name ∉ a.residents)
    (hneeded : ∀ x ∈ a.residents, a.isNeeded x = true) : ∃ e, b.obtain name = .error e := by
  by_cases hpending : ∃ y ∈ a.residents, pending = some y
  · -- The second run may have lost this variable: `z` is counted in its place.
    obtain ⟨y, hy, rfl⟩ := hpending
    have hread : ReadsFrom o.code p name := by
      rcases hname with hname | hname | hread
      · cases hname
      · cases hname
        exact absurd hy hout
      · exact hread
    have hothers : ∀ x ∈ a.residents.erase y, ReadsFrom o.code p x := by
      intro x hx
      obtain ⟨hne, hx⟩ := Finset.mem_erase.1 hx
      refine (h.isNeeded_left.1 (hneeded x hx)).resolve_left fun hpinned => hne ?_
      exact (h.pinned_iff_of_pending rfl).1 hpinned
    have hnot : z ∉ a.residents.erase y := fun hmem => hunread (hothers z hmem)
    refine h.right_valid.obtain_eq_error_of_card (N := insert z (a.residents.erase y)) ?_ ?_ ?_ ?_
    · refine Finset.insert_subset hz fun x hx => ?_
      exact h.kept x (Finset.mem_of_mem_erase hx) (.inl (hothers x hx))
    · refine Finset.forall_mem_insert _ _ _ |>.2 ⟨?_, fun x hx => ?_⟩
      · exact (h.isNeeded_right hp).2 (.inr hextra)
      · exact h.isNeeded_mono hp (h.isNeeded_left.2 (.inr (hothers x hx)))
    · rw [Finset.card_insert_of_notMem hnot, Finset.card_erase_of_mem hy, hcard]
    · rw [Finset.mem_insert, Finset.mem_erase]
      rintro (rfl | ⟨-, hmem⟩)
      · exact hunread hread
      · exact hout hmem
  · refine h.right_valid.obtain_eq_error_of_card (fun x hx => h.kept x hx ?_) ?_ hcard.ge hout
    · refine (h.isNeeded_left.1 (hneeded x hx)).symm.imp_right fun hpinned => ⟨hpinned, ?_⟩
      exact fun heq => hpending ⟨x, hx, heq⟩
    · exact fun x hx => h.isNeeded_mono hp (hneeded x hx)

variable (hreturn : ∀ j ∈ o.code.dropWhile (·.opcode ≠ .ret), j ∈ o.code.drop p)
  (hasked : name ∈ askedBy o.loadRight o.code)
include hreturn hasked

omit hp in
/-- Where a register is taken in the first run only, the two runs can diverge. -/
theorem contested {victim : String} (hnew : a.register? name = none) (hfree : a.free? = none)
    (hvictim : victim ∈ a.residents) (hextra : o.extra victim)
    (hunread : ¬ ReadsFrom o.code p victim) : o.Contested := by
  have hcard : 15 < (askedBy o.loadRight o.code).card := by
    -- All registers are in use, and none of them is for the new variable.
    have hout : name ∉ a.residents := by simp [h.left_valid.mem_residents, hnew]
    have hle := Finset.card_le_card (Finset.insert_subset hasked h.asked)
    rw [Finset.card_insert_of_notMem hout, h.left_valid.card_residents_of_free? hfree] at hle
    omega
  refine ⟨hcard, victim, h.asked hvictim, hextra, fun j hj => ?_⟩
  rw [Bool.eq_false_iff]
  intro hreads
  exact hunread ⟨j, hreturn j hj, hreads⟩

/-- As long as the same variables are in the same registers, a request comes to
    the same in both runs, unless they diverge there. -/
theorem obtain_eq_or_contested (heq : b.assigned = a.assigned) :
    (∃ granted a', a.obtain name = .ok (granted, a') ∧
      b.obtain name = .ok (granted, { b with assigned := a'.assigned })) ∨
    (∃ e, a.obtain name = .error e ∧ b.obtain name = .error e) ∨
    (∃ granted, a.obtain name = .ok granted) ∧ o.Contested ∧
      ∃ x ∈ b.residents, o.extra x ∧ ¬ ReadsFrom o.code p x := by
  have hposition : b.position = a.position := h.right_position.trans h.left_position.symm
  refine (obtain_eq_or heq (fun _ => h.isNeeded_mono hp) hposition name).imp_right (.imp_right ?_)
  rintro ⟨victim, r, a', hok, hnew, hfree, hvictim, hleft, hright⟩
  have hnot : ¬ a.isNeeded victim = true := Bool.eq_false_iff.1 hleft
  have hextra : o.extra victim := ((h.isNeeded_right hp).1 hright).resolve_left hnot
  have hunread : ¬ ReadsFrom o.code p victim := fun hread => hnot (h.isNeeded_left.2 (.inr hread))
  refine ⟨⟨_, hok⟩, h.contested hreturn hasked hnew hfree hvictim hextra hunread, victim, ?_,
    hextra, hunread⟩
  rwa [residents, heq]

/-- **Where the first run cannot grant a request, the second one cannot
    either.** -/
theorem error_of_error {e : Exhausted}
    (hname : pending = none ∨ pending = some name ∨ ReadsFrom o.code p name)
    (he : a.obtain name = .error e) :
    ∃ e', b.obtain name = .error e' ∧ (e' = e ∨ o.Contested) := by
  rcases h.apart with heq | ⟨hcontested, z, hz, hextra, hunread⟩
  · obtain ⟨granted, a', hok, -⟩ | ⟨e', he', hb⟩ | ⟨⟨granted, hok⟩, -⟩ :=
      h.obtain_eq_or_contested hp hreturn hasked heq
    · cases he.symm.trans hok
    · cases he.symm.trans he'
      exact ⟨e, hb, .inl rfl⟩
    · cases he.symm.trans hok
  · obtain ⟨hnew, hfree, hvictim⟩ := obtain_eq_error he
    have hout : name ∉ a.residents := by simp [h.left_valid.mem_residents, hnew]
    have hneeded : ∀ x ∈ a.residents, a.isNeeded x = true := by
      intro x hx
      obtain ⟨r, hr⟩ := mem_residents_iff.1 hx
      simpa [isNeeded] using List.find?_eq_none.1 hvictim _ hr
    obtain ⟨e', hb⟩ := h.obtain_eq_error_of_full hp hz hextra hunread hname
      (h.left_valid.card_residents_of_free? hfree) hout hneeded
    exact ⟨e', hb, .inr hcontested⟩

variable {granted granted' : Grant}

/-- Where only the second run cannot grant a request, the two have diverged. -/
theorem contested_of_error {e : Exhausted} (ha : a.obtain name = .ok (granted, a'))
    (hb : b.obtain name = .error e) : o.Contested := by
  rcases h.apart with heq | ⟨hcontested, -⟩
  · obtain ⟨granted', a₁, -, hok⟩ | ⟨e', he', -⟩ | ⟨-, hcontested, -⟩ :=
      h.obtain_eq_or_contested hp hreturn hasked heq
    · cases hb.symm.trans hok
    · cases ha.symm.trans he'
    · exact hcontested
  · exact hcontested

variable (ha : a.obtain name = .ok (granted, a')) (hb : b.obtain name = .ok (granted', b'))
include ha hb

/-- After a request that both runs grant, they have the same variables in the
    same registers, or the second run has one that the first would give up. -/
theorem apart_of_obtain :
    (granted' = granted ∧ b'.assigned = a'.assigned) ∨
      (o.Contested ∧ ∃ x ∈ b'.residents, o.extra x ∧ ¬ ReadsFrom o.code p x) := by
  have hstays : ∀ x ∈ b.residents, o.extra x → x ∈ b'.residents := fun x hx hextra =>
    mem_residents_of_isNeeded hb hx ((h.isNeeded_right hp).2 (.inr hextra))
  rcases h.apart with heq | ⟨hcontested, z, hz, hextra, hunread⟩
  · obtain ⟨granted₁, a₁, ha₁, hb₁⟩ | ⟨e', he', -⟩ | ⟨-, hcontested, z, hz, hextra, hunread⟩ :=
      h.obtain_eq_or_contested hp hreturn hasked heq
    · cases ha.symm.trans ha₁
      cases hb.symm.trans hb₁
      exact .inl ⟨rfl, rfl⟩
    · cases ha.symm.trans he'
    · exact .inr ⟨hcontested, z, hstays z hz hextra, hextra, hunread⟩
  · exact .inr ⟨hcontested, z, hstays z hz hextra, hextra, hunread⟩

/-- **A request that both runs grant** leaves them in parallel. -/
theorem of_obtain :
    Parallel o p (pending.filter (· ≠ name)) a' b' := by
  have hleft : Later (· = name) a a' := later_of_obtain rfl ha
  have hright : Later (· = name) b b' := later_of_obtain rfl hb
  have hpinned : a'.pinned = a.pinned := pinned_of_obtain ha
  refine ⟨hleft.code.trans h.left_code, hright.code.trans h.right_code,
    hleft.position.trans h.left_position, hright.position.trans h.right_position, ?_, ?_,
    hleft.valid h.left_valid, hright.valid h.right_valid, fun x hx => ?_, fun x hx hkept => ?_, ?_⟩
  · rw [pinned_of_obtain hb, hpinned, h.pinned]
  · intro x hx
    rw [hpinned]
    exact h.pinned_of_pending x (Option.filter_eq_some_iff.1 hx).1
  · rcases mem_residents_of_obtain ha hx with rfl | hx
    · exact hasked
    · exact h.asked hx
  · by_cases hne : x = name
    · rw [hne]
      exact name_mem_residents_of_obtain h.right_valid hb
    · have hx : x ∈ a.residents := (mem_residents_of_obtain ha hx).resolve_left hne
      have hkept : ReadsFrom o.code p x ∨ (x ∈ a.pinned ∧ pending ≠ some x) := by
        refine hkept.imp_right fun ⟨hmem, hpending⟩ => ⟨hpinned ▸ hmem, fun heq => hpending ?_⟩
        simp [heq, hne]
      have hneeded : a.isNeeded x = true := h.isNeeded_left.2 (hkept.symm.imp_left And.left)
      exact mem_residents_of_isNeeded hb (h.kept x hx hkept) (h.isNeeded_mono hp hneeded)
  · exact (h.apart_of_obtain hp hreturn hasked ha hb).imp_left And.right

end

/-- Moving on to a later instruction. -/
theorem advance {q : Nat} (hle : p ≤ q) (result : Option String) :
    Parallel o q result (a.advance q result) (b.advance q result) where
  left_code := h.left_code
  right_code := h.right_code
  left_position := rfl
  right_position := rfl
  pinned := rfl
  pinned_of_pending x hx := by rw [hx]; rfl
  left_valid := ⟨h.left_valid.names, h.left_valid.registers⟩
  right_valid := ⟨h.right_valid.names, h.right_valid.registers⟩
  asked := h.asked
  kept x hx hkept := by
    rcases hkept with hread | ⟨hpinned, hne⟩
    · exact h.kept x hx (.inl (hread.of_le hle))
    · exact absurd (Option.mem_toList.1 hpinned) hne
  apart := h.apart.imp_right fun ⟨hcontested, x, hx, hextra, hunread⟩ =>
    ⟨hcontested, x, hx, hextra, fun hread => hunread (hread.of_le hle)⟩

/-- Pinning a variable that is in a register in the second run. -/
theorem pin (hpending : pending = none) (hname : name ∈ b.residents) :
    Parallel o p pending (a.pin name) (b.pin name) where
  left_code := h.left_code
  right_code := h.right_code
  left_position := h.left_position
  right_position := h.right_position
  pinned := congrArg (name :: ·) h.pinned
  pinned_of_pending x hx := by cases hpending.symm.trans hx
  left_valid := ⟨h.left_valid.names, h.left_valid.registers⟩
  right_valid := ⟨h.right_valid.names, h.right_valid.registers⟩
  asked := h.asked
  kept x hx hkept := by
    rcases hkept with hread | ⟨hpinned, hne⟩
    · exact h.kept x hx (.inl hread)
    · rcases List.mem_cons.1 hpinned with rfl | hpinned
      · exact hname
      · exact h.kept x hx (.inr ⟨hpinned, hne⟩)
  apart := h.apart

end Parallel

end Allocation

end Straightline
