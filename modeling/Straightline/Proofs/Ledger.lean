/-
  The books of an allocation.

  An allocation lists the variables that are in registers.  Whoever looks for
  a free register wants to know it the other way round.  A ledger has both
  tables, one by variables and one by registers, and enters every change into
  each of them.  Whatever calls come, and in whatever order, the two tables
  say the same, and without the second one a ledger is the allocation.

  * `Allocation.Call`, `Allocation.after`: the calls that an allocation answers;
  * `Ledger`, `Ledger.obtain`: an allocation with a table by registers;
  * `Ledger.Balanced`: both tables say the same, and the registers in use are
    the first ones;
  * `Ledger.Balanced.after`, `Ledger.balanced_afterAll`: what one call and a
    sequence of calls preserve;
  * `ledger_stays_balanced`: what can be seen of it after any calls.
-/
import Mathlib.Data.Finset.Card
import Mathlib.Data.List.Perm.Basic
import Straightline.Proofs.Grants
import Straightline.Proofs.Pressure

namespace Straightline

namespace Allocation

/-! ## Calls -/

/-- The calls that an allocation answers. -/
inductive Call where
  | obtain (name : String)
  | advance (position : Int) (result : Option String)
  | pin (name : String)
  deriving DecidableEq, Repr

/-- An allocation after a call.  One that is refused leaves it as it was. -/
def after (a : Allocation) : Call → Allocation
  | .obtain name =>
    match a.obtain name with
    | .ok (_, a') => a'
    | .error _ => a
  | .advance position result => a.advance position result
  | .pin name => a.pin name

/-- An allocation after some calls. -/
def afterAll (a : Allocation) (calls : List Call) : Allocation :=
  calls.foldl after a

/-- The variables that are in registers. -/
def residents (a : Allocation) : Finset String :=
  (a.assigned.map Prod.fst).toFinset

variable {a : Allocation} {x : String}

theorem isFree_iff {r : Register} :
    (!a.assigned.any (·.2 = r)) = true ↔ r ∉ a.assigned.map Prod.snd := by
  rw [Bool.not_eq_true', List.any_eq_false, List.mem_map]
  simp only [decide_eq_true_eq, not_exists, not_and]

theorem Valid.mem_residents (ha : a.Valid) : x ∈ a.residents ↔ ∃ r, a.register? x = some r := by
  simp only [residents, List.mem_toFinset, List.mem_map, Prod.exists, exists_and_right,
    exists_eq_right, ha.register?_eq_some_iff]

theorem Valid.card_residents (ha : a.Valid) : a.residents.card = a.assigned.length := by
  rw [residents, List.toFinset_card_of_nodup ha.names, List.length_map]

/-- The variables in registers are one of them and all others. -/
theorem Valid.perm_filter (ha : a.Valid) {r : Register} (hx : (x, r) ∈ a.assigned) :
    a.assigned.Perm ((x, r) :: a.assigned.filter (·.1 ≠ x)) := by
  have hfilter : a.assigned.filter (·.1 ≠ x) = a.assigned.erase (x, r) := by
    rw [(List.Nodup.of_map _ ha.names).erase_eq_filter]
    refine List.filter_congr fun ⟨y, s⟩ hs => ?_
    by_cases hy : y = x
    · subst hy
      simp [ha.register_eq_of_mem hs hx]
    · simp [hy]
  rw [hfilter]
  exact List.perm_cons_erase hx

/-- There is no register left exactly if fifteen variables are in registers. -/
theorem Valid.card_residents_of_free? (ha : a.Valid) (h : a.free? = none) :
    a.residents.card = 15 := by
  rw [ha.card_residents]
  exact le_antisymm ha.length_le (length_of_free?_eq_none h)

/-- Who is in registers after a request: the variable that asked, and those
    that were, but for the one that had to give up its register. -/
theorem residents_of_obtain {a' : Allocation} {name : String} {grant : Grant}
    (h : a.obtain name = .ok (grant, a')) :
    (a'.residents = insert name a.residents) ∨
      ∃ victim ∈ a.residents, a'.residents = insert name (a.residents.erase victim) ∧
        a.register? name = none ∧ a.free? = none := by
  obtain ⟨r, hr, -, rfl⟩ | ⟨r, -, -, -, rfl⟩ | ⟨victim, r, hname, hfree, hvictim, -, rfl⟩ :=
    obtain_cases h
  · obtain ⟨before, after, heq, -⟩ := List.lookup_eq_some_iff.1 hr
    exact .inl (Finset.insert_eq_self.2 (by simp [residents, heq])).symm
  · refine .inl ?_
    ext x
    simp [residents]
  · refine .inr ⟨victim, ?_, ?_, hname, hfree⟩
    · exact List.mem_toFinset.2 (List.mem_map_of_mem (mem_of_victim? hvictim).1)
    · ext x
      simp [residents, and_comm]

end Allocation

/-! ## Ledgers -/

/-- An allocation with a second table, by registers. -/
structure Ledger extends Allocation where
  /-- The registers in use, each with the variable that is in it. -/
  owners : List (Register × String) := []
  deriving DecidableEq, Repr

namespace Ledger

open Allocation (Call)

/-- The variable in a register. -/
def owner? (l : Ledger) (r : Register) : Option String :=
  l.owners.lookup r

/-- The first register that is not in the table of registers. -/
def unowned? (l : Ledger) : Option Register :=
  Register.all.find? fun r => (l.owner? r).isNone

/-- Enters a variable and its register into both tables. -/
def assign (l : Ledger) (name : String) (r : Register) : Ledger :=
  { l with assigned := l.assigned ++ [(name, r)], owners := l.owners ++ [(r, name)] }

/-- Strikes a variable out of one table, and its register out of the other. -/
def release (l : Ledger) (name : String) (r : Register) : Ledger :=
  { l with
    assigned := l.assigned.filter (·.1 ≠ name)
    owners := l.owners.filter (·.1 ≠ r) }

/-- The register of a variable, after giving it one if need be. -/
def obtain (l : Ledger) (name : String) : Except Exhausted (Grant × Ledger) :=
  match l.register? name with
  | some r => .ok (.held r, l)
  | none =>
    match l.unowned? with
    | some r => .ok (.fresh r, l.assign name r)
    | none =>
      match l.victim? with
      | some (victim, r) => .ok (.taken r victim, (l.release victim r).assign name r)
      | none => .error ⟨name, l.position⟩

/-- A ledger after a call.  One that is refused leaves it as it was. -/
def after (l : Ledger) : Call → Ledger
  | .obtain name =>
    match l.obtain name with
    | .ok (_, l') => l'
    | .error _ => l
  | .advance position result => { l with toAllocation := l.toAllocation.advance position result }
  | .pin name => { l with toAllocation := l.toAllocation.pin name }

/-- A ledger after some calls. -/
def afterAll (l : Ledger) (calls : List Call) : Ledger :=
  calls.foldl after l

/-! ## Balanced ledgers -/

/-- Both tables say the same, no variable and no register is twice in them,
    and the registers in use are the first ones in the order in which they are
    given out. -/
structure Balanced (l : Ledger) : Prop where
  valid : l.toAllocation.Valid
  owners : ∀ x r, (r, x) ∈ l.owners ↔ (x, r) ∈ l.assigned
  first : (l.assigned.map Prod.snd).Perm (Register.all.take l.assigned.length)

variable {l l' : Ledger} {x name : String} {r : Register}

theorem Balanced.owner?_eq_some_iff (h : l.Balanced) : l.owner? r = some x ↔ (x, r) ∈ l.assigned := by
  have hmem : ∀ {y}, l.owner? r = some y → (y, r) ∈ l.assigned := by
    intro y hy
    obtain ⟨before, after, heq, -⟩ := List.lookup_eq_some_iff.1 hy
    exact (h.owners y r).1 (by simp [heq])
  refine ⟨hmem, fun hx => ?_⟩
  rcases howner : l.owner? r with _ | y
  · have hnone := List.lookup_eq_none_iff.1 howner _ ((h.owners x r).2 hx)
    simp at hnone
  · rw [h.valid.eq_of_mem hx (hmem howner)]

theorem Balanced.owner?_eq_none_iff (h : l.Balanced) :
    l.owner? r = none ↔ r ∉ l.assigned.map Prod.snd := by
  rw [Option.eq_none_iff_forall_ne_some]
  simp only [ne_eq, h.owner?_eq_some_iff, List.mem_map, Prod.exists, exists_eq_right, not_exists]

/-- Both tables have the same free register. -/
theorem Balanced.unowned?_eq (h : l.Balanced) : l.unowned? = l.free? := by
  rw [unowned?, Allocation.free?]
  congr 1
  funext r
  rw [Bool.eq_iff_iff, Option.isNone_iff_eq_none, h.owner?_eq_none_iff, Allocation.isFree_iff]

/-- The first element of a list without repetitions that is not among the
    first `k` is the one behind them. -/
theorem find?_notMem_take {α : Type} [DecidableEq α] {xs : List α} (hxs : xs.Nodup) (k : Nat) :
    xs.find? (fun x => decide (x ∉ xs.take k)) = xs[k]? := by
  have hfirst : (xs.take k).find? (fun x => decide (x ∉ xs.take k)) = none :=
    List.find?_eq_none.2 fun x hx => by simpa using hx
  have hsplit : xs.find? (fun x => decide (x ∉ xs.take k)) =
      (xs.take k ++ xs.drop k).find? (fun x => decide (x ∉ xs.take k)) := by
    rw [List.take_append_drop]
  rw [hsplit, List.find?_append, hfirst, Option.none_or, ← List.head?_drop]
  have hdisjoint := List.disjoint_take_drop hxs (le_refl k)
  cases hrest : xs.drop k with
  | nil => rfl
  | cons x rest =>
    have hx : x ∉ xs.take k := by
      intro hmem
      exact hdisjoint hmem (by simp [hrest])
    simp [hx]

/-- The next register to be given out is the one behind those in use. -/
theorem Balanced.free?_eq (h : l.Balanced) : l.free? = Register.all[l.assigned.length]? := by
  rw [← find?_notMem_take Register.nodup_all, Allocation.free?]
  congr 1
  funext r
  rw [Bool.eq_iff_iff, Allocation.isFree_iff, h.first.mem_iff, decide_eq_true_eq]

/-- Without its second table a ledger answers as the allocation does. -/
theorem Balanced.toAllocation_obtain (h : l.Balanced) (name : String) :
    l.toAllocation.obtain name =
      (l.obtain name).map fun (grant, l') => (grant, l'.toAllocation) := by
  rw [Allocation.obtain, obtain, h.unowned?_eq]
  cases l.register? name with
  | some r => rfl
  | none =>
    cases l.free? with
    | some r => rfl
    | none =>
      rcases l.victim? with _ | ⟨victim, r⟩
      · rfl
      · rfl

theorem Balanced.obtain_eq_ok (h : l.Balanced) {grant : Grant} (ho : l.obtain name = .ok (grant, l')) :
    l.toAllocation.obtain name = .ok (grant, l'.toAllocation) := by
  rw [h.toAllocation_obtain, ho]
  rfl

/-! ## What a call preserves -/

theorem Balanced.assign (h : l.Balanced) (hname : l.register? name = none)
    (hfree : l.free? = some r) : (l.assign name r).Balanced where
  valid := h.valid.give (.refl _) (Allocation.notMem_of_register?_eq_none hname)
    (Allocation.notMem_of_free? hfree)
  owners x s := by
    simp only [Ledger.assign, List.mem_append, List.mem_singleton, Prod.mk.injEq, h.owners,
      and_comm]
  first := by
    rw [h.free?_eq] at hfree
    simp only [Ledger.assign, List.map_append, List.map_cons, List.map_nil, List.length_append,
      List.length_singleton, List.take_add_one, hfree, Option.toList_some]
    exact h.first.append_right [r]

/-- The variable that gives up its register is followed in it by another. -/
theorem Balanced.exchange (h : l.Balanced) {victim : String} (hname : l.register? name = none)
    (hvictim : (victim, r) ∈ l.assigned) : ((l.release victim r).assign name r).Balanced := by
  have hne : ∀ {x s}, (x, s) ∈ l.assigned → (x ≠ victim ↔ s ≠ r) := by
    intro x s hs
    refine not_congr ⟨?_, ?_⟩
    · rintro rfl
      exact h.valid.register_eq_of_mem hs hvictim
    · rintro rfl
      exact h.valid.eq_of_mem hs hvictim
  have hperm := h.valid.perm_filter hvictim
  refine ⟨?_, fun x s => ?_, ?_⟩
  · refine h.valid.give List.filter_sublist (fun s hs => ?_) fun y hy => ?_
    · exact Allocation.notMem_of_register?_eq_none hname s (List.mem_of_mem_filter hs)
    · have hmem := List.mem_filter.1 hy
      exact (hne hmem.1).1 (by simpa using hmem.2) rfl
  · simp only [Ledger.assign, release, List.mem_append, List.mem_filter, List.mem_singleton,
      Prod.mk.injEq, h.owners, decide_eq_true_eq]
    constructor
    · rintro (⟨hs, hr⟩ | ⟨rfl, rfl⟩)
      · exact .inl ⟨hs, (hne hs).2 hr⟩
      · exact .inr ⟨rfl, rfl⟩
    · rintro (⟨hs, hx⟩ | ⟨rfl, rfl⟩)
      · exact .inl ⟨hs, (hne hs).1 hx⟩
      · exact .inr ⟨rfl, rfl⟩
  · have hlength : ((l.release victim r).assign name r).assigned.length = l.assigned.length := by
      rw [hperm.length_eq]
      simp [Ledger.assign, release]
    rw [hlength]
    refine List.Perm.trans ?_ ((hperm.map Prod.snd).symm.trans h.first)
    simp only [Ledger.assign, release, List.map_append, List.map_cons, List.map_nil]
    exact List.perm_append_singleton _ _

/-- **A register is given out**, and the ledger stays balanced. -/
theorem Balanced.obtain (h : l.Balanced) {grant : Grant} (ho : l.obtain name = .ok (grant, l')) :
    l'.Balanced := by
  unfold Ledger.obtain at ho
  split at ho
  · cases ho
    exact h
  · next hname =>
    split at ho
    · next r hfree =>
      cases ho
      exact h.assign hname (h.unowned?_eq ▸ hfree)
    · split at ho
      · next victim r hvictim =>
        cases ho
        exact h.exchange hname (Allocation.mem_of_victim? hvictim).1
      · cases ho

theorem Balanced.after (h : l.Balanced) (call : Call) : (l.after call).Balanced := by
  cases call with
  | obtain name =>
    unfold Ledger.after
    dsimp only
    split
    · next grant l' ho => exact h.obtain ho
    · exact h
  | advance position result => exact ⟨⟨h.valid.names, h.valid.registers⟩, h.owners, h.first⟩
  | pin name => exact ⟨⟨h.valid.names, h.valid.registers⟩, h.owners, h.first⟩

theorem Balanced.toAllocation_after (h : l.Balanced) (call : Call) :
    (l.after call).toAllocation = l.toAllocation.after call := by
  cases call with
  | obtain name =>
    simp only [Ledger.after, Allocation.after, h.toAllocation_obtain]
    rcases l.obtain name with _ | ⟨grant, l'⟩
    · rfl
    · rfl
  | advance position result => rfl
  | pin name => rfl

/-- **After any calls** a ledger is balanced, and without its second table it
    is the allocation after these calls. -/
theorem balanced_afterAll (code : List Instruction) (calls : List Call) :
    (afterAll { code } calls).Balanced ∧
      (afterAll { code } calls).toAllocation = Allocation.afterAll { code } calls := by
  induction calls using List.reverseRecOn with
  | nil =>
    have hempty : (Ledger.mk { code } []).Balanced :=
      ⟨⟨List.nodup_nil, List.nodup_nil⟩, fun x r => by simp, List.Perm.refl []⟩
    exact ⟨hempty, rfl⟩
  | append_singleton calls call ih =>
    obtain ⟨hbalanced, heq⟩ := ih
    simp only [afterAll, Allocation.afterAll, List.foldl_append, List.foldl_cons,
      List.foldl_nil] at hbalanced heq ⊢
    exact ⟨hbalanced.after call, by rw [hbalanced.toAllocation_after, heq]⟩

/-! ## What can be seen of it -/

/-- The registers in use are as many as the variables in them, and the first
    ones. -/
theorem Balanced.exists_owner_iff (h : l.Balanced) :
    (∃ x, l.owner? r = some x) ↔ r ∈ Register.all.take l.residents.card := by
  rw [h.valid.card_residents, ← h.first.mem_iff, List.mem_map]
  simp only [h.owner?_eq_some_iff, Prod.exists, exists_eq_right]

theorem Balanced.card_residents_le (h : l.Balanced) (call : Call) :
    l.residents.card ≤ (l.after call).residents.card := by
  rw [h.toAllocation_after]
  cases call with
  | obtain name =>
    unfold Allocation.after
    dsimp only
    split
    · next grant a' ho =>
      obtain heq | ⟨victim, hvictim, heq, hname, -⟩ := Allocation.residents_of_obtain ho
      · rw [heq]
        exact Finset.card_le_card (Finset.subset_insert _ _)
      · have hnew : name ∉ l.residents := by simp [h.valid.mem_residents, hname]
        rw [heq, Finset.card_insert_of_notMem fun hmem => hnew (Finset.mem_of_mem_erase hmem),
          Finset.card_erase_add_one hvictim]
    · exact le_refl _
  | advance position result => exact le_refl _
  | pin name => exact le_refl _

/-- A variable that stays in a register stays in its own. -/
theorem Balanced.register?_of_obtain (h : l.Balanced) {grant : Grant}
    (ho : l.obtain name = .ok (grant, l')) (hx : x ≠ name) (hr : l'.register? x = some r) :
    l.register? x = some r := by
  rw [(h.obtain ho).valid.register?_eq_some_iff] at hr
  rw [h.valid.register?_eq_some_iff]
  have hlater : Allocation.Later (· = name) l.toAllocation l'.toAllocation :=
    Allocation.later_of_obtain rfl (h.obtain_eq_ok ho)
  exact hlater.old hr hx

/-- Only one variable gives up its register, and only if there is none left
    for one that has none. -/
theorem Balanced.residents_sdiff (h : l.Balanced) {grant : Grant}
    (ho : l.obtain name = .ok (grant, l')) (hx : x ∈ l.residents \ l'.residents) :
    l.register? name = none ∧ l.residents.card = 15 ∧ l.residents \ l'.residents = {x} := by
  obtain heq | ⟨victim, hvictim, heq, hname, hfree⟩ :=
    Allocation.residents_of_obtain (h.obtain_eq_ok ho)
  · rw [heq, Finset.sdiff_eq_empty_iff_subset.2 (Finset.subset_insert _ _)] at hx
    cases Finset.notMem_empty x hx
  · have hnew : name ∉ l.residents := by simp [h.valid.mem_residents, hname]
    have hlost : l.residents \ l'.residents = {victim} := by
      ext y
      simp only [heq, Finset.mem_sdiff, Finset.mem_insert, Finset.mem_erase, Finset.mem_singleton]
      constructor
      · rintro ⟨hy, hkept⟩
        by_contra hne
        exact hkept (.inr ⟨hne, hy⟩)
      · rintro rfl
        refine ⟨hvictim, ?_⟩
        rintro (rfl | ⟨hne, -⟩)
        · exact hnew hvictim
        · exact hne rfl
    rw [hlost, Finset.mem_singleton] at hx
    exact ⟨hname, h.valid.card_residents_of_free? hfree, by rw [hlost, hx]⟩

end Ledger

/-- **The books stay balanced.**  After any calls, in any order and with any
    arguments, those included that were refused:

    * the ledger is the allocation after these calls, with a second table, and
      answers the next request as the allocation does;
    * the tables are inverse to each other;
    * the registers in use are the first ones in the order in which they are
      given out, as many as there are variables in registers, and no call makes
      these fewer;
    * a variable that asks for a register and gets one is in it then; all
      others that are in registers were in the same ones before; if one is not
      any more, it is the only one, the variable that asked had no register,
      and fifteen were in use;
    * a request that is refused changes nothing. -/
theorem ledger_stays_balanced (code : List Instruction) (calls : List Allocation.Call) :
    let a := Allocation.afterAll { code } calls
    let l := Ledger.afterAll { code } calls
    (l.toAllocation = a ∧ ∀ name,
      a.obtain name = (l.obtain name).map fun (grant, l') => (grant, l'.toAllocation)) ∧
    (∀ x r, l.register? x = some r ↔ l.owner? r = some x) ∧
    (∀ x, x ∈ l.residents ↔ ∃ r, l.register? x = some r) ∧
    (∀ r, (∃ x, l.owner? r = some x) ↔ r ∈ Register.all.take l.residents.card) ∧
    (∀ call, l.residents.card ≤ (l.after call).residents.card) ∧
    (∀ name grant l', l.obtain name = .ok (grant, l') →
      l'.register? name = some grant.register ∧
      (∀ x r, x ≠ name → l'.register? x = some r → l.register? x = some r) ∧
      ∀ x ∈ l.residents \ l'.residents,
        l.register? name = none ∧ l.residents.card = 15 ∧ l.residents \ l'.residents = {x}) ∧
    ∀ name e, l.obtain name = .error e → l.after (.obtain name) = l := by
  intro a l
  obtain ⟨h, heq⟩ := Ledger.balanced_afterAll code calls
  refine ⟨⟨heq, fun name => ?_⟩, fun x r => ?_, fun x => h.valid.mem_residents,
    fun r => h.exists_owner_iff, h.card_residents_le,
    fun name grant l' ho => ⟨?_, fun x r hx hr => ?_, fun x hx => ?_⟩, fun name e ho => ?_⟩
  · rw [show a = l.toAllocation from heq.symm]
    exact h.toAllocation_obtain name
  · rw [h.valid.register?_eq_some_iff, h.owner?_eq_some_iff]
  · rw [(h.obtain ho).valid.register?_eq_some_iff]
    exact Allocation.mem_of_obtain h.valid (h.obtain_eq_ok ho)
  · exact h.register?_of_obtain ho hx hr
  · exact h.residents_sdiff ho hx
  · simp only [Ledger.after, ho]

/-- All registers are in use.  The first variable is still read, the next two
    are pinned, so it is the fourth one that gives up its register. -/
theorem ledger_stays_balanced_taken :
    let names := ["a", "b", "c", "d", "e", "f", "g", "h", "i", "j", "k", "l", "m", "n", "o"]
    let calls : List Allocation.Call := names.map .obtain ++ [.advance 0 (some "b"), .pin "c"]
    let l := Ledger.afterAll { code := [⟨.ret, [.var "a"], none⟩] } calls
    ∃ l', l.obtain "p" = .ok (.taken .a0 "d", l') ∧ l'.register? "p" = some .a0 ∧
      l.register? "p" = none ∧ l.residents.card = 15 ∧ l.residents \ l'.residents = {"d"} := by
  intro names calls l
  let l' := (l.release "d" .a0).assign "p" .a0
  have hobtain : l.obtain "p" = .ok (.taken .a0 "d", l') := by decide +kernel
  obtain ⟨-, -, -, -, -, hgranted, -⟩ :=
    ledger_stays_balanced [⟨.ret, [.var "a"], none⟩] calls
  obtain ⟨hp, -, hlost⟩ := hgranted "p" _ l' hobtain
  exact ⟨l', hobtain, hp, hlost "d" (by decide +kernel)⟩

end Straightline
