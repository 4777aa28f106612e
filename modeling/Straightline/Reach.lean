/-
  Reachability in a finite graph.

  `reach edge pool work` visits the nodes of `work` and, from every visited
  node, those nodes of `pool` to which `edge` leads.  A node of the pool is
  used up when it is scheduled, so the number of nodes in pool and work
  together falls with every visit.

  * `Reachable edge pool a b`: a path from `a` to `b` whose nodes after `a` lie
    in the pool;
  * `mem_reach`: exactly the reachable nodes are visited, whatever the order of
    the work.
-/

namespace Straightline

variable {α : Type}

/-- The nodes of `pool` to which an edge leads from `a`. -/
def successors (edge : α → α → Bool) (a : α) (pool : List α) : List α :=
  pool.filter (edge a)

/-- The nodes of `pool` to which no edge leads from `a`. -/
def others (edge : α → α → Bool) (a : α) (pool : List α) : List α :=
  pool.filter (!edge a ·)

theorem length_successors_add_others (edge : α → α → Bool) (a : α) (pool : List α) :
    (successors edge a pool).length + (others edge a pool).length = pool.length := by
  induction pool with
  | nil => rfl
  | cons b pool ih =>
    by_cases h : edge a b = true <;> simp_all [successors, others] <;> omega

/-- The nodes of `work` and all that is reachable from them inside `pool`. -/
def reach (edge : α → α → Bool) (pool work : List α) : List α :=
  match work with
  | [] => []
  | a :: rest => a :: reach edge (others edge a pool) (successors edge a pool ++ rest)
termination_by pool.length + work.length
decreasing_by
  have hsplit := length_successors_add_others edge a pool
  simp only [List.length_append, List.length_cons]
  omega

/-- There is a path from `a` to `b` whose nodes after `a` lie in `pool`. -/
inductive Reachable (edge : α → α → Bool) (pool : List α) (a : α) : α → Prop where
  | refl : Reachable edge pool a a
  | step {b c : α} : Reachable edge pool a b → c ∈ pool → edge b c = true →
      Reachable edge pool a c

namespace Reachable

variable {edge : α → α → Bool} {pool pool' : List α} {a b c : α}

theorem mono (hsub : ∀ x ∈ pool, x ∈ pool') (h : Reachable edge pool a b) :
    Reachable edge pool' a b := by
  induction h with
  | refl => exact .refl
  | step _ hc he ih => exact .step ih (hsub _ hc) he

theorem trans (hab : Reachable edge pool a b) (hbc : Reachable edge pool b c) :
    Reachable edge pool a c := by
  induction hbc with
  | refl => exact hab
  | step _ hc he ih => exact .step ih hc he

end Reachable

/-- **Exactly the reachable nodes are visited.** -/
theorem mem_reach (edge : α → α → Bool) (pool work : List α) (x : α) :
    x ∈ reach edge pool work ↔ ∃ a ∈ work, Reachable edge pool a x := by
  fun_induction reach edge pool work with
  | case1 pool => simp
  | case2 pool a rest ih =>
    rw [List.mem_cons, ih]
    constructor
    · rintro (rfl | ⟨b, hb, hbx⟩)
      · exact ⟨x, List.mem_cons_self, .refl⟩
      · have hbx' := hbx.mono fun y hy => (List.mem_filter.1 hy).1
        rcases List.mem_append.1 hb with hb | hb
        · obtain ⟨hpool, hedge⟩ := List.mem_filter.1 hb
          exact ⟨a, List.mem_cons_self, (Reachable.step .refl hpool hedge).trans hbx'⟩
        · exact ⟨b, List.mem_cons_of_mem _ hb, hbx'⟩
    · rintro ⟨b, hb, hbx⟩
      -- A path either stays off the nodes that `a` schedules, or passes its last one.
      have key : ∀ {y}, Reachable edge pool b y →
          y = a ∨ ∃ d ∈ successors edge a pool ++ rest,
            Reachable edge (others edge a pool) d y := by
        intro y hy
        induction hy with
        | refl =>
          rcases List.mem_cons.1 hb with rfl | hb
          · exact .inl rfl
          · exact .inr ⟨b, List.mem_append_right _ hb, .refl⟩
        | @step u v hu hv he ih =>
          by_cases hav : edge a v = true
          · exact .inr ⟨v, List.mem_append_left _ (List.mem_filter.2 ⟨hv, hav⟩), .refl⟩
          · rcases ih with rfl | ⟨d, hd, hdu⟩
            · exact absurd he hav
            · exact .inr ⟨d, hd, hdu.step (List.mem_filter.2 ⟨hv, by simpa using hav⟩) he⟩
      exact key hbx

end Straightline
