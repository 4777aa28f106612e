/-
  Attempts: computations on a state that may fail and keep the state they
  reached.

  The machines of this library show what they did before they failed, so a
  failure does not undo the steps before it.

  * `Attempt ε σ α`: from a state of type `σ`, an `α` or a failure `ε`, and in
    both cases the state reached;
  * `Attempt.exec` runs an attempt.
-/

namespace Straightline

/-- A computation on a state `σ` that gives an `α` or fails with an `ε`, and
    keeps the state reached in both cases. -/
abbrev Attempt (ε σ : Type) := ExceptT ε (StateM σ)

namespace Attempt

variable {ε σ α β : Type}

/-- Runs an attempt from a state. -/
def exec (m : Attempt ε σ α) (s : σ) : Except ε α × σ :=
  m.run.run s

/-- The failure of an attempt that gives no value, and the state reached. -/
def outcome (m : Attempt ε σ Unit) (s : σ) : Option ε × σ :=
  match m.exec s with
  | (.ok _, s') => (none, s')
  | (.error e, s') => (some e, s')

@[simp] theorem exec_pure (a : α) (s : σ) : exec (pure a : Attempt ε σ α) s = (.ok a, s) :=
  rfl

@[simp] theorem exec_throw (e : ε) (s : σ) : exec (throw e : Attempt ε σ α) s = (.error e, s) :=
  rfl

@[simp] theorem exec_get (s : σ) : exec (get : Attempt ε σ σ) s = (.ok s, s) :=
  rfl

@[simp] theorem exec_set (s' s : σ) : exec (set s' : Attempt ε σ PUnit) s = (.ok ⟨⟩, s') :=
  rfl

@[simp] theorem exec_modify (f : σ → σ) (s : σ) :
    exec (modify f : Attempt ε σ PUnit) s = (.ok ⟨⟩, f s) :=
  rfl

/-- After a first part that fails nothing more is done; else the second part
    starts where the first one ended. -/
theorem exec_bind (m : Attempt ε σ α) (f : α → Attempt ε σ β) (s : σ) :
    exec (m >>= f) s =
      match exec m s with
      | (.ok a, s') => exec (f a) s'
      | (.error e, s') => (.error e, s') := by
  simp only [exec, ExceptT.run, bind, ExceptT.bind, ExceptT.mk, StateT.bind, StateT.run,
    ExceptT.bindCont]
  cases h : m s with
  | mk r s' => cases r <;> rfl

/-- Two parts succeed if the first one does, and the second one after it. -/
theorem exec_bind_eq_ok {m : Attempt ε σ α} {f : α → Attempt ε σ β} {s s'' : σ} {b : β}
    (h : exec (m >>= f) s = (.ok b, s'')) :
    ∃ a s', exec m s = (.ok a, s') ∧ exec (f a) s' = (.ok b, s'') := by
  rw [exec_bind] at h
  rcases hm : exec m s with ⟨_ | a, s'⟩
  · simp [hm] at h
  · exact ⟨a, s', rfl, by simpa [hm] using h⟩

end Attempt

end Straightline
