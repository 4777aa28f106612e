/-
  Stacks as lists, the top first.

  * `discard n` takes the top `n` entries off a stack.  From a stack of fewer
    entries it takes only the excess of `n` over their number.
-/

namespace Straightline

variable {α : Type}

/-- Takes `n` entries off a stack; if there are fewer, as many as are
    missing. -/
def discard (n : Nat) (stack : List α) : List α :=
  let found := (stack.take n).length
  if found = n then stack.drop n else stack.drop (n - found)

theorem discard_of_le {n : Nat} {stack : List α} (h : n ≤ stack.length) :
    discard n stack = stack.drop n := by
  simp [discard, h]

theorem discard_of_lt {n : Nat} {stack : List α} (h : stack.length < n) :
    discard n stack = stack.drop (n - stack.length) := by
  have hmin : min n stack.length = stack.length := by omega
  simp only [discard, List.length_take, hmin, if_neg (Nat.ne_of_lt h)]

theorem discard_append (front rest : List α) : discard front.length (front ++ rest) = rest := by
  rw [discard_of_le (by simp), List.drop_left]

end Straightline
