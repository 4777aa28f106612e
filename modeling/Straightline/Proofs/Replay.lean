/-
  Runs as replays.

  The moves of a run do not depend on its watcher: the watcher only hears of
  them, and can stop the run.  So a run is the replay of a fixed list of
  reports, followed by a fixed ending.

  * `Watcher.replay`: what a list of reports does with a watcher;
  * `Table.Steps`: the reports between two configurations;
  * `Table.run_of_accept`, `Table.run_of_stuck`: a run is the replay of its
    reports.
-/
import Straightline.Parse

namespace Straightline

variable {ε σ : Type}

/-! ## Replays -/

namespace Watcher

/-- Shows a watcher some reports, up to the first that makes it fail; behind
    the last report the run ends with `after`. -/
def replay (watch : Watcher ε σ) (after : σ → Run ε σ) : List Report → σ → Run ε σ
  | [], s => after s
  | r :: rest, s =>
    match (watch r).exec s with
    | (.ok _, s') => watch.replay after rest s'
    | (.error e, s') => ⟨.stopped e, (r.states.length : Int) - 1, s'⟩

/-- The watcher that never fails and keeps all reports, latest first. -/
def recorder : Watcher Empty (List Report) :=
  fun r => modify (r :: ·)

variable (watch : Watcher ε σ)

theorem replay_append (after : σ → Run ε σ) (front back : List Report) (s : σ) :
    watch.replay after (front ++ back) s = watch.replay (watch.replay after back) front s := by
  induction front generalizing s with
  | nil => rfl
  | cons r rest ih =>
    simp only [List.cons_append, replay]
    split
    · exact ih _
    · rfl

/-- A replay that gets to its end has shown the watcher all reports. -/
theorem exec_forM_of_replay {finish : Finish ε} {depth : Int} {reports : List Report} {s : σ}
    (hfinish : ∀ e, finish ≠ .stopped e)
    (h : (watch.replay (fun s => ⟨finish, depth, s⟩) reports s).finish = finish) :
    (forM reports watch).exec s =
      (.ok (), (watch.replay (fun s => ⟨finish, depth, s⟩) reports s).watched) := by
  induction reports generalizing s with
  | nil => rfl
  | cons r rest ih =>
    simp only [replay] at h ⊢
    rw [List.forM_cons, Attempt.exec_bind]
    rcases hr : (watch r).exec s with ⟨_ | _, s'⟩
    · simp only [hr] at h
      exact absurd h.symm (hfinish _)
    · simp only [hr] at h ⊢
      exact ih h

/-- A replay gets to its end unless the watcher fails. -/
theorem finish_replay (finish : Finish ε) (depth : Int) (reports : List Report) (s : σ) :
    (watch.replay (fun s => ⟨finish, depth, s⟩) reports s).finish = finish ∨
      ∃ e, (watch.replay (fun s => ⟨finish, depth, s⟩) reports s).finish = .stopped e := by
  induction reports generalizing s with
  | nil => exact .inl rfl
  | cons r rest ih =>
    simp only [replay]
    rcases (watch r).exec s with ⟨e | _, s'⟩
    · exact .inr ⟨e, rfl⟩
    · exact ih s'

theorem replay_recorder (after : List Report → Run Empty (List Report)) (reports : List Report)
    (s : List Report) : recorder.replay after reports s = after (reports.reverse ++ s) := by
  induction reports generalizing s with
  | nil => rfl
  | cons r rest ih =>
    rw [replay, recorder, Attempt.exec_modify, List.reverse_cons, List.append_assoc]
    exact ih (r :: s)

end Watcher

/-! ## Steps -/

namespace Table

variable (t : Table) (last : Token)

/-- The reports on the way from one configuration to another. -/
inductive Steps : Configuration → List Report → Configuration → Prop where
  | refl (c : Configuration) : Steps c [] c
  | head {c c' c'' : Configuration} {r : Report} {rest : List Report} :
      t.move last c = .step r c' → Steps c' rest c'' → Steps c (r :: rest) c''

variable {t last} {c c' c'' : Configuration} {r : Report} {e : ParseError}
  {reports reports' : List Report}

theorem Steps.single (h : t.move last c = .step r c') : t.Steps last c [r] c' :=
  .head h (.refl c')

theorem Steps.trans (h : t.Steps last c reports c') (h' : t.Steps last c' reports' c'') :
    t.Steps last c (reports ++ reports') c'' := by
  induction h with
  | refl => exact h'
  | head hmove _ ih => exact .head hmove (ih h')

/-- A report shows the stack on which its action is taken. -/
theorem states_of_step (h : t.move last c = .step r c') : r.states = c.states := by
  simp only [move, reduceBy] at h
  repeat' split at h
  all_goals cases h
  all_goals rfl

@[inherit_doc states_of_step]
theorem states_of_accept (h : t.move last c = .accept r) : r.states = c.states := by
  simp only [move, reduceBy] at h
  repeat' split at h
  all_goals cases h
  rfl

/-! ## Runs -/

theorem runFrom_steps (watch : Watcher ε σ) (h : t.Steps last c reports c') (fuel : Nat) (s : σ) :
    t.runFrom last watch (fuel + reports.length) c s =
      watch.replay (t.runFrom last watch fuel c') reports s := by
  induction h generalizing s with
  | refl => rfl
  | @head c c' c'' r rest hmove _ ih =>
    have hstates := states_of_step hmove
    simp only [List.length_cons, ← Nat.add_assoc, runFrom, hmove, Watcher.replay]
    rcases (watch r).exec s with ⟨_ | _, s'⟩
    · simp only [Configuration.depth, hstates]
    · exact ih s'

theorem runFrom_accept (watch : Watcher ε σ) (h : t.move last c = .accept r) (fuel : Nat) (s : σ) :
    t.runFrom last watch (fuel + 1) c s =
      watch.replay (fun s => ⟨.accepted, c.depth, s⟩) [r] s := by
  have hstates := states_of_accept h
  simp only [runFrom, h, Watcher.replay]
  rcases (watch r).exec s with ⟨_ | _, s'⟩
  · simp only [Configuration.depth, hstates]
  · rfl

theorem runFrom_stuck (watch : Watcher ε σ) (h : t.move last c = .stuck e) (fuel : Nat) (s : σ) :
    t.runFrom last watch (fuel + 1) c s = ⟨.failed e, c.depth, s⟩ := by
  simp only [runFrom, h]

theorem run_eq_runFrom {tokens : List Token} (htokens : tokens ≠ []) (watch : Watcher ε σ) (s : σ) :
    t.run tokens watch s =
      t.runFrom (endTokenOf tokens) watch (t.patience tokens) (.start tokens) s := by
  cases tokens with
  | nil => exact absurd rfl htokens
  | cons token rest => rfl

section

variable {tokens : List Token} (htokens : tokens ≠ [])
  (hsteps : t.Steps (endTokenOf tokens) (.start tokens) reports c)
  (hpatience : reports.length < t.patience tokens)
include htokens hsteps hpatience

/-- A run that comes to an acceptance is the replay of its reports. -/
theorem run_of_accept (h : t.move (endTokenOf tokens) c = .accept r) (watch : Watcher ε σ) (s : σ) :
    t.run tokens watch s =
      watch.replay (fun s => ⟨.accepted, c.depth, s⟩) (reports ++ [r]) s := by
  obtain ⟨fuel, hfuel⟩ := Nat.exists_eq_add_of_lt hpatience
  have hfuel' : t.patience tokens = fuel + 1 + reports.length := by omega
  rw [run_eq_runFrom htokens, hfuel', runFrom_steps watch hsteps, Watcher.replay_append]
  congr 1
  funext s
  exact runFrom_accept watch h fuel s

/-- A run that gets stuck is the replay of its reports. -/
theorem run_of_stuck (h : t.move (endTokenOf tokens) c = .stuck e) (watch : Watcher ε σ) (s : σ) :
    t.run tokens watch s = watch.replay (fun s => ⟨.failed e, c.depth, s⟩) reports s := by
  obtain ⟨fuel, hfuel⟩ := Nat.exists_eq_add_of_lt hpatience
  have hfuel' : t.patience tokens = fuel + 1 + reports.length := by omega
  rw [run_eq_runFrom htokens, hfuel', runFrom_steps watch hsteps]
  congr 1
  funext s
  exact runFrom_stuck watch h fuel s

end

end Table

end Straightline
