import Mathlib.Data.List.Basic

/-!
# Joining concurrent tasks

The tasks of a join are started in their order; a started one may finish at any time.
The join returns the error of a task that failed, dropping the others, or all values in
the order of the tasks. A failure may be seen before the last task is started.
-/
namespace Eggplant.Lib.Join

set_option autoImplicit false

variable {ε α : Type}

structure State (ε α : Type) where
  started : Nat
  finished : List Nat
  returned : Option (Except ε (List α))

def State.initial : State ε α := ⟨0, [], none⟩

section
variable (n : Nat) (outcome : Nat → Except ε α)

inductive Step : State ε α → State ε α → Prop
  | start {s : State ε α} (running : s.returned = none) (more : s.started < n) :
      Step s { s with started := s.started + 1 }
  | finish {s : State ε α} (k : Nat) (running : s.returned = none) (hk : k < s.started)
      (new : k ∉ s.finished) : Step s { s with finished := s.finished ++ [k] }
  | fail {s : State ε α} (k : Nat) (e : ε) (running : s.returned = none) (hk : k ∈ s.finished)
      (failed : outcome k = .error e) : Step s { s with returned := some (.error e) }
  | all {s : State ε α} (values : List α) (running : s.returned = none)
      (finished : ∀ k < n, k ∈ s.finished)
      (ordered : (List.range n).map outcome = values.map .ok) :
      Step s { s with returned := some (.ok values) }

inductive Reachable : State ε α → Prop
  | initial : Reachable .initial
  | step {s t : State ε α} : Reachable s → Step n outcome s t → Reachable t

/-- Only started tasks finish; a result is that of a started task, or of all of them. -/
structure Inv (s : State ε α) : Prop where
  started_le : s.started ≤ n
  finished_lt : ∀ k ∈ s.finished, k < s.started
  error : ∀ e, s.returned = some (.error e) → ∃ k < s.started, outcome k = .error e
  ok : ∀ values, s.returned = some (.ok values) →
    s.started = n ∧ (List.range n).map outcome = values.map .ok

variable {n outcome}

theorem Inv.initial : Inv n outcome .initial where
  started_le := Nat.zero_le n
  finished_lt := nofun
  error := nofun
  ok := nofun

theorem Inv.step {s t : State ε α} (h : Inv n outcome s) (hstep : Step n outcome s t) :
    Inv n outcome t := by
  cases hstep with
  | start running more =>
    refine ⟨more, fun k hk => Nat.lt_succ_of_lt (h.finished_lt k hk), ?_, ?_⟩
    · intro e he
      rw [running] at he
      cases he
    · intro values hvalues
      rw [running] at hvalues
      cases hvalues
  | finish k running hk new =>
    refine ⟨h.started_le, ?_, h.error, h.ok⟩
    intro j hj
    rcases List.mem_append.mp hj with hold | hnew
    · exact h.finished_lt j hold
    · rw [List.mem_singleton.mp hnew]
      exact hk
  | fail k e running hk failed =>
    refine ⟨h.started_le, h.finished_lt, ?_, nofun⟩
    intro e' he
    obtain rfl := Except.error.inj (Option.some.inj he)
    exact ⟨k, h.finished_lt k hk, failed⟩
  | all values running finished ordered =>
    refine ⟨h.started_le, h.finished_lt, nofun, ?_⟩
    intro values' hvalues
    obtain rfl := Except.ok.inj (Option.some.inj hvalues)
    refine ⟨?_, ordered⟩
    cases n with
    | zero => exact Nat.le_zero.mp h.started_le
    | succ n => exact Nat.le_antisymm h.started_le (h.finished_lt n (finished n (Nat.lt_succ_self n)))

theorem Reachable.inv {s : State ε α} (h : Reachable n outcome s) : Inv n outcome s := by
  induction h with
  | initial => exact Inv.initial
  | step _ hstep ih => exact ih.step hstep

/-- A join that has returned has started all its tasks, or one that failed. -/
theorem Reachable.started_of_returned {s : State ε α} (h : Reachable n outcome s)
    (hreturned : s.returned ≠ none) :
    s.started = n ∨ ∃ k < s.started, ∃ e, outcome k = .error e := by
  cases hresult : s.returned with
  | none => exact absurd hresult hreturned
  | some result =>
    cases result with
    | error e =>
      obtain ⟨k, hk, he⟩ := h.inv.error e hresult
      exact .inr ⟨k, hk, e, he⟩
    | ok values => exact .inl (h.inv.ok values hresult).1

end

end Eggplant.Lib.Join
