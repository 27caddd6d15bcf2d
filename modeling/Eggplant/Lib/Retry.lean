import Mathlib.Data.List.Basic

/-!
# Bounded retries

An action is repeated while it fails in a way the caller accepts. What a whole loop of
retries says about its result is what the single tries in its log say.
-/
namespace Eggplant.Lib.Retry

set_option autoImplicit false

variable {ε α σ β : Type}

/-- The last argument but one is the number of retries left. -/
def retry (again : ε → Bool) (act : σ → Except ε α × σ) : Nat → σ → Except ε α × σ
  | 0, s => act s
  | n + 1, s =>
    match act s with
    | (.ok a, s) => (.ok a, s)
    | (.error e, s) => if again e then retry again act n s else (.error e, s)

/-- The tries of a loop of retries: those that failed in a way the caller accepts, then the
one that ended it. `One` says what a single try logs for its result. -/
inductive Retried (again : ε → Bool) (One : List β → Except ε α → Prop) :
    Nat → List β → Except ε α → Prop where
  | ends {n : Nat} {tries : List β} {result : Except ε α} (one : One tries result)
      (stop : ∀ e, result = .error e → n = 0 ∨ again e = false) : Retried again One n tries result
  | more {n : Nat} {tries rest : List β} {e : ε} {result : Except ε α}
      (one : One tries (.error e)) (goes : again e = true)
      (tail : Retried again One n rest result) : Retried again One (n + 1) (tries ++ rest) result

/-- An action on a log appends tries that stand in a relation to its result. -/
def Logs (One : List β → Except ε α → Prop) (act : List β → Except ε α × List β) : Prop :=
  ∀ log, ∃ tries, (act log).2 = log ++ tries ∧ One tries (act log).1

variable {again : ε → Bool} {One : List β → Except ε α → Prop} {n : Nat} {tries : List β}
  {result : Except ε α}

theorem Logs.retry {act : List β → Except ε α × List β} (h : Logs One act) (again : ε → Bool)
    (n : Nat) : Logs (Retried again One n) (retry again act n) := by
  induction n with
  | zero =>
    intro log
    obtain ⟨tries, hlog, hone⟩ := h log
    exact ⟨tries, hlog, .ends hone fun _ _ => .inl rfl⟩
  | succ n ih =>
    intro log
    obtain ⟨tries, hlog, hone⟩ := h log
    rw [Retry.retry]
    cases hact : act log with
    | mk result next =>
      rw [hact] at hlog hone
      cases result with
      | ok a => exact ⟨tries, hlog, .ends hone nofun⟩
      | error e =>
        by_cases hagain : again e = true
        · obtain ⟨rest, hrest, htail⟩ := ih next
          simp only [if_pos hagain]
          refine ⟨tries ++ rest, ?_, .more hone hagain htail⟩
          rw [hrest, show next = log ++ tries from hlog, List.append_assoc]
        · simp only [if_neg hagain]
          refine ⟨tries, hlog, .ends hone fun e' he => .inr ?_⟩
          cases he
          exact Bool.eq_false_iff.mpr hagain

theorem Retried.forall {own : β → Prop}
    (hone : ∀ tries result, One tries result → ∀ t ∈ tries, own t)
    (h : Retried again One n tries result) : ∀ t ∈ tries, own t := by
  induction h with
  | ends one _ => exact hone _ _ one
  | more one _ _ ih => exact List.forall_mem_append.mpr ⟨hone _ _ one, ih⟩

/-- With at most `limit` entries a try, `n` retries log at most `n + 1` times as many. -/
theorem Retried.length_le (limit : Nat)
    (hone : ∀ tries result, One tries result → tries.length ≤ limit)
    (h : Retried again One n tries result) : tries.length ≤ (n + 1) * limit := by
  induction h with
  | ends one _ => exact Nat.le_trans (hone _ _ one) (Nat.le_mul_of_pos_left limit (Nat.succ_pos _))
  | more one _ _ ih =>
    have hfirst := hone _ _ one
    rw [List.length_append, Nat.succ_mul]
    omega

/-- A loop that retries every failure gives up after `n + 1` tries. -/
theorem Retried.le_length (least : Nat) {e : ε} (hall : ∀ e, again e = true)
    (hone : ∀ tries result, One tries result → least ≤ tries.length)
    (h : Retried again One n tries (.error e)) : (n + 1) * least ≤ tries.length := by
  generalize hresult : Except.error e = result at h
  induction h with
  | ends one stop =>
    obtain rfl | hstop := stop e hresult.symm
    · rw [Nat.zero_add, Nat.one_mul]
      exact hone _ _ one
    · rw [hall] at hstop
      cases hstop
  | more one _ _ ih =>
    have hfirst := hone _ _ one
    have hrest := ih hresult
    rw [List.length_append, Nat.succ_mul]
    omega

/-- Only the last entry may be accepted, and it is when the result is a success. -/
def AcceptedLast (accepted : β → Prop) (tries : List β) (result : Except ε α) : Prop :=
  ∃ earlier last, tries = earlier ++ [last] ∧ (∀ t ∈ earlier, ¬accepted t) ∧
    (accepted last ↔ ∃ a, result = .ok a)

theorem AcceptedLast.not_mem {accepted : β → Prop} {e : ε}
    (h : AcceptedLast accepted tries (.error e : Except ε α)) : ∀ t ∈ tries, ¬accepted t := by
  obtain ⟨earlier, last, rfl, hearlier, hlast⟩ := h
  refine List.forall_mem_append.mpr ⟨hearlier, fun t ht hacc => ?_⟩
  rw [List.mem_singleton.mp ht] at hacc
  obtain ⟨a, ha⟩ := hlast.mp hacc
  cases ha

theorem Retried.acceptedLast {accepted : β → Prop}
    (hone : ∀ tries result, One tries result → AcceptedLast accepted tries result)
    (h : Retried again One n tries result) : AcceptedLast accepted tries result := by
  induction h with
  | ends one _ => exact hone _ _ one
  | more one _ _ ih =>
    obtain ⟨earlier, last, rfl, hearlier, hlast⟩ := ih
    refine ⟨_, last, (List.append_assoc _ _ _).symm, ?_, hlast⟩
    exact List.forall_mem_append.mpr ⟨(hone _ _ one).not_mem, hearlier⟩

/-- What each try keeps, the whole loop keeps. -/
theorem retry_keeps {Q : σ → Prop} {act : σ → Except ε α × σ} (hact : ∀ s, Q s → Q (act s).2)
    (again : ε → Bool) (n : Nat) {s : σ} (h : Q s) : Q (retry again act n s).2 := by
  induction n generalizing s with
  | zero => exact hact s h
  | succ n ih =>
    have hnext := hact s h
    rw [Retry.retry]
    cases hres : act s with
    | mk result next =>
      rw [hres] at hnext
      cases result with
      | ok a => exact hnext
      | error e =>
        by_cases hagain : again e = true
        · simp only [if_pos hagain]
          exact ih hnext
        · simp only [if_neg hagain]
          exact hnext

/-! ## Scripts -/

/-- The answers come from a script: entry `i` of the log carries the `i`-th. -/
def Scripted {A : Type} (answer : β → A) (script : Nat → A) (log : List β) : Prop :=
  ∀ (i : Nat) (hi : i < log.length), answer log[i] = script i

theorem Scripted.nil {A : Type} (answer : β → A) (script : Nat → A) : Scripted answer script [] :=
  nofun

theorem Scripted.concat {A : Type} {answer : β → A} {script : Nat → A} {log : List β}
    (h : Scripted answer script log) {entry : β} (hentry : answer entry = script log.length) :
    Scripted answer script (log ++ [entry]) := by
  intro i hi
  by_cases hold : i < log.length
  · rw [List.getElem_append_left hold]
    exact h i hold
  · have hlast : i = log.length := by
      rw [List.length_append, List.length_singleton] at hi
      omega
    subst hlast
    rw [List.getElem_concat_length rfl]
    exact hentry

/-! ## Through a map of states -/

variable {τ : Type} {f : σ → τ} {act : σ → Except ε α × σ} {act' : τ → Except ε α × τ}

/-- `act'` does to the image of a state what `act` does to the state. -/
def Follows (f : σ → τ) (act : σ → Except ε α × σ) (act' : τ → Except ε α × τ) : Prop :=
  ∀ s, act' (f s) = Prod.map id f (act s)

theorem Follows.retry (h : Follows f act act') (again : ε → Bool) (n : Nat) :
    Follows f (retry again act n) (retry again act' n) := by
  induction n with
  | zero => exact h
  | succ n ih =>
    intro s
    rw [Retry.retry, Retry.retry, h s]
    cases act s with
    | mk result next =>
      cases result with
      | ok a => rfl
      | error e =>
        by_cases hagain : again e = true
        · simp only [Prod.map_apply, id_eq, if_pos hagain]
          exact ih next
        · simp only [Prod.map_apply, id_eq, if_neg hagain]

end Eggplant.Lib.Retry
