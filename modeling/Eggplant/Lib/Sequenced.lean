import Mathlib.Data.List.Basic

/-!
# Operations numbered by their account

An account carries out an operation only under the number that is next. Operations numbered
from there on are all carried out, in order.
-/
namespace Eggplant.Lib.Sequenced

set_option autoImplicit false

structure Account (σ : Type) where
  next : Nat
  state : σ

section
variable {σ Op : Type} (apply : σ → Op → σ)

/-- An operation under another number is refused and changes nothing. -/
def exec (account : Account σ) (number : Nat) (op : Op) : Account σ :=
  if number = account.next then ⟨account.next + 1, apply account.state op⟩ else account

def execAll (account : Account σ) (queue : List (Nat × Op)) : Account σ :=
  queue.foldl (fun account item => exec apply account item.1 item.2) account

end

section
variable {σ Op : Type} {apply : σ → Op → σ}

def number : Nat → List Op → List (Nat × Op)
  | _, [] => []
  | n, op :: ops => (n, op) :: number (n + 1) ops

@[simp] theorem length_number (n : Nat) (ops : List Op) : (number n ops).length = ops.length := by
  induction ops generalizing n with
  | nil => rfl
  | cons op ops ih => rw [number, List.length_cons, ih, List.length_cons]

theorem number_append (n : Nat) (ops ops' : List Op) :
    number n (ops ++ ops') = number n ops ++ number (n + ops.length) ops' := by
  induction ops generalizing n with
  | nil => rfl
  | cons op ops ih =>
    have hsum : n + 1 + ops.length = n + (op :: ops).length := by
      rw [List.length_cons]
      omega
    rw [List.cons_append, number, ih, number, hsum]
    rfl

theorem number_drop (n k : Nat) (ops : List Op) :
    (number n ops).drop k = number (n + (ops.take k).length) (ops.drop k) := by
  induction k generalizing n ops with
  | zero => rfl
  | succ k ih =>
    cases ops with
    | nil => rfl
    | cons op ops =>
      have hsum : n + 1 + (ops.take k).length = n + ((op :: ops).take (k + 1)).length := by
        rw [List.take_succ_cons, List.length_cons]
        omega
      rw [number, List.drop_succ_cons, ih, List.drop_succ_cons, hsum]

theorem number_take (n k : Nat) (ops : List Op) :
    (number n ops).take k = number n (ops.take k) := by
  induction k generalizing n ops with
  | zero => rfl
  | succ k ih =>
    cases ops with
    | nil => rfl
    | cons op ops => rw [number, List.take_succ_cons, ih, List.take_succ_cons, number]

theorem number_lt {n i : Nat} {op : Op} {ops : List Op} (h : (i, op) ∈ number n ops) :
    n ≤ i ∧ i < n + ops.length := by
  induction ops generalizing n with
  | nil => cases h
  | cons op' ops ih =>
    rw [List.length_cons]
    rcases List.mem_cons.mp h with heq | hmem
    · have hi : i = n := congrArg Prod.fst heq
      omega
    · have hbounds := ih hmem
      omega

/-- A queue numbered from the account's next number on is carried out as a whole. -/
theorem execAll_number (account : Account σ) (ops : List Op) :
    execAll apply account (number account.next ops) =
      ⟨account.next + ops.length, ops.foldl apply account.state⟩ := by
  induction ops generalizing account with
  | nil => rfl
  | cons op ops ih =>
    have hexec : exec apply account account.next op =
        ⟨account.next + 1, apply account.state op⟩ := if_pos rfl
    have hsum : account.next + 1 + ops.length = account.next + (op :: ops).length := by
      rw [List.length_cons]
      omega
    rw [number, execAll, List.foldl_cons]
    show execAll apply (exec apply account account.next op) _ = _
    rw [hexec, ih ⟨account.next + 1, apply account.state op⟩, hsum, List.foldl_cons]

end

/-! ## A queue in front of a state -/

/-- A state, what is still to be done to it, and all that has been taken on so far. -/
structure Pending (S P : Type) where
  state : S
  queue : List P
  taken : List P

namespace Pending
variable {S P : Type} (run : S → P → S)

def empty (state : S) : Pending S P := ⟨state, [], []⟩

def push (pending : Pending S P) (p : P) : Pending S P :=
  { pending with queue := pending.queue ++ [p], taken := pending.taken ++ [p] }

/-- The first `n` of the queue are done. -/
def work (n : Nat) (pending : Pending S P) : Pending S P :=
  { pending with
    state := (pending.queue.take n).foldl run pending.state
    queue := pending.queue.drop n }

/-- The state once the queue is empty. -/
def drained (pending : Pending S P) : S := pending.queue.foldl run pending.state

/-- What has been taken on is done up to some point, and queued from there. -/
def From (start : S) (pending : Pending S P) : Prop :=
  ∃ before, pending.state = before.foldl run start ∧ pending.taken = before ++ pending.queue

variable {run} {start : S} {pending : Pending S P}

theorem from_empty (start : S) : From run start (empty start) := ⟨[], rfl, rfl⟩

theorem From.push (h : From run start pending) (p : P) : From run start (pending.push p) := by
  obtain ⟨before, hstate, htaken⟩ := h
  refine ⟨before, hstate, ?_⟩
  show pending.taken ++ [p] = before ++ (pending.queue ++ [p])
  rw [htaken, List.append_assoc]

theorem From.work (h : From run start pending) (n : Nat) : From run start (pending.work run n) := by
  obtain ⟨before, hstate, htaken⟩ := h
  refine ⟨before ++ pending.queue.take n, ?_, ?_⟩
  · rw [List.foldl_append, ← hstate]
    rfl
  · show pending.taken = before ++ pending.queue.take n ++ pending.queue.drop n
    rw [List.append_assoc, List.take_append_drop, htaken]

theorem From.drained (h : From run start pending) :
    pending.drained run = pending.taken.foldl run start := by
  obtain ⟨before, hstate, htaken⟩ := h
  rw [Pending.drained, hstate, htaken, List.foldl_append]

theorem From.state_take (h : From run start pending) :
    ∃ k, pending.state = (pending.taken.take k).foldl run start := by
  obtain ⟨before, hstate, htaken⟩ := h
  exact ⟨before.length, by rw [htaken, List.take_left, hstate]⟩

end Pending

/-! ## Sessions that follow a plan -/

section
variable {S P : Type} (run : S → P → S) (plan : S → List P) (Good : S → Prop)

/-- From a good state, doing the beginning of the plan leaves a good state and the rest of the
plan to do. -/
def Resumes : Prop :=
  ∀ s, Good s → ∀ k, Good (((plan s).take k).foldl run s) ∧
    plan (((plan s).take k).foldl run s) = (plan s).drop k

end

end Eggplant.Lib.Sequenced
