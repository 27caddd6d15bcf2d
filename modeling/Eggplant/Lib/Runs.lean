import Mathlib

/-!
# Runs of a partial step function

`execAll` runs a list of instructions and stops at the first that fails. A
`Certified` run is one that does not fail and whose every instruction met a side
condition in the state it ran in; certificates compose, split at any point, and
carry potentials from single steps to whole runs.
-/
namespace Eggplant.Lib.Runs

set_option autoImplicit false

variable {σ ι : Type*}

def execAll (exec : σ → ι → Option σ) : σ → List ι → Option σ
  | s, [] => some s
  | s, i :: is => (exec s i).bind (fun next => execAll exec next is)

variable {exec : σ → ι → Option σ}

/-- Two machines that agree instruction by instruction agree on whole lists. -/
theorem execAll_congr {κ : Type*} {exec' : σ → κ → Option σ} {agree : ι → κ → Prop}
    (h : ∀ s i k, agree i k → exec s i = exec' s k) {is : List ι} {ks : List κ}
    (hall : List.Forall₂ agree is ks) (s : σ) : execAll exec s is = execAll exec' s ks := by
  induction hall generalizing s with
  | nil => rfl
  | cons hik _ ih =>
    rw [execAll, execAll, h s _ _ hik]
    congr 1
    funext next
    exact ih next

/-- A property that every successful instruction keeps is kept by a run. -/
theorem execAll_invariant {p : σ → Prop}
    (hstep : ∀ s i s', exec s i = some s' → p s → p s') {s s' : σ} {is : List ι}
    (h : execAll exec s is = some s') (hp : p s) : p s' := by
  induction is generalizing s with
  | nil => exact Option.some.inj h ▸ hp
  | cons i is ih =>
    obtain ⟨mid, hmid, hrest⟩ := Option.bind_eq_some_iff.mp h
    exact ih hrest (hstep s i mid hmid hp)

inductive Certified (exec : σ → ι → Option σ) (ok : σ → ι → Prop) : σ → List ι → σ → Prop where
  | nil (s : σ) : Certified exec ok s [] s
  | cons {s mid last : σ} {i : ι} {is : List ι} (hok : ok s i) (hexec : exec s i = some mid)
      (tail : Certified exec ok mid is last) : Certified exec ok s (i :: is) last

namespace Certified

variable {ok ok' : σ → ι → Prop} {first mid last : σ} {is is' : List ι}

theorem single {i : ι} (hok : ok first i) (hexec : exec first i = some last) :
    Certified exec ok first [i] last :=
  .cons hok hexec (.nil last)

theorem append (h : Certified exec ok first is mid) (h' : Certified exec ok mid is' last) :
    Certified exec ok first (is ++ is') last := by
  induction h with
  | nil => exact h'
  | cons hok hexec _ ih => exact .cons hok hexec (ih h')

/-- Every prefix of a certified run is one, and so is the rest. -/
theorem split (is : List ι) {is' : List ι} {first : σ}
    (h : Certified exec ok first (is ++ is') last) :
    ∃ mid, Certified exec ok first is mid ∧ Certified exec ok mid is' last := by
  induction is generalizing first with
  | nil => exact ⟨first, .nil first, h⟩
  | cons i is ih =>
    cases h with
    | cons hok hexec tail =>
      obtain ⟨mid, hpre, hsuf⟩ := ih tail
      exact ⟨mid, .cons hok hexec hpre, hsuf⟩

theorem execAll_eq (h : Certified exec ok first is last) : execAll exec first is = some last := by
  induction h with
  | nil => rfl
  | cons _ hexec _ ih => simp [execAll, hexec, ih]

theorem mono (hmono : ∀ s i, ok s i → ok' s i) (h : Certified exec ok first is last) :
    Certified exec ok' first is last := by
  induction h with
  | nil s => exact .nil s
  | cons hok hexec _ ih => exact .cons (hmono _ _ hok) hexec ih

/-- A relation to the starting state that holds at once and survives each certified
step holds at the end. -/
theorem invariant {p : σ → Prop}
    (hstep : ∀ s i s', ok s i → exec s i = some s' → p s → p s')
    (h : Certified exec ok first is last) (hp : p first) : p last := by
  induction h with
  | nil => exact hp
  | cons hok hexec _ ih => exact ih (hstep _ _ _ hok hexec hp)

/-- A potential that each step lowers by the step's weight. -/
theorem telescope {potential : σ → ℕ} {weight : ι → ℕ}
    (hstep : ∀ s i s', ok s i → exec s i = some s' → potential s' + weight i = potential s)
    (h : Certified exec ok first is last) :
    potential last + (is.map weight).sum = potential first := by
  induction h with
  | nil => simp
  | cons hok hexec _ ih =>
    have hone := hstep _ _ _ hok hexec
    rw [List.map_cons, List.sum_cons]
    omega

end Certified

end Eggplant.Lib.Runs
