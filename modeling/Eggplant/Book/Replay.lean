import Eggplant.Book.Apply

/-!
# Replayed level changes

A slow connection re-delivers changes a fast one already delivered. A re-delivery is
absorbed exactly when nothing newer has been delivered for its place with another
size; otherwise the book goes back to the older size.
-/
namespace Eggplant.Book

set_option autoImplicit false

open Eggplant.Lib Eggplant.Lib.Interleave

/-- A `price_change` entry. -/
structure Delta where
  side : BookSide
  price : Rat
  size : Rat
  deriving DecidableEq

def Delta.place (d : Delta) : Place := (d.side, d.price)

def Delta.step (b : Book) (d : Delta) : Book × Bool := b.applyDelta d.side d.price d.size

def applyDeltas (b : Book) (ds : List Delta) : Book := ds.foldl (fun b d => (Delta.step b d).1) b

theorem applyDeltas_concat (b : Book) (ds : List Delta) (d : Delta) :
    b.applyDeltas (ds ++ [d]) = (Delta.step (b.applyDeltas ds) d).1 := by
  rw [applyDeltas, List.foldl_append]
  rfl

/-- The size the last change of a place carries. -/
def lastSize (ds : List Delta) : Table Place Rat :=
  Table.merge (ds.map fun d => Table.single d.place d.size)

theorem size_applyDeltas (b : Book) (ds : List Delta) (p : Place) :
    (b.applyDeltas ds).size p = ((lastSize ds p).map resting).getD (b.size p) := by
  induction ds generalizing b with
  | nil => rfl
  | cons d ds ih =>
    have hcons : lastSize (d :: ds) p = (lastSize ds p).or (Table.single d.place d.size p) :=
      congrFun (Table.merge_cons _ _) p
    show ((Delta.step b d).1.applyDeltas ds).size p = _
    rw [ih, Delta.step, size_applyDelta, hcons, Table.single]
    cases lastSize ds p with
    | none =>
      by_cases hp : p = d.place
      · rw [Option.none_or, if_pos hp, if_pos (show p = (d.side, d.price) from hp)]
        rfl
      · rw [Option.none_or, if_neg hp, if_neg (show ¬p = (d.side, d.price) from hp)]
    | some s => rfl

theorem lastSize_of_mem {ds : List Delta} {d : Delta} (h : d ∈ ds) :
    ∃ s, lastSize ds d.place = some s := by
  rw [← Option.isSome_iff_exists, Option.isSome_iff_ne_none]
  intro hnone
  have hd := Table.merge_eq_none.mp hnone _ (List.mem_map.mpr ⟨d, h, rfl⟩)
  simp [Table.single] at hd

section
variable {N : Nat}

/-- Another connection has already delivered the change that `c` delivers next. -/
def Redelivered (before : List (Fin N × Delta)) (c : Fin N) : Prop :=
  ∃ c', c' ≠ c ∧ (part before c).length < (part before c').length

/-- After each delivery the book is that of the longest delivered prefix, and every
re-delivery reports no change. -/
def NoRollback (b : Book) (ds : List Delta) (D : List (Fin N × Delta)) : Prop :=
  ∀ before c d after, D = before ++ (c, d) :: after →
    b.applyDeltas ((before ++ [(c, d)]).map Prod.snd) =
        b.applyDeltas (ds.take (frontier (before ++ [(c, d)]))) ∧
      (Redelivered before c → (Delta.step (b.applyDeltas (before.map Prod.snd)) d).2 = false)

/-- Each re-delivered change carries the size of the newest delivered change of its place. -/
def KeepsUp (ds : List Delta) (D : List (Fin N × Delta)) : Prop :=
  ∀ before c d after, D = before ++ (c, d) :: after → Redelivered before c →
    lastSize (ds.take (frontier before)) d.place = some d.size

variable {b : Book} {ds : List Delta} {D : List (Fin N × Delta)}

theorem redelivered_iff (before : List (Fin N × Delta)) (c : Fin N) :
    Redelivered before c ↔ (part before c).length < frontier before := by
  rw [lt_frontier]
  constructor
  · exact fun h => ⟨h.choose, h.choose_spec.2⟩
  · intro h
    obtain ⟨c', hlt⟩ := h
    refine ⟨c', fun heq => ?_, hlt⟩
    rw [heq] at hlt
    exact lt_irrefl _ hlt

/-- A delivery is the entry of the log at its connection's position. -/
theorem log_split (hD : Interleaves (fun _ => ds) D) {before after : List (Fin N × Delta)}
    {c : Fin N} {d : Delta} (h : D = before ++ (c, d) :: after) :
    ds = part before c ++ d :: part after c := by
  rw [← part_split, ← h]
  exact (hD c).symm

/-- A new change extends the longest delivered prefix by itself. -/
theorem step_new (hD : Interleaves (fun _ => ds) D) {before after : List (Fin N × Delta)}
    {c : Fin N} {d : Delta} (h : D = before ++ (c, d) :: after)
    (hnew : (part before c).length = frontier before) :
    frontier (before ++ [(c, d)]) = frontier before + 1 ∧
      ds.take (frontier before + 1) = ds.take (frontier before) ++ [d] := by
  have hsplit := log_split hD h
  constructor
  · rw [frontier_concat, hnew]
    exact max_eq_right (Nat.le_succ _)
  · rw [← hnew, hsplit, List.take_left, List.take_append, List.take_of_length_le (Nat.le_succ _),
      Nat.add_sub_cancel_left]
    rfl

/-- A re-delivered change is part of the longest delivered prefix, which it leaves. -/
theorem step_old (hD : Interleaves (fun _ => ds) D) {before after : List (Fin N × Delta)}
    {c : Fin N} {d : Delta} (h : D = before ++ (c, d) :: after)
    (hold : (part before c).length < frontier before) :
    frontier (before ++ [(c, d)]) = frontier before ∧ d ∈ ds.take (frontier before) := by
  have hsplit := log_split hD h
  constructor
  · rw [frontier_concat]
    exact max_eq_left hold
  · rw [hsplit, List.take_append, List.mem_append]
    right
    rw [show frontier before - (part before c).length =
      (frontier before - (part before c).length - 1) + 1 by omega, List.take_succ_cons]
    exact List.mem_cons_self

/-- On the book of the longest delivered prefix, a re-delivery reports no change exactly
when it carries the newest size of its place. -/
theorem redelivery_absorbed_iff (b : Book) {m : Nat} {d : Delta} (hd : d ∈ ds.take m) :
    (Delta.step (b.applyDeltas (ds.take m)) d).2 = false ↔
      lastSize (ds.take m) d.place = some d.size := by
  obtain ⟨s, hs⟩ := lastSize_of_mem hd
  have hsize : (b.applyDeltas (ds.take m)).size d.place = resting s := by
    rw [size_applyDeltas, hs]
    rfl
  rw [← Bool.not_eq_true, Delta.step, changed_iff, not_not]
  show (b.applyDeltas (ds.take m)).size d.place = resting d.size ↔ _
  rw [hsize, hs]
  constructor
  · exact fun h => congrArg some (resting_inj h)
  · exact fun h => congrArg resting (Option.some.inj h)

/-- The step lemma: with the book of the longest delivered prefix so far, a delivery that
keeps up leads to the book of the longest delivered prefix again. -/
theorem step_frontier (hD : Interleaves (fun _ => ds) D) {before after : List (Fin N × Delta)}
    {c : Fin N} {d : Delta} (h : D = before ++ (c, d) :: after)
    (hbook : b.applyDeltas (before.map Prod.snd) = b.applyDeltas (ds.take (frontier before)))
    (hkeep : Redelivered before c → lastSize (ds.take (frontier before)) d.place = some d.size) :
    b.applyDeltas ((before ++ [(c, d)]).map Prod.snd) =
      b.applyDeltas (ds.take (frontier (before ++ [(c, d)]))) := by
  rw [List.map_append, List.map_singleton, applyDeltas_concat, hbook]
  obtain hlt | heq := lt_or_eq_of_le (part_le_frontier before c)
  · obtain ⟨hfrontier, hmem⟩ := step_old hD h hlt
    have hfalse := (redelivery_absorbed_iff b hmem).mpr (hkeep ((redelivered_iff before c).mpr hlt))
    rw [hfrontier]
    exact unchanged _ _ _ _ hfalse
  · obtain ⟨hfrontier, htake⟩ := step_new hD h heq
    rw [hfrontier, htake, applyDeltas_concat]

/-- The run lemma. -/
theorem run_frontier (hD : Interleaves (fun _ => ds) D) (hkeep : KeepsUp ds D)
    (before : List (Fin N × Delta)) :
    ∀ after, D = before ++ after →
      b.applyDeltas (before.map Prod.snd) = b.applyDeltas (ds.take (frontier before)) := by
  induction before using List.reverseRecOn with
  | nil =>
    intro after _
    rw [frontier_nil]
    rfl
  | append_singleton before x ih =>
    intro after h
    obtain ⟨c, d⟩ := x
    rw [List.append_assoc, List.singleton_append] at h
    exact step_frontier hD h (ih _ h) (hkeep before c d after h)

theorem frontier_of_noRollback (hno : NoRollback b ds D) {before after : List (Fin N × Delta)}
    (h : D = before ++ after) :
    b.applyDeltas (before.map Prod.snd) = b.applyDeltas (ds.take (frontier before)) := by
  induction before using List.reverseRecOn with
  | nil =>
    rw [frontier_nil]
    rfl
  | append_singleton before x ih =>
    obtain ⟨c, d⟩ := x
    rw [List.append_assoc, List.singleton_append] at h
    exact (hno before c d after h).1

/-- A run never rolls back exactly when every re-delivered change still carries the newest
delivered size of its place. -/
theorem no_rollback_iff (b : Book) (ds : List Delta) (D : List (Fin N × Delta))
    (hD : Interleaves (fun _ => ds) D) : NoRollback b ds D ↔ KeepsUp ds D := by
  constructor
  · intro hno before c d after h hre
    have hbook := frontier_of_noRollback hno h
    have hmem := (step_old hD h ((redelivered_iff before c).mp hre)).2
    have hfalse := (hno before c d after h).2 hre
    rw [hbook] at hfalse
    exact (redelivery_absorbed_iff b hmem).mp hfalse
  · intro hkeep before c d after h
    have hbook := run_frontier (b := b) hD hkeep before _ h
    refine ⟨step_frontier hD h hbook (hkeep before c d after h), fun hre => ?_⟩
    have hmem := (step_old hD h ((redelivered_iff before c).mp hre)).2
    rw [hbook]
    exact (redelivery_absorbed_iff b hmem).mpr (hkeep before c d after h hre)

end

/-- Two sizes at one bid: the fast connection delivers both, then the slow one the first. -/
def lagging : List (Fin 2 × Delta) :=
  [(0, ⟨.bid, 1 / 2, 10⟩), (0, ⟨.bid, 1 / 2, 20⟩), (1, ⟨.bid, 1 / 2, 10⟩), (1, ⟨.bid, 1 / 2, 20⟩)]

theorem no_rollback_iff_lagging :
    NoRollback empty [⟨.bid, 1 / 2, 10⟩, ⟨.bid, 1 / 2, 20⟩] lagging ↔
      KeepsUp [⟨.bid, 1 / 2, 10⟩, ⟨.bid, 1 / 2, 20⟩] lagging :=
  no_rollback_iff empty _ lagging (by decide +kernel)

theorem lagging_rolls_back :
    ¬∀ (N : Nat) (b : Book) (ds : List Delta) (D : List (Fin N × Delta)),
      Interleaves (fun _ => ds) D → NoRollback b ds D := by
  intro h
  have hrun := h 2 empty [⟨.bid, 1 / 2, 10⟩, ⟨.bid, 1 / 2, 20⟩] lagging (by decide +kernel)
  have hstep := hrun [(0, ⟨.bid, 1 / 2, 10⟩), (0, ⟨.bid, 1 / 2, 20⟩)] 1 ⟨.bid, 1 / 2, 10⟩
    [(1, ⟨.bid, 1 / 2, 20⟩)] rfl
  have hre : Redelivered [(0, ⟨.bid, 1 / 2, 10⟩), (0, ⟨.bid, 1 / 2, 20⟩)] (1 : Fin 2) :=
    ⟨0, by decide, by decide +kernel⟩
  exact absurd (hstep.2 hre) (by decide +kernel)

end Eggplant.Book
