import Eggplant.Lib.Interleave
import Mathlib

/-!
# The order book and its fan-out

One token's ladders under snapshots and level changes, fed by redundant connections
that each deliver the same events. Prices and sizes are exact rationals: the
decimals compare by value. A ladder is an ordered map, as `BTreeMap` is.
-/
namespace Eggplant

set_option autoImplicit false

open Eggplant.Lib Eggplant.Lib.Interleave

inductive BookSide where
  | bid
  | ask
  deriving DecidableEq

/-- Price levels, `price -> size`, in price order. -/
abbrev Levels := Std.ExtTreeMap Rat Rat

structure Book where
  bids : Levels
  asks : Levels
  deriving DecidableEq

inductive BookEvent where
  | snapshot (bids asks : List (Rat × Rat))
  | delta (side : BookSide) (price size : Rat)
  deriving DecidableEq

namespace Book

def empty : Book := ⟨∅, ∅⟩

def levels (b : Book) : BookSide → Levels
  | .bid => b.bids
  | .ask => b.asks

def setLevels (b : Book) (side : BookSide) (levels : Levels) : Book :=
  match side with
  | .bid => { b with bids := levels }
  | .ask => { b with asks := levels }

/-- One level of a snapshot; a level without size is dropped. -/
def insertResting (levels : Levels) (level : Rat × Rat) : Levels :=
  if level.2 = 0 then levels else levels.insert level.1 level.2

/-- `apply_snapshot`: both ladders are cleared first. -/
def applySnapshot (_ : Book) (bids asks : List (Rat × Rat)) : Book :=
  ⟨bids.foldl insertResting ∅, asks.foldl insertResting ∅⟩

/-- `apply_delta`: the new book and whether the ladder changed. -/
def applyDelta (b : Book) (side : BookSide) (price size : Rat) : Book × Bool :=
  let levels := b.levels side
  if size = 0 then (b.setLevels side (levels.erase price), levels[price]?.isSome)
  else (b.setLevels side (levels.insert price size), decide (levels[price]? ≠ some size))

def apply (b : Book) : BookEvent → Book
  | .snapshot bids asks => b.applySnapshot bids asks
  | .delta side price size => (b.applyDelta side price size).1

def applyAll (b : Book) (es : List BookEvent) : Book := es.foldl apply b

/-! ## Sizes -/

/-- A place on the book: a side and a price. -/
abbrev Place := BookSide × Rat

/-- The size resting at a place. -/
def size (b : Book) (p : Place) : Option Rat := (b.levels p.1)[p.2]?

theorem ext_size {b b' : Book} (h : ∀ p, b.size p = b'.size p) : b = b' := by
  have hbids : b.bids = b'.bids := Std.ExtTreeMap.ext_getElem? fun price => h (.bid, price)
  have hasks : b.asks = b'.asks := Std.ExtTreeMap.ext_getElem? fun price => h (.ask, price)
  cases b
  cases b'
  exact congr (congrArg Book.mk hbids) hasks

/-- A level only exists while it has size. -/
def resting (size : Rat) : Option Rat := if size = 0 then none else some size

theorem resting_inj {s s' : Rat} (h : resting s = resting s') : s = s' := by
  unfold resting at h
  split at h <;> split at h <;> simp_all

theorem resting_ne_zero (s : Rat) : resting s ≠ some 0 := by
  unfold resting
  split
  next => exact nofun
  next h => exact fun heq => h (Option.some.inj heq)

theorem size_setLevels (b : Book) (side : BookSide) (levels : Levels) (p : Place) :
    (b.setLevels side levels).size p = if p.1 = side then levels[p.2]? else b.size p := by
  obtain ⟨s, price⟩ := p
  cases side <;> cases s <;> rfl

/-- A removal and an insertion write one level. -/
theorem getElem?_written (levels : Levels) (price size q : Rat) :
    (if size = 0 then levels.erase price else levels.insert price size)[q]? =
      if q = price then resting size else levels[q]? := by
  unfold resting
  by_cases hq : q = price
  · subst hq
    split <;> simp
  · have hne : price ≠ q := fun h => hq h.symm
    split <;> simp [Std.ExtTreeMap.getElem?_erase, Std.ExtTreeMap.getElem?_insert, hne]

theorem applyDelta_book (b : Book) (side : BookSide) (price size : Rat) :
    (b.applyDelta side price size).1 =
      b.setLevels side (if size = 0 then (b.levels side).erase price
        else (b.levels side).insert price size) := by
  unfold applyDelta
  split <;> rfl

theorem size_applyDelta (b : Book) (side : BookSide) (price size : Rat) (p : Place) :
    (b.applyDelta side price size).1.size p =
      if p = (side, price) then resting size else b.size p := by
  obtain ⟨s, q⟩ := p
  rw [applyDelta_book, size_setLevels, getElem?_written]
  by_cases hs : s = side
  · subst hs
    by_cases hq : q = price
    · subst hq
      rw [if_pos rfl, if_pos rfl, if_pos rfl]
    · rw [if_pos rfl, if_neg hq, if_neg fun h => hq (congrArg Prod.snd h)]
      rfl
  · rw [if_neg hs, if_neg fun h => hs (congrArg Prod.fst h)]

/-- A level change is reported exactly when the size at its place was another one. -/
theorem changed_iff (b : Book) (side : BookSide) (price size : Rat) :
    (b.applyDelta side price size).2 = true ↔ b.size (side, price) ≠ resting size := by
  show _ ↔ (b.levels side)[price]? ≠ resting size
  unfold applyDelta resting
  split
  next =>
    show (b.levels side)[price]?.isSome = true ↔ _
    rw [Option.isSome_iff_ne_none]
  next =>
    show decide ((b.levels side)[price]? ≠ some size) = true ↔ _
    rw [decide_eq_true_iff]

/-- A level change that reports no change leaves the book as it was. -/
theorem unchanged (b : Book) (side : BookSide) (price size : Rat)
    (h : (b.applyDelta side price size).2 = false) : (b.applyDelta side price size).1 = b := by
  have heq : b.size (side, price) = resting size := by
    by_contra hne
    rw [(changed_iff b side price size).mpr hne] at h
    cases h
  apply ext_size
  intro p
  rw [size_applyDelta]
  split
  next hp => rw [hp, heq]
  next => rfl

/-! ## Snapshots -/

/-- The size one row of a snapshot writes. -/
def rowTable (row : Rat × Rat) : Table Rat Rat :=
  fun price => if price = row.1 then resting row.2 else none

/-- The sizes a snapshot's rows leave: at each price that of the last row with size. -/
def rowSize (rows : List (Rat × Rat)) : Table Rat Rat := Table.merge (rows.map rowTable)

theorem getElem?_insertResting (rows : List (Rat × Rat)) (levels : Levels) (price : Rat) :
    (rows.foldl insertResting levels)[price]? = (rowSize rows price).or levels[price]? := by
  induction rows generalizing levels with
  | nil => rfl
  | cons row rows ih =>
    have hrow : (insertResting levels row)[price]? = (rowTable row price).or levels[price]? := by
      unfold insertResting rowTable resting
      by_cases hp : price = row.1
      · subst hp
        split <;> simp
      · have hne : row.1 ≠ price := fun h => hp h.symm
        split <;> simp [Std.ExtTreeMap.getElem?_insert, hne]
    have hcons : rowSize (row :: rows) price = (rowSize rows price).or (rowTable row price) :=
      congrFun (Table.merge_cons _ _) price
    rw [List.foldl_cons, ih, hrow, hcons, Option.or_assoc]

/-! ## Events as tables -/

/-- What an event says about each place: nothing, or the size it leaves there. -/
def effect : BookEvent → Table Place (Option Rat)
  | .snapshot bids asks => fun p =>
      some (rowSize (match p.1 with | .bid => bids | .ask => asks) p.2)
  | .delta side price size => Table.single (side, price) (resting size)

theorem size_apply (b : Book) (e : BookEvent) (p : Place) :
    (b.apply e).size p = (effect e p).getD (b.size p) := by
  cases e with
  | snapshot bids asks =>
    obtain ⟨side, price⟩ := p
    cases side with
    | bid =>
      show (bids.foldl insertResting ∅)[price]? = rowSize bids price
      rw [getElem?_insertResting, Std.ExtTreeMap.getElem?_empty, Option.or_none]
    | ask =>
      show (asks.foldl insertResting ∅)[price]? = rowSize asks price
      rw [getElem?_insertResting, Std.ExtTreeMap.getElem?_empty, Option.or_none]
  | delta side price size =>
    show (b.applyDelta side price size).1.size p = (Table.single _ _ p).getD _
    rw [size_applyDelta, Table.single]
    split <;> rfl

/-- After a run of events the last one that mentions a place decides its size. -/
theorem size_applyAll (b : Book) (es : List BookEvent) (p : Place) :
    (b.applyAll es).size p = (Table.merge (es.map effect) p).getD (b.size p) := by
  induction es generalizing b with
  | nil => rfl
  | cons e es ih =>
    show ((b.apply e).applyAll es).size p = _
    rw [ih, size_apply, List.map_cons, Table.merge_cons, Table.extend]
    cases Table.merge (es.map effect) p <;> rfl

theorem rowSize_ne_zero (rows : List (Rat × Rat)) (price : Rat) :
    rowSize rows price ≠ some 0 := by
  intro h
  obtain ⟨t, hmem, ht⟩ := Table.exists_mem_of_merge h
  obtain ⟨row, -, rfl⟩ := List.mem_map.mp hmem
  unfold rowTable at ht
  split at ht
  next => exact resting_ne_zero _ ht
  next => cases ht

/-- No event leaves a level without size. -/
theorem effect_ne_zero (e : BookEvent) (p : Place) : effect e p ≠ some (some 0) := by
  cases e with
  | snapshot bids asks => exact fun h => rowSize_ne_zero _ _ (Option.some.inj h)
  | delta side price size => exact fun h => resting_ne_zero _ (Table.single_eq_some.mp h).2

theorem applyAll_zero {b : Book} {es : List BookEvent} {p : Place}
    (h : (b.applyAll es).size p = some 0) : b.size p = some 0 := by
  rw [size_applyAll] at h
  cases hm : Table.merge (es.map effect) p with
  | none => rwa [hm] at h
  | some v =>
    obtain ⟨t, hmem, ht⟩ := Table.exists_mem_of_merge hm
    obtain ⟨e, -, rfl⟩ := List.mem_map.mp hmem
    rw [hm, Option.getD_some] at h
    exact absurd (h ▸ ht) (effect_ne_zero e p)

/-! ## Fan-out -/

/-- Redundant connections lead to the book one connection leads to, and a level without
size is never made on the way. -/
theorem fan_out_converges {N : Nat} (hN : 1 ≤ N) (b : Book) (es : List BookEvent)
    (D : List (Fin N × BookEvent)) (hD : Interleaves (fun _ => es) D) :
    b.applyAll (D.map Prod.snd) = b.applyAll es ∧
      ∀ (k : Nat) (p : Place), (b.applyAll ((D.take k).map Prod.snd)).size p = some 0 →
        b.size p = some 0 := by
  refine ⟨ext_size fun p => ?_, fun k p h => applyAll_zero h⟩
  have : Nonempty (Fin N) := ⟨⟨0, hN⟩⟩
  rw [size_applyAll, size_applyAll, List.map_map]
  exact congrArg (fun t => (t p).getD (b.size p)) (merge_interleaved hD effect)

theorem fan_out_converges_lagging :
    let first := BookEvent.delta .bid (1 / 2) 10
    let seed := BookEvent.snapshot [(2 / 5, 3)] [(3 / 5, 0)]
    let last := BookEvent.delta .bid (1 / 2) 20
    empty.applyAll [first, seed, first, last, seed, last] =
      empty.applyAll [first, seed, last] :=
  (fan_out_converges (by decide : 1 ≤ 2) empty _
    [(0, .delta .bid (1 / 2) 10), (0, .snapshot [(2 / 5, 3)] [(3 / 5, 0)]),
      (1, .delta .bid (1 / 2) 10), (0, .delta .bid (1 / 2) 20),
      (1, .snapshot [(2 / 5, 3)] [(3 / 5, 0)]), (1, .delta .bid (1 / 2) 20)]
    (by decide +kernel)).1

/-- The ladders are public: a book may start with a level without size, and then keeps it
until an event mentions its place. -/
theorem zero_level_survives :
    ¬∀ (N : Nat), 1 ≤ N → ∀ (b : Book) (es : List BookEvent) (D : List (Fin N × BookEvent)),
      Interleaves (fun _ => es) D →
        b.applyAll (D.map Prod.snd) = b.applyAll es ∧
          ∀ (k : Nat) (p : Place), (b.applyAll ((D.take k).map Prod.snd)).size p ≠ some 0 := by
  intro h
  have hrun := h 1 (by decide) ⟨(∅ : Levels).insert (1 / 2) 0, ∅⟩ [.delta .ask (3 / 5) 10]
    [(0, .delta .ask (3 / 5) 10)] (by decide +kernel)
  exact hrun.2 1 (.bid, 1 / 2) (by decide +kernel)

end Book

end Eggplant
