import Eggplant.Lib.Ladder
import Eggplant.Book.Apply

/-!
# Depth and price of the ask ladder

A price for a size and a size for a price ceiling, both read off the ask ladder best
price first.
-/
namespace Eggplant

set_option autoImplicit false

open Eggplant.Lib

/-- Prices compare as rationals. -/
instance instTransCmpPrice : Std.TransCmp (compare : Rat → Rat → Ordering) := inferInstance

namespace Book

/-- `ask_price_for_size`: the level at which the depth first covers `need`, the deepest
level when the ladder holds less. -/
def askPriceForSize (b : Book) (need : Rat) : Option Rat :=
  Ladder.cover need 0 none b.asks.toList

/-- `ask_depth_up_to`: the depth priced at `max_price` or lower. -/
def askDepthUpTo (b : Book) (maxPrice : Rat) : Rat := Ladder.depth b.asks.toList maxPrice

/-- The depth of the whole ask ladder. -/
def askDepth (b : Book) : Rat := Ladder.total b.asks.toList

/-- Every ask level has a positive size. -/
def AsksPositive (b : Book) : Prop := ∀ price size : Rat, b.asks[price]? = some size → 0 < size

theorem asks_rising (b : Book) : Ladder.Rising b.asks.toList := by
  refine b.asks.ordered_keys_toList.imp fun {l l'} h => ?_
  exact compare_lt_iff_lt.mp h

theorem AsksPositive.levels {b : Book} (h : b.AsksPositive) : Ladder.Positive b.asks.toList :=
  fun level hl => h level.1 level.2 (Std.ExtTreeMap.mem_toList_iff_getElem?_eq_some.mp hl)

theorem mem_ask_prices (b : Book) (price : Rat) :
    price ∈ b.asks.toList.map (·.1) ↔ price ∈ b.asks := by
  rw [Std.ExtTreeMap.map_fst_toList_eq_keys, Std.ExtTreeMap.mem_keys]

/-! ## Books built from events -/

/-- No size an event names is negative. -/
def NonNegative : BookEvent → Prop
  | .snapshot bids asks => ∀ row ∈ bids ++ asks, 0 ≤ row.2
  | .delta _ _ size => 0 ≤ size

theorem resting_pos {s v : Rat} (hs : 0 ≤ s) (h : resting s = some v) : 0 < v := by
  unfold resting at h
  split at h
  next => cases h
  next hne =>
    obtain rfl := Option.some.inj h
    exact lt_of_le_of_ne hs (Ne.symm hne)

theorem rowSize_pos {rows : List (Rat × Rat)} (hrows : ∀ row ∈ rows, 0 ≤ row.2) {price v : Rat}
    (h : rowSize rows price = some v) : 0 < v := by
  obtain ⟨t, hmem, ht⟩ := Table.exists_mem_of_merge h
  obtain ⟨row, hrow, rfl⟩ := List.mem_map.mp hmem
  unfold rowTable at ht
  split at ht
  next => exact resting_pos (hrows row hrow) ht
  next => cases ht

theorem AsksPositive.apply {b : Book} (hb : b.AsksPositive) {e : BookEvent}
    (he : NonNegative e) : (b.apply e).AsksPositive := by
  intro price v h
  replace h : (b.apply e).size (.ask, price) = some v := h
  rw [size_apply] at h
  cases e with
  | snapshot bids asks =>
    exact rowSize_pos (fun row hrow => he row (List.mem_append_right bids hrow)) h
  | delta side q size =>
    rw [effect, Table.single] at h
    split at h
    next => exact resting_pos he h
    next => exact hb price v h

/-- Events without negative sizes leave only ask levels of positive size. -/
theorem AsksPositive.applyAll {b : Book} (hb : b.AsksPositive) {es : List BookEvent}
    (hes : ∀ e ∈ es, NonNegative e) : (b.applyAll es).AsksPositive := by
  induction es generalizing b with
  | nil => exact hb
  | cons e es ih =>
    exact ih (hb.apply (hes e List.mem_cons_self)) fun e' he' => hes e' (List.mem_cons_of_mem e he')

theorem asksPositive_empty : empty.AsksPositive := by
  intro price size h
  rw [show empty.asks[price]? = none from Std.ExtTreeMap.getElem?_empty] at h
  cases h

/-! ## Price and depth -/

/-- The price for a size and the depth under a ceiling are inverse to each other. -/
theorem price_depth_inverse (b : Book) (hpos : b.AsksPositive) :
    (∀ need, 0 < need → need ≤ b.askDepth →
      ∃ q ∈ b.asks, b.askPriceForSize need = some q ∧
        (∀ p, need ≤ b.askDepthUpTo p ↔ q ≤ p) ∧
        IsLeast {p | need ≤ b.askDepthUpTo p} q) ∧
    (∀ need, b.askDepth < need →
      ∀ q, b.askPriceForSize need = some q ↔ IsGreatest {p | p ∈ b.asks} q) ∧
    ∀ need, b.askPriceForSize need = none ↔ b.asks = ∅ := by
  refine ⟨fun need hneed htotal => ?_, fun need htotal q => ?_, fun need => ?_⟩
  · have hwithin : need ≤ 0 + Ladder.total b.asks.toList := by rwa [zero_add]
    obtain ⟨q, hq, hcover, hiff⟩ :=
      Ladder.cover_spec none b.asks_rising hpos.levels hneed hwithin
    have hinv : ∀ p, need ≤ b.askDepthUpTo p ↔ q ≤ p := fun p => by
      rw [← hiff p, zero_add]
      rfl
    refine ⟨q, (b.mem_ask_prices q).mp hq, hcover, hinv, (hinv q).mpr (le_refl q), ?_⟩
    exact fun p hp => (hinv p).mp hp
  · have hpast : 0 + Ladder.total b.asks.toList < need := by rwa [zero_add]
    have hset : {p | p ∈ b.asks} = {p | p ∈ b.asks.toList.map (·.1)} :=
      Set.ext fun p => (b.mem_ask_prices p).symm
    rw [hset, ← Ladder.getLast_eq_some_iff b.asks_rising, askPriceForSize,
      Ladder.cover_exhausted hpos.levels hpast, Option.or_none]
  · rw [askPriceForSize, Ladder.cover_eq_none_iff, Std.ExtTreeMap.toList_eq_nil_iff]
    exact and_iff_left rfl

/-- A ladder of three levels: thirty at the touch, fifty behind it and a hundred deep. -/
def threeLevels : List BookEvent :=
  [.snapshot [] [(11 / 100, 30), (12 / 100, 50), (13 / 100, 100)]]

theorem price_depth_inverse_threeLevels :
    let b := empty.applyAll threeLevels
    b.askPriceForSize 80 = some (12 / 100) ∧
      (∀ p, 80 ≤ b.askDepthUpTo p ↔ 12 / 100 ≤ p) ∧
      IsGreatest {p | p ∈ b.asks} (13 / 100) := by
  have hpos : (empty.applyAll threeLevels).AsksPositive :=
    asksPositive_empty.applyAll (by simp [threeLevels, NonNegative, or_imp, forall_and])
  obtain ⟨hwithin, hpast, -⟩ := price_depth_inverse (empty.applyAll threeLevels) hpos
  have hprice : (empty.applyAll threeLevels).askPriceForSize 80 = some (12 / 100) := by
    decide +kernel
  obtain ⟨q, -, hq, hiff, -⟩ := hwithin 80 (by decide) (by decide +kernel)
  obtain rfl : 12 / 100 = q := Option.some.inj (hprice.symm.trans hq)
  exact ⟨hprice, hiff, (hpast 500 (by decide +kernel) _).mp (by decide +kernel)⟩

end Book

end Eggplant
