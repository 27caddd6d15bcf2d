import Eggplant.Convert.Resume
import Eggplant.Redeem.Drain
import Eggplant.Sweep.Discover

/-!
# Gamma and the Data API over a portfolio

A portfolio as the two services publish it: markets with their ids as text, one event a
slug, and a row for each token. `convert_legs` reads back the legs that were published.
-/
namespace Eggplant.Sweep

set_option autoImplicit false

open Eggplant.Lib Eggplant.Lib.Words Eggplant.Lib.Text Eggplant.Convert
open Eggplant.Redeem (readers)

/-! ## Markets -/

def publishLeg (l : ConvertLeg) : GammaMarket where
  questionId := some ("0x" ++ hexText l.questionId.bytes)
  conditionId := l.conditionId.map fun c => "0x" ++ hexText c.bytes
  clobTokenIds := l.yesTokenId.map fun y => [y.repr, l.noTokenId.repr]

theorem readers_hexB256 (b : B256) : readers.hexB256 ("0x" ++ hexText b.bytes) = some b := by
  have hstrip : stripHexPrefix ("0x" ++ hexText b.bytes) = hexText b.bytes := by
    have hchars : ("0x" ++ hexText b.bytes).toList = '0' :: 'x' :: (hexText b.bytes).toList := by
      rw [String.toList_append]
      rfl
    rw [stripHexPrefix, hchars]
    exact String.ofList_toList
  rw [Parsers.hexB256, hstrip]
  exact readFixedHex_hexText b

theorem convertLeg_publishLeg {l : ConvertLeg} (hyes : l.yesTokenId.isSome = true) :
    (publishLeg l).marketIds.bind (convertLeg readers) = some l := by
  obtain ⟨questionId, conditionId, yesTokenId, noTokenId⟩ := l
  obtain ⟨y, rfl⟩ := Option.isSome_iff_exists.mp hyes
  have hno : readers.u256 noTokenId.repr = some noTokenId := readDec_repr noTokenId
  have hy : readers.u256 y.repr = some y := readDec_repr y
  have hc : (conditionId.map fun c => "0x" ++ hexText c.bytes).bind readers.hexB256 = conditionId := by
    cases conditionId with
    | none => rfl
    | some c => exact readers_hexB256 c
  have hq := readers_hexB256 questionId
  simp [publishLeg, GammaMarket.marketIds, GammaMarket.noTokenId, GammaMarket.yesTokenId, convertLeg,
    hno, hy, hc, hq]

theorem convertLegs_publish {legs : List ConvertLeg}
    (hyes : ∀ l ∈ legs, l.yesTokenId.isSome = true) :
    convertLegs readers ((legs.map publishLeg).filterMap GammaMarket.marketIds) = legs := by
  rw [convertLegs, List.filterMap_filterMap, List.filterMap_map]
  have hall : ∀ l ∈ legs,
      ((fun m : GammaMarket => m.marketIds.bind (convertLeg readers)) ∘ publishLeg) l = some l :=
    fun l hl => convertLeg_publishLeg (hyes l hl)
  rw [List.filterMap_congr hall, List.filterMap_some]

/-! ## Events and rows -/

section Publish
variable (name : Event → String) (events : List Event)

def publishEvent (e : Event) : GammaEvent := ⟨name e, name e, true, some (e.legs.map publishLeg)⟩

def publishEvents (slug : String) : Except Error (List GammaEvent) :=
  .ok ((events.filter fun e => name e = slug).map (publishEvent name))

/-- A row for each of an event's tokens. -/
def publishRows (bal : Nat → Nat) : List HeldPosition :=
  events.flatMap fun e => (batchTokenIds e.legs).map fun t =>
    ⟨⟨t.repr, toShares (bal t), "", "", true⟩, name e⟩

def publish (bal : Nat → Nat) : Scan where
  parse := readers
  allPositions := fun _ => .ok (publishRows name events bal)
  fetchEventsBySlug := publishEvents name events

variable {name events} {bal : Nat → Nat}

theorem resolveEvent_publish {slug : String} {he : HeldEvent}
    (hyes : ∀ e ∈ events, ∀ l ∈ e.legs, l.yesTokenId.isSome = true)
    (h : resolveEvent (publish name events bal) slug = some he) :
    ∃ e ∈ events, name e = slug ∧ he = ⟨slug, slug, e.legs⟩ := by
  unfold resolveEvent at h
  simp only [publish, publishEvents] at h
  cases hnamed : events.filter fun e => decide (name e = slug) with
  | nil =>
    rw [hnamed] at h
    cases h
  | cons e es =>
    have hmem : e ∈ events.filter fun e => decide (name e = slug) := by
      rw [hnamed]
      exact List.mem_cons_self
    obtain ⟨he', hname⟩ := List.mem_filter.mp hmem
    have hname : name e = slug := of_decide_eq_true hname
    rw [hnamed] at h
    simp only [List.map_cons, publishEvent, hname, decide_true, List.find?_cons_of_pos,
      Option.some_or, Bool.true_eq_false, if_false, Option.getD_some,
      convertLegs_publish (hyes e he')] at h
    split at h
    next => cases h
    next => exact ⟨e, he', hname, (Option.some.inj h).symm⟩

theorem resolveEvent_publish_self {e : Event} (he : e ∈ events)
    (hname : ∀ f ∈ events, name f = name e → f = e)
    (hyes : ∀ l ∈ e.legs, l.yesTokenId.isSome = true) (hlegs : 2 ≤ e.legs.length) :
    resolveEvent (publish name events bal) (name e) = some ⟨name e, name e, e.legs⟩ := by
  unfold resolveEvent
  simp only [publish, publishEvents]
  cases hnamed : events.filter fun f => decide (name f = name e) with
  | nil =>
    have hself : e ∈ events.filter fun f => decide (name f = name e) :=
      List.mem_filter.mpr ⟨he, decide_eq_true rfl⟩
    rw [hnamed] at hself
    cases hself
  | cons f fs =>
    have hmem : f ∈ events.filter fun f => decide (name f = name e) := by
      rw [hnamed]
      exact List.mem_cons_self
    obtain ⟨hf, hf'⟩ := List.mem_filter.mp hmem
    obtain rfl := hname f hf (of_decide_eq_true hf')
    have hmany : ¬ f.legs.length < 2 := Nat.not_lt.mpr hlegs
    simp only [List.map_cons, publishEvent, decide_true, List.find?_cons_of_pos,
      Option.some_or, Bool.true_eq_false, if_false, Option.getD_some, convertLegs_publish hyes,
      if_neg hmany]

end Publish

end Eggplant.Sweep
