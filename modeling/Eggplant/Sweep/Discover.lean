import Eggplant.Convert.Engine
import Eggplant.Sweep.Classify

/-!
# Discovering held events

The scan lists the wallet's positions, resolves the distinct negRisk slugs among them
through Gamma and classifies every event it could resolve. A slug that does not resolve
is skipped.
-/
namespace Eggplant.Sweep

set_option autoImplicit false

open Eggplant.Lib.Words Eggplant.Convert

/-- A position row with the slug of its event. -/
structure HeldPosition extends Position where
  eventSlug : String

/-! ## Gamma's events -/

structure GammaMarket where
  questionId : Option String
  conditionId : Option String
  clobTokenIds : Option (List String)

structure GammaEvent where
  slug : String
  title : String
  negRisk : Bool
  markets : Option (List GammaMarket)

/-- A market's identifiers as the APIs deliver them. -/
structure MarketIds where
  questionId : Option String
  conditionId : Option String
  yesTokenId : Option String
  noTokenId : String

namespace GammaMarket

def yesTokenId (m : GammaMarket) : Option String := m.clobTokenIds.bind (·[0]?)

def noTokenId (m : GammaMarket) : Option String := m.clobTokenIds.bind (·[1]?)

def marketIds (m : GammaMarket) : Option MarketIds :=
  m.noTokenId.map fun no => ⟨m.questionId, m.conditionId, m.yesTokenId, no⟩

end GammaMarket

def convertLeg (parse : Parsers) (m : MarketIds) : Option ConvertLeg := do
  let questionId ← m.questionId.bind parse.hexB256
  let noTokenId ← parse.u256 m.noTokenId
  return {
    questionId
    conditionId := m.conditionId.bind parse.hexB256
    yesTokenId := m.yesTokenId.bind parse.u256
    noTokenId }

/-- Markets without a readable question or NO token are left out. -/
def convertLegs (parse : Parsers) (markets : List MarketIds) : List ConvertLeg :=
  markets.filterMap (convertLeg parse)

/-! ## The scan -/

structure HeldEvent where
  slug : String
  title : String
  legs : List ConvertLeg

structure SweepReport where
  slug : String
  title : String
  classification : EventClassification

structure SweepOptions where
  minShares : Rat := 0
  onlySlug : Option String := none
  delays : ConvertDelays := {}

/-- What the scan reads: `all_positions` by size floor, Gamma's events by slug. -/
structure Scan where
  parse : Parsers
  allPositions : Rat → Except Error (List HeldPosition)
  fetchEventsBySlug : String → Except Error (List GammaEvent)

/-- The raw dust floor in shares; beyond `u128` it is clamped. -/
def singleLegMinQty (delays : ConvertDelays) : Rat :=
  toShares (min delays.singleLegMinQtyRaw (2 ^ 128 - 1))

def resolveEvent (scan : Scan) (slug : String) : Option HeldEvent :=
  match scan.fetchEventsBySlug slug with
  | .error _ => none
  | .ok events =>
    match (events.find? fun e => e.slug = slug).or events.head? with
    | none => none
    | some event =>
      if event.negRisk = false then none
      else
        let legs := convertLegs scan.parse
          ((event.markets.getD []).filterMap GammaMarket.marketIds)
        if legs.length < 2 then none else some ⟨event.slug, event.title, legs⟩

/-- The rows that name an event the options ask for. -/
def wanted (opts : SweepOptions) (p : HeldPosition) : Bool :=
  p.negativeRisk && p.eventSlug != "" && opts.onlySlug.all (· == p.eventSlug)

/-- Slugs in first-seen order; the first argument holds those already seen. -/
def distinctSlugs : List String → List HeldPosition → List String
  | _, [] => []
  | seen, p :: ps =>
    if p.eventSlug ∈ seen then distinctSlugs seen ps
    else p.eventSlug :: distinctSlugs (p.eventSlug :: seen) ps

def heldSlugs (opts : SweepOptions) (positions : List HeldPosition) : List String :=
  distinctSlugs [] (positions.filter (wanted opts))

/-- The lookups run side by side and their answers are taken in order. -/
def discover (scan : Scan) (opts : SweepOptions) :
    Except Error (List HeldPosition × List HeldEvent) := do
  let positions ← scan.allPositions opts.minShares
  return (positions, (heldSlugs opts positions).filterMap (resolveEvent scan))

def classOf (parse : Parsers) (legs : List ConvertLeg) (positions : List HeldPosition)
    (delays : ConvertDelays) : EventClassification :=
  classifyEvent legs (legSizes parse legs (positions.map (·.toPosition))) (singleLegMinQty delays)

def classify (parse : Parsers) (events : List HeldEvent) (positions : List HeldPosition)
    (delays : ConvertDelays) : List SweepReport :=
  events.map fun he => ⟨he.slug, he.title, classOf parse he.legs positions delays⟩

/-- The dry run. -/
def planSweep (scan : Scan) (opts : SweepOptions) : Except Error (List SweepReport) := do
  let (positions, events) ← discover scan opts
  return classify scan.parse events positions opts.delays

/-! ## Slugs -/

theorem mem_distinctSlugs {seen : List String} {positions : List HeldPosition} {slug : String} :
    slug ∈ distinctSlugs seen positions ↔
      slug ∉ seen ∧ ∃ p ∈ positions, p.eventSlug = slug := by
  induction positions generalizing seen with
  | nil => simp [distinctSlugs]
  | cons p ps ih =>
    rw [distinctSlugs]
    by_cases hseen : p.eventSlug ∈ seen
    · rw [if_pos hseen, ih, List.exists_mem_cons_iff]
      refine and_congr_right fun hnot => ?_
      have hne : p.eventSlug ≠ slug := fun h => hnot (h ▸ hseen)
      exact (or_iff_right hne).symm
    · rw [if_neg hseen, List.mem_cons, ih, List.mem_cons, List.exists_mem_cons_iff, eq_comm]
      by_cases hslug : p.eventSlug = slug
      · subst hslug
        simp [hseen]
      · simp [hslug]

theorem mem_heldSlugs {opts : SweepOptions} {positions : List HeldPosition} {slug : String} :
    slug ∈ heldSlugs opts positions ↔ ∃ p ∈ positions, wanted opts p = true ∧ p.eventSlug = slug := by
  rw [heldSlugs, mem_distinctSlugs]
  simp only [List.not_mem_nil, not_false_eq_true, true_and, List.mem_filter, and_assoc]

theorem discover_ok {scan : Scan} {opts : SweepOptions} {positions : List HeldPosition}
    (h : scan.allPositions opts.minShares = .ok positions) :
    discover scan opts =
      .ok (positions, (heldSlugs opts positions).filterMap (resolveEvent scan)) := by
  rw [discover, h]
  rfl

end Eggplant.Sweep
