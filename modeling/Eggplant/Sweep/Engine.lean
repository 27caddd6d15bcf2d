import Eggplant.Convert.Sessions
import Eggplant.Sweep.Sources

/-!
# Sweeping every held event

`sweep_all` runs the merge/convert cycle over the actionable events of a scan, one after
the other; an event whose cycle fails is counted and the rest still run. Each cycle acts
on its own event alone, so a sweep conserves what the wallet can free and leaves settled
what it has settled, whatever the relayer answers on the way.
-/
namespace Eggplant.Sweep

set_option autoImplicit false

open Eggplant.Lib Eggplant.Lib.Words Eggplant.Convert

structure SweepSummary where
  heldEvents : Nat := 0
  actionable : Nat := 0
  executed : Nat := 0
  failed : Nat := 0
  deriving DecidableEq

/-- A sweep so far: its counts, how each cycle ended, and the wallet. -/
structure Progress where
  summary : SweepSummary
  outcomes : List (HeldEvent × Except Error String)
  world : World

/-- The job of an event; nothing below reads the clock or the amount. -/
def sweepJob (he : HeldEvent) (now : Nat) : ConvertJob where
  slug := he.slug
  legs := he.legs
  amountRaw := 0
  attempts := 0
  queuedAt := now

section
variable (env : Env) (now : Nat) (delays : ConvertDelays)

/-- One turn of the loop of `sweep_all`. -/
def sweepEvent (acc : Progress) (row : HeldEvent × SweepReport) : Progress :=
  if row.2.classification.actionable = false then acc
  else
    let summary := { acc.summary with actionable := acc.summary.actionable + 1 }
    match processJob env (sweepJob row.1 now) delays acc.world with
    | (.ok detail, world) =>
      { summary := { summary with executed := summary.executed + 1 }
        outcomes := acc.outcomes ++ [(row.1, .ok detail)]
        world }
    | (.error e, world) =>
      { summary := { summary with failed := summary.failed + 1 }
        outcomes := acc.outcomes ++ [(row.1, .error e)]
        world }

end

def sweepAll (env : Env) (scan : Scan) (opts : SweepOptions) (now : Nat) (w : World) :
    Except Error Progress := do
  let (positions, events) ← discover scan opts
  let reports := classify scan.parse events positions opts.delays
  return (events.zip reports).foldl (sweepEvent env now opts.delays)
    { summary := { heldEvents := events.length }, outcomes := [], world := w }

/-! ## One turn -/

/-- What a turn makes of a cycle's end. -/
def Progress.ran (acc : Progress) (he : HeldEvent) (res : Except Error String × World) :
    Progress where
  summary :=
    { heldEvents := acc.summary.heldEvents
      actionable := acc.summary.actionable + 1
      executed := acc.summary.executed + if res.1.isOk then 1 else 0
      failed := acc.summary.failed + if res.1.isOk then 0 else 1 }
  outcomes := acc.outcomes ++ [(he, res.1)]
  world := res.2

theorem sweepEvent_cases (env : Env) (now : Nat) (delays : ConvertDelays) (acc : Progress)
    (row : HeldEvent × SweepReport) :
    (row.2.classification.actionable = false ∧ sweepEvent env now delays acc row = acc) ∨
      (row.2.classification.actionable = true ∧ sweepEvent env now delays acc row =
        acc.ran row.1 (processJob env (sweepJob row.1 now) delays acc.world)) := by
  unfold sweepEvent
  cases hact : row.2.classification.actionable with
  | false => exact .inl ⟨rfl, rfl⟩
  | true =>
    refine .inr ⟨rfl, ?_⟩
    cases processJob env (sweepJob row.1 now) delays acc.world with
    | mk answer world => cases answer <;> rfl

/-- An event is its legs. -/
theorem event_eq {e f : Event} (h : e.legs = f.legs) : e = f := by
  cases e
  cases f
  cases h
  rfl

/-! ## The invariant of the loop -/

/-- What Gamma says about legs is true of the portfolio. -/
def TellsLegs (P : Portfolio) (scan : Scan) : Prop :=
  ∀ slug he, resolveEvent scan slug = some he → ∃ e ∈ P.events, he.legs = e.legs

structure Swept (P : Portfolio) (floor : Nat) (start : Ledger)
    (rows : List (HeldEvent × SweepReport)) (acc : Progress) : Prop where
  log : ∀ r ∈ acc.world.log, r.reverted = false ∧ Reachable P start r.after
  reach : Reachable P start acc.world.ledger
  ran : acc.outcomes.map Prod.fst =
    (rows.filter fun row => row.2.classification.actionable).map Prod.fst
  actionable : acc.summary.actionable = acc.outcomes.length
  executed : acc.summary.executed = acc.outcomes.countP fun o => o.2.isOk
  failed : acc.summary.failed = acc.outcomes.countP fun o => !o.2.isOk
  untouched : ∀ e ∈ P.events, (∀ o ∈ acc.outcomes, o.1.legs ≠ e.legs) →
    Untouched e start acc.world.ledger
  idle : ∀ e ∈ P.events, ∀ o ∈ acc.outcomes, o.1.legs = e.legs → o.2.isOk = true →
    e.Idle floor acc.world.ledger

section Loop
variable {P : Portfolio} {env : Env} (hshows : Shows P env) (now : Nat) (delays : ConvertDelays)
  {start : Ledger} (hbal : ∀ l ∈ P.legs, start.no l.questionId < wordSize)
include hshows hbal

/-- A cycle keeps the invariant, however it ends: it acts on its own event, and finds
nothing to do there when an earlier one has settled it. -/
theorem swept_ran {rows : List (HeldEvent × SweepReport)} {acc : Progress}
    (h : Swept P delays.singleLegMinQtyRaw start rows acc) {row : HeldEvent × SweepReport}
    (hact : row.2.classification.actionable = true) {e : Event} (he : e ∈ P.events)
    (hlegs : row.1.legs = e.legs) :
    Swept P delays.singleLegMinQtyRaw start (rows ++ [row])
      (acc.ran row.1 (processJob env (sweepJob row.1 now) delays acc.world)) := by
  have hbal' : ∀ l ∈ e.legs, acc.world.ledger.no l.questionId < wordSize := by
    intro l hl
    exact lt_of_le_of_lt (h.reach.no_le l.questionId) (hbal l (List.mem_flatMap.mpr ⟨e, he, hl⟩))
  have hjob : (sweepJob row.1 now).legs = e.legs := hlegs
  have hcycle := processJob_cycle hshows he hjob delays hbal'
  have hidle := processJob_idle hshows he hjob delays hbal'
  generalize processJob env (sweepJob row.1 now) delays acc.world = res at hcycle hidle
  obtain ⟨new, hlog, hnew⟩ := hcycle.log
  constructor
  case log =>
    intro r hr
    rw [Progress.ran, hlog] at hr
    rcases List.mem_append.mp hr with hr | hr
    · exact h.log r hr
    · obtain ⟨hkept, ops, hops⟩ := hnew r hr
      exact ⟨hkept, h.reach.trans (reachable_of_only he ⟨ops, hops⟩).choose_spec⟩
  case reach => exact h.reach.trans (reachable_of_only he hcycle.reach).choose_spec
  case ran => simp [Progress.ran, h.ran, List.filter_append, hact]
  case actionable => simp [Progress.ran, h.actionable]
  case executed => simp [Progress.ran, h.executed, List.countP_append, List.countP_singleton]
  case failed =>
    cases hok : res.1.isOk <;> simp [Progress.ran, h.failed, List.countP_append, hok]
  case untouched =>
    intro f hf hother
    have hne : e ≠ f := by
      rintro rfl
      exact hother _ (List.mem_append_right _ (List.mem_singleton.mpr rfl)) hlegs
    have hbefore := h.untouched f hf fun o ho => hother o (List.mem_append_left _ ho)
    exact hbefore.trans (untouched_of_only he hcycle.reach hf hne)
  case idle =>
    intro f hf o ho hof hok
    rcases List.mem_append.mp ho with ho | ho
    · have hbefore := h.idle f hf o ho hof hok
      by_cases hef : e = f
      · subst hef
        show e.Idle _ res.2.ledger
        rwa [hidle hbefore]
      · exact (untouched_of_only he hcycle.reach hf hef).idle hbefore
    · obtain rfl := List.mem_singleton.mp ho
      obtain rfl : e = f := event_eq (hlegs.symm.trans hof)
      cases hres : res.1 with
      | error err =>
        rw [hres] at hok
        cases hok
      | ok detail => exact hcycle.idle detail hres

theorem swept_loop {rows : List (HeldEvent × SweepReport)}
    (hrows : ∀ row ∈ rows, ∃ e ∈ P.events, row.1.legs = e.legs) (held : Nat) :
    Swept P delays.singleLegMinQtyRaw start rows
      (rows.foldl (sweepEvent env now delays)
        { summary := { heldEvents := held }, outcomes := [], world := World.init start }) := by
  induction rows using List.reverseRecOn with
  | nil =>
    exact
      { log := nofun
        reach := Reachable.refl P start
        ran := rfl
        actionable := rfl
        executed := rfl
        failed := rfl
        untouched := fun e _ _ => Untouched.refl e start
        idle := nofun }
  | append_singleton rows row ih =>
    obtain ⟨hbefore, hlast⟩ := List.forall_mem_append.mp hrows
    obtain ⟨e, he, hlegs⟩ := hlast row (List.mem_singleton.mpr rfl)
    have hinv := ih hbefore
    rw [List.foldl_append, List.foldl_cons, List.foldl_nil]
    rcases sweepEvent_cases env now delays (rows.foldl (sweepEvent env now delays) _) row with
      ⟨hact, hstep⟩ | ⟨hact, hstep⟩
    · rw [hstep]
      exact { hinv with ran := by simp [hinv.ran, List.filter_append, hact] }
    · rw [hstep]
      exact swept_ran hshows now delays hbal hinv hact he hlegs

end Loop

/-! ## Whole sweeps -/

/-- An event beside its report. -/
def reported (parse : Parsers) (positions : List HeldPosition) (delays : ConvertDelays)
    (he : HeldEvent) : HeldEvent × SweepReport :=
  (he, ⟨he.slug, he.title, classOf parse he.legs positions delays⟩)

theorem classify_zip (parse : Parsers) (events : List HeldEvent) (positions : List HeldPosition)
    (delays : ConvertDelays) :
    events.zip (classify parse events positions delays) =
      events.map (reported parse positions delays) := by
  induction events with
  | nil => rfl
  | cons he events ih => exact congrArg _ ih

theorem sweepEvents_heldEvents (env : Env) (now : Nat) (delays : ConvertDelays)
    (rows : List (HeldEvent × SweepReport)) (acc : Progress) :
    (rows.foldl (sweepEvent env now delays) acc).summary.heldEvents = acc.summary.heldEvents := by
  induction rows generalizing acc with
  | nil => rfl
  | cons row rows ih =>
    rw [List.foldl_cons, ih]
    rcases sweepEvent_cases env now delays acc row with ⟨_, hstep⟩ | ⟨_, hstep⟩
    · rw [hstep]
    · rw [hstep]
      rfl

/-- A sweep that returns has discovered its events and gone through them all. -/
theorem sweepAll_swept {P : Portfolio} {env : Env} (hshows : Shows P env) {scan : Scan}
    (hlegs : TellsLegs P scan) {opts : SweepOptions} {now : Nat} {start : Ledger}
    (hbal : ∀ l ∈ P.legs, start.no l.questionId < wordSize) {run : Progress}
    (hrun : sweepAll env scan opts now (World.init start) = .ok run) :
    ∃ positions events, discover scan opts = .ok (positions, events) ∧
      run.summary.heldEvents = events.length ∧
      Swept P opts.delays.singleLegMinQtyRaw start
        (events.map (reported scan.parse positions opts.delays)) run := by
  obtain ⟨⟨positions, events⟩, hdiscover, hrun⟩ := bind_ok hrun
  obtain ⟨positions', _, hevents⟩ := bind_ok hdiscover
  have hresolved : ∀ row ∈ events.map (reported scan.parse positions opts.delays),
      ∃ e ∈ P.events, row.1.legs = e.legs := by
    intro row hrow
    obtain ⟨he, hmem, rfl⟩ := List.mem_map.mp hrow
    rw [← (Prod.mk.inj (Except.ok.inj hevents)).2] at hmem
    obtain ⟨slug, _, hslug⟩ := List.mem_filterMap.mp hmem
    exact hlegs slug he hslug
  have hfold := Except.ok.inj hrun
  rw [classify_zip] at hfold
  refine ⟨positions, events, hdiscover, ?_, ?_⟩
  · rw [← hfold, sweepEvents_heldEvents]
  · rw [← hfold]
    exact swept_loop hshows now opts.delays hbal hresolved events.length

/-- Whatever the relayer answers and whichever reads fail: nothing reverts, what was freed
and what can still be freed add up at every moment, the events that run are those the dry
run calls actionable, every run is counted once, events that did not run are untouched and
those that ran through have nothing left to do at the end. -/
theorem sweep_all_safe (P : Portfolio) (env : Env) (hshows : Shows P env) (scan : Scan)
    (hlegs : TellsLegs P scan) (opts : SweepOptions) (now : Nat) (start : Ledger)
    (hbal : ∀ l ∈ P.legs, start.no l.questionId < wordSize) (run : Progress)
    (hrun : sweepAll env scan opts now (World.init start) = .ok run) :
    (∀ r ∈ run.world.log, r.reverted = false) ∧
    (∀ ledger ∈ run.world.moments start, P.freed start ledger + P.value ledger = P.value start) ∧
    (∃ reports, planSweep scan opts = .ok reports ∧ run.summary.heldEvents = reports.length ∧
      run.outcomes.map (fun o => (o.1.slug, o.1.title)) =
        (reports.filter (·.classification.actionable)).map fun r => (r.slug, r.title)) ∧
    (run.summary.actionable = run.outcomes.length ∧
      run.summary.executed = (run.outcomes.countP fun o => o.2.isOk) ∧
      run.summary.executed + run.summary.failed = run.summary.actionable) ∧
    (∀ e ∈ P.events, (∀ o ∈ run.outcomes, o.1.legs ≠ e.legs) → Untouched e start run.world.ledger) ∧
    (∀ e ∈ P.events, ∀ o ∈ run.outcomes, o.1.legs = e.legs → o.2.isOk = true →
      e.Idle opts.delays.singleLegMinQtyRaw run.world.ledger) := by
  obtain ⟨positions, events, hdiscover, hheld, hinv⟩ := sweepAll_swept hshows hlegs hbal hrun
  refine ⟨fun r hr => (hinv.log r hr).1, ?_, ?_, ⟨hinv.actionable, hinv.executed, ?_⟩,
    hinv.untouched, hinv.idle⟩
  · intro ledger hin
    rcases List.mem_cons.mp hin with rfl | hin
    · exact (Reachable.refl P ledger).total
    · obtain ⟨r, hr, rfl⟩ := List.mem_map.mp hin
      exact (hinv.log r hr).2.total
  · refine ⟨classify scan.parse events positions opts.delays, ?_, ?_, ?_⟩
    · rw [planSweep, hdiscover]
      rfl
    · rw [hheld, classify, List.length_map]
    · have hnames := congrArg (List.map fun he : HeldEvent => (he.slug, he.title)) hinv.ran
      rw [List.map_map, List.filter_map, List.map_map, List.map_map] at hnames
      rw [classify, List.filter_map, List.map_map]
      exact hnames
  · rw [hinv.actionable, hinv.executed, hinv.failed]
    have hcount := List.length_eq_countP_add_countP (l := run.outcomes) fun o => o.2.isOk
    simpa using hcount.symm

theorem tellsLegs_publish (P : Portfolio) (hyes : ∀ l ∈ P.legs, l.yesTokenId.isSome = true)
    (name : Event → String) (bal : Nat → Nat) : TellsLegs P (publish name P.events bal) := by
  intro slug he h
  obtain ⟨e, hmem, _, rfl⟩ := resolveEvent_publish
    (fun e he l hl => hyes l (List.mem_flatMap.mpr ⟨e, he, hl⟩)) h
  exact ⟨e, hmem, rfl⟩

def eventName (e : Event) : String := if e.legs.length = 3 then "three" else "two"

/-- Accepts the first submission and rejects the next three. -/
def stubbornEnv : Env where
  registry := twoMarkets.legs
  wallet := Chain.ctf
  answer := fun n =>
    if 0 < n ∧ n < 4 then .error (.invalidData "batch would revert") else .ok "tx"
  balanceError := fun _ => none
  balanceOf := tokenBalance twoMarkets.legs
  wrapSnapshot := fun n => .ok { balance := n, allowance := 0 }

theorem stubbornEnv_shows : Shows twoMarkets stubbornEnv where
  listed := fun _ he => twoMarkets.listed he
  reads := readsLedger_tokenBalance twoMarkets (by decide) (by decide) (by decide)
  yes := by decide

def twoMarketsScan (ledger : Ledger) : Scan :=
  publish eventName twoMarkets.events (tokenBalance twoMarkets.legs ledger)

/-- The first event gives up half-way, the second still runs, and nothing is lost. -/
theorem sweep_all_safe_stubborn :
    ∃ run, sweepAll stubbornEnv (twoMarketsScan flakyStart) { delays := flakyDelays } 0
        (World.init flakyStart) = .ok run ∧
      run.summary = ⟨2, 2, 1, 1⟩ ∧ (∀ r ∈ run.world.log, r.reverted = false) ∧
      ∀ ledger ∈ run.world.moments flakyStart,
        twoMarkets.freed flakyStart ledger + twoMarkets.value ledger =
          twoMarkets.value flakyStart := by
  obtain ⟨run, hrun⟩ : ∃ run, sweepAll stubbornEnv (twoMarketsScan flakyStart)
      { delays := flakyDelays } 0 (World.init flakyStart) = .ok run := ⟨_, rfl⟩
  have hlegs : TellsLegs twoMarkets (twoMarketsScan flakyStart) :=
    tellsLegs_publish twoMarkets (by decide) eventName _
  obtain ⟨hreverted, hmoments, _⟩ := sweep_all_safe twoMarkets stubbornEnv stubbornEnv_shows
    (twoMarketsScan flakyStart) hlegs { delays := flakyDelays } 0 flakyStart (by decide) run hrun
  refine ⟨run, hrun, ?_, hreverted, hmoments⟩
  obtain rfl := Except.ok.inj hrun
  decide +kernel

end Eggplant.Sweep
