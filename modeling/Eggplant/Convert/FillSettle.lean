import Eggplant.Convert.Worker

/-!
# When a pass starts

The worker with exact sleeps: time passes while it sleeps or waits for someone else, and a
sleep ends on the instant it was set for. Then a pass starts `process_jobs` as soon as the
fills of all its jobs have settled, and no later.
-/
namespace Eggplant.Convert

set_option autoImplicit false

/-- One pass: when its first job was received, its jobs, and when `process_jobs` started. -/
structure PassStart where
  received : Nat
  batch : List ConvertJob
  start : Nat

/-- A worker with the receipt of its current pass and the passes started so far. -/
structure Timed where
  worker : Worker
  received : Nat
  starts : List PassStart

namespace Timed

def init : Timed where
  worker := Worker.init
  received := 0
  starts := []

/-- What a step of the worker adds to the record. -/
def note (t : Timed) (w : Worker) : Timed :=
  match w.phase with
  | .fillWait _ _ => { t with worker := w, received := w.clock }
  | .running batch _ => { t with worker := w, starts := t.starts ++ [⟨t.received, batch, w.clock⟩] }
  | _ => { t with worker := w }

end Timed

/-- The worker has nothing to do until then: it sleeps, or it waits for someone else. -/
def Worker.IdleUntil (w : Worker) (clock : Nat) : Prop :=
  match w.phase with
  | .fillWait _ wake => clock ≤ wake
  | .draining _ => clock = w.clock
  | .topUp _ wake => clock ≤ wake
  | .backoff wake => clock ≤ wake
  | _ => True

section Steps
variable (delays : ConvertDelays)

/-- A job is not received before its own `queued_at`. -/
inductive TimedStep : Timed → Timed → Prop where
  | outside {t : Timed} {w : Worker} (h : Outside t.worker w) (hidle : t.worker.IdleUntil w.clock) :
      TimedStep t { t with worker := w }
  | work {t : Timed} {w : Worker} (h : Work delays t.worker w)
      (hqueued : ∀ j ∈ w.phase.collecting, j.queuedAt ≤ w.clock) : TimedStep t (t.note w)

abbrev TimedRuns : Timed → Timed → Prop := Relation.ReflTransGen (TimedStep delays)

end Steps

/-! ## Settling -/

/-- The first instant at which the pass is received and all its fills have settled. -/
def settledAt (delay received : Nat) (batch : List ConvertJob) : Nat :=
  (batch.map (fun j => j.queuedAt + delay)).foldr max received

section
variable {delay received : Nat}

theorem settledAt_cons (job : ConvertJob) (batch : List ConvertJob) :
    settledAt delay received (job :: batch) =
      max (job.queuedAt + delay) (settledAt delay received batch) := rfl

theorem settledAt_concat (batch : List ConvertJob) (job : ConvertJob) :
    settledAt delay received (batch ++ [job]) =
      max (settledAt delay received batch) (job.queuedAt + delay) := by
  induction batch with
  | nil => exact Nat.max_comm _ _
  | cons first batch ih =>
    rw [List.cons_append, settledAt_cons, settledAt_cons, ih, Nat.max_assoc]

theorem received_le_settledAt (batch : List ConvertJob) :
    received ≤ settledAt delay received batch := by
  induction batch with
  | nil => exact Nat.le_refl _
  | cons job batch ih => exact Nat.le_trans ih (Nat.le_max_right _ _)

theorem le_settledAt {batch : List ConvertJob} {j : ConvertJob} (h : j ∈ batch) :
    j.queuedAt + delay ≤ settledAt delay received batch := by
  induction batch with
  | nil => cases h
  | cons job batch ih =>
    rw [settledAt_cons]
    cases List.mem_cons.mp h with
    | inl heq => exact heq ▸ Nat.le_max_left _ _
    | inr hin => exact Nat.le_trans (ih hin) (Nat.le_max_right _ _)

/-- Measured from a later instant the pass settles at the same time, unless it already has. -/
theorem settledAt_later {now : Nat} (batch : List ConvertJob) (hle : received ≤ now)
    (hnow : now ≤ settledAt delay received batch) :
    settledAt delay now batch = settledAt delay received batch := by
  have hmax : settledAt delay now batch = max now (settledAt delay received batch) := by
    clear hnow
    induction batch with
    | nil => exact (Nat.max_eq_left hle).symm
    | cons job batch ih =>
      rw [settledAt_cons, settledAt_cons, ih]
      omega
  rw [hmax]
  exact Nat.max_eq_right hnow

/-- The residual wait of jobs queued by now ends when they have settled. -/
theorem add_fillResidual {now : Nat} {batch : List ConvertJob}
    (h : ∀ j ∈ batch, j.queuedAt ≤ now) :
    now + fillResidual batch now delay = settledAt delay now batch := by
  induction batch with
  | nil => rfl
  | cons job batch ih =>
    have hrest := ih fun j hj => h j (List.mem_cons_of_mem _ hj)
    have hfirst : job.queuedAt ≤ now := h job List.mem_cons_self
    have hle : now ≤ settledAt delay now batch := received_le_settledAt batch
    have hcons : fillResidual (job :: batch) now delay =
        max (delay - (now - job.queuedAt)) (fillResidual batch now delay) := rfl
    rw [settledAt_cons, hcons]
    omega

end

/-! ## What a timed run keeps -/

structure Punctual (delay : Nat) (t : Timed) : Prop where
  fillWait : ∀ batch wake, t.worker.phase = .fillWait batch wake →
    t.worker.clock ≤ wake ∧ wake = settledAt delay t.received batch
  /-- The drain happens at the end of the first wait. -/
  draining : ∀ batch, t.worker.phase = .draining batch →
    t.received ≤ t.worker.clock ∧ t.worker.clock ≤ settledAt delay t.received batch
  topUp : ∀ batch wake, t.worker.phase = .topUp batch wake →
    t.worker.clock ≤ wake ∧ wake = settledAt delay t.received batch
  starts : ∀ s ∈ t.starts, s.start = settledAt delay s.received s.batch

theorem punctual_init (delay : Nat) : Punctual delay Timed.init where
  fillWait := nofun
  draining := nofun
  topUp := nofun
  starts := nofun

section
variable {delays : ConvertDelays} {t : Timed}

/-- What happens around the worker does not disturb a pass. -/
theorem Punctual.outside {w : Worker} (ht : Punctual delays.fillToConvert t)
    (h : Outside t.worker w) (hidle : t.worker.IdleUntil w.clock) :
    Punctual delays.fillToConvert { t with worker := w } := by
  have hphase : w.phase = t.worker.phase := by
    cases h <;> rfl
  refine ⟨fun batch wake hw => ?_, fun batch hw => ?_, fun batch wake hw => ?_, ht.starts⟩
  · rw [hphase] at hw
    have hle : w.clock ≤ wake := by
      rw [Worker.IdleUntil, hw] at hidle
      exact hidle
    exact ⟨hle, (ht.fillWait batch wake hw).2⟩
  · rw [hphase] at hw
    have heq : w.clock = t.worker.clock := by
      rw [Worker.IdleUntil, hw] at hidle
      exact hidle
    show t.received ≤ w.clock ∧ w.clock ≤ _
    rw [heq]
    exact ht.draining batch hw
  · rw [hphase] at hw
    have hle : w.clock ≤ wake := by
      rw [Worker.IdleUntil, hw] at hidle
      exact hidle
    exact ⟨hle, (ht.topUp batch wake hw).2⟩

/-- A step that leaves the waits of a pass behind keeps the record. -/
theorem Punctual.elsewhere {w : Worker} (ht : Punctual delays.fillToConvert t)
    (hwait : ∀ batch wake, w.phase ≠ .fillWait batch wake) (hdrain : ∀ batch, w.phase ≠ .draining batch)
    (htop : ∀ batch wake, w.phase ≠ .topUp batch wake) :
    Punctual delays.fillToConvert { t with worker := w } where
  fillWait := fun batch wake h => absurd h (hwait batch wake)
  draining := fun batch h => absurd h (hdrain batch)
  topUp := fun batch wake h => absurd h (htop batch wake)
  starts := ht.starts

theorem Punctual.work {w : Worker} (ht : Punctual delays.fillToConvert t)
    (h : Work delays t.worker w) (hqueued : ∀ j ∈ w.phase.collecting, j.queuedAt ≤ w.clock) :
    Punctual delays.fillToConvert (t.note w) := by
  cases h with
  | receive first rest hphase hchannel =>
    refine ⟨fun batch wake hw => ?_, nofun, nofun, ht.starts⟩
    cases hw
    exact ⟨Nat.le_add_right _ _, add_fillResidual hqueued⟩
  | stop hphase hchannel hdropped => exact ht.elsewhere nofun nofun nofun
  | wake batch wake hphase hwake =>
    obtain ⟨hle, heq⟩ := ht.fillWait batch wake hphase
    have hclock : t.worker.clock = settledAt delays.fillToConvert t.received batch := by omega
    refine ⟨nofun, fun batch' hw => ?_, nofun, ht.starts⟩
    cases hw
    exact ⟨hclock ▸ received_le_settledAt batch, Nat.le_of_eq hclock⟩
  | drain batch job rest hphase hchannel =>
    obtain ⟨hreceived, hle⟩ := ht.draining batch hphase
    refine ⟨nofun, fun batch' hw => ?_, nofun, ht.starts⟩
    cases hw
    refine ⟨hreceived, ?_⟩
    rw [settledAt_concat]
    exact Nat.le_trans hle (Nat.le_max_left _ _)
  | drained batch hphase hchannel =>
    obtain ⟨hreceived, hle⟩ := ht.draining batch hphase
    refine ⟨nofun, nofun, fun batch' wake hw => ?_, ht.starts⟩
    cases hw
    have hwait : t.worker.clock + fillResidual batch t.worker.clock delays.fillToConvert =
        settledAt delays.fillToConvert t.worker.clock batch := add_fillResidual hqueued
    exact ⟨Nat.le_add_right _ _, hwait.trans (settledAt_later batch hreceived hle)⟩
  | start batch wake hphase hwake =>
    obtain ⟨hle, heq⟩ := ht.topUp batch wake hphase
    refine ⟨nofun, nofun, nofun, fun s hs => ?_⟩
    cases List.mem_append.mp hs with
    | inl hold => exact ht.starts s hold
    | inr hnew =>
      rw [List.mem_singleton.mp hnew]
      show t.worker.clock = settledAt delays.fillToConvert t.received batch
      omega
  | finish batch uniques outcome hphase => exact ht.elsewhere nofun nofun nofun
  | report outcome job left hphase => exact ht.elsewhere nofun nofun nofun
  | reported outcome hphase =>
    cases outcome with
    | ok detail => exact ht.elsewhere nofun nofun nofun
    | error e => exact ht.elsewhere nofun nofun nofun
  | resume wake hphase hwake => exact ht.elsewhere nofun nofun nofun

theorem timedRuns_punctual (h : TimedRuns delays Timed.init t) :
    Punctual delays.fillToConvert t := by
  induction h with
  | refl => exact punctual_init delays.fillToConvert
  | tail _ hstep ih =>
    cases hstep with
    | outside h hidle => exact ih.outside h hidle
    | work h hqueued => exact ih.work h hqueued

end

/-- Every pass of every timed run starts at the later of its receipt and the last of its
jobs' settlements. -/
theorem pass_starts_when_settled (delays : ConvertDelays) (t : Timed)
    (h : TimedRuns delays Timed.init t) :
    ∀ s ∈ t.starts,
      s.start = (s.batch.map (fun j => j.queuedAt + delays.fillToConvert)).foldr max s.received ∧
        ∀ j ∈ s.batch, j.queuedAt + delays.fillToConvert ≤ s.start := by
  intro s hs
  have hstart := (timedRuns_punctual h).starts s hs
  refine ⟨hstart, fun j hj => ?_⟩
  rw [hstart]
  exact le_settledAt hj

/-- Two fills, the second three nanoseconds after the first. -/
def earlyFill : ConvertJob := ⟨"early", [], 7, 0, 0⟩

def lateFill : ConvertJob := ⟨"late", [], 7, 0, 3⟩

/-- The late fill joins during the first wait, and the pass waits for it too. -/
theorem pass_starts_when_settled_joined :
    ∃ t, TimedRuns { fillToConvert := 5 } Timed.init t ∧
      ∃ s ∈ t.starts, s.batch = [earlyFill, lateFill] ∧ s.start = 8 := by
  let last : Timed := ⟨{ Worker.init with
    clock := 8, queued := [earlyFill, lateFill]
    phase := .running [earlyFill, lateFill] (dedupBySlug [earlyFill, lateFill]) },
    0, [⟨0, [earlyFill, lateFill], 8⟩]⟩
  have hrun : TimedRuns { fillToConvert := 5 } Timed.init last := by
    refine .head (.outside (.send _ earlyFill rfl) trivial) ?_
    refine .head (.work (.receive _ earlyFill [] rfl rfl) (by decide)) ?_
    refine .head (.outside (.tick _ 3) (Nat.le_add_right 3 2)) ?_
    refine .head (.outside (.send _ lateFill rfl) (Nat.le_add_right 3 2)) ?_
    refine .head (.outside (.tick _ 2) (Nat.le_refl 5)) ?_
    refine .head (.work (.wake _ [earlyFill] 5 rfl (Nat.le_refl 5)) (by decide)) ?_
    refine .head (.work (.drain _ [earlyFill] lateFill [] rfl rfl) (by decide)) ?_
    refine .head (.work (.drained _ [earlyFill, lateFill] rfl rfl) (by decide)) ?_
    refine .head (.outside (.tick _ 3) (Nat.le_refl 8)) ?_
    exact .single (.work (.start _ [earlyFill, lateFill] 8 rfl (Nat.le_refl 8)) (by decide))
  have hmem : (⟨0, [earlyFill, lateFill], 8⟩ : PassStart) ∈ last.starts := List.mem_singleton.mpr rfl
  exact ⟨last, hrun, _, hmem, rfl, (pass_starts_when_settled _ last hrun _ hmem).1⟩

end Eggplant.Convert
