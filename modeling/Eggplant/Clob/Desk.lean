import Mathlib
import Eggplant.Clob.Cancel
import Eggplant.Clob.OpenOrders

/-!
# Cancelling on a shared key

Several tasks cancel on one key at a time: pulls of tracked orders, whose answers are
partitioned and whose misses are queued again, and cancels of every open order on a side.
Between any two requests orders fill and new ones come to rest, and a request may take
effect without an answer. No order that still rests is lost from tracking, and a cancel by
side takes none of the other side's.
-/
namespace Eggplant.Clob

set_option autoImplicit false

open Eggplant.Lib

/-- The ids resting on a side, of a listing of the key's open orders. -/
def fetchOrderIdsBySide (listing : Except Error (List OpenOrder)) (side : Side) :
    Except Error (List String) := do
  let orders ← listing
  return (orders.filter fun order => order.side = side).map (·.id)

/-- `cancel_orders_by_side`: the chunks sent and the result. -/
def cancelOrdersBySide (listing : Except Error (List OpenOrder))
    (cancelOrders : Nat → List String → CancelResult) (side : Side) :
    List (List String) × CancelResult :=
  match fetchOrderIdsBySide listing side with
  | .error e => ([], .error e)
  | .ok ids =>
    if ids = [] then ([], .ok CancelOrdersResponse.empty) else cancelInBatches cancelOrders ids

/-- With nothing fetched the chunked pass would send nothing either. -/
theorem cancelOrdersBySide_eq {listing : Except Error (List OpenOrder)} {side : Side}
    {ids : List String} (h : fetchOrderIdsBySide listing side = .ok ids)
    (cancelOrders : Nat → List String → CancelResult) :
    cancelOrdersBySide listing cancelOrders side = cancelInBatches cancelOrders ids := by
  rw [cancelOrdersBySide, h]
  cases ids with
  | nil => rfl
  | cons id ids => rfl

/-! ## Tasks -/

/-- A flushed batch of tracked items, or everything fetched for a side. -/
inductive Purpose (T : Type) where
  | pull (batch : List T)
  | bySide (side : Side) (ids : List String)

/-- A chunked cancel in flight, with the answers it has got so far. -/
structure Task (T : Type) where
  purpose : Purpose T
  answers : List CancelResult

section
variable {T : Type} (getId : T → String)

def Purpose.ids : Purpose T → List String
  | pull batch => batch.map getId
  | bySide _ ids => ids

def Purpose.batch : Purpose T → List T
  | pull batch => batch
  | bySide _ _ => []

namespace Task

def chunks (task : Task T) : List (List String) := batches cancelBatchSize (task.purpose.ids getId)

/-- The chunk of the next request; a failed request is the last. -/
def next (task : Task T) : Option (List String) :=
  if task.answers.all (·.isOk) then (task.chunks getId)[task.answers.length]? else none

/-- What `cancel_in_batches` makes of the answers. -/
def result (task : Task T) : CancelResult :=
  (cancelInBatches
    (fun k _ => task.answers.getD k (.error (.invalidData "no answer"))) (task.purpose.ids getId)).2

/-- The items to queue again, once the task is through. -/
def retry (task : Task T) : List T :=
  (partitionCancels task.purpose.batch (task.result getId) getId).2

end Task
end

/-! ## The desk -/

/-- Why an order left the book. -/
inductive Removal where
  | filled
  | pulled
  | bySide (side : Side)
  deriving DecidableEq

def Purpose.removal {T : Type} : Purpose T → Removal
  | pull _ => .pulled
  | bySide side _ => .bySide side

/-- `used` are the ids that were ever given to an order, `owned` the items ever tracked. -/
structure Desk (T : Type) where
  resting : Finset String
  used : Finset String
  removals : List (String × Removal)
  owned : List T
  queue : List T
  tasks : List (Task T)

def Desk.init (T : Type) : Desk T := ⟨∅, ∅, [], [], [], []⟩

/-- Every listed order has its side. -/
def TrueSides (sideOf : String → Side) (orders : List OpenOrder) : Prop :=
  ∀ order ∈ orders, order.side = sideOf order.id

section
variable {T : Type} (getId : T → String) (sideOf : String → Side)

/-- An order that is called gone does not rest any more. -/
def Honest (d : Desk T) (resting : Finset String) (resp : CancelOrdersResponse) : Prop :=
  ∀ id ∈ d.used, resp.gone id = true → id ∉ resting

inductive Desk.Step : Desk T → Desk T → Prop
  /-- An accepted order of ours is tracked. -/
  | place (d : Desk T) (item : T) (fresh : getId item ∉ d.used) :
      Step d { d with
        resting := insert (getId item) d.resting
        used := insert (getId item) d.used
        owned := d.owned ++ [item]
        queue := d.queue ++ [item] }
  /-- Somebody else's order, or one of ours whose answer was lost. -/
  | other (d : Desk T) (id : String) (fresh : id ∉ d.used) :
      Step d { d with resting := insert id d.resting, used := insert id d.used }
  | fill (d : Desk T) (id : String) (live : id ∈ d.resting) :
      Step d { d with
        resting := d.resting.erase id
        removals := d.removals ++ [(id, .filled)] }
  | flush (d : Desk T) (batch rest : List T) (split : (batch ++ rest).Perm d.queue) :
      Step d { d with queue := rest, tasks := d.tasks ++ [⟨.pull batch, []⟩] }
  | sweep (d : Desk T) (side : Side) (orders : List OpenOrder) (ids : List String)
      (listed : TrueSides sideOf orders)
      (fetched : fetchOrderIdsBySide (.ok orders) side = .ok ids) :
      Step d { d with tasks := d.tasks ++ [⟨.bySide side ids, []⟩] }
  /-- A request takes some of its ids off the book and is answered, or not. -/
  | answer (d : Desk T) (before after : List (Task T)) (task : Task T) (chunk : List String)
      (taken : Finset String) (outcome : CancelResult)
      (running : d.tasks = before ++ task :: after) (sent : task.next getId = some chunk)
      (asked : ∀ id ∈ taken, id ∈ chunk ∧ id ∈ d.resting)
      (honest : ∀ resp, outcome = .ok resp → Honest d (d.resting \ taken) resp) :
      Step d { d with
        resting := d.resting \ taken
        removals := d.removals ++ taken.toList.map fun id => (id, task.purpose.removal)
        tasks := before ++ { task with answers := task.answers ++ [outcome] } :: after }
  | finish (d : Desk T) (before after : List (Task T)) (task : Task T)
      (running : d.tasks = before ++ task :: after) (through : task.next getId = none) :
      Step d { d with
        queue := d.queue ++ task.retry getId
        tasks := before ++ after }

inductive Desk.Reachable : Desk T → Prop
  | init : Reachable (Desk.init T)
  | step {d d' : Desk T} (reached : Reachable d) (taken : Step getId sideOf d d') : Reachable d'

/-! ## The invariant -/

/-- No answer of a pull calls an order gone that still rests. -/
def Task.Settled (task : Task T) (resting : Finset String) : Prop :=
  ∀ resp, .ok resp ∈ task.answers → ∀ item ∈ task.purpose.batch,
    resp.gone (getId item) = true → getId item ∉ resting

structure Kept (d : Desk T) : Prop where
  resting_used : d.resting ⊆ d.used
  owned_used : ∀ item ∈ d.owned, getId item ∈ d.used
  queue_owned : ∀ item ∈ d.queue, item ∈ d.owned
  batch_owned : ∀ task ∈ d.tasks, ∀ item ∈ task.purpose.batch, item ∈ d.owned
  settled : ∀ task ∈ d.tasks, task.Settled getId d.resting
  sides : ∀ task ∈ d.tasks, ∀ side ids, task.purpose = .bySide side ids →
    ∀ id ∈ ids, sideOf id = side
  tracked : ∀ item ∈ d.owned, getId item ∈ d.resting →
    item ∈ d.queue ∨ ∃ task ∈ d.tasks, item ∈ task.purpose.batch
  removed_side : ∀ id side, (id, Removal.bySide side) ∈ d.removals → sideOf id = side
  removed_pulled : ∀ id, (id, Removal.pulled) ∈ d.removals → ∃ item ∈ d.owned, getId item = id
  accounted : ∀ id ∈ d.used, id ∈ d.resting ∨ ∃ removal, (id, removal) ∈ d.removals

variable {getId sideOf}

/-- An item that a finished pull does not queue again was called gone by an answer. -/
theorem gone_of_not_retry {task : Task T} {item : T} (hitem : item ∈ task.purpose.batch)
    (h : item ∉ task.retry getId) :
    ∃ resp, .ok resp ∈ task.answers ∧ resp.gone (getId item) = true := by
  have hids : task.purpose.ids getId = task.purpose.batch.map getId := by
    cases hp : task.purpose with
    | pull batch => rfl
    | bySide side ids =>
      rw [hp] at hitem
      cases hitem
  have hdone : item ∈ (partitionCancels task.purpose.batch (task.result getId) getId).1 := by
    have hperm := (partitionCancels_keeps task.purpose.batch getId (task.result getId)).1
    exact (List.mem_append.mp (hperm.mem_iff.mpr hitem)).resolve_right h
  rw [Task.result] at hdone
  obtain ⟨responses, hall, hgone⟩ := (pass_done_iff _ _ getId hitem).mp hdone
  have hanswer : ∀ r ∈ responses, .ok r ∈ task.answers := by
    intro r hr
    have hmem : (.ok r : CancelResult) ∈ responses.map .ok := List.mem_map_of_mem hr
    rw [← hall] at hmem
    obtain ⟨k, hk, hget⟩ := List.mem_mapIdx.mp hmem
    rw [List.getD_eq_getElem?_getD] at hget
    cases hanswer : task.answers[k]? with
    | none =>
      rw [hanswer] at hget
      cases hget
    | some a =>
      rw [hanswer] at hget
      obtain rfl : a = .ok r := hget
      exact List.mem_of_getElem? hanswer
  obtain ⟨r, hr, hmem⟩ | ⟨reason, hreason, hterminal⟩ := hgone
  · exact ⟨r, hanswer r hr, gone_iff.mpr (.inl hmem)⟩
  · obtain ⟨r, hr, hown⟩ := List.exists_of_findSome?_eq_some hreason
    exact ⟨r, hanswer r (List.mem_reverse.mp hr), gone_iff.mpr (.inr ⟨reason, hown, hterminal⟩)⟩

/-- The chunk of a request holds ids of its task. -/
theorem mem_ids_of_next {task : Task T} {chunk : List String} (h : task.next getId = some chunk)
    {id : String} (hid : id ∈ chunk) : id ∈ task.purpose.ids getId := by
  rw [Task.next] at h
  split at h
  next =>
    have hflat : (task.chunks getId).flatten = task.purpose.ids getId :=
      batches_flatten (by decide) _
    rw [← hflat]
    exact List.mem_flatten.mpr ⟨chunk, List.mem_of_getElem? h, hid⟩
  next => cases h

theorem side_of_fetched {orders : List OpenOrder} {side : Side} {ids : List String}
    (hlisted : TrueSides sideOf orders) (h : fetchOrderIdsBySide (.ok orders) side = .ok ids) :
    ∀ id ∈ ids, sideOf id = side := by
  intro id hid
  rw [← Except.ok.inj h] at hid
  obtain ⟨order, horder, rfl⟩ := List.mem_map.mp hid
  obtain ⟨hmem, hside⟩ := List.mem_filter.mp horder
  rw [← hlisted order hmem, of_decide_eq_true hside]

theorem kept_init : Kept getId sideOf (Desk.init T) where
  resting_used := Finset.Subset.refl _
  owned_used := nofun
  queue_owned := nofun
  batch_owned := nofun
  settled := nofun
  sides := nofun
  tracked := nofun
  removed_side := nofun
  removed_pulled := nofun
  accounted := nofun

/-- Where fewer orders rest, what was said about orders that are gone stays true. -/
theorem Task.Settled.mono {task : Task T} {resting resting' : Finset String}
    (h : task.Settled getId resting) (hsub : resting' ⊆ resting) : task.Settled getId resting' :=
  fun resp hresp item hitem hgone hin => h resp hresp item hitem hgone (hsub hin)

/-- A fresh id is none that a task was told about. -/
theorem Task.Settled.fresh {d : Desk T} (hkept : Kept getId sideOf d) {task : Task T}
    (htask : task ∈ d.tasks) {id : String} (hfresh : id ∉ d.used) :
    task.Settled getId (insert id d.resting) := by
  intro resp hresp item hitem hgone hin
  rcases Finset.mem_insert.mp hin with hid | hin
  · exact hfresh (hid ▸ hkept.owned_used item (hkept.batch_owned task htask item hitem))
  · exact hkept.settled task htask resp hresp item hitem hgone hin

/-- An order comes to rest under a fresh id, tracked or not. -/
theorem Kept.rest {d : Desk T} (h : Kept getId sideOf d) {id : String} (hfresh : id ∉ d.used)
    {mine : List T} (hmine : ∀ item ∈ mine, getId item = id) :
    Kept getId sideOf { d with
      resting := insert id d.resting
      used := insert id d.used
      owned := d.owned ++ mine
      queue := d.queue ++ mine } where
  resting_used := Finset.insert_subset_insert id h.resting_used
  owned_used := List.forall_mem_append.mpr
    ⟨fun item hitem => Finset.mem_insert_of_mem (h.owned_used item hitem),
      fun item hitem => Finset.mem_insert.mpr (.inl (hmine item hitem))⟩
  queue_owned := List.forall_mem_append.mpr
    ⟨fun item hitem => List.mem_append_left _ (h.queue_owned item hitem),
      fun item hitem => List.mem_append_right _ hitem⟩
  batch_owned := fun task htask item hitem =>
    List.mem_append_left _ (h.batch_owned task htask item hitem)
  settled := fun task htask => Task.Settled.fresh h htask hfresh
  sides := h.sides
  tracked := by
    intro item hitem hin
    rcases List.mem_append.mp hitem with hold | hnew
    · have hne : getId item ≠ id := fun he => hfresh (he ▸ h.owned_used item hold)
      rcases h.tracked item hold (Finset.mem_of_mem_insert_of_ne hin hne) with hqueue | htask
      · exact .inl (List.mem_append_left _ hqueue)
      · exact .inr htask
    · exact .inl (List.mem_append_right _ hnew)
  removed_side := h.removed_side
  removed_pulled := by
    intro id' hid'
    obtain ⟨item, hitem, hid⟩ := h.removed_pulled id' hid'
    exact ⟨item, List.mem_append_left _ hitem, hid⟩
  accounted := by
    intro id' hid'
    rcases Finset.mem_insert.mp hid' with rfl | hold
    · exact .inl (Finset.mem_insert_self _ _)
    · exact (h.accounted id' hold).imp_left (Finset.mem_insert_of_mem ·)

/-- Orders leave the book for a reason that is theirs. -/
theorem Kept.leave {d : Desk T} (h : Kept getId sideOf d) (taken : Finset String)
    (removal : Removal) (hside : ∀ side, removal = .bySide side → ∀ id ∈ taken, sideOf id = side)
    (hpulled : removal = .pulled → ∀ id ∈ taken, ∃ item ∈ d.owned, getId item = id) :
    Kept getId sideOf { d with
      resting := d.resting \ taken
      removals := d.removals ++ taken.toList.map fun id => (id, removal) } where
  resting_used := Finset.sdiff_subset.trans h.resting_used
  owned_used := h.owned_used
  queue_owned := h.queue_owned
  batch_owned := h.batch_owned
  settled := fun task htask => (h.settled task htask).mono Finset.sdiff_subset
  sides := h.sides
  tracked := fun item hitem hin => h.tracked item hitem (Finset.sdiff_subset hin)
  removed_side := by
    intro id side hmem
    rcases List.mem_append.mp hmem with hold | hnew
    · exact h.removed_side id side hold
    · obtain ⟨id', hid', heq⟩ := List.mem_map.mp hnew
      obtain ⟨rfl, hremoval⟩ := Prod.mk.inj heq
      exact hside side hremoval id' (Finset.mem_toList.mp hid')
  removed_pulled := by
    intro id hmem
    rcases List.mem_append.mp hmem with hold | hnew
    · exact h.removed_pulled id hold
    · obtain ⟨id', hid', heq⟩ := List.mem_map.mp hnew
      obtain ⟨rfl, hremoval⟩ := Prod.mk.inj heq
      exact hpulled hremoval id' (Finset.mem_toList.mp hid')
  accounted := by
    intro id hid
    rcases h.accounted id hid with hin | ⟨cause, hcause⟩
    · by_cases htaken : id ∈ taken
      · exact .inr ⟨removal, List.mem_append_right _
          (List.mem_map.mpr ⟨id, Finset.mem_toList.mpr htaken, rfl⟩)⟩
      · exact .inl (Finset.mem_sdiff.mpr ⟨hin, htaken⟩)
    · exact .inr ⟨cause, List.mem_append_left _ hcause⟩

/-- What changes hands between the queue and the tasks. -/
theorem Kept.move {d : Desk T} (h : Kept getId sideOf d) {queue : List T} {tasks : List (Task T)}
    (hqueue : ∀ item ∈ queue, item ∈ d.owned)
    (hbatch : ∀ task ∈ tasks, ∀ item ∈ task.purpose.batch, item ∈ d.owned)
    (hsettled : ∀ task ∈ tasks, task.Settled getId d.resting)
    (hsides : ∀ task ∈ tasks, ∀ side ids, task.purpose = .bySide side ids →
      ∀ id ∈ ids, sideOf id = side)
    (htracked : ∀ item ∈ d.owned, getId item ∈ d.resting →
      item ∈ queue ∨ ∃ task ∈ tasks, item ∈ task.purpose.batch) :
    Kept getId sideOf { d with queue, tasks } :=
  { h with
    queue_owned := hqueue
    batch_owned := hbatch
    settled := hsettled
    sides := hsides
    tracked := htracked }

theorem kept_flush {d : Desk T} (h : Kept getId sideOf d) {batch rest : List T}
    (hsplit : (batch ++ rest).Perm d.queue) :
    Kept getId sideOf { d with queue := rest, tasks := d.tasks ++ [⟨.pull batch, []⟩] } := by
  have hmem {item : T} : item ∈ d.queue ↔ item ∈ batch ∨ item ∈ rest := by
    rw [← hsplit.mem_iff, List.mem_append]
  apply h.move
  · exact fun item hitem => h.queue_owned item (hmem.mpr (.inr hitem))
  · refine List.forall_mem_append.mpr ⟨h.batch_owned, List.forall_mem_singleton.mpr ?_⟩
    exact fun item hitem => h.queue_owned item (hmem.mpr (.inl hitem))
  · exact List.forall_mem_append.mpr ⟨h.settled, List.forall_mem_singleton.mpr nofun⟩
  · exact List.forall_mem_append.mpr ⟨h.sides, List.forall_mem_singleton.mpr nofun⟩
  · intro item hitem hin
    rcases h.tracked item hitem hin with hqueue | ⟨task, htask, hbatch⟩
    · rcases hmem.mp hqueue with hflushed | hkept
      · exact .inr ⟨_, List.mem_append_right _ (List.mem_singleton_self _), hflushed⟩
      · exact .inl hkept
    · exact .inr ⟨task, List.mem_append_left _ htask, hbatch⟩

theorem kept_sweep {d : Desk T} (h : Kept getId sideOf d) {side : Side} {ids : List String}
    (hids : ∀ id ∈ ids, sideOf id = side) :
    Kept getId sideOf { d with tasks := d.tasks ++ [⟨.bySide side ids, []⟩] } := by
  apply h.move h.queue_owned
  · exact List.forall_mem_append.mpr ⟨h.batch_owned, List.forall_mem_singleton.mpr nofun⟩
  · exact List.forall_mem_append.mpr ⟨h.settled, List.forall_mem_singleton.mpr nofun⟩
  · refine List.forall_mem_append.mpr ⟨h.sides, List.forall_mem_singleton.mpr ?_⟩
    intro side' ids' heq
    obtain ⟨rfl, rfl⟩ : side = side' ∧ ids = ids' := by simpa using heq
    exact hids
  · intro item hitem hin
    obtain hqueue | ⟨task, htask, hbatch⟩ := h.tracked item hitem hin
    · exact .inl hqueue
    · exact .inr ⟨task, List.mem_append_left _ htask, hbatch⟩

/-- A task whose answers alone have changed is the same to everybody else. -/
theorem Kept.replace {d : Desk T} (h : Kept getId sideOf d) {before after : List (Task T)}
    {task task' : Task T} (hrunning : d.tasks = before ++ task :: after)
    (hpurpose : task'.purpose = task.purpose) (hsettled : task'.Settled getId d.resting) :
    Kept getId sideOf { d with tasks := before ++ task' :: after } := by
  have hother {other : Task T} (hmem : other ∈ before ++ task' :: after) :
      other = task' ∨ other ∈ d.tasks := by
    rw [hrunning]
    rcases List.mem_append.mp hmem with hb | ha
    · exact .inr (List.mem_append_left _ hb)
    · rcases List.mem_cons.mp ha with rfl | ha
      · exact .inl rfl
      · exact .inr (List.mem_append_right _ (List.mem_cons_of_mem _ ha))
  have htask : task ∈ d.tasks := by
    rw [hrunning]
    exact List.mem_append_right _ List.mem_cons_self
  apply h.move h.queue_owned
  · intro other hmem
    rcases hother hmem with rfl | hold
    · rw [hpurpose]
      exact h.batch_owned task htask
    · exact h.batch_owned other hold
  · intro other hmem
    rcases hother hmem with rfl | hold
    · exact hsettled
    · exact h.settled other hold
  · intro other hmem
    rcases hother hmem with rfl | hold
    · rw [hpurpose]
      exact h.sides task htask
    · exact h.sides other hold
  · intro item hitem hin
    obtain hqueue | ⟨other, hmem, hbatch⟩ := h.tracked item hitem hin
    · exact .inl hqueue
    · right
      rw [hrunning] at hmem
      rcases List.mem_append.mp hmem with hb | ha
      · exact ⟨other, List.mem_append_left _ hb, hbatch⟩
      · rcases List.mem_cons.mp ha with rfl | ha
        · refine ⟨task', List.mem_append_right _ List.mem_cons_self, ?_⟩
          rwa [hpurpose]
        · exact ⟨other, List.mem_append_right _ (List.mem_cons_of_mem _ ha), hbatch⟩

theorem kept_answer {d : Desk T} (h : Kept getId sideOf d) {before after : List (Task T)}
    {task : Task T} {chunk : List String} {taken : Finset String} {outcome : CancelResult}
    (hrunning : d.tasks = before ++ task :: after) (hsent : task.next getId = some chunk)
    (hasked : ∀ id ∈ taken, id ∈ chunk ∧ id ∈ d.resting)
    (honest : ∀ resp, outcome = .ok resp → Honest d (d.resting \ taken) resp) :
    Kept getId sideOf { d with
      resting := d.resting \ taken
      removals := d.removals ++ taken.toList.map fun id => (id, task.purpose.removal)
      tasks := before ++ { task with answers := task.answers ++ [outcome] } :: after } := by
  have htask : task ∈ d.tasks := by
    rw [hrunning]
    exact List.mem_append_right _ List.mem_cons_self
  have hids : ∀ id ∈ taken, id ∈ task.purpose.ids getId :=
    fun id hid => mem_ids_of_next hsent (hasked id hid).1
  have hleft := h.leave taken task.purpose.removal (by
    intro side hremoval id hid
    cases hp : task.purpose with
    | pull batch =>
      rw [hp] at hremoval
      cases hremoval
    | bySide side' ids =>
      rw [hp] at hremoval
      obtain rfl : side' = side := Removal.bySide.inj hremoval
      have hin := hids id hid
      rw [hp] at hin
      exact h.sides task htask side' ids hp id hin) (by
    intro hremoval id hid
    cases hp : task.purpose with
    | pull batch =>
      have hin := hids id hid
      rw [hp] at hin
      obtain ⟨item, hitem, rfl⟩ := List.mem_map.mp hin
      have hbatch : item ∈ task.purpose.batch := by rwa [hp]
      exact ⟨item, h.batch_owned task htask item hbatch, rfl⟩
    | bySide side ids =>
      rw [hp] at hremoval
      cases hremoval)
  refine hleft.replace hrunning rfl ?_
  intro resp hresp item hitem hgone
  rcases List.mem_append.mp hresp with hold | hnew
  · exact hleft.settled task htask resp hold item hitem hgone
  · have hused := h.owned_used item (h.batch_owned task htask item hitem)
    exact honest resp (List.mem_singleton.mp hnew).symm _ hused hgone

theorem kept_finish {d : Desk T} (h : Kept getId sideOf d) {before after : List (Task T)}
    {task : Task T} (hrunning : d.tasks = before ++ task :: after) :
    Kept getId sideOf { d with
      queue := d.queue ++ task.retry getId
      tasks := before ++ after } := by
  have htask : task ∈ d.tasks := by
    rw [hrunning]
    exact List.mem_append_right _ List.mem_cons_self
  have hother {other : Task T} (hmem : other ∈ before ++ after) : other ∈ d.tasks := by
    rw [hrunning]
    exact List.mem_append.mpr ((List.mem_append.mp hmem).imp_right (List.mem_cons_of_mem _))
  have hretry : ∀ item ∈ task.retry getId, item ∈ task.purpose.batch := fun item hitem =>
    (partitionCancels_keeps task.purpose.batch getId (task.result getId)).2.2.subset hitem
  apply h.move
  · exact List.forall_mem_append.mpr ⟨h.queue_owned,
      fun item hitem => h.batch_owned task htask item (hretry item hitem)⟩
  · exact fun other hmem => h.batch_owned other (hother hmem)
  · exact fun other hmem => h.settled other (hother hmem)
  · exact fun other hmem => h.sides other (hother hmem)
  · intro item hitem hin
    obtain hqueue | ⟨other, hmem, hbatch⟩ := h.tracked item hitem hin
    · exact .inl (List.mem_append_left _ hqueue)
    · rw [hrunning] at hmem
      rcases List.mem_append.mp hmem with hb | ha
      · exact .inr ⟨other, List.mem_append_left _ hb, hbatch⟩
      · rcases List.mem_cons.mp ha with rfl | ha
        · -- an item of the batch is queued again, or else the answer said that its order is gone
          apply Or.inl
          apply List.mem_append_right
          by_contra hdropped
          obtain ⟨resp, hresp, hgone⟩ := gone_of_not_retry hbatch hdropped
          exact h.settled other htask resp hresp item hbatch hgone hin
        · exact .inr ⟨other, List.mem_append_right _ ha, hbatch⟩

theorem kept_step {d d' : Desk T} (h : Kept getId sideOf d) (hstep : Desk.Step getId sideOf d d') :
    Kept getId sideOf d' := by
  cases hstep with
  | place item fresh =>
    have hmine : ∀ mine ∈ [item], getId mine = getId item := by simp
    exact h.rest fresh hmine
  | other id fresh =>
    have hnone : ∀ mine ∈ ([] : List T), getId mine = id := nofun
    simpa only [List.append_nil] using h.rest fresh hnone
  | fill id live =>
    have hleft := h.leave {id} .filled nofun nofun
    rwa [Finset.toList_singleton, Finset.sdiff_singleton_eq_erase] at hleft
  | flush batch rest split => exact kept_flush h split
  | sweep side orders ids listed fetched => exact kept_sweep h (side_of_fetched listed fetched)
  | answer before after task chunk taken outcome running sent asked honest =>
    exact kept_answer h running sent asked honest
  | finish before after task running through => exact kept_finish h running

theorem kept_reachable {d : Desk T} (h : Desk.Reachable getId sideOf d) : Kept getId sideOf d := by
  induction h with
  | init => exact kept_init
  | step _ hstep ih => exact kept_step ih hstep

/-- In every interleaving of placements, fills, pulls and cancels by side: a tracked order
that rests is queued or in a pull under way, so with no pull under way it is queued; a
cancel by side takes orders of its side only; a pull takes tracked orders only; and every
order that has left the book did so in one of these ways. -/
theorem desk_keeps_live_orders (getId : T → String) (sideOf : String → Side) (d : Desk T)
    (hd : Desk.Reachable getId sideOf d) :
    (∀ item ∈ d.owned, getId item ∈ d.resting →
      item ∈ d.queue ∨ ∃ task ∈ d.tasks, item ∈ task.purpose.batch) ∧
    (d.tasks = [] → ∀ item ∈ d.owned, getId item ∈ d.resting → item ∈ d.queue) ∧
    (∀ id side, (id, Removal.bySide side) ∈ d.removals → sideOf id = side) ∧
    (∀ id, (id, Removal.pulled) ∈ d.removals → ∃ item ∈ d.owned, getId item = id) ∧
    ∀ id ∈ d.used, id ∈ d.resting ∨ ∃ removal, (id, removal) ∈ d.removals := by
  have h := kept_reachable hd
  refine ⟨h.tracked, ?_, h.removed_side, h.removed_pulled, h.accounted⟩
  intro hidle item hitem hin
  rcases h.tracked item hitem hin with hqueue | ⟨task, htask, _⟩
  · exact hqueue
  · rw [hidle] at htask
    cases htask

end

/-- One of two pulled orders is refused for now: it rests on, and is queued again. -/
theorem desk_keeps_live_orders_refused :
    ∃ d : Desk String, Desk.Reachable id (fun _ => .buy) d ∧ d.tasks = [] ∧ d.resting = {"b"} ∧
      "b" ∈ d.queue := by
  let answer : CancelOrdersResponse := ⟨["a"], Table.single "b" "please retry"⟩
  have hstart : Desk.Reachable id (fun _ => .buy) (Desk.init String) := .init
  have hplaced := (hstart.step (.place _ "a" (by decide))).step (.place _ "b" (by decide))
  have hflushed := hplaced.step (.flush _ ["a", "b"] [] (List.Perm.refl _))
  have hanswered := hflushed.step (.answer _ [] [] ⟨.pull ["a", "b"], []⟩ ["a", "b"] {"a"}
    (.ok answer) rfl rfl (by decide) (by
      intro resp hresp
      obtain rfl := Except.ok.inj hresp
      unfold Honest
      decide +kernel))
  have hdone := hanswered.step
    (.finish _ [] [] ⟨.pull ["a", "b"], [.ok answer]⟩ rfl rfl)
  have hresting : ({"b"} : Finset String) = insert (id "b") (insert (id "a") ∅) \ {"a"} := by decide
  obtain ⟨_, hqueued, _⟩ := desk_keeps_live_orders id (fun _ => .buy) _ hdone
  refine ⟨_, hdone, rfl, hresting.symm, ?_⟩
  refine hqueued rfl "b" (by simp [Desk.init]) ?_
  rw [show id "b" = "b" from rfl]
  exact hresting ▸ Finset.mem_singleton_self "b"

end Eggplant.Clob
