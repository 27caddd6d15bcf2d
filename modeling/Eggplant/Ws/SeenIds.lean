import Eggplant.Lib.Window

/-!
# The bounded set of handled ids

A hash set answers whether an id was seen; a queue remembers the order in which the
ids came, so that the oldest can be evicted. Both describe one window: the last `cap`
accepted ids.
-/
namespace Eggplant.Ws

set_option autoImplicit false

open Eggplant.Lib Eggplant.Lib.Window

structure SeenIds where
  set : Finset String
  /-- A `VecDeque`, oldest id first. -/
  order : List String
  cap : Nat

namespace SeenIds

def new (cap : Nat) : SeenIds := ⟨∅, [], cap⟩

/-- The queue's oldest id leaves both structures. -/
def evict (s : SeenIds) : SeenIds :=
  if s.cap < s.order.length then
    match s.order with
    | [] => s
    | old :: rest => { s with set := s.set.erase old, order := rest }
  else s

/-- Records `id`; `true` when it was not there. -/
def insert (s : SeenIds) (id : String) : SeenIds × Bool :=
  if id ∈ s.set then (s, false)
  else (evict { s with set := Insert.insert id s.set, order := s.order ++ [id] }, true)

def contains (s : SeenIds) (id : String) : Bool := decide (id ∈ s.set)

/-- The state after a sequence of calls. -/
def insertAll (s : SeenIds) (ids : List String) : SeenIds :=
  ids.foldl (fun s id => (s.insert id).1) s

/-- The ids for which a sequence of calls returned `true`, in order. -/
def accepted : SeenIds → List String → List String
  | _, [] => []
  | s, id :: ids =>
    if (s.insert id).2 then id :: accepted (s.insert id).1 ids else accepted (s.insert id).1 ids

/-- Set and queue are the window over `log`. -/
structure Holds (s : SeenIds) (log : List String) : Prop where
  order_eq : s.order = log.rtake s.cap
  set_eq : s.set = s.order.toFinset
  nodup : s.order.Nodup

theorem holds_new (cap : Nat) : (new cap).Holds [] :=
  ⟨(List.rtake_nil cap).symm, rfl, List.nodup_nil⟩

theorem insert_cap (s : SeenIds) (id : String) : (s.insert id).1.cap = s.cap := by
  unfold insert evict
  split
  · rfl
  · split
    · split <;> rfl
    · rfl

section
variable {s : SeenIds} {log : List String}

theorem Holds.mem_set_iff (h : s.Holds log) (id : String) : id ∈ s.set ↔ id ∈ log.rtake s.cap := by
  rw [h.set_eq, List.mem_toFinset, h.order_eq]

/-- A call accepts its id exactly when the id is outside the window. -/
theorem Holds.insert_iff (h : s.Holds log) (id : String) :
    (s.insert id).2 = true ↔ id ∉ log.rtake s.cap := by
  rw [← h.mem_set_iff, insert]
  split
  next hmem => exact ⟨nofun, fun hnot => absurd hmem hnot⟩
  next hnot => exact ⟨fun _ => hnot, fun _ => rfl⟩

theorem Holds.length_le (h : s.Holds log) : s.order.length ≤ s.cap := by
  rw [h.order_eq]
  exact length_rtake_le log s.cap

/-- Eviction after a push leaves the window over one more id. -/
theorem Holds.evict (h : s.Holds log) {id : String} (hid : id ∉ s.order) :
    (SeenIds.evict { s with set := Insert.insert id s.set, order := s.order ++ [id] }).Holds
      (log ++ [id]) := by
  have hpush : (s.order ++ [id]).Nodup := by
    refine List.nodup_append.mpr ⟨h.nodup, List.nodup_singleton id, ?_⟩
    intro a ha b hb heq
    rw [List.mem_singleton.mp hb] at heq
    exact hid (heq ▸ ha)
  have hset : Insert.insert id s.set = (s.order ++ [id]).toFinset := by
    rw [h.set_eq]
    ext a
    simp
  have hwindow : (s.order ++ [id]).rtake s.cap = (log ++ [id]).rtake s.cap := by
    rw [h.order_eq, rtake_concat]
  have hle := h.length_le
  unfold SeenIds.evict
  cases hq : s.order ++ [id] with
  | nil => exact absurd hq (List.append_ne_nil_of_right_ne_nil s.order (List.cons_ne_nil id []))
  | cons old rest =>
    have hlen : rest.length = s.order.length := by
      have hcount := congrArg List.length hq
      rw [List.length_append, List.length_singleton, List.length_cons] at hcount
      omega
    rw [hq] at hpush hset hwindow
    obtain ⟨hold, hrest⟩ := List.nodup_cons.mp hpush
    split
    next hover =>
      have hover' : s.cap < rest.length + 1 := hover
      have hfull : rest.length = s.cap := by omega
      refine ⟨?_, ?_, hrest⟩
      · show rest = (log ++ [id]).rtake s.cap
        rw [← hwindow, rtake_cons hfull]
      · show (Insert.insert id s.set).erase old = rest.toFinset
        rw [hset, List.toFinset_cons, Finset.erase_insert fun hin => hold (List.mem_toFinset.mp hin)]
    next hfits =>
      have hfits' : ¬s.cap < rest.length + 1 := hfits
      refine ⟨?_, hset, hpush⟩
      show old :: rest = (log ++ [id]).rtake s.cap
      rw [← hwindow, rtake_of_le]
      rw [List.length_cons]
      omega

/-- One call moves the window as the log of accepted ids grows. -/
theorem Holds.insert (h : s.Holds log) (id : String) :
    (s.insert id).1.Holds (if (s.insert id).2 then log ++ [id] else log) := by
  by_cases hmem : id ∈ s.set
  · rw [SeenIds.insert, if_pos hmem]
    exact h
  · rw [SeenIds.insert, if_neg hmem]
    refine h.evict fun hin => hmem ?_
    rw [h.set_eq]
    exact List.mem_toFinset.mpr hin

end

/-- The ids accepted by a run are those the window over the log admits. -/
theorem accepted_eq_admissions {s : SeenIds} {log : List String} (h : s.Holds log)
    (ids : List String) : accepted s ids = admissions s.cap log ids := by
  induction ids generalizing s log with
  | nil => rfl
  | cons id ids ih =>
    have hnext := h.insert id
    have hiff := h.insert_iff id
    rw [accepted, admissions]
    split
    next htrue =>
      rw [if_pos htrue] at hnext
      rw [if_neg (hiff.mp htrue), ih hnext, insert_cap]
    next hfalse =>
      rw [if_neg hfalse] at hnext
      rw [if_pos (not_not.mp fun hnot => hfalse (hiff.mpr hnot)), ih hnext, insert_cap]

/-- A run keeps set and queue in step with the log. -/
theorem Holds.insertAll {s : SeenIds} {log : List String} (h : s.Holds log) (ids : List String) :
    (s.insertAll ids).Holds (log ++ accepted s ids) ∧ (s.insertAll ids).cap = s.cap := by
  induction ids generalizing s log with
  | nil =>
    rw [accepted, List.append_nil]
    exact ⟨h, rfl⟩
  | cons id ids ih =>
    have hnext := h.insert id
    rw [accepted]
    split
    next htrue =>
      rw [if_pos htrue] at hnext
      obtain ⟨hrun, hcap⟩ := ih hnext
      rw [List.append_assoc] at hrun
      exact ⟨hrun, hcap.trans (insert_cap s id)⟩
    next hfalse =>
      rw [if_neg hfalse] at hnext
      obtain ⟨hrun, hcap⟩ := ih hnext
      exact ⟨hrun, hcap.trans (insert_cap s id)⟩

/-- After any calls the queue and the set are the last `cap` accepted ids, and the next call
accepts exactly the ids outside that window. -/
theorem seen_is_window (cap : Nat) (ids : List String) :
    let s := (new cap).insertAll ids
    let recent := (accepted (new cap) ids).rtake cap
    s.order = recent ∧ s.set = recent.toFinset ∧ recent.Nodup ∧ recent.length ≤ cap ∧
      ∀ id, (s.insert id).2 = true ↔ id ∉ recent := by
  intro s recent
  obtain ⟨hrun, hcap⟩ := (holds_new cap).insertAll ids
  have hcap' : s.cap = cap := hcap
  have horder : s.order = recent := by
    have heq := hrun.order_eq
    rwa [List.nil_append, hcap'] at heq
  refine ⟨horder, ?_, ?_, length_rtake_le _ cap, fun id => ?_⟩
  · rw [← horder]
    exact hrun.set_eq
  · rw [← horder]
    exact hrun.nodup
  · have hiff := hrun.insert_iff id
    rwa [List.nil_append, hcap'] at hiff

example : accepted (new 2) ["a", "a", "b", "c", "a"] = ["a", "b", "c", "a"] := by decide +kernel

end SeenIds

end Eggplant.Ws
