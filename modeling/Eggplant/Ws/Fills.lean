import Eggplant.Lib.Interleave
import Eggplant.Ws.SeenIds

/-!
# Fills across redundant user streams

Every connection delivers every status of every trade. The consumer waits for a final
status and then asks the shared id set; a status that is not final leaves the set alone.
-/
namespace Eggplant.Ws

set_option autoImplicit false

open Eggplant.Lib Eggplant.Lib.Interleave Eggplant.Lib.Window

inductive TradeStatus where
  | matched
  | mined
  | confirmed
  | retrying
  | failed
  | unknown (raw : String)
  deriving DecidableEq

def TradeStatus.isFinal : TradeStatus → Bool
  | confirmed => true
  | failed => true
  | _ => false

structure TradeMessage where
  id : String
  status : TradeStatus
  deriving DecidableEq

namespace SeenIds

/-- One trade message: the id set after it, and whether the trade is handled. -/
def onTrade (seen : SeenIds) (trade : TradeMessage) : SeenIds × Bool :=
  if !trade.status.isFinal then (seen, false)
  else seen.insert trade.id

def onTrades (seen : SeenIds) (trades : List TradeMessage) : SeenIds :=
  trades.foldl (fun seen trade => (seen.onTrade trade).1) seen

/-- The messages a consumer handles, in order. -/
def handled : SeenIds → List TradeMessage → List TradeMessage
  | _, [] => []
  | seen, trade :: trades =>
    if (seen.onTrade trade).2 then trade :: handled (seen.onTrade trade).1 trades
    else handled (seen.onTrade trade).1 trades

end SeenIds

/-- The ids of the final messages. -/
def finalIds (trades : List TradeMessage) : List String :=
  (trades.filter (fun trade => trade.status.isFinal)).map TradeMessage.id

theorem mem_finalIds {trades : List TradeMessage} {id : String} :
    id ∈ finalIds trades ↔ ∃ trade ∈ trades, trade.id = id ∧ trade.status.isFinal = true := by
  rw [finalIds, List.mem_map]
  constructor
  · intro h
    obtain ⟨trade, hmem, rfl⟩ := h
    obtain ⟨hin, hfinal⟩ := List.mem_filter.mp hmem
    exact ⟨trade, hin, rfl, hfinal⟩
  · intro h
    obtain ⟨trade, hin, rfl, hfinal⟩ := h
    exact ⟨trade, List.mem_filter.mpr ⟨hin, hfinal⟩, rfl⟩

theorem finalIds_append (trades trades' : List TradeMessage) :
    finalIds (trades ++ trades') = finalIds trades ++ finalIds trades' := by
  rw [finalIds, List.filter_append, List.map_append]
  rfl

/-- A final message's id is the head, whatever the messages after it. -/
theorem finalIds_cons_final {trade : TradeMessage} (h : trade.status.isFinal = true)
    (trades : List TradeMessage) : finalIds (trade :: trades) = trade.id :: finalIds trades := by
  simp [finalIds, h]

theorem finalIds_cons_pending {trade : TradeMessage} (h : ¬trade.status.isFinal = true)
    (trades : List TradeMessage) : finalIds (trade :: trades) = finalIds trades := by
  simp [finalIds, h]

/-- A final id splits the messages where it splits the ids. -/
theorem exists_split {trades : List TradeMessage} {ids ids' : List String} {id : String}
    (h : finalIds trades = ids ++ id :: ids') :
    ∃ before trade after, trades = before ++ trade :: after ∧ finalIds before = ids ∧
      finalIds after = ids' ∧ trade.id = id ∧ trade.status.isFinal = true := by
  induction trades generalizing ids with
  | nil =>
    cases ids <;> cases h
  | cons first trades ih =>
    by_cases hfinal : first.status.isFinal = true
    · rw [finalIds_cons_final hfinal] at h
      cases ids with
      | nil =>
        obtain ⟨hid, hrest⟩ := List.cons.inj h
        exact ⟨[], first, trades, rfl, rfl, hrest, hid, hfinal⟩
      | cons i ids =>
        obtain ⟨hid, hrest⟩ := List.cons.inj h
        obtain ⟨before, trade, after, rfl, hbefore, hafter, htrade⟩ := ih hrest
        refine ⟨first :: before, trade, after, rfl, ?_, hafter, htrade⟩
        rw [finalIds_cons_final hfinal, hid, hbefore]
    · rw [finalIds_cons_pending hfinal] at h
      obtain ⟨before, trade, after, rfl, hbefore, hafter, htrade⟩ := ih h
      refine ⟨first :: before, trade, after, rfl, ?_, hafter, htrade⟩
      rw [finalIds_cons_pending hfinal, hbefore]

/-! ## The consumer and the window -/

namespace SeenIds

theorem onTrade_pending {trade : TradeMessage} (h : ¬trade.status.isFinal = true)
    (seen : SeenIds) : seen.onTrade trade = (seen, false) := by
  simp [onTrade, h]

theorem onTrade_final {trade : TradeMessage} (h : trade.status.isFinal = true)
    (seen : SeenIds) : seen.onTrade trade = seen.insert trade.id := by
  simp [onTrade, h]

/-- The id set only sees the final ids. -/
theorem onTrades_eq (seen : SeenIds) (trades : List TradeMessage) :
    seen.onTrades trades = seen.insertAll (finalIds trades) := by
  induction trades generalizing seen with
  | nil => rfl
  | cons trade trades ih =>
    show (seen.onTrade trade).1.onTrades trades = _
    rw [ih]
    by_cases hfinal : trade.status.isFinal = true
    · rw [onTrade_final hfinal, finalIds_cons_final hfinal]
      rfl
    · rw [onTrade_pending hfinal, finalIds_cons_pending hfinal]

theorem handled_ids (seen : SeenIds) (trades : List TradeMessage) :
    (seen.handled trades).map TradeMessage.id = seen.accepted (finalIds trades) := by
  induction trades generalizing seen with
  | nil => rfl
  | cons trade trades ih =>
    rw [handled]
    by_cases hfinal : trade.status.isFinal = true
    · rw [onTrade_final hfinal, finalIds_cons_final hfinal, accepted]
      split
      · rw [List.map_cons, ih]
      · exact ih _
    · rw [onTrade_pending hfinal, finalIds_cons_pending hfinal, if_neg Bool.false_ne_true]
      exact ih seen

/-- The next message is handled when it is final and its id is outside the window. -/
theorem handles_iff (cap : Nat) (trades : List TradeMessage) (trade : TradeMessage) :
    (((new cap).onTrades trades).onTrade trade).2 = true ↔
      trade.status.isFinal = true ∧
        trade.id ∉ (admissions cap [] (finalIds trades)).rtake cap := by
  obtain ⟨hrun, hcap⟩ := (holds_new cap).insertAll (finalIds trades)
  rw [accepted_eq_admissions (holds_new cap), List.nil_append] at hrun
  by_cases hfinal : trade.status.isFinal = true
  · rw [onTrade_final hfinal, onTrades_eq, hrun.insert_iff, hcap]
    exact ⟨fun h => ⟨hfinal, h⟩, fun h => h.2⟩
  · rw [onTrade_pending hfinal]
    exact ⟨nofun, fun h => absurd h.1 hfinal⟩

/-- What a consumer handles after some messages, as the window admits it. -/
theorem handled_after (cap : Nat) (trades trades' : List TradeMessage) :
    (((new cap).onTrades trades).handled trades').map TradeMessage.id =
      admissions cap (admissions cap [] (finalIds trades)) (finalIds trades') := by
  obtain ⟨hrun, hcap⟩ := (holds_new cap).insertAll (finalIds trades)
  rw [accepted_eq_admissions (holds_new cap), List.nil_append] at hrun
  rw [handled_ids, onTrades_eq, accepted_eq_admissions hrun, hcap]
  rfl

end SeenIds

/-! ## Exactly once -/

/-- Between the first and the last final message of any trade, fewer than `cap` other
trades are handled. -/
def StaysInWindow (cap : Nat) (trades : List TradeMessage) : Prop :=
  ∀ before first middle last after, trades = before ++ first :: (middle ++ last :: after) →
    first.status.isFinal = true → last.status.isFinal = true → last.id = first.id →
    first.id ∉ finalIds before → first.id ∉ finalIds after →
      (((((SeenIds.new cap).onTrades (before ++ [first])).handled middle).map
        TradeMessage.id).toFinset.erase first.id).card < cap

theorem StaysInWindow.fits {cap : Nat} {trades : List TradeMessage}
    (h : StaysInWindow cap trades) : Fits cap (finalIds trades) := by
  intro id ids middle ids' heq hbefore hafter
  obtain ⟨before, first, rest, rfl, rfl, hrest, hfirst, hfirstFinal⟩ := exists_split heq
  obtain ⟨between, last, after, rfl, rfl, rfl, hlast, hlastFinal⟩ := exists_split hrest
  have hcard := h before first between last after rfl hfirstFinal hlastFinal
    (hlast.trans hfirst.symm) (hfirst ▸ hbefore) (hfirst ▸ hafter)
  rw [SeenIds.handled_after, finalIds_append, finalIds_cons_final hfirstFinal, hfirst] at hcard
  exact hcard

/-- A set that can hold every final trade never evicts one too early. -/
theorem staysInWindow_of_card {cap : Nat} {trades : List TradeMessage}
    (h : (finalIds trades).toFinset.card ≤ cap) : StaysInWindow cap trades := by
  intro before first middle last after heq hfirst _ _ _ _
  rw [SeenIds.handled_after]
  have hmem : first.id ∈ (finalIds trades).toFinset := by
    rw [List.mem_toFinset, mem_finalIds]
    refine ⟨first, ?_, rfl, hfirst⟩
    rw [heq]
    exact List.mem_append_right _ List.mem_cons_self
  refine lt_of_le_of_lt (Finset.card_le_card (Finset.erase_subset_erase first.id ?_))
    (lt_of_lt_of_le (Finset.card_erase_lt_of_mem hmem) h)
  intro id hid
  have hmiddle := mem_of_mem_admissions (List.mem_toFinset.mp hid)
  rw [List.mem_toFinset, heq, finalIds_append, finalIds_cons_final hfirst, finalIds_append]
  exact List.mem_append_right _ (List.mem_cons_of_mem _ (List.mem_append_left _ hmiddle))

section
variable {N : Nat}

/-- Every connection delivers the full history of every trade, in order. -/
def DeliversAll (history : String → List TradeStatus) (D : List (Fin N × TradeMessage)) : Prop :=
  ∀ c id, ((part D c).filter (fun trade => trade.id = id)).map TradeMessage.status = history id

variable {history : String → List TradeStatus} {D : List (Fin N × TradeMessage)}

/-- A trade reaches the consumer final exactly when its history says so. -/
theorem DeliversAll.mem_finalIds_iff (hD : DeliversAll history D) (id : String) :
    id ∈ finalIds (D.map Prod.snd) ↔ 0 < N ∧ ∃ status ∈ history id, status.isFinal = true := by
  rw [mem_finalIds]
  constructor
  · intro h
    obtain ⟨trade, hmem, rfl, hfinal⟩ := h
    obtain ⟨d, hd, rfl⟩ := List.mem_map.mp hmem
    refine ⟨Nat.lt_of_le_of_lt (Nat.zero_le _) d.1.isLt, d.2.status, ?_, hfinal⟩
    rw [← hD d.1 d.2.id]
    refine List.mem_map.mpr ⟨d.2, List.mem_filter.mpr ⟨mem_part.mpr hd, ?_⟩, rfl⟩
    exact decide_eq_true rfl
  · intro h
    obtain ⟨hN, status, hmem, hfinal⟩ := h
    rw [← hD ⟨0, hN⟩ id] at hmem
    obtain ⟨trade, hin, rfl⟩ := List.mem_map.mp hmem
    obtain ⟨hpart, hid⟩ := List.mem_filter.mp hin
    exact ⟨trade, List.mem_map.mpr ⟨_, mem_part.mp hpart, rfl⟩, of_decide_eq_true hid, hfinal⟩

/-- Each trade with a final status is handled once, at its first final delivery, and a trade
without one never. -/
theorem fills_handled_once (cap : Nat) (history : String → List TradeStatus)
    (D : List (Fin N × TradeMessage)) (hD : DeliversAll history D)
    (hwindow : StaysInWindow cap (D.map Prod.snd)) :
    (∀ before d after, D = before ++ d :: after →
      ((((SeenIds.new cap).onTrades (before.map Prod.snd)).onTrade d.2).2 = true ↔
        d.2.status.isFinal = true ∧ d.2.id ∉ finalIds (before.map Prod.snd))) ∧
    ∀ id,
      ((∃ status ∈ history id, status.isFinal = true) → 0 < N →
        (((SeenIds.new cap).handled (D.map Prod.snd)).map TradeMessage.id).count id = 1) ∧
      ((∀ status ∈ history id, status.isFinal = false) →
        (((SeenIds.new cap).handled (D.map Prod.snd)).map TradeMessage.id).count id = 0) := by
  have hfits := hwindow.fits
  constructor
  · intro before d after h
    rw [SeenIds.handles_iff]
    apply and_congr_right
    intro hfinal
    have hsplit : finalIds (D.map Prod.snd) =
        finalIds (before.map Prod.snd) ++ d.2.id :: finalIds (after.map Prod.snd) := by
      rw [h, List.map_append, List.map_cons, finalIds_append, finalIds_cons_final hfinal]
    exact not_congr (mem_window_iff hfits hsplit)
  · intro id
    have hids : ((SeenIds.new cap).handled (D.map Prod.snd)).map TradeMessage.id =
        admissions cap [] (finalIds (D.map Prod.snd)) :=
      SeenIds.handled_after cap [] (D.map Prod.snd)
    obtain ⟨hnodup, hmem⟩ := admissions_once hfits _ [] (List.append_nil _).symm
    rw [hids]
    constructor
    · intro hfinal hN
      apply List.count_eq_one_of_mem hnodup
      rw [hmem, hD.mem_finalIds_iff]
      exact ⟨hN, hfinal⟩
    · intro hnone
      apply List.count_eq_zero_of_not_mem
      rw [hmem, hD.mem_finalIds_iff]
      intro h
      obtain ⟨-, status, hin, hfinal⟩ := h
      rw [hnone status hin] at hfinal
      cases hfinal

end

/-- One trade retried before it is confirmed, one that fails, and one never settled. -/
def mixedHistory (id : String) : List TradeStatus :=
  if id = "a" then [.matched, .retrying, .confirmed, .confirmed]
  else if id = "b" then [.matched, .failed]
  else if id = "c" then [.mined]
  else []

/-- Two streams of them; one is late. -/
def mixedStreams (fast slow : Fin 2) : List (Fin 2 × TradeMessage) :=
  [(fast, ⟨"a", .matched⟩), (fast, ⟨"a", .retrying⟩), (slow, ⟨"a", .matched⟩),
    (fast, ⟨"b", .matched⟩), (fast, ⟨"a", .confirmed⟩), (fast, ⟨"b", .failed⟩),
    (slow, ⟨"b", .matched⟩), (slow, ⟨"a", .retrying⟩), (fast, ⟨"c", .mined⟩),
    (fast, ⟨"a", .confirmed⟩), (slow, ⟨"b", .failed⟩), (slow, ⟨"a", .confirmed⟩),
    (slow, ⟨"a", .confirmed⟩), (slow, ⟨"c", .mined⟩)]

theorem deliversAll_mixed : DeliversAll mixedHistory (mixedStreams 0 1) := by
  intro c id
  unfold mixedHistory
  by_cases ha : id = "a"
  · subst ha
    revert c
    decide +kernel
  · by_cases hb : id = "b"
    · subst hb
      revert c
      decide +kernel
    · by_cases hc : id = "c"
      · subst hc
        revert c
        decide +kernel
      · have hnone : ∀ trade ∈ part (mixedStreams 0 1) c, ¬trade.id = id := by
          intro trade hmem
          have hids : ∀ d ∈ mixedStreams 0 1, d.2.id = "a" ∨ d.2.id = "b" ∨ d.2.id = "c" := by
            decide +kernel
          cases hids _ (mem_part.mp hmem) with
          | inl h => exact fun heq => ha (heq ▸ h)
          | inr h => cases h with
            | inl h => exact fun heq => hb (heq ▸ h)
            | inr h => exact fun heq => hc (heq ▸ h)
        rw [if_neg ha, if_neg hb, if_neg hc, List.map_eq_nil_iff, List.filter_eq_nil_iff]
        exact fun trade hmem h => hnone trade hmem (of_decide_eq_true h)

theorem fills_handled_once_mixed :
    (((SeenIds.new 2).handled ((mixedStreams 0 1).map Prod.snd)).map TradeMessage.id).count "a" = 1 :=
  ((fills_handled_once 2 mixedHistory (mixedStreams 0 1) deliversAll_mixed
    (staysInWindow_of_card (by decide +kernel))).2 "a").1 ⟨.confirmed, by decide +kernel, rfl⟩
    (by decide)

end Eggplant.Ws
