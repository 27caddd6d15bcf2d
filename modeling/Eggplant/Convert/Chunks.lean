import Eggplant.Convert.Planner
import Eggplant.Lib.Cuts

/-!
# Chunks tile the call list

The ranges of `gasChunks` follow one another without gap or overlap, so the calls
submitted chunk by chunk are the planned calls in their order. Every chunk keeps both
limits or is a single call, and no other such tiling has fewer chunks.
-/
namespace Eggplant.Convert

set_option autoImplicit false

open Eggplant.Lib

/-- `&calls[range]`. -/
def CallRange.slice {α : Type} (range : CallRange) (calls : List α) : List α :=
  (calls.drop range.start).take (range.stop - range.start)

/-- Non-empty ranges that follow one another from the first index to the second. -/
inductive Tiles : Nat → Nat → List CallRange → Prop where
  | nil (a : Nat) : Tiles a a []
  | cons {a b c : Nat} {ranges : List CallRange} (hlt : a < b) (tail : Tiles b c ranges) :
      Tiles a c (⟨a, b⟩ :: ranges)

theorem Tiles.le {a b : Nat} {ranges : List CallRange} (h : Tiles a b ranges) : a ≤ b := by
  induction h with
  | nil => exact le_rfl
  | cons hlt _ ih => exact hlt.le.trans ih

theorem Tiles.flatMap_slice {α : Type} {a b : Nat} {ranges : List CallRange}
    (h : Tiles a b ranges) (calls : List α) :
    ranges.flatMap (fun r => r.slice calls) = (calls.drop a).take (b - a) := by
  induction h with
  | nil => simp
  | @cons a b c ranges hlt tail ih =>
    have hle := tail.le
    have hlen : c - a = (b - a) + (c - b) := by omega
    have hdrop : (calls.drop a).drop (b - a) = calls.drop b := by
      rw [List.drop_drop]
      congr 1
      omega
    rw [List.flatMap_cons, ih, hlen, List.take_add, hdrop, CallRange.slice]

/-- The open chunk starts at `start`; the loop closes it and tiles what is left. -/
theorem gasChunksLoop_tiles (maxCalls maxGas : Nat) (i start gas : Nat) (ps : List PlannedCall)
    (h : start ≤ i) :
    Tiles start (i + ps.length) (gasChunksLoop maxCalls maxGas i start gas ps) := by
  induction ps generalizing i start gas with
  | nil =>
    rw [gasChunksLoop, List.length_nil, Nat.add_zero]
    by_cases hlt : start < i
    · rw [if_pos hlt]
      exact .cons hlt (.nil i)
    · rw [if_neg hlt, Nat.le_antisymm h (Nat.le_of_not_lt hlt)]
      exact .nil i
  | cons p ps ih =>
    have hlen : i + (p :: ps).length = i + 1 + ps.length := by
      rw [List.length_cons]
      omega
    rw [gasChunksLoop, hlen]
    split
    · rename_i hcut
      exact .cons (by omega) (ih (i + 1) i _ (Nat.le_succ i))
    · exact ih (i + 1) start _ (by omega)

theorem gasChunks_tiles (planned : List PlannedCall) (maxCalls maxGas : Nat) :
    Tiles 0 planned.length (gasChunks planned maxCalls maxGas) := by
  have h := gasChunksLoop_tiles (max maxCalls 1) maxGas 0 0 0 planned le_rfl
  rwa [Nat.zero_add] at h

/-- Chunk by chunk the whole list is submitted, in order. -/
theorem gasChunks_cover (planned : List PlannedCall) (maxCalls maxGas : Nat) :
    (gasChunks planned maxCalls maxGas).flatMap (fun r => r.slice (planned.map (·.call))) =
      planned.map (·.call) := by
  rw [(gasChunks_tiles planned maxCalls maxGas).flatMap_slice, List.drop_zero, Nat.sub_zero,
    ← List.length_map (·.call), List.take_length]

/-! ## Both limits -/

/-- The saturating sum the loop keeps for its open chunk. -/
def gasSum (calls : List PlannedCall) : Nat := calls.foldl (fun gas p => satAdd64 gas p.gas) 0

theorem gasSum_concat (calls : List PlannedCall) (p : PlannedCall) :
    gasSum (calls ++ [p]) = satAdd64 (gasSum calls) p.gas := by
  rw [gasSum, List.foldl_append]
  rfl

theorem gasSum_eq (calls : List PlannedCall) :
    gasSum calls = min (calls.map (·.gas)).sum u64Max := by
  induction calls using List.reverseRecOn with
  | nil => rfl
  | append_singleton calls p ih =>
    rw [gasSum_concat, ih, satAdd64, List.map_append, List.sum_append, List.map_singleton,
      List.sum_singleton]
    omega

/-- Fewer calls never need more gas. -/
theorem gasSum_le_of_sublist {calls calls' : List PlannedCall} (h : calls.Sublist calls') :
    gasSum calls ≤ gasSum calls' := by
  have hsum : (calls.map (·.gas)).sum ≤ (calls'.map (·.gas)).sum :=
    (h.map (·.gas)).sum_le_sum fun _ _ => Nat.zero_le _
  rw [gasSum_eq, gasSum_eq]
  omega

section
variable (planned : List PlannedCall) (maxCalls maxGas : Nat)

/-- A chunk the relayer is sent: both limits hold, or it is one call. -/
def Admissible (a b : Nat) : Prop :=
  b = a + 1 ∨
    b - a ≤ max maxCalls 1 ∧ gasSum (CallRange.slice ⟨a, b⟩ planned) ≤ maxGas

theorem slice_sublist {a a' b' b : Nat} (ha : a ≤ a') (hb : b' ≤ b) :
    (CallRange.slice ⟨a', b'⟩ planned).Sublist (CallRange.slice ⟨a, b⟩ planned) := by
  have hdrop : planned.drop a' = (planned.drop a).drop (a' - a) := by
    rw [List.drop_drop, Nat.add_sub_cancel' ha]
  have htake : b' - a' ≤ b - a - (a' - a) := by omega
  show ((planned.drop a').take (b' - a')).Sublist ((planned.drop a).take (b - a))
  rw [hdrop]
  refine (List.take_sublist_take_left htake).trans ?_
  rw [← List.drop_take]
  exact List.drop_sublist _ _

theorem admissible_hereditary : Hereditary (Admissible planned maxCalls maxGas) := by
  intro a a' b' b ha hlt hb h
  rcases h with hone | ⟨hcount, hgas⟩
  · exact .inl (by omega)
  · refine .inr ⟨by omega, ?_⟩
    exact Nat.le_trans (gasSum_le_of_sublist (slice_sublist planned ha hb)) hgas

end

theorem slice_concat {pre : List PlannedCall} {start : Nat} (h : start ≤ pre.length)
    (p : PlannedCall) (ps : List PlannedCall) :
    CallRange.slice ⟨start, pre.length + 1⟩ (pre ++ p :: ps) = pre.drop start ++ [p] := by
  have hlen : pre.length + 1 - start = (pre.drop start ++ [p]).length := by
    rw [List.length_append, List.length_drop, List.length_singleton]
    omega
  show ((pre ++ p :: ps).drop start).take (pre.length + 1 - start) = _
  rw [List.drop_append_of_le_length h, List.append_cons, hlen, List.take_left]

/-- The loop at the end of `pre`, with an admissible open chunk from `start` on: it cuts
exactly where the next call cannot join. -/
theorem gasChunksLoop_greedy (maxCalls maxGas : Nat) (ps pre : List PlannedCall) (start : Nat)
    (hopen : start < pre.length ∧
        Admissible (pre ++ ps) maxCalls maxGas start pre.length ∨ start = 0 ∧ pre = []) :
    Greedy (Admissible (pre ++ ps) maxCalls maxGas) start (pre ++ ps).length
      ((gasChunksLoop (max maxCalls 1) maxGas pre.length start (gasSum (pre.drop start))
        ps).map (·.stop)) := by
  induction ps generalizing pre start with
  | nil =>
    rw [gasChunksLoop, List.append_nil]
    rcases hopen with ⟨hlt, hadm⟩ | ⟨rfl, rfl⟩
    · rw [List.append_nil] at hadm
      rw [if_pos hlt]
      exact .cons hlt hadm (fun h => absurd h (Nat.lt_irrefl _)) (.nil _)
    · exact .nil 0
  | cons p ps ih =>
    have hle : start ≤ pre.length := by
      rcases hopen with ⟨hlt, -⟩ | ⟨rfl, rfl⟩
      · exact Nat.le_of_lt hlt
      · exact Nat.le_refl _
    have hnext : pre ++ p :: ps = (pre ++ [p]) ++ ps := by rw [List.append_assoc]; rfl
    have hlen : (pre ++ [p]).length = pre.length + 1 := List.length_append
    have hsum : satAdd64 (gasSum (pre.drop start)) p.gas =
        gasSum (CallRange.slice ⟨start, pre.length + 1⟩ (pre ++ p :: ps)) := by
      rw [slice_concat hle, gasSum_concat]
    have hlone : satAdd64 0 p.gas = gasSum ((pre ++ [p]).drop pre.length) := by
      rw [List.drop_left]
      rfl
    have hgrown : satAdd64 (gasSum (pre.drop start)) p.gas = gasSum ((pre ++ [p]).drop start) := by
      rw [List.drop_append_of_le_length hle, gasSum_concat]
    rw [gasChunksLoop]
    by_cases hcut : 0 < pre.length - start ∧ (max maxCalls 1 ≤ pre.length - start ∨
        maxGas < satAdd64 (gasSum (pre.drop start)) p.gas)
    · obtain ⟨hpos, hfull⟩ := hcut
      obtain ⟨hlt, hadm⟩ := hopen.resolve_right (by rintro ⟨rfl, rfl⟩; simp at hpos)
      rw [if_pos ⟨hpos, hfull⟩, List.map_cons]
      show Greedy _ start _ (pre.length :: _)
      refine .cons hlt hadm (fun _ hmore => ?_) ?_
      · rcases hmore with hone | ⟨hcount, hgas⟩
        · omega
        · rw [← hsum] at hgas
          omega
      · rw [hlone, hnext, ← hlen]
        refine ih (pre ++ [p]) pre.length (.inl ⟨by omega, .inl hlen⟩)
    · rw [if_neg hcut, hgrown, hnext, ← hlen]
      refine ih (pre ++ [p]) start (.inl ⟨by omega, ?_⟩)
      by_cases hempty : start = pre.length
      · exact .inl (by omega)
      · rw [← hnext, hlen]
        refine .inr ⟨by omega, ?_⟩
        rw [← hsum]
        omega

theorem gasChunks_greedy (planned : List PlannedCall) (maxCalls maxGas : Nat) :
    Greedy (Admissible planned maxCalls maxGas) 0 planned.length
      ((gasChunks planned maxCalls maxGas).map (·.stop)) :=
  gasChunksLoop_greedy maxCalls maxGas planned [] 0 (.inr ⟨rfl, rfl⟩)

/-- A tiling by admissible ranges is a cutting at their ends, and back. -/
theorem tiles_cuts_iff {adm : Nat → Nat → Prop} {a c : Nat} {ranges : List CallRange} :
    Tiles a c ranges ∧ (∀ r ∈ ranges, adm r.start r.stop) ↔
      Tiles a c ranges ∧ Cuts adm a c (ranges.map (·.stop)) := by
  refine and_congr_right fun htiles => ?_
  induction htiles with
  | nil a => exact ⟨fun _ => .nil a, fun _ => nofun⟩
  | @cons a b c ranges hlt tail ih =>
    rw [List.forall_mem_cons, ih]
    constructor
    · intro h
      exact .cons hlt h.1 h.2
    · intro h
      cases h with
      | cons _ hadm rest => exact ⟨hadm, rest⟩

/-- Every chunk keeps both limits, or is a single call and keeps the limit on calls. -/
theorem gas_chunks_partition (planned : List PlannedCall) (maxCalls maxGas : Nat) :
    Tiles 0 planned.length (gasChunks planned maxCalls maxGas) ∧
      (gasChunks planned maxCalls maxGas).flatMap (fun r => r.slice planned) = planned ∧
      ∀ r ∈ gasChunks planned maxCalls maxGas,
        r.stop - r.start ≤ max maxCalls 1 ∧
          (gasSum (r.slice planned) ≤ maxGas ∨ r.stop - r.start = 1) := by
  have htiles := gasChunks_tiles planned maxCalls maxGas
  have hcuts := (gasChunks_greedy planned maxCalls maxGas).cuts
  refine ⟨htiles, ?_, ?_⟩
  · rw [htiles.flatMap_slice, List.drop_zero, Nat.sub_zero, List.take_length]
  · intro r hr
    rcases (tiles_cuts_iff.mpr ⟨htiles, hcuts⟩).2 r hr with hone | ⟨hcount, hgas⟩
    · omega
    · exact ⟨hcount, .inl hgas⟩

/-- No other tiling by admissible chunks has fewer of them. -/
theorem gas_chunks_minimal (planned : List PlannedCall) (maxCalls maxGas : Nat)
    (ranges : List CallRange) (htiles : Tiles 0 planned.length ranges)
    (hadm : ∀ r ∈ ranges, Admissible planned maxCalls maxGas r.start r.stop) :
    (gasChunks planned maxCalls maxGas).length ≤ ranges.length := by
  have hcuts := (tiles_cuts_iff.mp ⟨htiles, hadm⟩).2
  have hle := (gasChunks_greedy planned maxCalls maxGas).length_le
    (admissible_hereditary planned maxCalls maxGas) hcuts (Nat.le_refl 0)
  rwa [List.length_map, List.length_map] at hle

/-- Two small calls under a cap of two: no tiling needs fewer chunks than the one. -/
theorem gas_chunks_minimal_cap :
    let call : PlannedCall := ⟨⟨Chain.negRiskCollateralAdapter, []⟩, 1⟩
    (gasChunks [call, call] 2 8000000).length ≤ [(⟨0, 2⟩ : CallRange)].length := by
  intro call
  refine gas_chunks_minimal [call, call] 2 8000000 [⟨0, 2⟩] (.cons (by decide) (.nil 2)) ?_
  intro r hr
  rw [List.mem_singleton.mp hr]
  exact .inr (by decide)

end Eggplant.Convert
