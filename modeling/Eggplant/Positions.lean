import Eggplant.Data
import Eggplant.Error
import Eggplant.Lib.Pages
import Eggplant.Lib.Text

/-!
# Paging positions

The Data API caps the offset: past it every request is answered with the last
page again. The two listings stop at the cap; the redeemable one also drops the
rows of an asset it has seen and says whether a tail may remain.
-/
namespace Eggplant

set_option autoImplicit false

open Eggplant.Lib

def pageLimit : Nat := 500

def maxOffset : Nat := 10000

abbrev Query := List (String × String)

/-- An HTTP answer, with what the JSON library makes of its body. -/
structure PositionsAnswer where
  status : Nat
  retryAfter : Option String
  body : String
  rows : Except String (List Position)

def positionsQuery (user : String) (extra : Query) (offset : Nat) : Query :=
  [("user", user), ("limit", pageLimit.repr), ("offset", offset.repr)] ++ extra

/-- Rows kept so far, and how many of them are of the current page. -/
structure Kept where
  seen : List String
  out : List Position
  added : Nat

def keepRow (kept : Kept) (p : Position) : Kept :=
  if p.asset ∈ kept.seen then kept
  else { seen := p.asset :: kept.seen, out := kept.out ++ [p], added := kept.added + 1 }

section
variable (send : Query → Except String PositionsAnswer)

def positionsPage (user : String) (extra : Query) (offset : Nat) :
    Except Error (List Position) :=
  match send (positionsQuery user extra offset) with
  | .error e => .error (.http e)
  | .ok answer =>
    if answer.status = 429 then .error (.rateLimit answer.retryAfter)
    else if ¬(200 ≤ answer.status ∧ answer.status < 300) then
      .error (.api answer.status (String.ofList (answer.body.toList.take 300)))
    else
      match answer.rows with
      | .error e => .error (.http e)
      | .ok rows => .ok rows

/-- The loop of `all_positions`: the queries sent and the result; `none` when `fuel` pages
did not end it. -/
def pagePositions (user : String) (extra : Query) :
    Nat → Nat → List Position → List Query → Option (List Query × Except Error (List Position))
  | 0, _, _, _ => none
  | fuel + 1, offset, out, sent =>
    let sent := sent ++ [positionsQuery user extra offset]
    match positionsPage send user extra offset with
    | .error e => some (sent, .error e)
    | .ok page =>
      let out := out ++ page
      if page.length < pageLimit ∨ maxOffset ≤ offset then some (sent, .ok out)
      else pagePositions user extra fuel (offset + pageLimit) out sent

/-- `size_threshold` is given as it is printed. -/
def allPositions (user sizeThreshold : String) (fuel : Nat) :
    Option (List Query × Except Error (List Position)) :=
  pagePositions send user [("sizeThreshold", sizeThreshold)] fuel 0 [] []

/-- The loop of `all_redeemable_positions`. -/
def pageRedeemable (user : String) (extra : Query) :
    Nat → Nat → List String → List Position → List Query →
      Option (List Query × Except Error (List Position × Bool))
  | 0, _, _, _, _ => none
  | fuel + 1, offset, seen, out, sent =>
    let sent := sent ++ [positionsQuery user extra offset]
    match positionsPage send user extra offset with
    | .error e => some (sent, .error e)
    | .ok page =>
      let kept := page.foldl keepRow ⟨seen, out, 0⟩
      if page.length < pageLimit then some (sent, .ok (kept.out, false))
      else if maxOffset ≤ offset ∨ kept.added = 0 then some (sent, .ok (kept.out, true))
      else pageRedeemable user extra fuel (offset + pageLimit) kept.seen kept.out sent

def allRedeemablePositions (user : String) (fuel : Nat) :
    Option (List Query × Except Error (List Position × Bool)) :=
  pageRedeemable send user [("redeemable", "true")] fuel 0 [] [] []

end

/-! ## The recycling API -/

def param (query : Query) (key : String) : Option String :=
  (query.find? fun entry => entry.1 = key).map (·.2)

/-- The API over a list of rows: up to `limit` of them from the offset, or from the cap. -/
def recycling (rows : List Position) (query : Query) : Except String PositionsAnswer :=
  match (param query "limit").bind Text.readDec, (param query "offset").bind Text.readDec with
  | some limit, some offset => .ok ⟨200, none, "", .ok (Pages.page limit maxOffset rows offset)⟩
  | _, _ => .ok ⟨400, none, "", .error "bad request"⟩

theorem positionsPage_recycling (rows : List Position) (user : String) (extra : Query)
    (offset : Nat) :
    positionsPage (recycling rows) user extra offset =
      .ok (Pages.page pageLimit maxOffset rows offset) := by
  have hlimit : param (positionsQuery user extra offset) "limit" = some pageLimit.repr := rfl
  have hoffset : param (positionsQuery user extra offset) "offset" = some offset.repr := rfl
  rw [positionsPage, recycling, hlimit, hoffset, Option.bind_some, Option.bind_some,
    Text.readDec_repr, Text.readDec_repr]
  rfl

/-- Both loops end or take the next page, and at the cap they end. The induction is on the
pages that may still follow. -/
theorem paging_ends {σ ρ : Type} {user : String} {extra : Query}
    (loop : Nat → Nat → σ → List Query → Option (List Query × ρ)) (Inv : Nat → σ → Prop)
    (Good : ρ → Prop)
    (hstep : ∀ (fuel k : Nat) (s : σ) (sent : List Query), k ≤ 20 → Inv k s →
      (∃ r, loop (fuel + 1) (pageLimit * k) s sent =
          some (sent ++ [positionsQuery user extra (pageLimit * k)], r) ∧ Good r) ∨
      ∃ s', k < 20 ∧ Inv (k + 1) s' ∧ loop (fuel + 1) (pageLimit * k) s sent =
        loop fuel (pageLimit * (k + 1)) s'
          (sent ++ [positionsQuery user extra (pageLimit * k)]))
    (fuel : Nat) {k : Nat} {s : σ} (hk : k + fuel = 20) (hinv : Inv k s) (sent : List Query) :
    ∃ offsets : List Nat, offsets.length ≤ fuel + 1 ∧ (∀ o ∈ offsets, o ≤ maxOffset) ∧
      ∃ r, loop (fuel + 1) (pageLimit * k) s sent =
        some (sent ++ offsets.map (positionsQuery user extra), r) ∧ Good r := by
  have hcap {k : Nat} (hk : k ≤ 20) : pageLimit * k ≤ maxOffset := Nat.mul_le_mul_left 500 hk
  induction fuel generalizing k s sent with
  | zero =>
    rcases hstep 0 k s sent (by omega) hinv with ⟨r, hloop, hgood⟩ | ⟨s', hmore, -⟩
    · exact ⟨[pageLimit * k], Nat.le_refl 1, by simpa using hcap (by omega), r, hloop, hgood⟩
    · omega
  | succ fuel ih =>
    rcases hstep (fuel + 1) k s sent (by omega) hinv with
      ⟨r, hloop, hgood⟩ | ⟨s', hmore, hnext, hloop⟩
    · exact ⟨[pageLimit * k], by simp, by simpa using hcap (by omega), r, hloop, hgood⟩
    · obtain ⟨offsets, hcount, hoffsets, r, hrest, hgood⟩ :=
        ih (show k + 1 + fuel = 20 by omega) hnext
          (sent ++ [positionsQuery user extra (pageLimit * k)])
      refine ⟨pageLimit * k :: offsets, ?_, ?_, r, ?_, hgood⟩
      · rw [List.length_cons]
        omega
      · intro o ho
        rcases List.mem_cons.mp ho with rfl | ho
        · exact hcap (by omega)
        · exact hoffsets o ho
      · rw [hloop, hrest, List.map_cons, List.append_assoc]
        rfl

/-! ## All positions -/

section
variable (rows : List Position) (user : String) (extra : Query)

/-- One page: a loop that has the first `500 k` rows ends with the first 10500, or goes on
with the rows of one page more. -/
theorem pagePositions_step (fuel : Nat) {k : Nat} (hk : k ≤ 20) (sent : List Query) :
    pagePositions (recycling rows) user extra (fuel + 1) (pageLimit * k)
        (rows.take (pageLimit * k)) sent =
      some (sent ++ [positionsQuery user extra (pageLimit * k)], .ok (rows.take 10500)) ∨
    k < 20 ∧ pagePositions (recycling rows) user extra (fuel + 1) (pageLimit * k)
        (rows.take (pageLimit * k)) sent =
      pagePositions (recycling rows) user extra fuel (pageLimit * (k + 1))
        (rows.take (pageLimit * (k + 1)))
        (sent ++ [positionsQuery user extra (pageLimit * k)]) := by
  have hlimit : pageLimit = 500 := rfl
  have hmax : maxOffset = 10000 := rfl
  have hoffset : pageLimit * k = 500 * k := rfl
  have hcap : pageLimit * k ≤ maxOffset := by omega
  have hlength := Pages.page_length pageLimit rows hcap
  rw [pagePositions, positionsPage_recycling]
  simp only [Pages.take_append_page pageLimit rows hcap]
  by_cases hend : (Pages.page pageLimit maxOffset rows (pageLimit * k)).length < pageLimit ∨
      maxOffset ≤ pageLimit * k
  · rw [if_pos hend]
    left
    have hall : rows.take (pageLimit * k + pageLimit) = rows.take 10500 := by
      rcases hend with hshort | hlast
      · rw [List.take_of_length_le (by omega), List.take_of_length_le (by omega)]
      · rw [show pageLimit * k + pageLimit = 10500 by omega]
    rw [hall]
  · rw [if_neg hend]
    exact .inr ⟨by omega, rfl⟩

theorem pagePositions_recycling :
    ∃ offsets : List Nat, offsets.length ≤ 21 ∧ (∀ o ∈ offsets, o ≤ maxOffset) ∧
      pagePositions (recycling rows) user extra 21 0 [] [] =
        some (offsets.map (positionsQuery user extra), .ok (rows.take 10500)) := by
  obtain ⟨offsets, hcount, hoffsets, r, hloop, rfl⟩ :=
    paging_ends (pagePositions (recycling rows) user extra)
      (fun k out => out = rows.take (pageLimit * k)) (fun r => r = .ok (rows.take 10500))
      (by
        intro fuel k out sent hk hout
        subst hout
        rcases pagePositions_step rows user extra fuel hk sent with hend | ⟨hmore, hnext⟩
        · exact .inl ⟨_, hend, rfl⟩
        · exact .inr ⟨_, hmore, rfl, hnext⟩)
      20 (Nat.zero_add 20) rfl []
  exact ⟨offsets, hcount, hoffsets, hloop⟩

/-! ## Redeemable positions -/

/-- What is kept of the rows read so far. -/
structure Keeps (rows : List Position) (kept : Kept) : Prop where
  seen : ∀ asset, asset ∈ kept.seen ↔ asset ∈ rows.map (·.asset)
  out : kept.out = Pages.firsts (·.asset) rows

theorem Keeps.keepRow {rows : List Position} {kept : Kept} (h : Keeps rows kept) (p : Position) :
    Keeps (rows ++ [p]) (keepRow kept p) := by
  unfold Eggplant.keepRow
  have hconcat : Pages.firsts (fun p : Position => p.asset) (rows ++ [p]) = _ :=
    Pages.firsts_concat rows p
  by_cases hp : p.asset ∈ kept.seen
  · rw [if_pos hp]
    rw [if_pos ((h.seen p.asset).mp hp), List.append_nil] at hconcat
    refine ⟨?_, h.out.trans hconcat.symm⟩
    intro asset
    rw [h.seen, List.map_append, List.mem_append]
    constructor
    · exact .inl
    · intro hor
      rcases hor with hold | hnew
      · exact hold
      · obtain rfl := List.mem_singleton.mp hnew
        exact (h.seen _).mp hp
  · rw [if_neg hp]
    rw [if_neg (fun hold => hp ((h.seen p.asset).mpr hold))] at hconcat
    refine ⟨?_, by rw [hconcat, h.out]⟩
    intro asset
    rw [List.mem_cons, h.seen, List.map_append, List.mem_append, or_comm]
    exact or_congr Iff.rfl (by simp)

theorem Keeps.foldl {rows : List Position} {kept : Kept} (h : Keeps rows kept)
    (page : List Position) : Keeps (rows ++ page) (page.foldl Eggplant.keepRow kept) := by
  induction page generalizing rows kept with
  | nil => rwa [List.append_nil]
  | cons p page ih =>
    rw [List.foldl_cons, List.append_cons]
    exact ih (h.keepRow p)

theorem foldl_keepRow_added (kept : Kept) (page : List Position) :
    (page.foldl keepRow kept).added + kept.out.length =
      kept.added + (page.foldl keepRow kept).out.length := by
  induction page generalizing kept with
  | nil => rfl
  | cons p page ih =>
    rw [List.foldl_cons]
    have hrest := ih (keepRow kept p)
    have hone : (keepRow kept p).added + kept.out.length =
        kept.added + (keepRow kept p).out.length := by
      unfold keepRow
      split
      next => rfl
      next =>
        simp only [List.length_append, List.length_singleton]
        omega
    omega

/-- What a listing of redeemable positions says of the rows behind it. -/
structure RedeemableListing (rows out : List Position) (hitCap : Bool) : Prop where
  firsts : ∃ m ≤ 10500, out = Pages.firsts (·.asset) (rows.take m)
  complete : hitCap = false → ∀ p ∈ rows, p.asset ∈ out.map (·.asset)
  distinct : (rows.map (·.asset)).Nodup →
    out = rows.take 10500 ∧ (hitCap = true ↔ 10500 ≤ rows.length)

/-- On a short page the listing is complete. -/
theorem redeemableListing_short {rows out : List Position} {m : Nat}
    (hout : out = Pages.firsts (·.asset) (rows.take m)) (hm : m ≤ 10500) (hshort : rows.length < m) :
    RedeemableListing rows out false := by
  rw [List.take_of_length_le (Nat.le_of_lt hshort)] at hout
  refine ⟨⟨m, hm, ?_⟩, ?_, ?_⟩
  · rw [List.take_of_length_le (Nat.le_of_lt hshort), hout]
  · intro _ p hp
    rw [hout]
    exact Pages.mem_keys_firsts.mpr (List.mem_map_of_mem hp)
  · intro hnodup
    refine ⟨?_, iff_of_false Bool.false_ne_true (by omega)⟩
    rw [hout, Pages.firsts_eq_self hnodup, List.take_of_length_le (by omega)]

/-- Distinct assets are all kept. -/
theorem firsts_take_of_nodup {rows : List Position} (h : (rows.map (·.asset)).Nodup) (m : Nat) :
    Pages.firsts (·.asset) (rows.take m) = rows.take m :=
  Pages.firsts_eq_self (h.sublist ((List.take_sublist m rows).map _))

/-- At the cap, or when a full page brought nothing new, a tail may remain. -/
theorem redeemableListing_full {rows : List Position} {k : Nat} (hk : k ≤ 20)
    (hfull : pageLimit * k + pageLimit ≤ rows.length) {kept next : Kept}
    (hkept : Keeps (rows.take (pageLimit * k)) kept)
    (hnext : Keeps (rows.take (pageLimit * k + pageLimit)) next)
    (hadded : next.added + kept.out.length = next.out.length)
    (hend : maxOffset ≤ pageLimit * k ∨ next.added = 0) :
    RedeemableListing rows next.out true := by
  have hlimit : pageLimit = 500 := rfl
  have hmax : maxOffset = 10000 := rfl
  have hoffset : pageLimit * k = 500 * k := rfl
  refine ⟨⟨pageLimit * k + pageLimit, by omega, hnext.out⟩, nofun, ?_⟩
  intro hnodup
  have hout := hnext.out
  have hbefore := hkept.out
  rw [firsts_take_of_nodup hnodup] at hout hbefore
  rw [hout, hbefore, List.length_take, List.length_take] at hadded
  -- a full page of new assets leaves only the cap
  have hlast : k = 20 := by omega
  subst hlast
  exact ⟨hout, iff_of_true rfl hfull⟩

/-- One page: the listing ends, or the loop goes on with the rows of one page more. -/
theorem pageRedeemable_step (fuel : Nat) {k : Nat} (hk : k ≤ 20)
    (hread : pageLimit * k ≤ rows.length) {kept : Kept}
    (hkept : Keeps (rows.take (pageLimit * k)) kept) (sent : List Query) :
    (∃ out hitCap,
      pageRedeemable (recycling rows) user extra (fuel + 1) (pageLimit * k) kept.seen kept.out
          sent =
        some (sent ++ [positionsQuery user extra (pageLimit * k)], .ok (out, hitCap)) ∧
      RedeemableListing rows out hitCap) ∨
    ∃ next, k < 20 ∧ pageLimit * (k + 1) ≤ rows.length ∧
      Keeps (rows.take (pageLimit * (k + 1))) next ∧
      pageRedeemable (recycling rows) user extra (fuel + 1) (pageLimit * k) kept.seen kept.out
          sent =
        pageRedeemable (recycling rows) user extra fuel (pageLimit * (k + 1)) next.seen next.out
          (sent ++ [positionsQuery user extra (pageLimit * k)]) := by
  have hlimit : pageLimit = 500 := rfl
  have hmax : maxOffset = 10000 := rfl
  have hoffset : pageLimit * k = 500 * k := rfl
  have hcap : pageLimit * k ≤ maxOffset := by omega
  have hlength := Pages.page_length pageLimit rows hcap
  have hstart : Keeps (rows.take (pageLimit * k)) ⟨kept.seen, kept.out, 0⟩ :=
    ⟨hkept.seen, hkept.out⟩
  have hnext := hstart.foldl (Pages.page pageLimit maxOffset rows (pageLimit * k))
  have hadded := foldl_keepRow_added ⟨kept.seen, kept.out, 0⟩
    (Pages.page pageLimit maxOffset rows (pageLimit * k))
  rw [Pages.take_append_page pageLimit rows hcap] at hnext
  rw [Nat.zero_add] at hadded
  rw [pageRedeemable, positionsPage_recycling]
  simp only
  by_cases hshort : (Pages.page pageLimit maxOffset rows (pageLimit * k)).length < pageLimit
  · rw [if_pos hshort]
    exact .inl ⟨_, _, rfl, redeemableListing_short hnext.out (by omega) (by omega)⟩
  · rw [if_neg hshort]
    have hfull : pageLimit * k + pageLimit ≤ rows.length := by omega
    by_cases hend : maxOffset ≤ pageLimit * k ∨ (List.foldl keepRow ⟨kept.seen, kept.out, 0⟩
        (Pages.page pageLimit maxOffset rows (pageLimit * k))).added = 0
    · rw [if_pos hend]
      exact .inl ⟨_, _, rfl, redeemableListing_full hk hfull hkept hnext hadded hend⟩
    · rw [if_neg hend]
      exact .inr ⟨_, by omega, hfull, hnext, rfl⟩

theorem pageRedeemable_recycling :
    ∃ (offsets : List Nat) (out : List Position) (hitCap : Bool),
      offsets.length ≤ 21 ∧ (∀ o ∈ offsets, o ≤ maxOffset) ∧
      pageRedeemable (recycling rows) user extra 21 0 [] [] [] =
        some (offsets.map (positionsQuery user extra), .ok (out, hitCap)) ∧
      RedeemableListing rows out hitCap := by
  have hempty : Keeps (rows.take (pageLimit * 0)) ⟨[], [], 0⟩ := ⟨fun _ => Iff.rfl, rfl⟩
  obtain ⟨offsets, hcount, hoffsets, r, hloop, out, hitCap, rfl, hlisting⟩ :=
    paging_ends
      (fun fuel offset kept sent =>
        pageRedeemable (recycling rows) user extra fuel offset kept.seen kept.out sent)
      (fun k kept => pageLimit * k ≤ rows.length ∧ Keeps (rows.take (pageLimit * k)) kept)
      (fun r => ∃ out hitCap, r = .ok (out, hitCap) ∧ RedeemableListing rows out hitCap)
      (by
        intro fuel k kept sent hk hkept
        obtain ⟨hread, hkept⟩ := hkept
        rcases pageRedeemable_step rows user extra fuel hk hread hkept sent with
          ⟨out, hitCap, hend, hlisting⟩ | ⟨next, hmore, hread', hnext, hloop⟩
        · exact .inl ⟨_, hend, out, hitCap, rfl, hlisting⟩
        · exact .inr ⟨next, hmore, ⟨hread', hnext⟩, hloop⟩)
      20 (Nat.zero_add 20) ⟨Nat.zero_le _, hempty⟩ []
  exact ⟨offsets, out, hitCap, hcount, hoffsets, hloop, hlisting⟩

end

/-- Against the recycling API, both listings end within 21 requests and never ask past the
cap. The first returns the first 10500 rows; the second the first row of each asset, and
it says when that may not be all of them. -/
theorem listings_under_cap (rows : List Position) (user sizeThreshold : String) :
    (∃ offsets : List Nat, offsets.length ≤ 21 ∧ (∀ o ∈ offsets, o ≤ 10000) ∧
      allPositions (recycling rows) user sizeThreshold 21 =
        some (offsets.map (positionsQuery user [("sizeThreshold", sizeThreshold)]),
          .ok (rows.take 10500))) ∧
    ∃ (offsets : List Nat) (out : List Position) (hitCap : Bool),
      offsets.length ≤ 21 ∧ (∀ o ∈ offsets, o ≤ 10000) ∧
      allRedeemablePositions (recycling rows) user 21 =
        some (offsets.map (positionsQuery user [("redeemable", "true")]), .ok (out, hitCap)) ∧
      RedeemableListing rows out hitCap := by
  exact ⟨pagePositions_recycling rows user _, pageRedeemable_recycling rows user _⟩

end Eggplant
