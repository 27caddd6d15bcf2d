import Eggplant.Error
import Eggplant.Lib.Orbits

/-!
# Paging open orders

The venue names the next page. The client stops at an empty or terminal cursor and
at a cursor that leads to itself; it does not remember the pages before the last
one, so a longer cycle keeps it going.
-/
namespace Eggplant.Clob

set_option autoImplicit false

open Eggplant.Lib.Orbits

/-- The cursor value marking the final page of a listing. -/
def terminalCursor : String := "LTE="

/-- Absent filters list everything owned by the key. -/
structure OpenOrdersRequest where
  id : Option String
  market : Option String
  assetId : Option String

namespace OpenOrdersRequest

def filters (request : OpenOrdersRequest) (cursor : Option String) :
    List (String × Option String) :=
  [("id", request.id), ("market", request.market), ("asset_id", request.assetId),
    ("next_cursor", cursor)]

/-- One turn of the loop of `query`: a present value is pushed as it is. -/
def pushFilter (q : String) (filter : String × Option String) : String :=
  match filter.2 with
  | none => q
  | some value => q ++ (if q = "" then "?" else "&") ++ filter.1 ++ "=" ++ value

def query (request : OpenOrdersRequest) (cursor : Option String) : String :=
  (request.filters cursor).foldl pushFilter ""

end OpenOrdersRequest

structure Page (α : Type) where
  data : List α
  nextCursor : String

section
variable {α : Type}

/-- One page of open orders; `getL2` is given the endpoint and the query string. -/
def openOrders (getL2 : String → String → Except Error (Page α)) (request : OpenOrdersRequest)
    (cursor : Option String) : Except Error (Page α) :=
  getL2 "data/orders" (request.query cursor)

/-- The loop of `all_open_orders`; `none` when `fuel` pages did not end it. -/
def pageOrders (openOrders : Option String → Except Error (Page α)) :
    Nat → Option String → List α → Option (Except Error (List α))
  | 0, _, _ => none
  | fuel + 1, cursor, out =>
    match openOrders cursor with
    | .error e => some (.error e)
    | .ok page =>
      let out := out ++ page.data
      let next := page.nextCursor
      if next = "" ∨ next = terminalCursor ∨ some next = cursor then some (.ok out)
      else pageOrders openOrders fuel (some next) out

/-- At most `fuel` pages of `all_open_orders`, given the pages by their cursor. -/
def allOpenOrders (openOrders : Option String → Except Error (Page α)) (fuel : Nat) :
    Option (Except Error (List α)) :=
  pageOrders openOrders fuel none []

/-! ## The cursor chain -/

variable (server : Option String → Page α)

/-- The cursor after a page. -/
def nextCursor (cursor : Option String) : Option String := some (server cursor).nextCursor

/-- The venue says that no page follows. -/
def LastPage (cursor : Option String) : Prop :=
  (server cursor).nextCursor = "" ∨ (server cursor).nextCursor = terminalCursor

/-- The cursors a client that stops at last pages may be sent through. -/
inductive Reachable : Option String → Prop
  | first : Reachable none
  | next {cursor : Option String} : Reachable cursor → ¬LastPage server cursor →
      Reachable (nextCursor server cursor)

instance : DecidablePred (LastPage server) := fun _ =>
  inferInstanceAs (Decidable (_ ∨ _))

instance : DecidablePred (Seen (nextCursor server) (LastPage server)) := fun _ =>
  inferInstanceAs (Decidable (_ ∨ _))

variable {server}

/-- The loop walks the chain and collects the pages. -/
theorem pageOrders_eq_walk (fuel : Nat) (cursor : Option String) (out : List α) :
    pageOrders (fun c => .ok (server c)) fuel cursor out =
      (walk (nextCursor server) (Seen (nextCursor server) (LastPage server)) fuel cursor).map
        (fun cursors => .ok (out ++ cursors.flatMap fun c => (server c).data)) := by
  induction fuel generalizing cursor out with
  | zero => rfl
  | succ fuel ih =>
    have hstop : Seen (nextCursor server) (LastPage server) cursor ↔
        (server cursor).nextCursor = "" ∨ (server cursor).nextCursor = terminalCursor ∨
          some (server cursor).nextCursor = cursor := or_assoc
    rw [pageOrders, walk]
    simp only [← hstop]
    by_cases hseen : Seen (nextCursor server) (LastPage server) cursor
    · rw [if_pos hseen, if_pos hseen, Option.map_some, List.flatMap_singleton]
    · rw [if_neg hseen, if_neg hseen, ih, Option.map_map, nextCursor]
      congr 1
      funext cursors
      simp [List.flatMap_cons]

theorem exists_over (hfinite : {c | Reachable server c}.Finite) :
    ∃ k, Over (nextCursor server) (LastPage server) none k := by
  by_cases hlast : ∃ k, LastPage server ((nextCursor server)^[k] none)
  · obtain ⟨k, hk⟩ := hlast
    exact ⟨k, .inl hk⟩
  · have hreach (k : Nat) : Reachable server ((nextCursor server)^[k] none) := by
      induction k with
      | zero => exact .first
      | succ k ih =>
        rw [Function.iterate_succ_apply']
        exact ih.next fun h => hlast ⟨k, h⟩
    obtain ⟨k, hk⟩ := exists_returns (hfinite.subset (Set.range_subset_iff.mpr hreach))
    exact ⟨k, .inr hk⟩

/-- The listing of a venue ends on the first page that is last or leads back to a page
already taken, with the rows of the pages up to it, each taken once. -/
def ExactPaging (server : Option String → Page α) : Prop :=
  ∃ n fuel, Over (nextCursor server) (LastPage server) none n ∧
    (∀ k < n, ¬Over (nextCursor server) (LastPage server) none k) ∧
    (∀ i j, i < j → j ≤ n → (nextCursor server)^[i] none ≠ (nextCursor server)^[j] none) ∧
    allOpenOrders (fun c => .ok (server c)) fuel =
      some (.ok ((List.range (n + 1)).flatMap fun k => (server ((nextCursor server)^[k] none)).data))

theorem firstPoints_flatMap (n : Nat) :
    (firstPoints (nextCursor server) none n).flatMap (fun c => (server c).data) =
      (List.range (n + 1)).flatMap fun k => (server ((nextCursor server)^[k] none)).data := by
  rw [firstPoints, List.flatMap_map]

/-- Of a venue with finitely many cursors, the listing is exact exactly when every page that
leads back to an earlier one comes no sooner than a page that is last or leads to itself. -/
theorem exactPaging_iff (server : Option String → Page α)
    (hfinite : {c | Reachable server c}.Finite) :
    ExactPaging server ↔ ReturnsSeen (nextCursor server) (LastPage server) none := by
  classical
  have hover := exists_over hfinite
  constructor
  · intro h
    obtain ⟨n, fuel, hn, hfirst, -, hend⟩ := h
    rw [allOpenOrders, pageOrders_eq_walk, Option.map_eq_some_iff] at hend
    obtain ⟨points, hwalk, -⟩ := hend
    obtain ⟨m, -, hseen, -, -⟩ := walk_eq_some_iff.mp hwalk
    by_contra hunseen
    exact not_seen_of_not_returnsSeen hunseen m hseen
  · intro h
    -- the first page after which nothing new can come
    have hfirst : ∀ k < Nat.find hover, ¬Over (nextCursor server) (LastPage server) none k :=
      fun k hk => Nat.find_min hover hk
    have hseen := (seen_first_iff (Nat.find_spec hover) hfirst).mpr h
    refine ⟨Nat.find hover, Nat.find hover + 1, Nat.find_spec hover, hfirst, ?_, ?_⟩
    · intro i j hij hj
      exact ne_of_not_returns (fun k hk hreturn => hfirst k hk (.inr hreturn)) hij hj
    · have hwalk := walk_eq_some_iff.mpr ⟨Nat.find hover, Nat.lt_succ_self _, hseen,
        fun k hk hs => hfirst k hk hs.over, rfl⟩
      rw [allOpenOrders, pageOrders_eq_walk, hwalk, Option.map_some, List.nil_append,
        firstPoints_flatMap]

/-- A venue with three pages. -/
def threePages (cursor : Option String) : Page Nat :=
  if cursor = none then ⟨[1, 2], "a"⟩
  else if cursor = some "a" then ⟨[3], "b"⟩
  else ⟨[4], terminalCursor⟩

/-- It is listed exactly, each row once. -/
theorem exactPaging_iff_threePages :
    ExactPaging threePages ∧
    allOpenOrders (fun c => .ok (threePages c)) 3 = some (.ok [1, 2, 3, 4]) := by
  refine ⟨?_, by decide⟩
  have hfinite : {c | Reachable threePages c}.Finite := by
    refine (Set.toFinite {none, some "a", some "b", some terminalCursor}).subset ?_
    intro c hc
    induction hc with
    | first => decide
    | next _ hopen ih =>
      rcases ih with rfl | rfl | rfl | rfl
      · decide
      · decide
      · exact absurd (Or.inr rfl) hopen
      · exact absurd (Or.inr rfl) hopen
  refine (exactPaging_iff threePages hfinite).mpr ?_
  -- neither of the first two pages leads back, and the third is last
  intro k hreturn
  by_cases hk : 2 ≤ k
  · exact ⟨2, hk, by decide⟩
  · have hopen : ∀ k < 2, ∀ i ≤ k, (nextCursor threePages)^[k + 1] none ≠
        (nextCursor threePages)^[i] none := by decide
    obtain ⟨i, hi, heq⟩ := hreturn
    exact absurd heq (hopen k (Nat.lt_of_not_le hk) i hi)

/-- Where the listing is not exact it never ends. -/
theorem allOpenOrders_forever (server : Option String → Page α)
    (h : ¬ReturnsSeen (nextCursor server) (LastPage server) none) (fuel : Nat) :
    allOpenOrders (fun c => .ok (server c)) fuel = none := by
  rw [allOpenOrders, pageOrders_eq_walk, Option.map_eq_none_iff, Option.eq_none_iff_forall_ne_some]
  intro points hwalk
  obtain ⟨n, -, hseen, -⟩ := walk_eq_some_iff.mp hwalk
  exact not_seen_of_not_returnsSeen h n hseen

/-- The next page is asked for under the cursor of this one, unless the listing ends. -/
theorem pageOrders_next {β : Type} {pages : Option String → Except Error (Page β)}
    {cursor : Option String} {page : Page β} (hpage : pages cursor = .ok page) (fuel : Nat)
    (out : List β) :
    pageOrders pages (fuel + 1) cursor out =
      if page.nextCursor = "" ∨ page.nextCursor = terminalCursor ∨ some page.nextCursor = cursor then
        some (.ok (out ++ page.data))
      else pageOrders pages fuel (some page.nextCursor) (out ++ page.data) := by
  rw [pageOrders, hpage]

/-- A listing fails on no page exactly when every page its cursors lead to is there. -/
theorem allOpenOrders_no_error_iff {β : Type} {pages : Option String → Except Error (Page β)}
    (hnext : ∀ cursor page, pages cursor = .ok page →
      page.nextCursor = (server cursor).nextCursor) :
    (∀ fuel e, allOpenOrders pages fuel ≠ some (.error e)) ↔
      ∀ cursor, Reachable server cursor → ∃ page, pages cursor = .ok page := by
  constructor
  · intro h
    -- the loop comes to every reachable cursor, with some rows collected
    have hcomes : ∀ cursor, Reachable server cursor →
        ∃ out, ∀ fuel e, pageOrders pages fuel cursor out ≠ some (.error e) := by
      intro cursor hcursor
      induction hcursor with
      | first => exact ⟨[], h⟩
      | @next cursor _ hlast ih =>
        obtain ⟨out, hout⟩ := ih
        cases hpage : pages cursor with
        | error e => exact absurd (by rw [pageOrders, hpage]) (hout 1 e)
        | ok page =>
          have hcursor := hnext cursor page hpage
          by_cases hself : some page.nextCursor = cursor
          · refine ⟨out, ?_⟩
            rwa [nextCursor, ← hcursor, hself]
          · refine ⟨out ++ page.data, fun fuel e hfail => hout (fuel + 1) e ?_⟩
            have hgo : ¬(page.nextCursor = "" ∨ page.nextCursor = terminalCursor ∨
                some page.nextCursor = cursor) := by
              rw [hcursor] at hself ⊢
              rintro (hempty | hterminal | hsame)
              · exact hlast (.inl hempty)
              · exact hlast (.inr hterminal)
              · exact hself hsame
            rw [pageOrders_next hpage, if_neg hgo, hcursor]
            exact hfail
    intro cursor hcursor
    obtain ⟨out, hout⟩ := hcomes cursor hcursor
    cases hpage : pages cursor with
    | error e => exact absurd (by rw [pageOrders, hpage]) (hout 1 e)
    | ok page => exact ⟨page, rfl⟩
  · intro h fuel e
    have hruns : ∀ cursor out, Reachable server cursor →
        pageOrders pages fuel cursor out ≠ some (.error e) := by
      induction fuel with
      | zero =>
        intro cursor out _ hfail
        cases hfail
      | succ fuel ih =>
        intro cursor out hcursor
        obtain ⟨page, hpage⟩ := h cursor hcursor
        rw [pageOrders_next hpage]
        split
        next => simp
        next hgo =>
          rw [hnext cursor page hpage] at hgo ⊢
          exact ih _ _ (hcursor.next fun hlast => hgo (hlast.imp_right .inl))
    exact hruns none [] .first

/-- Two pages that name each other. -/
theorem alternating_pages_never_end :
    let server : Option String → Page Nat := fun c => ⟨[1], if c = some "a" then "b" else "a"⟩
    {c | Reachable server c}.Finite ∧
      (∀ fuel, allOpenOrders (fun c => .ok (server c)) fuel = none) ∧ ¬ExactPaging server := by
  intro server
  have hfinite : {c | Reachable server c}.Finite := by
    refine Set.Finite.subset (Set.toFinite {none, some "a", some "b"}) ?_
    intro c hc
    cases hc with
    | first => exact .inl rfl
    | @next cursor _ _ =>
      by_cases hcursor : cursor = some "a"
      · exact .inr (.inr (congrArg some (if_pos hcursor)))
      · exact .inr (.inl (congrArg some (if_neg hcursor)))
  have hunseen : ¬ReturnsSeen (nextCursor server) (LastPage server) none := by
    intro h
    obtain ⟨i, hi, hseen⟩ := h 2 ⟨1, by decide, rfl⟩
    have hnone : ∀ i ≤ 2, ¬Seen (nextCursor server) (LastPage server)
        ((nextCursor server)^[i] none) := by decide
    exact hnone i hi hseen
  have hnever := allOpenOrders_forever server hunseen
  refine ⟨hfinite, hnever, ?_⟩
  intro h
  obtain ⟨n, fuel, -, -, -, hend⟩ := h
  rw [hnever fuel] at hend
  cases hend

end

end Eggplant.Clob
