import Eggplant.Clob.Listing
import Eggplant.Lib.UrlQuery

/-!
# Listing queries

The filters and the cursor are spliced into the query as they are. What the venue reads
there is what was asked for as long as no value has a character the reader acts on.
-/
namespace Eggplant.Clob

set_option autoImplicit false

open Eggplant.Lib Eggplant.Lib.Text
open Eggplant.Lib.UrlQuery (piece readPairs IsName IsPlain encode_toList)

namespace OpenOrdersRequest

/-- The names and values of the filters that are set. -/
def present (filters : List (String × Option String)) : List (String × String) :=
  filters.filterMap fun filter => filter.2.map (filter.1, ·)

def pieceText (pair : String × String) : List Char := piece pair.1.toList pair.2.toList

theorem foldl_pushFilter (filters : List (String × Option String)) {q : String} (hq : q ≠ "") :
    (filters.foldl pushFilter q).toList =
      q.toList ++ (present filters).flatMap fun pair => '&' :: pieceText pair := by
  induction filters generalizing q with
  | nil => simp [present]
  | cons filter filters ih =>
    obtain ⟨name, value⟩ := filter
    cases value with
    | none => exact ih hq
    | some value =>
      have hpush : pushFilter q (name, some value) = q ++ "&" ++ name ++ "=" ++ value := by
        rw [pushFilter, if_neg hq]
      have hne : q ++ "&" ++ name ++ "=" ++ value ≠ "" := by
        intro h
        simpa using congrArg String.toList h
      rw [List.foldl_cons, hpush, ih hne]
      simp [present, pieceText, piece]

theorem foldl_pushFilter_empty (filters : List (String × Option String)) :
    (filters.foldl pushFilter "").toList =
      match present filters with
      | [] => []
      | pair :: pairs => '?' :: (pieceText pair ++ pairs.flatMap fun pair => '&' :: pieceText pair) := by
  induction filters with
  | nil => rfl
  | cons filter filters ih =>
    obtain ⟨name, value⟩ := filter
    cases value with
    | none => exact ih
    | some value =>
      have hpush : pushFilter "" (name, some value) = "?" ++ name ++ "=" ++ value := by
        rw [pushFilter, if_pos rfl, String.empty_append]
      have hne : "?" ++ name ++ "=" ++ value ≠ "" := by
        intro h
        simpa using congrArg String.toList h
      rw [List.foldl_cons, hpush, foldl_pushFilter filters hne]
      simp [present, pieceText, piece]

/-- The venue's reader takes the pieces one by one. -/
theorem parse_filters (filters : List (String × Option String)) :
    UrlQuery.parse (filters.foldl pushFilter "").toList =
      (present filters).flatMap fun pair => readPairs (pieceText pair) := by
  rw [foldl_pushFilter_empty]
  cases present filters with
  | nil => rfl
  | cons pair pairs => exact UrlQuery.readPairs_pieces pieceText pair pairs

theorem present_isName {request : OpenOrdersRequest} {cursor : Option String}
    {pair : String × String} (h : pair ∈ present (request.filters cursor)) :
    IsName pair.1.toList := by
  have hname : pair.1 ∈ ["id", "market", "asset_id", "next_cursor"] := by
    obtain ⟨filter, hfilter, hpair⟩ := List.mem_filterMap.mp h
    obtain ⟨value, -, rfl⟩ := Option.map_eq_some_iff.mp hpair
    exact List.mem_map_of_mem (f := Prod.fst) hfilter
  have hall : ∀ name ∈ ["id", "market", "asset_id", "next_cursor"],
      '+' ∉ name.toList ∧ '%' ∉ name.toList ∧ '&' ∉ name.toList ∧ '=' ∉ name.toList := by
    decide
  exact UrlQuery.isName_of_not_mem (hall _ hname)

/-- The query is read as the filters that are set, in order and with their values, exactly
when no value has an ampersand, a plus sign or a percent escape. -/
theorem query_carries_iff (request : OpenOrdersRequest) (cursor : Option String) :
    UrlQuery.parse (request.query cursor).toList =
        (present (request.filters cursor)).map (fun pair => (utf8 pair.1, utf8 pair.2)) ↔
      ∀ filter ∈ request.filters cursor, ∀ value, filter.2 = some value → IsPlain value.toList := by
  have hpairs := UrlQuery.readPairs_eq_iff
    ((present (request.filters cursor)).map fun pair => (pair.1.toList, pair.2.toList))
    (List.forall_mem_map.mpr fun pair hpair => present_isName hpair)
  simp only [List.flatMap_map, List.map_map, List.forall_mem_map, Function.comp_def,
    encode_toList] at hpairs
  rw [query, parse_filters]
  refine hpairs.trans ⟨?_, ?_⟩
  · intro h filter hfilter value hvalue
    have hpair : (filter.1, value) ∈ present (request.filters cursor) :=
      List.mem_filterMap.mpr ⟨filter, hfilter, by rw [hvalue, Option.map_some]⟩
    exact h _ hpair
  · intro h pair hpair
    obtain ⟨filter, hfilter, hpair⟩ := List.mem_filterMap.mp hpair
    obtain ⟨value, hvalue, rfl⟩ := Option.map_eq_some_iff.mp hpair
    exact h filter hfilter value hvalue

/-- An id that adds a filter, and a cursor in base 64 that comes back changed. -/
theorem values_escape_their_filter :
    UrlQuery.parse (query ⟨some "a&market=b", none, none⟩ none).toList =
        [(utf8 "id", utf8 "a"), (utf8 "market", utf8 "b")] ∧
      UrlQuery.parse (query ⟨none, none, none⟩ (some "MjU+")).toList =
        [(utf8 "next_cursor", utf8 "MjU ")] ∧
      ¬(UrlQuery.parse (query ⟨some "a&market=b", none, none⟩ none).toList =
          (present (filters ⟨some "a&market=b", none, none⟩ none)).map
            (fun pair => (utf8 pair.1, utf8 pair.2))) := by
  decide

end OpenOrdersRequest

end Eggplant.Clob
