import Eggplant.Clob.OpenOrders
import Eggplant.Data
import Eggplant.Lib.Batches
import Eggplant.Lib.Join
import Eggplant.Lib.Table
import Eggplant.Lib.Tagged

/-!
# Fetching order books

The ids are asked for in chunks that are in flight together, and each book of an answer is
read on its own. From a venue that answers token by token, the map is the one that asking for
every token alone would give.
-/
namespace Eggplant.Clob.Books

set_option autoImplicit false

open Eggplant.Lib
open Eggplant.Lib.Serde (Value Decoder field borrowed)

structure BookLevel where
  price : Decimal
  size : Decimal
  deriving DecidableEq

structure BookSummary where
  assetId : Nat
  bids : List BookLevel
  asks : List BookLevel
  tickSize : Decimal
  deriving DecidableEq

/-- The libraries an answer is read with: `plain` tells which strings a text spells without
escapes, `badId` what is said of a token id that is no number. -/
structure BookLibrary extends JsonLibrary, Parsers where
  plain : String → String → Bool
  numerals : Numerals
  badId : String → String

section
variable (lib : BookLibrary)

def BookLevel.deserialize : Decoder BookLevel :=
  Serde.struct ["price", "size"] fun fields => do
    let price ← field fields "price" none (decimal lib.numerals)
    let size ← field fields "size" none (decimal lib.numerals)
    pure { price, size }

/-- `u256_from_dec_str`. -/
def u256FromDecStr (text : String) : Decoder Nat := fun v =>
  (borrowed (lib.plain text) v).bind lib.u256

/-- `null_to_empty`. -/
def nullToEmpty : Decoder (List BookLevel) := nullToDefault (Serde.vec (BookLevel.deserialize lib))

/-- One book of an answer, spelled in `text`. -/
def BookSummary.deserialize (text : String) : Decoder BookSummary :=
  Serde.struct ["asset_id", "bids", "asks", "tick_size"] fun fields => do
    let assetId ← field fields "asset_id" none (u256FromDecStr lib text)
    let bids ← field fields "bids" (some []) (nullToEmpty lib)
    let asks ← field fields "asks" (some []) (nullToEmpty lib)
    let tickSize ← field fields "tick_size" none (decimal lib.numerals)
    pure { assetId, bids, asks, tickSize }

/-- `parse_books`: an element that is no book is skipped. -/
def parseBooks (text : String) : Decoder (List BookSummary)
  | .arr elems => some (elems.filterMap (BookSummary.deserialize lib text))
  | _ => none

/-! ## Requests -/

def bookRequest (tokenId : String) : Value := .obj [("token_id", .str tokenId)]

/-- The error names the first id that is no number. -/
def buildRequests (tokenIds : List String) : Except Error (List Value) :=
  tokenIds.mapM fun id =>
    match lib.u256 id with
    | some _ => .ok (bookRequest id)
    | none => .error (.invalidData ("invalid token ID " ++ id ++ ": " ++ lib.badId id))

/-- The text a response arrives with. -/
def arrived (response : Response) : String := response.text.toOption.getD ""

def fetchBooksAt (send : Value → Except Error Response) (tokenIds : List String) :
    Except Error (List BookSummary) := do
  let requests ← buildRequests lib tokenIds
  let response ← send (.arr requests)
  parseResponse lib.toJsonLibrary (parseBooks lib (arrived response)) response

def maxBatchSize : Nat := 500

/-- `map.extend`, a chunk at a time. -/
def bookMap (results : List (List BookSummary)) : Table Nat BookSummary :=
  Table.insertAll Table.empty (results.flatten.map fun b => (b.assetId, b))

/-- How the round trip of the `k`-th chunk ends. -/
def chunkFetch (send : Nat → Value → Except Error Response) (chunks : List (List String))
    (k : Nat) : Except Error (List BookSummary) :=
  match chunks[k]? with
  | some chunk => fetchBooksAt lib (send k) chunk
  | none => .ok []

/-- A call as it stands: the requests sent, in chunk order, and its result. -/
structure Fetch where
  sent : List (List String)
  returned : Option (Except Error (Table Nat BookSummary))

/-- `fetch_book_map_at`, its chunks joined by `try_join_all`. -/
def fetchBookMapAt (tokenIds : List String) (join : Join.State Error (List BookSummary)) :
    Fetch where
  sent := ((batches maxBatchSize tokenIds).take join.started).filter fun chunk =>
    (buildRequests lib chunk).isOk
  returned := join.returned.map fun result => result.map bookMap

end

/-! ## Reading books -/

section
variable {lib : BookLibrary}

theorem buildRequests_ok {tokenIds : List String} (h : ∀ id ∈ tokenIds, (lib.u256 id).isSome) :
    buildRequests lib tokenIds = .ok (tokenIds.map bookRequest) := by
  induction tokenIds with
  | nil => rfl
  | cons id ids ih =>
    obtain ⟨n, hn⟩ := Option.isSome_iff_exists.mp (h id List.mem_cons_self)
    have hrest : buildRequests lib ids = _ := ih fun i hi => h i (List.mem_cons_of_mem id hi)
    rw [buildRequests] at hrest ⊢
    rw [List.mapM_cons, hrest, hn]
    rfl

/-- No request is made for a chunk with an id that is no number. -/
theorem buildRequests_isOk_iff {tokenIds : List String} :
    (buildRequests lib tokenIds).isOk = true ↔ ∀ id ∈ tokenIds, (lib.u256 id).isSome := by
  constructor
  · intro h
    induction tokenIds with
    | nil => exact nofun
    | cons id ids ih =>
      rw [buildRequests, List.mapM_cons] at h
      cases hid : lib.u256 id with
      | none =>
        rw [hid] at h
        cases h
      | some n =>
        have hrest : (buildRequests lib ids).isOk = true := by
          rw [hid] at h
          rw [buildRequests]
          cases hmap : ids.mapM (m := Except Error) _ with
          | error e =>
            rw [hmap] at h
            cases h
          | ok requests => rfl
        refine List.forall_mem_cons.mpr ⟨?_, ih hrest⟩
        rw [hid]
        rfl
  · intro h
    rw [buildRequests_ok h]
    rfl

theorem fetchBooksAt_ok {send : Value → Except Error Response} {tokenIds : List String}
    {response : Response} {text : String} {elems : List Value}
    (hids : ∀ id ∈ tokenIds, (lib.u256 id).isSome)
    (hsend : send (.arr (tokenIds.map bookRequest)) = .ok response)
    (hstatus : 200 ≤ response.status ∧ response.status < 300) (htext : response.text = .ok text)
    (hread : lib.readText text = .ok (.arr elems)) :
    fetchBooksAt lib send tokenIds =
      .ok (elems.filterMap (BookSummary.deserialize lib text)) := by
  have hquota : response.status ≠ 429 := by omega
  have harrived : arrived response = text := by
    rw [arrived, htext]
    rfl
  have hstr : fromStr lib.toJsonLibrary (parseBooks lib text) text =
      .ok (elems.filterMap (BookSummary.deserialize lib text)) := by
    rw [fromStr, hread]
    rfl
  rw [fetchBooksAt, buildRequests_ok hids]
  show (send (.arr (tokenIds.map bookRequest)) >>= fun response =>
    parseResponse lib.toJsonLibrary (parseBooks lib (arrived response)) response) = _
  rw [hsend]
  show parseResponse lib.toJsonLibrary (parseBooks lib (arrived response)) response = _
  rw [harrived, parseResponse, if_neg hquota, htext]
  simp only [hstatus, and_self, not_true_eq_false, if_false, hstr]

end

/-! ## Chunks -/

/-- What is read of a token that is asked for alone, from text without escapes. -/
def bookOf (lib : BookLibrary) (book : String → Option Value) (id : String) : Option BookSummary :=
  (book id).bind (BookSummary.deserialize { lib with plain := fun _ _ => true } "")

/-- The venue answers each chunk, whatever is asked for together, with what it has on each
token, and spells its strings without escapes. -/
def AnswersEach (lib : BookLibrary) (book : String → Option Value)
    (send : Nat → Value → Except Error Response) (chunks : List (List String)) : Prop :=
  ∀ (k : Nat) (chunk : List String), chunks[k]? = some chunk →
    ∃ response text, send k (.arr (chunk.map bookRequest)) = .ok response ∧
      (200 ≤ response.status ∧ response.status < 300) ∧ response.text = .ok text ∧
      lib.readText text = .ok (.arr (chunk.filterMap book)) ∧ ∀ s, lib.plain text s = true

section
variable {lib : BookLibrary} {send : Nat → Value → Except Error Response}
  {book : String → Option Value} {chunks : List (List String)}

theorem deserialize_plain {text : String} (h : ∀ s, lib.plain text s = true) :
    BookSummary.deserialize lib text =
      BookSummary.deserialize { lib with plain := fun _ _ => true } "" := by
  have hplain : lib.plain text = fun _ => true := funext h
  have hid : u256FromDecStr lib text =
      u256FromDecStr { lib with plain := fun _ _ => true } "" := by
    funext v
    rw [u256FromDecStr, hplain]
    rfl
  rw [BookSummary.deserialize, hid]
  rfl

theorem chunkFetch_each (hanswers : AnswersEach lib book send chunks) {k : Nat}
    {chunk : List String} (hk : chunks[k]? = some chunk)
    (hids : ∀ id ∈ chunk, (lib.u256 id).isSome) :
    chunkFetch lib send chunks k = .ok (chunk.filterMap (bookOf lib book)) := by
  obtain ⟨response, text, hsend, hstatus, htext, hread, hplain⟩ := hanswers k chunk hk
  rw [chunkFetch, hk]
  show fetchBooksAt lib (send k) chunk = _
  rw [fetchBooksAt_ok hids hsend hstatus htext hread, deserialize_plain hplain,
    List.filterMap_filterMap]
  rfl

/-- The books of all chunks, laid end to end. -/
theorem flatten_each (hanswers : AnswersEach lib book send chunks)
    (hids : ∀ id ∈ chunks.flatten, (lib.u256 id).isSome) {results : List (List BookSummary)}
    (hall : (List.range chunks.length).map (chunkFetch lib send chunks) = results.map .ok) :
    results.flatten = chunks.flatten.filterMap (bookOf lib book) := by
  have heach : (List.range chunks.length).map (chunkFetch lib send chunks) =
      (chunks.map fun chunk => chunk.filterMap (bookOf lib book)).map .ok := by
    apply List.ext_getElem?
    intro k
    by_cases hk : k < chunks.length
    · have hchunk : chunks[k]? = some chunks[k] := List.getElem?_eq_getElem hk
      have hread := chunkFetch_each hanswers hchunk fun id hid =>
        hids id (List.mem_flatten.mpr ⟨_, List.mem_of_getElem? hchunk, hid⟩)
      simp [List.getElem?_map, List.getElem?_range hk, hread, hchunk]
    · rw [List.getElem?_eq_none (by simpa using hk), List.getElem?_eq_none (by simpa using hk)]
  have hinj : Function.Injective (Except.ok : List BookSummary → Except Error (List BookSummary)) :=
    fun a b h => Except.ok.inj h
  rw [List.map_injective_iff.mpr hinj (hall.symm.trans heach), List.filterMap_flatten]

/-- A chunk with an id that is no number fails before it is sent. -/
theorem chunkFetch_bad {k : Nat} {chunk : List String} (hk : chunks[k]? = some chunk)
    (hbad : ¬∀ id ∈ chunk, (lib.u256 id).isSome) :
    ∃ e, chunkFetch lib send chunks k = .error e := by
  rw [← buildRequests_isOk_iff] at hbad
  cases hbuild : buildRequests lib chunk with
  | ok requests =>
    rw [hbuild] at hbad
    exact absurd rfl hbad
  | error e =>
    refine ⟨e, ?_⟩
    rw [chunkFetch, hk]
    show fetchBooksAt lib (send k) chunk = _
    rw [fetchBooksAt, hbuild]
    rfl

/-- The venue's books carry the number of the token they were asked by. -/
def Keyed (lib : BookLibrary) (book : String → Option Value) : Prop :=
  ∀ id s, bookOf lib book id = some s → lib.u256 id = some s.assetId

/-- A token that one id spells has the book of that id, if it was read, and a token that was
not asked for has none. -/
def PerToken (lib : BookLibrary) (book : String → Option Value) (tokenIds : List String)
    (m : Table Nat BookSummary) : Prop :=
  (∀ id ∈ tokenIds, ∀ u, lib.u256 id = some u →
    (∀ id' ∈ tokenIds, lib.u256 id' = some u → id' = id) → m u = bookOf lib book id) ∧
  ∀ u, (∀ id ∈ tokenIds, lib.u256 id ≠ some u) → m u = none

theorem perToken_insertAll (hkeys : Keyed lib book) (tokenIds : List String) :
    PerToken lib book tokenIds (Table.insertAll Table.empty
      ((tokenIds.filterMap (bookOf lib book)).map fun b => (b.assetId, b))) := by
  have hread (u : Nat) (s : BookSummary) (hs : (u, s) ∈
      (tokenIds.filterMap (bookOf lib book)).map fun b => (b.assetId, b)) :
      ∃ id ∈ tokenIds, bookOf lib book id = some s ∧ lib.u256 id = some u := by
    obtain ⟨b, hb, hpair⟩ := List.mem_map.mp hs
    obtain ⟨rfl, rfl⟩ := Prod.mk.inj hpair
    obtain ⟨id, hid, hbook⟩ := List.mem_filterMap.mp hb
    exact ⟨id, hid, hbook, hkeys id b hbook⟩
  constructor
  · intro id hid u hu halone
    cases hfound : Table.insertAll Table.empty
        ((tokenIds.filterMap (bookOf lib book)).map fun b => (b.assetId, b)) u with
    | some s =>
      obtain ⟨id', hid', hbook, hnumber⟩ := hread u s (Table.mem_of_insertAll hfound)
      rw [← halone id' hid' hnumber]
      exact hbook.symm
    | none =>
      cases hbook : bookOf lib book id with
      | none => rfl
      | some s =>
        rw [Table.insertAll_eq_none] at hfound
        refine absurd ?_ hfound
        obtain rfl : u = s.assetId := Option.some.inj (hu.symm.trans (hkeys id s hbook))
        rw [List.map_map]
        exact List.mem_map.mpr ⟨s, List.mem_filterMap.mpr ⟨id, hid, hbook⟩, rfl⟩
  · intro u hnone
    rw [Table.insertAll_eq_none]
    intro hmem
    obtain ⟨⟨v, s⟩, hs, rfl⟩ := List.mem_map.mp hmem
    obtain ⟨id, hid, -, hnumber⟩ := hread v s hs
    exact hnone id hid hnumber

end

section
variable {lib : BookLibrary} {send : Nat → Value → Except Error Response}
  {tokenIds : List String} {join : Join.State Error (List BookSummary)}

theorem sent_sublist : (fetchBookMapAt lib tokenIds join).sent.Sublist
    (batches maxBatchSize tokenIds) :=
  List.filter_sublist.trans (List.take_sublist _ _)

theorem sent_asked {request : List String}
    (h : request ∈ (fetchBookMapAt lib tokenIds join).sent) :
    request.length ≤ maxBatchSize ∧ ∀ id ∈ request, id ∈ tokenIds ∧ (lib.u256 id).isSome := by
  have hbatch := sent_sublist.subset h
  refine ⟨length_of_mem_batches hbatch, fun id hid => ⟨?_, ?_⟩⟩
  · rw [← batches_flatten (by decide : 0 < maxBatchSize) tokenIds]
    exact List.mem_flatten.mpr ⟨request, hbatch, hid⟩
  · exact buildRequests_isOk_iff.mp (List.mem_filter.mp h).2 id hid

/-- A fetch that has returned a map has read an answer to every chunk. -/
theorem fetched (hreached : Join.Reachable (batches maxBatchSize tokenIds).length
      (chunkFetch lib send (batches maxBatchSize tokenIds)) join) {m : Table Nat BookSummary}
    (h : (fetchBookMapAt lib tokenIds join).returned = some (.ok m)) :
    ∃ results, join.started = (batches maxBatchSize tokenIds).length ∧
      (List.range (batches maxBatchSize tokenIds).length).map
        (chunkFetch lib send (batches maxBatchSize tokenIds)) = results.map .ok ∧
      m = bookMap results := by
  obtain ⟨result, hresult, hmap⟩ := Option.map_eq_some_iff.mp h
  cases result with
  | error e => cases hmap
  | ok results =>
    obtain ⟨hall, hordered⟩ := hreached.inv.ok results hresult
    exact ⟨results, hall, hordered, (Except.ok.inj hmap).symm⟩

/-- An error is that of a chunk that was started. -/
theorem failed (hreached : Join.Reachable (batches maxBatchSize tokenIds).length
      (chunkFetch lib send (batches maxBatchSize tokenIds)) join) {e : Error}
    (h : (fetchBookMapAt lib tokenIds join).returned = some (.error e)) :
    ∃ k chunk, (batches maxBatchSize tokenIds)[k]? = some chunk ∧
      fetchBooksAt lib (send k) chunk = .error e := by
  obtain ⟨result, hresult, hmap⟩ := Option.map_eq_some_iff.mp h
  cases result with
  | ok results => cases hmap
  | error e' =>
    obtain rfl := Except.error.inj hmap
    obtain ⟨k, hk, hfailed⟩ := hreached.inv.error _ hresult
    have hlt : k < (batches maxBatchSize tokenIds).length :=
      Nat.lt_of_lt_of_le hk hreached.inv.started_le
    rw [chunkFetch, List.getElem?_eq_getElem hlt] at hfailed
    exact ⟨k, _, List.getElem?_eq_getElem hlt, hfailed⟩

end

/-- A fetch only asks for the given ids, at most a batch at a time, and never for a chunk with
an id that is no number; an error is that of one chunk, and with such an id there is no map.
From a venue that answers token by token there is no error, every id is asked for, and each
token has the book of its own element: other elements, readable or not, do not matter, nor do
the chunks or the order in which they finish. -/
theorem fetchBookMap_perToken (lib : BookLibrary) (send : Nat → Value → Except Error Response)
    (tokenIds : List String) (join : Join.State Error (List BookSummary))
    (hreached : Join.Reachable (batches maxBatchSize tokenIds).length
      (chunkFetch lib send (batches maxBatchSize tokenIds)) join) :
    let fetch := fetchBookMapAt lib tokenIds join
    (∀ request ∈ fetch.sent, request.length ≤ maxBatchSize ∧
      ∀ id ∈ request, id ∈ tokenIds ∧ (lib.u256 id).isSome) ∧
    (∀ e, fetch.returned = some (.error e) → ∃ k chunk,
      (batches maxBatchSize tokenIds)[k]? = some chunk ∧
        fetchBooksAt lib (send k) chunk = .error e) ∧
    (∀ m, fetch.returned = some (.ok m) → ∀ id ∈ tokenIds, (lib.u256 id).isSome) ∧
    ∀ book, AnswersEach lib book send (batches maxBatchSize tokenIds) →
      (∀ id ∈ tokenIds, (lib.u256 id).isSome) →
      ∀ result, fetch.returned = some result → ∃ m, result = .ok m ∧
        fetch.sent.flatten = tokenIds ∧ (Keyed lib book → PerToken lib book tokenIds m) := by
  have hflatten : (batches maxBatchSize tokenIds).flatten = tokenIds :=
    batches_flatten (by decide) tokenIds
  refine ⟨fun request hrequest => sent_asked hrequest, fun e he => failed hreached he, ?_, ?_⟩
  · intro m hm id hid
    obtain ⟨results, -, hordered, -⟩ := fetched hreached hm
    rw [← hflatten] at hid
    obtain ⟨chunk, hchunk, hin⟩ := List.mem_flatten.mp hid
    obtain ⟨k, hk⟩ := List.mem_iff_getElem?.mp hchunk
    by_contra hbad
    have herror : ∃ e, chunkFetch lib send (batches maxBatchSize tokenIds) k = .error e :=
      chunkFetch_bad hk fun hall => hbad (hall id hin)
    obtain ⟨e, he⟩ := herror
    -- the k-th value of the join would be this error
    have hlt := (List.getElem?_eq_some_iff.mp hk).1
    have hkth := congrArg (fun outcomes => outcomes[k]?) hordered
    simp only [List.getElem?_map, List.getElem?_range hlt, Option.map_some, he] at hkth
    cases hr : results[k]? <;> simp [hr] at hkth
  · intro book hanswers hids result hresult
    have hall : ∀ id ∈ (batches maxBatchSize tokenIds).flatten, (lib.u256 id).isSome := by
      rw [hflatten]
      exact hids
    cases result with
    | error e =>
      obtain ⟨k, chunk, hk, hfailed⟩ := failed hreached hresult
      have hread := chunkFetch_each hanswers hk fun id hid =>
        hall id (List.mem_flatten.mpr ⟨chunk, List.mem_of_getElem? hk, hid⟩)
      rw [chunkFetch, hk] at hread
      cases hread.symm.trans hfailed
    | ok m =>
      obtain ⟨results, hstarted, hordered, rfl⟩ := fetched hreached hresult
      refine ⟨_, rfl, ?_, fun hkeys => ?_⟩
      · have hbuild : ∀ chunk ∈ batches maxBatchSize tokenIds,
            (buildRequests lib chunk).isOk = true := fun chunk hchunk =>
          buildRequests_isOk_iff.mpr fun id hid =>
            hall id (List.mem_flatten.mpr ⟨chunk, hchunk, hid⟩)
        show (((batches maxBatchSize tokenIds).take join.started).filter _).flatten = _
        rw [List.take_of_length_le (Nat.le_of_eq hstarted.symm), List.filter_eq_self.mpr hbuild,
          hflatten]
      · rw [bookMap, flatten_each hanswers hall hordered, hflatten]
        exact perToken_insertAll hkeys tokenIds

def small (mantissa scale : Nat) : Decimal :=
  ⟨false, mantissa % 100, scale % 3, by omega, by omega⟩

/-- A venue that lists two tokens, the second with a tick that is no number. -/
def halfReadable (id : String) : Option Value :=
  if id = "111" then
    some (.obj [("asset_id", .str "111"),
      ("bids", .arr [.obj [("price", .str "0.48"), ("size", .str "30")]]), ("asks", .null),
      ("tick_size", .str "0.01")])
  else if id = "222" then some (.obj [("asset_id", .str "222"), ("tick_size", .bool true)])
  else none

def halfReadableText : String :=
  "[\x7b\"asset_id\":\"111\",\"bids\":[\x7b\"price\":\"0.48\",\"size\":\"30\"\x7d]," ++
    "\"asks\":null,\"tick_size\":\"0.01\"\x7d,\x7b\"asset_id\":\"222\",\"tick_size\":true\x7d]"

def halfReadableLibrary : BookLibrary where
  readText := fun text =>
    if text = halfReadableText then .ok (.arr (["111", "222"].filterMap halfReadable))
    else .error "expected value"
  mismatch := fun _ => "invalid type"
  u256 := Text.readDec
  b256 := fun _ => none
  plain := fun _ _ => true
  numerals :=
    ⟨fun _ => none, fun s =>
      if s = "0.48" then some (small 48 2)
      else if s = "30" then some (small 30 0)
      else if s = "0.01" then some (small 1 2)
      else none⟩
  badId := fun _ => "invalid digit"

theorem fetchBookMap_perToken_halfReadable :
    let summary : BookSummary :=
      ⟨111, [⟨small 48 2, small 30 0⟩], [], small 1 2⟩
    ∃ m, (fetchBookMapAt halfReadableLibrary ["111", "222"]
        ⟨1, [0], some (.ok [[summary]])⟩).returned = some (.ok m) ∧
      m 111 = some summary ∧ m 222 = none := by
  intro summary
  have hreached : Join.Reachable (batches maxBatchSize ["111", "222"]).length
      (chunkFetch halfReadableLibrary (fun _ _ => .ok ⟨200, none, .ok halfReadableText⟩)
        (batches maxBatchSize ["111", "222"])) ⟨1, [0], some (.ok [[summary]])⟩ :=
    .step (.step (.step .initial (.start rfl (by decide))) (.finish 0 rfl (by decide) (by decide)))
      (.all [[summary]] rfl (by decide) rfl)
  have hread : halfReadableLibrary.readText halfReadableText =
      .ok (.arr (["111", "222"].filterMap halfReadable)) := by
    simp [halfReadableLibrary]
  have h := fetchBookMap_perToken halfReadableLibrary _ ["111", "222"] _ hreached
  obtain ⟨m, hm, -, hkeyed⟩ := h.2.2.2 halfReadable (by
    intro k chunk hk
    obtain ⟨rfl, rfl⟩ : k = 0 ∧ chunk = ["111", "222"] := by
      cases k with
      | zero => exact ⟨rfl, (Option.some.inj hk).symm⟩
      | succ k => cases hk
    exact ⟨_, halfReadableText, rfl, by decide, rfl, hread, fun _ => rfl⟩)
    (by decide) _ rfl
  have hper := hkeyed (by
    intro id s hs
    unfold bookOf halfReadable at hs
    split at hs
    next hid =>
      obtain rfl := Option.some.inj hs
      rw [hid]
      decide
    next =>
      split at hs
      next => cases hs
      next => cases hs)
  refine ⟨m, congrArg some hm, ?_, ?_⟩
  · exact hper.1 "111" (by decide) 111 (by decide) (by decide)
  · exact hper.1 "222" (by decide) 222 (by decide) (by decide)

end Eggplant.Clob.Books
