import Eggplant.Book.Depth
import Eggplant.Clob.Books
import Eggplant.Ws.Market

/-!
# Live order books

Books are seeded over REST and then kept by the market channel, one connection after the
other. A connection starts each token with a snapshot, so what was missed between two
connections does not matter: from then on the local book is the venue's.
-/
namespace Eggplant.Live

set_option autoImplicit false

open Eggplant.Lib Eggplant.Ws.Market
open Eggplant.Clob.Books (BookSummary small)

/-- The best bid and the best ask, as they are printed. -/
structure Top where
  bid : Option (Rat × Rat)
  ask : Option (Rat × Rat)
  deriving DecidableEq

def top (b : Book) : Top := ⟨b.bids.maxEntry?, b.asks.minEntry?⟩

/-- The books by token, and the tops printed so far. -/
structure State where
  books : Table String Book
  printed : List (String × Top)

def rows (levels : List Clob.Books.BookLevel) : List (Rat × Rat) :=
  levels.map fun l => (l.price.value, l.size.value)

/-- A token without a summary starts with an empty book. -/
def seedBook (parse : Parsers) (seeded : Table Nat BookSummary) (id : String) : Book :=
  ((parse.u256 id).bind seeded).elim Book.empty fun summary =>
    Book.empty.applySnapshot (rows summary.bids) (rows summary.asks)

def start (parse : Parsers) (seeded : Table Nat BookSummary) (tokenIds : List String) : State :=
  tokenIds.foldl (fun s id =>
    ⟨s.books.insert id (seedBook parse seeded id),
      s.printed ++ [(id, top (seedBook parse seeded id))]⟩) ⟨Table.empty, []⟩

namespace State

/-- `get_mut`, and the top printed where the book was touched. -/
def update (s : State) (token : String) (f : Book → Book × Bool) : State :=
  match s.books token with
  | none => s
  | some b =>
    ⟨s.books.insert token (f b).1,
      if (f b).2 then s.printed ++ [(token, top (f b).1)] else s.printed⟩

def onChange (s : State) (e : PriceChangeEntryOwned) : State :=
  match e.bookSide with
  | none => s
  | some side => s.update e.assetId fun b => b.applyDelta side e.price.value e.size.value

def onEvent (s : State) : MarketEventOwned → State
  | .book assetId bids asks _ =>
    s.update assetId fun b =>
      (b.applySnapshot (bids.map BookLevelOwned.level) (asks.map BookLevelOwned.level), true)
  | .priceChange priceChanges _ => priceChanges.foldl onChange s
  | _ => s

end State

/-- One connection, given what `next_text` returns in turn: it ends at a close, an error, or a
frame that is not read. -/
def session (lib : FrameLibrary) (s : State) : List (Except Error (Option String)) → State
  | [] => s
  | next :: rest =>
    match nextEvent lib next with
    | .ok (some event) => session lib (s.onEvent event) rest
    | _ => s

/-- One connection after the other. -/
def run (lib : FrameLibrary) (s : State)
    (sessions : List (List (Except Error (Option String)))) : State :=
  sessions.foldl (session lib) s

/-! ## Books -/

/-- What a notice says of one token. -/
def events (token : String) : Notice → List BookEvent
  | .book t bids asks => if t = token then [.snapshot bids asks] else []
  | .changes entries =>
    entries.filterMap fun c =>
      if c.token = token then c.side.map fun side => .delta side c.price c.size else none
  | .other => []

theorem applyAll_append (b : Book) (es es' : List BookEvent) :
    b.applyAll (es ++ es') = (b.applyAll es).applyAll es' := List.foldl_append

namespace State

theorem update_books (s : State) (token t : String) (f : Book → Book × Bool) :
    (s.update token f).books t =
      if t = token then (s.books t).map fun b => (f b).1 else s.books t := by
  rw [update]
  cases hbook : s.books token with
  | none =>
    by_cases ht : t = token
    · rw [if_pos ht, ht, hbook]
      rfl
    · rw [if_neg ht]
  | some b =>
    show (Table.insert _ _ _) t = _
    rw [Table.insert, Table.extend, Table.single]
    by_cases ht : t = token
    · rw [if_pos ht, if_pos ht, ht, hbook]
      rfl
    · rw [if_neg ht, if_neg ht, Option.none_or]

theorem onChange_books (s : State) (e : PriceChangeEntryOwned) (t : String) :
    (s.onChange e).books t =
      (s.books t).map fun b => b.applyAll (events t (.changes [e.change])) := by
  rw [onChange]
  cases hside : e.bookSide with
  | none =>
    have hnone : events t (.changes [e.change]) = [] := by
      simp [events, PriceChangeEntryOwned.change, hside]
    simp [hnone, Book.applyAll]
  | some side =>
    simp only [update_books]
    by_cases ht : t = e.assetId
    · have hone : events t (.changes [e.change]) =
          [.delta side e.price.value e.size.value] := by
        simp [events, PriceChangeEntryOwned.change, hside, ht]
      rw [if_pos ht, hone]
      rfl
    · have hnone : events t (.changes [e.change]) = [] := by
        have hne : e.assetId ≠ t := fun h => ht h.symm
        simp [events, PriceChangeEntryOwned.change, hne]
      rw [if_neg ht, hnone]
      simp [Book.applyAll]

theorem events_changes_cons (t : String) (c : Change) (cs : List Change) :
    events t (.changes (c :: cs)) = events t (.changes [c]) ++ events t (.changes cs) := by
  rw [events, events, events, ← List.filterMap_append]
  rfl

/-- An event does to each book what its notice says of the token. -/
theorem onEvent_books (s : State) (e : MarketEventOwned) (t : String) :
    (s.onEvent e).books t = (s.books t).map fun b => b.applyAll (events t e.notice) := by
  cases e with
  | book assetId bids asks timestamp =>
    rw [onEvent, update_books, MarketEventOwned.notice, events]
    by_cases ht : t = assetId
    · rw [if_pos ht, if_pos ht.symm]
      rfl
    · rw [if_neg ht, if_neg fun h => ht h.symm]
      simp [Book.applyAll]
  | priceChange changes timestamp =>
    rw [onEvent, MarketEventOwned.notice]
    induction changes generalizing s with
    | nil => simp [events, Book.applyAll]
    | cons e es ih =>
      rw [List.foldl_cons, ih, onChange_books, List.map_cons, Option.map_map,
        events_changes_cons t e.change (es.map _)]
      congr 1
      funext b
      exact (applyAll_append b _ _).symm
  | tickSizeChange assetId newTickSize => simp [onEvent, MarketEventOwned.notice, events, Book.applyAll]
  | lastTradePrice assetId price size side timestamp =>
    simp [onEvent, MarketEventOwned.notice, events, Book.applyAll]
  | unknown => simp [onEvent, MarketEventOwned.notice, events, Book.applyAll]

/-- The top last printed for each token is that of its book. -/
def Shown (s : State) : Prop :=
  ∀ token, Table.insertAll Table.empty s.printed token = (s.books token).map top

theorem insertAll_concat (es : List (String × Top)) (token : String) (t : Top) :
    Table.insertAll Table.empty (es ++ [(token, t)]) =
      (Table.insertAll Table.empty es).insert token t := List.foldl_append

/-- Only a book that stays the same goes unprinted. -/
theorem Shown.update {s : State} (h : s.Shown) (token : String) {f : Book → Book × Bool}
    (hf : ∀ b, (f b).2 = false → (f b).1 = b) : (s.update token f).Shown := by
  intro t
  rw [update_books, State.update]
  cases hbook : s.books token with
  | none =>
    by_cases ht : t = token
    · rw [if_pos ht, h t, ht, hbook]
      rfl
    · rw [if_neg ht]
      exact h t
  | some b =>
    cases hchanged : (f b).2 with
    | true =>
      simp only [hchanged, if_true]
      rw [insertAll_concat, Table.insert, Table.extend, Table.single]
      by_cases ht : t = token
      · rw [if_pos ht, if_pos ht, ht, hbook]
        rfl
      · rw [if_neg ht, if_neg ht, Option.none_or]
        exact h t
    | false =>
      simp only [hchanged, Bool.false_eq_true, if_false]
      by_cases ht : t = token
      · rw [if_pos ht, h t, ht, hbook, Option.map_some, Option.map_some, hf b hchanged]
        rfl
      · rw [if_neg ht]
        exact h t

theorem Shown.onEvent {s : State} (h : s.Shown) (e : MarketEventOwned) : (s.onEvent e).Shown := by
  cases e with
  | book assetId bids asks timestamp => exact h.update assetId nofun
  | priceChange changes timestamp =>
    rw [State.onEvent]
    induction changes generalizing s with
    | nil => exact h
    | cons e es ih =>
      rw [List.foldl_cons]
      apply ih
      rw [onChange]
      cases e.bookSide with
      | none => exact h
      | some side => exact h.update e.assetId fun b => b.unchanged side _ _
  | tickSizeChange assetId newTickSize => exact h
  | lastTradePrice assetId price size side timestamp => exact h
  | unknown => exact h

end State

/-! ## Connections -/

section
variable (lib : FrameLibrary)

/-- Connections only pass events on, so what every event keeps they keep. -/
theorem session_keeps {P : State → Prop} (hkeep : ∀ s e, P s → P (s.onEvent e)) {s : State}
    (h : P s) (deliveries : List (Except Error (Option String))) :
    P (session lib s deliveries) := by
  induction deliveries generalizing s with
  | nil => exact h
  | cons next rest ih =>
    rw [session]
    split
    next event _ => exact ih (hkeep s event h)
    next => exact h

theorem run_keeps {P : State → Prop} (hkeep : ∀ s e, P s → P (s.onEvent e)) {s : State}
    (h : P s) (sessions : List (List (Except Error (Option String)))) :
    P (run lib s sessions) := by
  induction sessions generalizing s with
  | nil => exact h
  | cons deliveries rest ih => exact ih (session_keeps lib hkeep h deliveries)

/-- A frame whose text spells an object that carries a notice. -/
def Frame (text : String) (notice : Notice) : Prop :=
  ∃ members, lib.readText text = .ok (.obj members) ∧
    Carries (lib.plain text) lib.decimal members notice

theorem Frame.next {text : String} {notice : Notice} (h : Frame lib text notice) :
    ∃ event, nextEvent lib (.ok (some text)) = .ok (some event) ∧ event.notice = notice := by
  obtain ⟨members, hread, hcarries⟩ := h
  obtain ⟨event, owned, hdecode, howned, hnotice⟩ := hcarries.read
  refine ⟨owned, ?_, hnotice⟩
  have hstr : Clob.fromStr lib.toJsonLibrary (MarketEvent.deserialize (lib.plain text)) text =
      .ok event := by
    rw [Clob.fromStr, hread]
    show (MarketEvent.deserialize (lib.plain text) (.obj members)).elim _ Except.ok = _
    rw [hdecode]
    rfl
  rw [nextEvent, hstr]
  show (event.toOwnedEvent lib.decimal).map some = _
  rw [howned]
  rfl

/-- What ends a connection, or nothing yet. -/
def Ends (rest : List (Except Error (Option String))) : Prop :=
  ∀ next ∈ rest.head?, ∀ event, nextEvent lib next ≠ .ok (some event)

theorem session_ends {rest : List (Except Error (Option String))} (h : Ends lib rest) (s : State) :
    session lib s rest = s := by
  cases rest with
  | nil => rfl
  | cons next rest =>
    rw [session]
    split
    next event hevent => exact absurd hevent (h next rfl event)
    next => rfl

/-- After its frames, a connection has done to each book what they say of the token. -/
theorem session_books {frames : List (String × Notice)} {rest : List (Except Error (Option String))}
    (hframes : ∀ frame ∈ frames, Frame lib frame.1 frame.2) (hrest : Ends lib rest) (s : State)
    (token : String) :
    (session lib s (frames.map (fun frame => .ok (some frame.1)) ++ rest)).books token =
      (s.books token).map fun b =>
        b.applyAll (frames.flatMap fun frame => events token frame.2) := by
  induction frames generalizing s with
  | nil =>
    rw [List.map_nil, List.nil_append, session_ends lib hrest]
    simp [Book.applyAll]
  | cons frame frames ih =>
    obtain ⟨event, hnext, hnotice⟩ := (hframes frame List.mem_cons_self).next
    rw [List.map_cons, List.cons_append, session, hnext]
    show (session lib (s.onEvent event) _).books token = _
    rw [ih (fun f hf => hframes f (List.mem_cons_of_mem frame hf)), State.onEvent_books, hnotice,
      Option.map_map, List.flatMap_cons]
    congr 1
    funext b
    exact (applyAll_append b _ _).symm

end

/-! ## The venue -/

/-- The venue's books, as tables: the size that rests at each place of each token. -/
abbrev Resting := String → Table Book.Place Rat

/-- The venue sets the size at one price of one token; at size zero nothing rests there. -/
def Resting.set (venue : Resting) (c : Change) : Resting := fun token place =>
  if token = c.token ∧ c.side = some place.1 ∧ place.2 = c.price then
    if c.size = 0 then none else some c.size
  else venue token place

/-- What a snapshot's rows say of a price: the size of the last row there that has one. -/
def listed (rows : List (Rat × Rat)) : Table Rat Rat := fun price =>
  ((rows.filter fun row => decide (row.1 = price ∧ row.2 ≠ 0)).getLast?).map Prod.snd

/-- While a connection lasts the venue announces every change of its books, and its snapshots
are true. -/
inductive Announces (venue : Resting) : Notice → Resting → Prop
  | book {token : String} {bids asks : List (Rat × Rat)}
      (bidsListed : ∀ price, venue token (.bid, price) = listed bids price)
      (asksListed : ∀ price, venue token (.ask, price) = listed asks price) :
      Announces venue (.book token bids asks) venue
  | changes (entries : List Change) :
      Announces venue (.changes entries) (entries.foldl Resting.set venue)
  | other : Announces venue .other venue

inductive Feed : Resting → List Notice → Resting → Prop
  | done (venue : Resting) : Feed venue [] venue
  | more {venue venue' venue'' : Resting} {notice : Notice} {notices : List Notice}
      (announced : Announces venue notice venue') (rest : Feed venue' notices venue'') :
      Feed venue (notice :: notices) venue''

theorem listed_eq (rows : List (Rat × Rat)) (price : Rat) :
    listed rows price = Book.rowSize rows price := by
  induction rows using List.reverseRecOn with
  | nil => rfl
  | append_singleton rows row ih =>
    have hrows : Book.rowSize (rows ++ [row]) price =
        (Book.rowTable row price).or (listed rows price) := by
      rw [ih, Book.rowSize, Table.merge, List.map_append, List.foldl_append]
      rfl
    rw [hrows, Book.rowTable, Book.resting]
    simp only [listed, List.filter_append, List.getLast?_append]
    by_cases hprice : row.1 = price
    · by_cases hsize : row.2 = 0
      · simp [hprice, hsize]
      · simp [hprice, hsize]
    · have hne : price ≠ row.1 := fun h => hprice h.symm
      simp [hprice, hne]

/-- A level change does to the local ladder what it does to the venue's table. -/
theorem size_change {b : Book} {venue : Resting} {t : String} (h : b.size = venue t)
    (c : Change) : (b.applyAll (events t (.changes [c]))).size = venue.set c t := by
  funext place
  cases hside : c.side with
  | none =>
    have hnone : events t (.changes [c]) = [] := by simp [events, hside]
    rw [hnone, Resting.set, hside, if_neg fun hplace => nomatch hplace.2.1]
    exact congrFun h place
  | some side =>
    by_cases ht : c.token = t
    · have hone : events t (.changes [c]) = [.delta side c.price c.size] := by
        simp [events, hside, ht]
      rw [hone]
      show (b.applyDelta side c.price c.size).1.size place = _
      rw [Book.size_applyDelta, Resting.set, hside, Book.resting, h]
      congr 1
      simp [ht, Prod.ext_iff, eq_comm]
    · have hnone : events t (.changes [c]) = [] := by simp [events, ht]
      rw [hnone, Resting.set, if_neg fun hplace => ht hplace.1.symm]
      exact congrFun h place

/-- A snapshot makes any book the venue's. -/
theorem Announces.shows {venue venue' : Resting} {t : String} {bids asks : List (Rat × Rat)}
    (h : Announces venue (.book t bids asks) venue') (b : Book) :
    (b.applyAll (events t (.book t bids asks))).size = venue' t := by
  cases h with
  | book bidsListed asksListed =>
    rw [events, if_pos rfl]
    funext place
    show (b.apply (.snapshot bids asks)).size place = _
    rw [Book.size_apply]
    obtain ⟨side, price⟩ := place
    cases side with
    | bid => exact (listed_eq bids price).symm.trans (bidsListed price).symm
    | ask => exact (listed_eq asks price).symm.trans (asksListed price).symm

/-- A book that is the venue's stays so. -/
theorem Announces.keeps {venue venue' : Resting} {notice : Notice}
    (h : Announces venue notice venue') {b : Book} {t : String} (hb : b.size = venue t) :
    (b.applyAll (events t notice)).size = venue' t := by
  cases h with
  | @book token bids asks bidsListed asksListed =>
    by_cases ht : token = t
    · subst ht
      exact (Announces.book bidsListed asksListed).shows b
    · rw [events, if_neg ht]
      exact hb
  | changes entries =>
    induction entries generalizing b venue with
    | nil => exact hb
    | cons c entries ih =>
      rw [State.events_changes_cons, applyAll_append]
      exact ih (size_change hb c)
  | other => exact hb

/-- After the notices a book is the venue's if it was before them or one of them is its
snapshot. -/
theorem Feed.mirrors {venue venue' : Resting} {notices : List Notice}
    (h : Feed venue notices venue') {b : Book} {t : String}
    (hb : b.size = venue t ∨ ∃ bids asks, .book t bids asks ∈ notices) :
    (b.applyAll (notices.flatMap (events t))).size = venue' t := by
  induction h generalizing b with
  | done venue =>
    rcases hb with hb | ⟨bids, asks, hmem⟩
    · exact hb
    · cases hmem
  | more announced _ ih =>
    rw [List.flatMap_cons, applyAll_append]
    apply ih
    rcases hb with hb | ⟨bids, asks, hmem⟩
    · exact .inl (announced.keeps hb)
    · rcases List.mem_cons.mp hmem with rfl | hlater
      · exact .inl (announced.shows b)
      · exact .inr ⟨bids, asks, hlater⟩

/-! ## The local books -/

theorem start_concat (parse : Parsers) (seeded : Table Nat BookSummary) (tokenIds : List String)
    (id : String) : start parse seeded (tokenIds ++ [id]) =
      ⟨(start parse seeded tokenIds).books.insert id (seedBook parse seeded id),
        (start parse seeded tokenIds).printed ++ [(id, top (seedBook parse seeded id))]⟩ :=
  List.foldl_append

theorem start_books (parse : Parsers) (seeded : Table Nat BookSummary) (tokenIds : List String)
    (token : String) : (start parse seeded tokenIds).books token =
      if token ∈ tokenIds then some (seedBook parse seeded token) else none := by
  induction tokenIds using List.reverseRecOn with
  | nil => rfl
  | append_singleton ids id ih =>
    rw [start_concat]
    show (Table.insert _ _ _) token = _
    rw [Table.insert, Table.extend, Table.single, ih]
    by_cases ht : token = id
    · simp [ht]
    · simp [ht]

theorem start_shown (parse : Parsers) (seeded : Table Nat BookSummary) (tokenIds : List String) :
    (start parse seeded tokenIds).Shown := by
  induction tokenIds using List.reverseRecOn with
  | nil => exact fun _ => rfl
  | append_singleton ids id ih =>
    intro t
    rw [start_concat]
    show Table.insertAll _ _ t = ((Table.insert _ _ _) t).map top
    rw [State.insertAll_concat, Table.insert, Table.extend, Table.insert, Table.extend,
      Table.single, Table.single, ih t]
    by_cases ht : t = id
    · rw [if_pos ht, if_pos ht]
      rfl
    · rw [if_neg ht, if_neg ht, Option.none_or, Option.none_or]

/-- Which tokens have a book never changes. -/
theorem run_tracked (lib : FrameLibrary) (s : State)
    (sessions : List (List (Except Error (Option String)))) (token : String) :
    ((run lib s sessions).books token).isSome = (s.books token).isSome := by
  refine run_keeps lib (P := fun s' => (s'.books token).isSome = (s.books token).isSome) ?_ rfl
    sessions
  intro s' e hs'
  rw [State.onEvent_books, Option.isSome_map, hs']

/-- Whatever the earlier connections delivered and however they ended: once a connection has
brought a token's snapshot, its book has at each place the size that rests at the venue as of the
last frame, and what ends the connection, be it an unreadable frame, does not touch it. Tokens no
frame names keep their books, other tokens never get one, and the last top printed for a token is
always that of its book. -/
theorem live_books_mirror (lib : FrameLibrary) (parse : Parsers) (seeded : Table Nat BookSummary)
    (tokenIds : List String) (past : List (List (Except Error (Option String))))
    (venue venue' : Resting) (frames : List (String × Notice))
    (rest : List (Except Error (Option String)))
    (hfeed : Feed venue (frames.map Prod.snd) venue')
    (hframes : ∀ frame ∈ frames, Frame lib frame.1 frame.2) (hrest : Ends lib rest) :
    let before := run lib (start parse seeded tokenIds) past
    let s := session lib before (frames.map (fun frame => .ok (some frame.1)) ++ rest)
    (∀ token ∈ tokenIds, (∃ bids asks, .book token bids asks ∈ frames.map Prod.snd) →
      (s.books token).map Book.size = some (venue' token)) ∧
    (∀ token ∈ tokenIds, (∀ frame ∈ frames, events token frame.2 = []) →
      s.books token = before.books token) ∧
    (∀ token, token ∉ tokenIds → s.books token = none) ∧ s.Shown := by
  intro before s
  have hbooks (token : String) : s.books token = (before.books token).map fun b =>
      b.applyAll (frames.flatMap fun frame => events token frame.2) :=
    session_books lib hframes hrest before token
  have htracked (token : String) : (before.books token).isSome = decide (token ∈ tokenIds) := by
    rw [run_tracked, start_books]
    by_cases ht : token ∈ tokenIds <;> simp [ht]
  refine ⟨?_, ?_, ?_, ?_⟩
  · intro token htoken hsnapshot
    obtain ⟨bids, asks, hmem⟩ := hsnapshot
    obtain ⟨b, hb⟩ : ∃ b, before.books token = some b := by
      rw [← Option.isSome_iff_exists, htracked, decide_eq_true_iff]
      exact htoken
    have hmirrors := hfeed.mirrors (b := b) (.inr ⟨bids, asks, hmem⟩)
    rw [List.flatMap_map] at hmirrors
    rw [hbooks, hb, Option.map_some, Option.map_some, ← hmirrors]
  · intro token _ hquiet
    have hnone : frames.flatMap (fun frame => events token frame.2) = [] :=
      List.flatMap_eq_nil_iff.mpr hquiet
    rw [hbooks, hnone]
    simp [Book.applyAll]
  · intro token htoken
    have hnone : before.books token = none := by
      rw [← Option.not_isSome_iff_eq_none, htracked]
      simp [htoken]
    rw [hbooks, hnone]
    rfl
  · have hshown : before.Shown :=
      run_keeps lib (fun _ e h => h.onEvent e) (start_shown parse seeded tokenIds) past
    exact session_keeps lib (fun _ e h => h.onEvent e) hshown _

/-! ## One token -/

def bookText : String :=
  "\x7b\"event_type\":\"book\",\"asset_id\":\"111\",\"market\":\"0xabc\"," ++
    "\"asks\":[\x7b\"price\":\"0.52\",\"size\":\"10\"\x7d]\x7d"

def changeText : String :=
  "\x7b\"price_changes\":[\x7b\"asset_id\":\"111\",\"price\":\"0.52\",\"size\":\"0\"," ++
    "\"side\":\"SELL\",\"best_bid\":\"\",\"best_ask\":\"\"\x7d],\"event_type\":\"price_change\"\x7d"

/-- A snapshot with one ask. -/
def bookMembers : List (String × Serde.Value) :=
  [("event_type", .str "book"), ("asset_id", .str "111"), ("market", .str "0xabc"),
    ("asks", .arr [.obj [("price", .str "0.52"), ("size", .str "10")]])]

/-- The change that removes it. -/
def changeMembers : List (String × Serde.Value) :=
  [("price_changes", .arr [.obj [("asset_id", .str "111"), ("price", .str "0.52"),
      ("size", .str "0"), ("side", .str "SELL"), ("best_bid", .str ""), ("best_ask", .str "")]]),
    ("event_type", .str "price_change")]

def oneToken : FrameLibrary where
  readText := fun text =>
    if text = bookText then .ok (.obj bookMembers)
    else if text = changeText then .ok (.obj changeMembers)
    else .error "expected value"
  mismatch := fun _ => "invalid type"
  plain := fun _ _ => true
  decimal := fun s =>
    if s = "0.52" then some (small 52 2)
    else if s = "10" then some (small 10 0)
    else if s = "0" then some .zero
    else none

theorem oneToken_book : Frame oneToken bookText (.book "111" [] [((13 : Rat) / 25, 10)]) := by
  have hread : oneToken.readText bookText = .ok (.obj bookMembers) := by simp [oneToken]
  refine ⟨bookMembers, hread, .book rfl ⟨rfl, rfl⟩ (.inl ⟨by decide, rfl⟩) (.inr ⟨_, rfl, ?_⟩)
    (.inl (by decide))⟩
  refine .cons ⟨_, rfl, ⟨"0.52", _, rfl, rfl, rfl, ?_⟩, ⟨"10", _, rfl, rfl, rfl, ?_⟩⟩ .nil
  · norm_num [Decimal.value, Decimal.signed, small]
  · norm_num [Decimal.value, Decimal.signed, small]

theorem oneToken_change :
    Frame oneToken changeText (.changes [⟨"111", some .ask, 13 / 25, 0⟩]) := by
  have hread : oneToken.readText changeText = .ok (.obj changeMembers) := by
    have hne : changeText ≠ bookText := by decide
    simp [oneToken, hne]
  refine ⟨changeMembers, hread, .changes rfl rfl ?_ (.inl (by decide))⟩
  refine .cons ⟨_, "SELL", "", "", rfl, ⟨rfl, rfl⟩, ⟨"0.52", _, rfl, rfl, rfl, ?_⟩,
    ⟨"0", _, rfl, rfl, rfl, ?_⟩, ⟨rfl, rfl⟩, by decide, ⟨rfl, rfl⟩, ⟨rfl, rfl⟩⟩ .nil
  · norm_num [Decimal.value, Decimal.signed, small]
  · norm_num [Decimal.value, Decimal.signed, Decimal.zero]

/-- The ask comes and goes, and a frame that is no event ends the connection. -/
theorem live_books_mirror_oneToken :
    ((session oneToken (start ⟨fun _ => none, fun _ => none⟩ (fun _ => none) ["111"])
      [.ok (some bookText), .ok (some changeText), .ok (some "[]")]).books "111").map Book.size =
        some Table.empty := by
  let venue : Resting := fun _ => Table.single (.ask, 13 / 25) 10
  have hbook : Announces venue (.book "111" [] [(13 / 25, 10)]) venue := by
    refine .book (fun price => ?_) (fun price => ?_)
    · simp [venue, Table.single, listed]
    · by_cases hprice : price = 13 / 25
      · simp [venue, Table.single, listed, hprice]
      · have hne : (13 : Rat) / 25 ≠ price := fun h => hprice h.symm
        simp [venue, Table.single, listed, hprice, hne]
  have hfeed : Feed venue [.book "111" [] [(13 / 25, 10)],
      .changes [⟨"111", some .ask, 13 / 25, 0⟩]] _ :=
    .more hbook (.more (.changes _) (.done _))
  have h := live_books_mirror oneToken ⟨fun _ => none, fun _ => none⟩ (fun _ => none) ["111"] []
    _ _ [(bookText, .book "111" [] [(13 / 25, 10)]),
      (changeText, .changes [⟨"111", some .ask, 13 / 25, 0⟩])] [.ok (some "[]")] hfeed
    (by
      refine List.forall_mem_cons.mpr ⟨oneToken_book, List.forall_mem_cons.mpr
        ⟨oneToken_change, fun _ h => absurd h List.not_mem_nil⟩⟩)
    (by
      intro next hnext event
      obtain rfl : Except.ok (some "[]") = next := Option.some.inj hnext
      have hne : "[]" ≠ bookText ∧ "[]" ≠ changeText := by decide
      simp [nextEvent, Clob.fromStr, oneToken, hne, bind, Except.bind])
  have hmirror := h.1 "111" (by decide) ⟨[], _, List.mem_cons_self⟩
  simp only [run, List.foldl_nil, List.map_cons, List.map_nil, List.cons_append,
    List.nil_append] at hmirror
  refine hmirror.trans (congrArg some ?_)
  funext place
  obtain ⟨side, price⟩ := place
  simp only [List.foldl_cons, List.foldl_nil, Resting.set, venue, Table.single, Table.empty]
  by_cases hplace : side = .ask ∧ price = 13 / 25
  · simp [hplace]
  · have hne : ¬(BookSide.ask = side ∧ price = 13 / 25) := fun h => hplace ⟨h.1.symm, h.2⟩
    simp [hplace, hne]

end Eggplant.Live
