import Eggplant.Book.Apply
import Eggplant.Clob.OpenOrders
import Eggplant.Lib.Tagged

/-!
# Market-channel frames

A frame is parsed without copying its strings and then turned into owned, numeric values; the
first load-bearing number that does not parse fails the whole event. What the venue says of
the books is read from any frame that carries it, whatever else stands there.
-/
namespace Eggplant.Ws.Market

set_option autoImplicit false

open Eggplant.Lib Eggplant.Clob
open Eggplant.Lib.Serde (Value Decoder field ofMembers borrowed tagged tagged_of_holds Holds
  Lacks)

/-! ## Borrowed events -/

structure BookLevel where
  price : String
  size : String

structure PriceChangeEntry where
  assetId : String
  price : String
  size : String
  side : String
  bestBid : String
  bestAsk : String

inductive MarketEvent where
  | book (assetId : String) (bids asks : List BookLevel) (timestamp : Option String)
  | priceChange (priceChanges : List PriceChangeEntry) (timestamp : Option String)
  | tickSizeChange (assetId newTickSize : String)
  | lastTradePrice (assetId price : String) (size side timestamp : Option String)
  | unknown

/-- `side_to_book`. -/
def sideToBook (side : String) : Option BookSide :=
  if eqIgnoreAsciiCase side "BUY" then some .bid
  else if eqIgnoreAsciiCase side "SELL" then some .ask
  else none

section
variable (plain : String → Bool)

def BookLevel.deserialize : Decoder BookLevel :=
  Serde.struct ["price", "size"] fun fields => do
    let price ← field fields "price" none (borrowed plain)
    let size ← field fields "size" none (borrowed plain)
    pure { price, size }

def PriceChangeEntry.deserialize : Decoder PriceChangeEntry :=
  Serde.struct ["asset_id", "price", "size", "side", "best_bid", "best_ask"] fun fields => do
    let assetId ← field fields "asset_id" none (borrowed plain)
    let price ← field fields "price" none (borrowed plain)
    let size ← field fields "size" none (borrowed plain)
    let side ← field fields "side" none (borrowed plain)
    let bestBid ← field fields "best_bid" none (borrowed plain)
    let bestAsk ← field fields "best_ask" none (borrowed plain)
    pure { assetId, price, size, side, bestBid, bestAsk }

def optText : Decoder (Option String) := Serde.option (borrowed plain)

def readBook : Decoder MarketEvent :=
  Serde.struct ["asset_id", "bids", "asks", "timestamp"] fun fields => do
    let assetId ← field fields "asset_id" none (borrowed plain)
    let bids ← field fields "bids" (some []) (Serde.vec (BookLevel.deserialize plain))
    let asks ← field fields "asks" (some []) (Serde.vec (BookLevel.deserialize plain))
    let timestamp ← field fields "timestamp" (some none) (optText plain)
    pure (.book assetId bids asks timestamp)

def readPriceChange : Decoder MarketEvent :=
  Serde.struct ["price_changes", "timestamp"] fun fields => do
    let changes ← field fields "price_changes" none (Serde.vec (PriceChangeEntry.deserialize plain))
    let timestamp ← field fields "timestamp" (some none) (optText plain)
    pure (.priceChange changes timestamp)

def readTickSizeChange : Decoder MarketEvent :=
  Serde.struct ["asset_id", "new_tick_size"] fun fields => do
    let assetId ← field fields "asset_id" none (borrowed plain)
    let newTickSize ← field fields "new_tick_size" none (borrowed plain)
    pure (.tickSizeChange assetId newTickSize)

def readLastTradePrice : Decoder MarketEvent :=
  Serde.struct ["asset_id", "price", "size", "side", "timestamp"] fun fields => do
    let assetId ← field fields "asset_id" none (borrowed plain)
    let price ← field fields "price" none (borrowed plain)
    let size ← field fields "size" (some none) (optText plain)
    let side ← field fields "side" (some none) (optText plain)
    let timestamp ← field fields "timestamp" (some none) (optText plain)
    pure (.lastTradePrice assetId price size side timestamp)

/-- An event kind the crate does not know is no error. -/
def variant (kind : String) : Decoder MarketEvent :=
  if kind = "book" then readBook plain
  else if kind = "price_change" then readPriceChange plain
  else if kind = "tick_size_change" then readTickSizeChange plain
  else if kind = "last_trade_price" then readLastTradePrice plain
  else fun v => (Serde.unit v).map fun _ => .unknown

def MarketEvent.deserialize : Decoder MarketEvent := tagged "event_type" (variant plain)

end

/-- The libraries a frame is read with: `plain` tells which strings a frame spells without
escapes, `decimal` is the decimal library's `FromStr`. -/
structure FrameLibrary extends JsonLibrary where
  plain : String → String → Bool
  decimal : String → Option Decimal

/-! ## Owned events -/

structure BookLevelOwned where
  price : Decimal
  size : Decimal
  deriving DecidableEq

structure PriceChangeEntryOwned where
  assetId : String
  price : Decimal
  size : Decimal
  side : String
  bestBid : Option Decimal
  bestAsk : Option Decimal
  deriving DecidableEq

inductive MarketEventOwned where
  | book (assetId : String) (bids asks : List BookLevelOwned) (timestamp : Option Int)
  | priceChange (priceChanges : List PriceChangeEntryOwned) (timestamp : Option Int)
  | tickSizeChange (assetId : String) (newTickSize : Decimal)
  | lastTradePrice (assetId : String) (price : Decimal) (size : Option Decimal)
      (side : Option String) (timestamp : Option Int)
  | unknown
  deriving DecidableEq

def optMs (raw : Option String) : Option Int := raw.bind Text.readI64

section
variable (decimal : String → Option Decimal)

/-- `dec`. -/
def dec (raw name : String) : Except Error Decimal :=
  (decimal raw).elim (.error (.invalidData ("unparseable " ++ name ++ ": " ++ raw))) .ok

/-- `opt_dec`. -/
def optDec (raw : Option String) (name : String) : Except Error (Option Decimal) :=
  raw.elim (.ok none) fun r => (dec decimal r name).map some

/-- `lenient_dec`: an empty text means that there is no level. -/
def lenientDec (raw : String) : Option Decimal := decimal raw

def BookLevel.toOwned (l : BookLevel) : Except Error BookLevelOwned := do
  let price ← dec decimal l.price "book price"
  let size ← dec decimal l.size "book size"
  pure { price, size }

def PriceChangeEntry.toOwned (e : PriceChangeEntry) : Except Error PriceChangeEntryOwned := do
  let price ← dec decimal e.price "price_change price"
  let size ← dec decimal e.size "price_change size"
  pure
    { assetId := e.assetId
      price
      size
      side := e.side
      bestBid := lenientDec decimal e.bestBid
      bestAsk := lenientDec decimal e.bestAsk }

/-- `to_owned_event`. -/
def MarketEvent.toOwnedEvent : MarketEvent → Except Error MarketEventOwned
  | .book assetId bids asks timestamp => do
    let bids ← bids.mapM (BookLevel.toOwned decimal)
    let asks ← asks.mapM (BookLevel.toOwned decimal)
    pure (.book assetId bids asks (optMs timestamp))
  | .priceChange priceChanges timestamp => do
    let priceChanges ← priceChanges.mapM (PriceChangeEntry.toOwned decimal)
    pure (.priceChange priceChanges (optMs timestamp))
  | .tickSizeChange assetId newTickSize => do
    let newTickSize ← dec decimal newTickSize "new_tick_size"
    pure (.tickSizeChange assetId newTickSize)
  | .lastTradePrice assetId price size side timestamp => do
    let price ← dec decimal price "last_trade_price price"
    let size ← optDec decimal size "last_trade_price size"
    pure (.lastTradePrice assetId price size side (optMs timestamp))
  | .unknown => .ok .unknown

end

/-- `MarketStream::next_event`, given what `next_text` returns. -/
def nextEvent (lib : FrameLibrary) :
    Except Error (Option String) → Except Error (Option MarketEventOwned)
  | .error e => .error e
  | .ok none => .ok none
  | .ok (some text) =>
    match fromStr lib.toJsonLibrary (MarketEvent.deserialize (lib.plain text)) text with
    | .error e => .error (.invalidData ("market frame parse: " ++ e))
    | .ok event => (event.toOwnedEvent lib.decimal).map some

/-! ## What a frame says of the books -/

/-- A new size at a price; an unknown side says nothing about either ladder. -/
structure Change where
  token : String
  side : Option BookSide
  price : Rat
  size : Rat

inductive Notice where
  | book (token : String) (bids asks : List (Rat × Rat))
  | changes (entries : List Change)
  | other

def BookLevelOwned.level (l : BookLevelOwned) : Rat × Rat := (l.price.value, l.size.value)

def PriceChangeEntryOwned.bookSide (e : PriceChangeEntryOwned) : Option BookSide :=
  sideToBook e.side

def PriceChangeEntryOwned.change (e : PriceChangeEntryOwned) : Change :=
  ⟨e.assetId, e.bookSide, e.price.value, e.size.value⟩

def MarketEventOwned.notice : MarketEventOwned → Notice
  | .book assetId bids asks _ =>
    .book assetId (bids.map BookLevelOwned.level) (asks.map BookLevelOwned.level)
  | .priceChange priceChanges _ => .changes (priceChanges.map PriceChangeEntryOwned.change)
  | _ => .other

section
variable (plain : String → Bool) (decimal : String → Option Decimal)

/-- A member spells a number. -/
def Numeral (members : List (String × Value)) (name : String) (q : Rat) : Prop :=
  ∃ s d, Holds members name (.str s) ∧ plain s = true ∧ decimal s = some d ∧ d.value = q

def Spelled (members : List (String × Value)) (name s : String) : Prop :=
  Holds members name (.str s) ∧ plain s = true

/-- A member that may be missing or null. -/
def MaybeText (members : List (String × Value)) (name : String) : Prop :=
  Lacks members name ∨ Holds members name .null ∨ ∃ s, Spelled plain members name s

def CarriesLevel (v : Value) (level : Rat × Rat) : Prop :=
  ∃ members, v = .obj members ∧ Numeral plain decimal members "price" level.1 ∧
    Numeral plain decimal members "size" level.2

def CarriesLevels (members : List (String × Value)) (name : String)
    (levels : List (Rat × Rat)) : Prop :=
  (Lacks members name ∧ levels = []) ∨
    ∃ elems, Holds members name (.arr elems) ∧
      List.Forall₂ (CarriesLevel plain decimal) elems levels

/-- The best prices after the change need not be numbers. -/
def CarriesChange (v : Value) (c : Change) : Prop :=
  ∃ members side bid ask, v = .obj members ∧ Spelled plain members "asset_id" c.token ∧
    Numeral plain decimal members "price" c.price ∧ Numeral plain decimal members "size" c.size ∧
    Spelled plain members "side" side ∧ sideToBook side = c.side ∧
    Spelled plain members "best_bid" bid ∧ Spelled plain members "best_ask" ask

/-- An object with these members, in any order and among any others. -/
inductive Carries (members : List (String × Value)) : Notice → Prop
  | book {token : String} {bids asks : List (Rat × Rat)}
      (kind : Holds members "event_type" (.str "book"))
      (asset : Spelled plain members "asset_id" token)
      (bids_carried : CarriesLevels plain decimal members "bids" bids)
      (asks_carried : CarriesLevels plain decimal members "asks" asks)
      (timestamp : MaybeText plain members "timestamp") : Carries members (.book token bids asks)
  | changes {elems : List Value} {entries : List Change}
      (kind : Holds members "event_type" (.str "price_change"))
      (held : Holds members "price_changes" (.arr elems))
      (carried : List.Forall₂ (CarriesChange plain decimal) elems entries)
      (timestamp : MaybeText plain members "timestamp") : Carries members (.changes entries)
  | tick {token : String} {size : Rat}
      (kind : Holds members "event_type" (.str "tick_size_change"))
      (asset : Spelled plain members "asset_id" token)
      (numeral : Numeral plain decimal members "new_tick_size" size) : Carries members .other
  | trade {token : String} {price : Rat}
      (kind : Holds members "event_type" (.str "last_trade_price"))
      (asset : Spelled plain members "asset_id" token)
      (numeral : Numeral plain decimal members "price" price)
      (size : Lacks members "size" ∨ Holds members "size" .null ∨
        ∃ q, Numeral plain decimal members "size" q)
      (side : MaybeText plain members "side")
      (timestamp : MaybeText plain members "timestamp") : Carries members .other
  | unknown {name : String} (kind : Holds members "event_type" (.str name))
      (new : name ∉ ["book", "price_change", "tick_size_change", "last_trade_price"]) :
      Carries members .other

end

section
variable {plain : String → Bool} {decimal : String → Option Decimal}
  {members : List (String × Value)} {name tag : String}

/-! ## Reading what is carried -/

theorem borrowed_str {s : String} (h : plain s = true) : borrowed plain (.str s) = some s := by
  rw [borrowed, if_pos h]

theorem Spelled.field {s : String} (h : Spelled plain members name s) :
    field (ofMembers members) name none (borrowed plain) = some s :=
  (h.1.field none _).trans (borrowed_str h.2)

theorem Spelled.without {s : String} (h : Spelled plain members name s) (hne : name ≠ tag) :
    Spelled plain (members.filter fun member => member.1 ≠ tag) name s :=
  ⟨h.1.without hne, h.2⟩

theorem MaybeText.field (h : MaybeText plain members name) :
    ∃ text, Serde.field (ofMembers members) name (some none) (optText plain) = some text := by
  rcases h with hlacks | hnull | ⟨s, htext⟩
  · exact ⟨none, hlacks.field _ _⟩
  · exact ⟨none, hnull.field _ _⟩
  · refine ⟨some s, (htext.1.field _ _).trans ?_⟩
    show (borrowed plain (.str s)).map some = some (some s)
    rw [borrowed_str htext.2, Option.map_some]

theorem MaybeText.without (h : MaybeText plain members name) (hne : name ≠ tag) :
    MaybeText plain (members.filter fun member => member.1 ≠ tag) name := by
  rcases h with hlacks | hnull | ⟨s, htext⟩
  · exact .inl (hlacks.without hne)
  · exact .inr (.inl (hnull.without hne))
  · exact .inr (.inr ⟨s, htext.without hne⟩)

theorem dec_ok {s : String} {d : Decimal} (h : decimal s = some d) (what : String) :
    dec decimal s what = .ok d := by
  rw [dec, h]
  rfl

/-- Elements that each carry something are read, converted and carry it still. -/
theorem mapM_carried {α β γ : Type} {R : Value → γ → Prop} {decode : Decoder α}
    {convert : α → Except Error β} {view : β → γ}
    (hread : ∀ v c, R v c → ∃ a b, decode v = some a ∧ convert a = .ok b ∧ view b = c)
    {elems : List Value} {cs : List γ} (h : List.Forall₂ R elems cs) :
    ∃ as bs, elems.mapM decode = some as ∧ as.mapM convert = .ok bs ∧ bs.map view = cs := by
  induction h with
  | nil => exact ⟨[], [], rfl, rfl, rfl⟩
  | cons hv _ ih =>
    obtain ⟨a, b, hdecode, hconvert, hview⟩ := hread _ _ hv
    obtain ⟨as, bs, hdecodes, hconverts, hviews⟩ := ih
    refine ⟨a :: as, b :: bs, ?_, ?_, ?_⟩
    · rw [List.mapM_cons, hdecode, hdecodes]
      rfl
    · rw [List.mapM_cons, hconvert, hconverts]
      rfl
    · rw [List.map_cons, hview, hviews]

theorem CarriesLevel.read {v : Value} {level : Rat × Rat}
    (h : CarriesLevel plain decimal v level) :
    ∃ l owned, BookLevel.deserialize plain v = some l ∧ l.toOwned decimal = .ok owned ∧
      owned.level = level := by
  obtain ⟨members, rfl, ⟨p, dp, hp, hpplain, hdp, hprice⟩, ⟨s, ds, hs, hsplain, hds, hsize⟩⟩ := h
  refine ⟨⟨p, s⟩, ⟨dp, ds⟩, ?_, ?_, Prod.ext hprice hsize⟩
  · rw [BookLevel.deserialize, Serde.struct, Spelled.field ⟨hp, hpplain⟩, Spelled.field ⟨hs, hsplain⟩]
    rfl
  · rw [BookLevel.toOwned, dec_ok hdp, dec_ok hds]
    rfl

theorem CarriesChange.read {v : Value} {c : Change} (h : CarriesChange plain decimal v c) :
    ∃ e owned, PriceChangeEntry.deserialize plain v = some e ∧ e.toOwned decimal = .ok owned ∧
      owned.change = c := by
  obtain ⟨members, side, bid, ask, rfl, hasset, ⟨p, dp, hp, hpplain, hdp, hprice⟩,
    ⟨s, ds, hs, hsplain, hds, hsize⟩, hside, hbook, hbid, hask⟩ := h
  refine ⟨⟨c.token, p, s, side, bid, ask⟩,
    ⟨c.token, dp, ds, side, lenientDec decimal bid, lenientDec decimal ask⟩, ?_, ?_, ?_⟩
  · rw [PriceChangeEntry.deserialize, Serde.struct, hasset.field, Spelled.field ⟨hp, hpplain⟩,
      Spelled.field ⟨hs, hsplain⟩, hside.field, hbid.field, hask.field]
    rfl
  · rw [PriceChangeEntry.toOwned, dec_ok hdp, dec_ok hds]
    rfl
  · show Change.mk c.token (sideToBook side) dp.value ds.value = c
    rw [hbook, hprice, hsize]

theorem CarriesLevels.without {levels : List (Rat × Rat)}
    (h : CarriesLevels plain decimal members name levels) (hne : name ≠ tag) :
    CarriesLevels plain decimal (members.filter fun member => member.1 ≠ tag) name levels := by
  rcases h with ⟨hlacks, hnil⟩ | ⟨elems, helems, hall⟩
  · exact .inl ⟨hlacks.without hne, hnil⟩
  · exact .inr ⟨elems, helems.without hne, hall⟩

theorem CarriesLevels.read {levels : List (Rat × Rat)}
    (h : CarriesLevels plain decimal members name levels) :
    ∃ ls owned,
      field (ofMembers members) name (some []) (Serde.vec (BookLevel.deserialize plain)) = some ls ∧
      ls.mapM (BookLevel.toOwned decimal) = .ok owned ∧ owned.map BookLevelOwned.level = levels := by
  rcases h with ⟨hlacks, rfl⟩ | ⟨elems, helems, hall⟩
  · exact ⟨[], [], hlacks.field _ _, rfl, rfl⟩
  · obtain ⟨ls, owned, hdecode, hconvert, hview⟩ :=
      mapM_carried (fun _ _ hlevel => CarriesLevel.read hlevel) hall
    exact ⟨ls, owned, (helems.field _ _).trans hdecode, hconvert, hview⟩

/-- A frame that carries a notice is read as an event that says it. -/
theorem Carries.read {notice : Notice} (h : Carries plain decimal members notice) :
    ∃ event owned, MarketEvent.deserialize plain (.obj members) = some event ∧
      event.toOwnedEvent decimal = .ok owned ∧ owned.notice = notice := by
  cases h with
  | @book token bids asks kind asset hbids hasks timestamp =>
    obtain ⟨ls, lowned, hls, hlconvert, hlview⟩ :=
      CarriesLevels.read (hbids.without (by decide : "bids" ≠ "event_type"))
    obtain ⟨rs, rowned, hrs, hrconvert, hrview⟩ :=
      CarriesLevels.read (hasks.without (by decide : "asks" ≠ "event_type"))
    obtain ⟨text, htext⟩ := (timestamp.without (by decide : "timestamp" ≠ "event_type")).field
    refine ⟨.book token ls rs text, .book token lowned rowned (optMs text), ?_, ?_, ?_⟩
    · rw [MarketEvent.deserialize, tagged_of_holds kind, variant, if_pos rfl, readBook, Serde.struct,
        (asset.without (by decide : "asset_id" ≠ "event_type")).field, hls, hrs, htext]
      rfl
    · rw [MarketEvent.toOwnedEvent, hlconvert, hrconvert]
      rfl
    · rw [MarketEventOwned.notice, hlview, hrview]
  | @changes elems entries kind held carried timestamp =>
    obtain ⟨es, eowned, hdecode, hconvert, hview⟩ :=
      mapM_carried (fun _ _ hchange => CarriesChange.read hchange) carried
    obtain ⟨text, htext⟩ := (timestamp.without (by decide : "timestamp" ≠ "event_type")).field
    refine ⟨.priceChange es text, .priceChange eowned (optMs text), ?_, ?_, ?_⟩
    · rw [MarketEvent.deserialize, tagged_of_holds kind, variant, if_neg (by decide), if_pos rfl,
        readPriceChange, Serde.struct,
        (held.without (by decide : "price_changes" ≠ "event_type")).field, htext]
      show (elems.mapM (PriceChangeEntry.deserialize plain)).bind _ = _
      rw [hdecode]
      rfl
    · rw [MarketEvent.toOwnedEvent, hconvert]
      rfl
    · rw [MarketEventOwned.notice, hview]
  | @tick token size kind asset numeral =>
    obtain ⟨s, d, hs, hplain, hd, -⟩ := numeral
    refine ⟨.tickSizeChange token s, .tickSizeChange token d, ?_, ?_, rfl⟩
    · rw [MarketEvent.deserialize, tagged_of_holds kind, variant, if_neg (by decide),
        if_neg (by decide), if_pos rfl, readTickSizeChange, Serde.struct,
        (asset.without (by decide : "asset_id" ≠ "event_type")).field,
        Spelled.field ⟨hs.without (by decide : "new_tick_size" ≠ "event_type"), hplain⟩]
      rfl
    · rw [MarketEvent.toOwnedEvent, dec_ok hd]
      rfl
  | @trade token price kind asset numeral size side timestamp =>
    obtain ⟨s, d, hs, hplain, hd, -⟩ := numeral
    obtain ⟨sideText, hside⟩ := (side.without (by decide : "side" ≠ "event_type")).field
    obtain ⟨text, htext⟩ := (timestamp.without (by decide : "timestamp" ≠ "event_type")).field
    obtain ⟨raw, sizeOwned, hraw, hsize⟩ : ∃ raw sizeOwned,
        field (ofMembers (members.filter fun member => member.1 ≠ "event_type")) "size" (some none)
          (optText plain) = some raw ∧
        optDec decimal raw "last_trade_price size" = .ok sizeOwned := by
      rcases size with hlacks | hnull | ⟨q, r, dr, hr, hrplain, hdr, -⟩
      · exact ⟨none, none, (hlacks.without (by decide)).field _ _, rfl⟩
      · exact ⟨none, none, (hnull.without (by decide)).field _ _, rfl⟩
      · refine ⟨some r, some dr, ((hr.without (by decide)).field _ _).trans ?_, ?_⟩
        · show (borrowed plain (.str r)).map some = some (some r)
          rw [borrowed_str hrplain, Option.map_some]
        · show (dec decimal r _).map some = _
          rw [dec_ok hdr]
          rfl
    refine ⟨.lastTradePrice token s raw sideText text,
      .lastTradePrice token d sizeOwned sideText (optMs text), ?_, ?_, rfl⟩
    · rw [MarketEvent.deserialize, tagged_of_holds kind, variant, if_neg (by decide),
        if_neg (by decide), if_neg (by decide), if_pos rfl, readLastTradePrice, Serde.struct,
        (asset.without (by decide : "asset_id" ≠ "event_type")).field,
        Spelled.field ⟨hs.without (by decide : "price" ≠ "event_type"), hplain⟩, hraw, hside, htext]
      rfl
    · rw [MarketEvent.toOwnedEvent, dec_ok hd, hsize]
      rfl
  | @unknown name kind new =>
    simp only [List.mem_cons, List.not_mem_nil, or_false, not_or] at new
    refine ⟨.unknown, .unknown, ?_, rfl, rfl⟩
    rw [MarketEvent.deserialize, tagged_of_holds kind, variant, if_neg new.1, if_neg new.2.1,
      if_neg new.2.2.1, if_neg new.2.2.2]
    rfl

end

end Eggplant.Ws.Market
