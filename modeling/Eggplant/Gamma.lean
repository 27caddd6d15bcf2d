import Eggplant.Lib.Percent

/-!
# Gamma URLs

The values of a query are percent-encoded byte by byte into a buffer that already holds
the rest of the URL.
-/
namespace Eggplant.Gamma

set_option autoImplicit false

open Eggplant.Lib Eggplant.Lib.Text Eggplant.Lib.Percent

/-- `HEX`; both of its indices are nibbles. -/
def hex : List Char := "0123456789ABCDEF".toList

/-- The bytes that are pushed as they are. -/
def plainByte (byte : UInt8) : Bool :=
  ('A'.toUInt8 ≤ byte && byte ≤ 'Z'.toUInt8) || ('a'.toUInt8 ≤ byte && byte ≤ 'z'.toUInt8) ||
    ('0'.toUInt8 ≤ byte && byte ≤ '9'.toUInt8) || byte == '-'.toUInt8 || byte == '_'.toUInt8 ||
    byte == '.'.toUInt8 || byte == '~'.toUInt8

/-- One turn of the loop. -/
def pushByte (out : String) (byte : UInt8) : String :=
  if plainByte byte then out.push (Char.ofNat byte.toNat)
  else
    let out := out.push '%'
    let out := out.push (hex.getD (byte >>> 4).toNat '0')
    out.push (hex.getD (byte &&& 0x0F).toNat '0')

def urlEncodeInto (s out : String) : String := (utf8 s).foldl pushByte out

structure GammaClient where
  baseUrl : String

namespace GammaClient

/-- An optional value behind its key, `key` being `&name=`. -/
def pushValue (key : String) (value : Option String) (url : String) : String :=
  match value with
  | some v => urlEncodeInto v (url ++ key)
  | none => url

/-- The URL `fetch_keyset_page` asks for. -/
def keysetUrl (client : GammaClient) (cursor : Option String) (limit : UInt32)
    (tagSlug : Option String) : String :=
  let url := client.baseUrl ++ "/events/keyset?limit=" ++ limit.toNat.repr ++ "&closed=false"
  let url := pushValue "&after_cursor=" cursor url
  pushValue "&tag_slug=" tagSlug url

/-- The URL `fetch_events_by_slug` asks for. -/
def eventsBySlugUrl (client : GammaClient) (slug : String) : String :=
  urlEncodeInto slug (client.baseUrl ++ "/events?slug=")

/-- What a keyset page is asked for, an absent cursor or tag left out. -/
def keysetParams (cursor : Option String) (limit : UInt32) (tagSlug : Option String) :
    List (String × String) :=
  [("limit", limit.toNat.repr), ("closed", "false")] ++
    (cursor.toList.map ("after_cursor", ·) ++ tagSlug.toList.map ("tag_slug", ·))

end GammaClient

/-! ## The encoder -/

theorem plainByte_iff (byte : UInt8) :
    plainByte byte = true ↔ Unreserved (Char.ofNat byte.toNat) := by
  have hall : ∀ n : Fin 256,
      plainByte (UInt8.ofNat n.val) = true ↔ Unreserved (Char.ofNat n.val) := by
    decide +kernel
  have hbyte := hall ⟨byte.toNat, byte.toNat_lt⟩
  rwa [UInt8.ofNat_toNat] at hbyte

theorem hex_shift (byte : UInt8) :
    hex.getD (byte >>> 4).toNat '0' = upperHexDigit (byte.toNat / 16) := by
  have hshift : (byte >>> 4).toNat = byte.toNat / 16 := by
    rw [UInt8.toNat_shiftRight, Nat.shiftRight_eq_div_pow]
    rfl
  rw [hshift]
  rfl

theorem hex_mask (byte : UInt8) :
    hex.getD (byte &&& 0x0F).toNat '0' = upperHexDigit (byte.toNat % 16) := by
  have hmask : (byte &&& 0x0F).toNat = byte.toNat % 16 := by
    rw [UInt8.toNat_and]
    exact Nat.and_two_pow_sub_one_eq_mod byte.toNat 4
  rw [hmask]
  rfl

theorem pushByte_toList (out : String) (byte : UInt8) :
    (pushByte out byte).toList = out.toList ++ encodeByte byte := by
  unfold pushByte encodeByte
  by_cases hplain : plainByte byte = true
  · rw [if_pos hplain, if_pos ((plainByte_iff byte).mp hplain), String.toList_push]
  · rw [if_neg hplain, if_neg fun h => hplain ((plainByte_iff byte).mpr h), hex_shift, hex_mask]
    simp only [String.toList_push, List.append_assoc, List.cons_append, List.nil_append]

/-- The loop appends the encoding of the bytes it went through. -/
theorem foldl_pushByte_toList (bs : Words.Bytes) (out : String) :
    (bs.foldl pushByte out).toList = out.toList ++ percentEncode bs := by
  induction bs generalizing out with
  | nil => simp [percentEncode]
  | cons b bs ih =>
    rw [List.foldl_cons, ih, pushByte_toList, List.append_assoc]
    rfl

theorem urlEncodeInto_toList (s out : String) :
    (urlEncodeInto s out).toList = out.toList ++ percentEncode (utf8 s) :=
  foldl_pushByte_toList (utf8 s) out

/-- What is appended, whatever is already in the buffer. -/
theorem toList_of_urlEncodeInto {s out text : String} (h : urlEncodeInto s out = out ++ text) :
    text.toList = percentEncode (utf8 s) := by
  have hlist := congrArg String.toList h
  rw [urlEncodeInto_toList, String.toList_append] at hlist
  exact (List.append_cancel_left hlist).symm

theorem urlEncodeInto_eq (s out : String) :
    urlEncodeInto s out = out ++ String.ofList (percentEncode (utf8 s)) := by
  apply String.toList_inj.mp
  rw [urlEncodeInto_toList, String.toList_append, String.toList_ofList]

example : urlEncodeInto "abc-DEF_1.2~" "" = "abc-DEF_1.2~" ∧
    urlEncodeInto "a b/c?d=e" "" = "a%20b%2Fc%3Fd%3De" := by decide

/-! ## Its callers -/

namespace GammaClient

theorem pushValue_toList (key name : String) (hkey : key.toList = '&' :: (name.toList ++ ['=']))
    (value : Option String) (url : String) :
    (pushValue key value url).toList =
      url.toList ++ (value.toList.map (name, ·)).flatMap fun pair => '&' :: pieceOf pair := by
  cases value with
  | none => simp [pushValue]
  | some v =>
    rw [pushValue, urlEncodeInto_toList, String.toList_append, hkey]
    simp [pieceOf, UrlQuery.piece]

/-- The names are words of letters and underscores. -/
theorem keysetParams_unreserved (cursor : Option String) (limit : UInt32)
    (tagSlug : Option String) :
    ∀ pair ∈ keysetParams cursor limit tagSlug, ∀ c ∈ pair.1.toList, Unreserved c := by
  have hall : ∀ name ∈ ["limit", "closed", "after_cursor", "tag_slug"],
      ∀ c ∈ name.toList, Unreserved c := by simp [Unreserved]
  intro pair hpair
  apply hall pair.1
  rcases List.mem_append.mp hpair with hfixed | hset
  · have hmem : pair.1 ∈ ["limit", "closed"] := List.mem_map_of_mem (f := Prod.fst) hfixed
    exact List.mem_append_left ["after_cursor", "tag_slug"] hmem
  · rcases List.mem_append.mp hset with hcursor | htag
    · obtain ⟨value, -, rfl⟩ := List.mem_map.mp hcursor
      simp
    · obtain ⟨value, -, rfl⟩ := List.mem_map.mp htag
      simp

/-- The parts that are spliced in unencoded are their own encoding. -/
theorem keyset_head_toList (limit : UInt32) :
    ("limit=" ++ limit.toNat.repr ++ "&closed=false").toList =
      queryOf [("limit", limit.toNat.repr), ("closed", "false")] := by
  have hlimit : percentEncode (utf8 limit.toNat.repr) = limit.toNat.repr.toList := by
    rw [← UrlQuery.encode_toList]
    exact percentEncode_encode fun c hc => unreserved_of_isDigit (isDigit_of_mem_repr hc)
  have hclosed : percentEncode (utf8 "false") = "false".toList := by decide +kernel
  simp [queryOf, pieceOf, UrlQuery.piece, hlimit, hclosed]

theorem keysetUrl_eq (client : GammaClient) (cursor : Option String) (limit : UInt32)
    (tagSlug : Option String) :
    client.keysetUrl cursor limit tagSlug = client.baseUrl ++ "/events/keyset" ++ "?" ++
      String.ofList (queryOf (keysetParams cursor limit tagSlug)) := by
  have hhead := keyset_head_toList limit
  have hpath : "/events/keyset?limit=".toList =
      "/events/keyset".toList ++ ("?".toList ++ "limit=".toList) := by decide
  apply String.toList_inj.mp
  rw [keysetUrl, pushValue_toList "&tag_slug=" "tag_slug" rfl,
    pushValue_toList "&after_cursor=" "after_cursor" rfl, keysetParams, queryOf_append (by simp),
    ← hhead, List.flatMap_append]
  simp only [String.toList_append, String.toList_ofList, hpath, List.append_assoc]

theorem eventsBySlugUrl_eq (client : GammaClient) (slug : String) :
    client.eventsBySlugUrl slug =
      client.baseUrl ++ "/events" ++ "?" ++ String.ofList (queryOf [("slug", slug)]) := by
  apply String.toList_inj.mp
  rw [eventsBySlugUrl, urlEncodeInto_toList]
  simp [queryOf, pieceOf, UrlQuery.piece]

theorem keysetUrl_asks (client : GammaClient) (cursor : Option String) (limit : UInt32)
    (tagSlug : Option String) :
    Asks (client.keysetUrl cursor limit tagSlug) (client.baseUrl ++ "/events/keyset")
      (keysetParams cursor limit tagSlug) := by
  rw [keysetUrl_eq]
  exact asks_queryOf _ _ (keysetParams_unreserved cursor limit tagSlug)

theorem eventsBySlugUrl_asks (client : GammaClient) (slug : String) :
    Asks (client.eventsBySlugUrl slug) (client.baseUrl ++ "/events") [("slug", slug)] := by
  have hname : ∀ c ∈ "slug".toList, Unreserved c := by simp [Unreserved]
  rw [eventsBySlugUrl_eq]
  exact asks_queryOf _ _ (List.forall_mem_singleton.mpr hname)

end GammaClient

/-- What is appended is percent-encoded and decodes to the string it came from, so no two
strings look alike and each value the client writes is one value of its query. -/
theorem urlEncodeInto_roundTrip :
    (∀ s out : String, ∃ text : String, urlEncodeInto s out = out ++ text ∧
      PercentEncoded text.toList ∧ percentDecode text.toList = utf8 s) ∧
    (∀ s s' out out' text : String, urlEncodeInto s out = out ++ text →
      urlEncodeInto s' out' = out' ++ text → s = s') ∧
    (∀ (client : GammaClient) (cursor : Option String) (limit : UInt32)
      (tagSlug : Option String),
      Asks (client.keysetUrl cursor limit tagSlug) (client.baseUrl ++ "/events/keyset")
        (GammaClient.keysetParams cursor limit tagSlug)) ∧
    (∀ (client : GammaClient) (slug : String),
      Asks (client.eventsBySlugUrl slug) (client.baseUrl ++ "/events") [("slug", slug)]) := by
  refine ⟨?_, ?_, GammaClient.keysetUrl_asks, GammaClient.eventsBySlugUrl_asks⟩
  · intro s out
    refine ⟨String.ofList (percentEncode (utf8 s)), urlEncodeInto_eq s out, ?_, ?_⟩
    · rw [String.toList_ofList]
      exact percentEncoded_percentEncode (utf8 s)
    · rw [String.toList_ofList]
      exact percentDecode_percentEncode (utf8 s)
  · intro s s' out out' text h h'
    have hsame : percentEncode (utf8 s) = percentEncode (utf8 s') :=
      (toList_of_urlEncodeInto h).symm.trans (toList_of_urlEncodeInto h')
    have hbytes := congrArg percentDecode hsame
    rw [percentDecode_percentEncode, percentDecode_percentEncode] at hbytes
    exact utf8_injective hbytes

/-- Text that already looks encoded does not append what it looks like. -/
theorem urlEncodeInto_roundTrip_space : urlEncodeInto "a b" "q=" = "q=" ++ "a%20b" ∧
    urlEncodeInto "a%20b" "" ≠ "" ++ "a%20b" := by
  have hspace : urlEncodeInto "a b" "q=" = "q=" ++ "a%20b" := by decide
  refine ⟨hspace, fun h => ?_⟩
  have hsame := urlEncodeInto_roundTrip.2.1 "a b" "a%20b" "q=" "" "a%20b" hspace h
  exact absurd hsame (by decide)

end Eggplant.Gamma
