import EspAdf.Ports.JsonUtils

/-!
# `baidu_access_token.c`: the response buffer

`baidu_get_access_token` reads the response of the server into a block of
`max_len` bytes until nothing more is read.  It asks for as much as there is
room for, and writes a zero behind what it has read so far.

`readLoop_terminated_iff` says which responses leave room for the zero.
-/

namespace EspAdf.Ports.BaiduAccessToken

open EspAdf.Verified
open EspAdf.Verified.CString
open EspAdf.Verified.JsonText
open EspAdf.Ports.JsonUtils

/-! ## Data -/

/-- `max_len`. -/
def MAX_LEN : Nat := 2 * 1024

/-- What `esp_http_client_read` returns, and the bytes it has read. -/
structure HttpRead where
  readLen : Int
  bytes : List UInt8
  length_bytes : bytes.length = readLen.toNat
  deriving DecidableEq

/-- `data`, `read_index` and `total_len`, and the offsets of `data` that have
been written. -/
structure Response where
  data : List UInt8
  readIndex : Nat
  totalLen : Nat
  writes : List Nat
  deriving DecidableEq

def Response.start (data : List UInt8) : Response := ⟨data, 0, 0, []⟩

/-! ## The loop -/

/-- A round that reads something: the bytes, and the zero behind them. -/
def Response.receive (s : Response) (r : HttpRead) : Response :=
  let readIndex := s.readIndex + r.readLen.toNat
  { data := (store s.data s.readIndex r.bytes).set readIndex 0
    readIndex
    totalLen := s.totalLen + r.readLen.toNat
    writes := s.writes ++
      (List.range' s.readIndex r.readLen.toNat ++ [readIndex]) }

/-- The loop, by the results of `esp_http_client_read`; `none` while it waits
for one more. -/
def readLoop : List HttpRead → Response → Option Response
  | [], _ => none
  | r :: rest, s =>
      if r.readLen ≤ 0 then some s else readLoop rest (s.receive r)

/-- Every result is at most the length that is asked for, which is the room
that is left. -/
def Fits (room : Nat) : List HttpRead → Prop
  | [] => True
  | r :: rest =>
      r.readLen ≤ room ∧
        (r.readLen ≤ 0 ∨ Fits (room - r.readLen.toNat) rest)

/-- The bytes that are read before the first result that is not positive. -/
def response : List HttpRead → List UInt8
  | [] => []
  | r :: rest => if r.readLen ≤ 0 then [] else r.bytes ++ response rest

/-! ## What a round keeps -/

/-- The block after `got` has been read into it. -/
structure Filled (data got : List UInt8) (s : Response) : Prop where
  size : s.data.length = MAX_LEN
  room : got.length ≤ MAX_LEN
  index : s.readIndex = got.length
  total : s.totalLen = got.length
  taken : s.data.take got.length = got
  start : got = [] → s = .start data
  ended : got ≠ [] → got.length < MAX_LEN → s.data[got.length]? = some 0
  writes : ∀ w ∈ s.writes, w ≤ got.length
  wrote : got ≠ [] → got.length ∈ s.writes

variable {data got : List UInt8} {s : Response}

theorem Filled.of_start (h : data.length = MAX_LEN) :
    Filled data [] (.start data) where
  size := h
  room := Nat.zero_le _
  index := rfl
  total := rfl
  taken := rfl
  start _ := rfl
  ended h := absurd rfl h
  writes := by simp [Response.start]
  wrote h := absurd rfl h

theorem Filled.receive (h : Filled data got s) {r : HttpRead}
    (hpos : 0 < r.readLen) (hroom : r.readLen ≤ (MAX_LEN - got.length : Nat)) :
    Filled data (got ++ r.bytes) (s.receive r) := by
  have hlen := r.length_bytes
  have hgot := h.room
  have hbytes : 0 < r.bytes.length := by omega
  have hne : r.bytes ≠ [] := List.ne_nil_of_length_pos hbytes
  have hfit : got.length + r.bytes.length ≤ MAX_LEN := by omega
  have hnew : (got ++ r.bytes).length = got.length + r.bytes.length :=
    List.length_append
  have hindex : s.readIndex + r.readLen.toNat =
      got.length + r.bytes.length := by
    rw [h.index, hlen]
  have hstore : (store s.data s.readIndex r.bytes).length = MAX_LEN := by
    rw [length_store (by rw [h.index, h.size]; exact hfit), h.size]
  constructor
  case size => rw [Response.receive, List.length_set, hstore]
  case room => omega
  case index => rw [hnew, ← hindex, Response.receive]
  case total => rw [Response.receive, hnew, hlen, ← h.total]
  case taken =>
    rw [Response.receive, hindex, hnew, List.take_set_of_le (Nat.le_refl _),
      h.index, take_store (by rw [h.size]; exact hgot), h.taken]
  case start => exact fun hnil => absurd (List.append_eq_nil_iff.mp hnil).2 hne
  case ended =>
    intro _ hlt
    rw [Response.receive, hindex, hnew, List.getElem?_set_self]
    rw [hstore]
    omega
  case writes =>
    intro w hw
    rw [Response.receive, hindex, h.index, ← hlen] at hw
    simp only [List.mem_append, List.mem_range'_1, List.mem_singleton] at hw
    rcases hw with hold | hread | rfl
    · have := h.writes w hold
      omega
    · omega
    · omega
  case wrote =>
    intro _
    rw [Response.receive, hindex, hnew]
    simp

/-- The loop ends, and has read the response. -/
theorem Filled.readLoop (h : Filled data got s) {rs : List HttpRead}
    (hfits : Fits (MAX_LEN - got.length) rs)
    (hends : ∃ r ∈ rs, r.readLen ≤ 0) :
    ∃ s', readLoop rs s = some s' ∧ Filled data (got ++ response rs) s' := by
  induction rs generalizing s got with
  | nil =>
      obtain ⟨r, hr, -⟩ := hends
      exact absurd hr List.not_mem_nil
  | cons r rest ih =>
      rw [BaiduAccessToken.readLoop, response]
      by_cases hstop : r.readLen ≤ 0
      · rw [if_pos hstop, if_pos hstop, List.append_nil]
        exact ⟨s, rfl, h⟩
      · rw [if_neg hstop, if_neg hstop, ← List.append_assoc]
        obtain ⟨hroom, hrest⟩ := hfits
        refine ih (h.receive (by omega) hroom) ?_ ?_
        · have hlen := r.length_bytes
          have hleft : MAX_LEN - (got ++ r.bytes).length =
              MAX_LEN - got.length - r.readLen.toNat := by
            rw [List.length_append]
            omega
          rw [hleft]
          exact hrest.resolve_left hstop
        · obtain ⟨r', hr', hle⟩ := hends
          rcases List.mem_cons.mp hr' with rfl | hmem
          · exact absurd hle hstop
          · exact ⟨r', hmem, hle⟩

/-- A block can be asked for once for every byte and once more. -/
theorem Fits.ends {room : Nat} {rs : List HttpRead} (hfits : Fits room rs)
    (hlength : room < rs.length) : ∃ r ∈ rs, r.readLen ≤ 0 := by
  induction rs generalizing room with
  | nil => exact absurd hlength (Nat.not_lt_zero _)
  | cons r rest ih =>
      obtain ⟨hroom, hrest⟩ := hfits
      by_cases hstop : r.readLen ≤ 0
      · exact ⟨r, List.mem_cons_self, hstop⟩
      · rw [List.length_cons] at hlength
        obtain ⟨r', hr', hle⟩ := ih (hrest.resolve_left hstop) (by omega)
        exact ⟨r', List.mem_cons_of_mem r hr', hle⟩

/-- Whatever the server sends, the loop ends. -/
theorem readLoop_returns {rs : List HttpRead} (hdata : data.length = MAX_LEN)
    (hfits : Fits MAX_LEN rs) (hlength : MAX_LEN < rs.length) :
    ∃ s, readLoop rs (.start data) = some s := by
  obtain ⟨s, hs, -⟩ := (Filled.of_start hdata).readLoop hfits
    (hfits.ends hlength)
  exact ⟨s, hs⟩

/-- A response that fills the block has its zero written behind the block. -/
theorem readLoop_overruns {rs : List HttpRead} (hdata : data.length = MAX_LEN)
    (hfits : Fits MAX_LEN rs) (hends : ∃ r ∈ rs, r.readLen ≤ 0)
    (hfull : (response rs).length = MAX_LEN) :
    ∃ s, readLoop rs (.start data) = some s ∧ MAX_LEN ∈ s.writes := by
  obtain ⟨s, hs, hfilled⟩ := (Filled.of_start hdata).readLoop hfits hends
  rw [List.nil_append] at hfilled
  have hne : response rs ≠ [] := by
    intro hnil
    rw [hnil] at hfull
    exact absurd hfull (by decide)
  exact ⟨s, hs, hfull ▸ hfilled.wrote hne⟩

/-- A response that is read in one piece. -/
def oneRead (bytes : List UInt8) : List HttpRead :=
  [⟨bytes.length, bytes, rfl⟩, ⟨0, [], rfl⟩]

theorem fits_oneRead {bytes : List UInt8} (h : bytes.length ≤ MAX_LEN) :
    Fits MAX_LEN (oneRead bytes) :=
  ⟨Int.ofNat_le.mpr h, .inr ⟨Int.natCast_nonneg _, .inl (Int.le_refl 0)⟩⟩

theorem ends_oneRead (bytes : List UInt8) :
    ∃ r ∈ oneRead bytes, r.readLen ≤ 0 :=
  ⟨⟨0, [], rfl⟩, by simp [oneRead], Int.le_refl 0⟩

theorem response_oneRead (bytes : List UInt8) :
    response (oneRead bytes) = bytes := by
  cases bytes with
  | nil => rfl
  | cons c bytes => simp [oneRead, response]

/-- The loop ends, has written in the block only, and leaves a zero behind
what it has read. -/
def Terminated (data : List UInt8) (rs : List HttpRead) : Prop :=
  ∃ s, readLoop rs (.start data) = some s ∧ (∀ w ∈ s.writes, w < MAX_LEN) ∧
    s.data[s.totalLen]? = some 0

/-- **Room for the zero.** -/
theorem readLoop_terminated_iff {rs : List HttpRead}
    (hdata : data.length = MAX_LEN) (hfits : Fits MAX_LEN rs)
    (hends : ∃ r ∈ rs, r.readLen ≤ 0) :
    Terminated data rs ↔
      (response rs).length < MAX_LEN ∧
        (response rs = [] → data[0]? = some 0) := by
  obtain ⟨s, hs, hfilled⟩ := (Filled.of_start hdata).readLoop hfits hends
  rw [List.nil_append] at hfilled
  constructor
  · rintro ⟨s', hs', hwrites, hzero⟩
    obtain rfl : s = s' := Option.some.inj (hs.symm.trans hs')
    by_cases hnil : response rs = []
    · refine ⟨by rw [hnil]; decide, fun _ => ?_⟩
      rwa [hfilled.start hnil] at hzero
    · exact ⟨hwrites _ (hfilled.wrote hnil), fun h => absurd h hnil⟩
  · rintro ⟨hlt, hfirst⟩
    refine ⟨s, hs, fun w hw => Nat.lt_of_le_of_lt (hfilled.writes w hw) hlt, ?_⟩
    by_cases hnil : response rs = []
    · rw [hfilled.start hnil]
      exact hfirst hnil
    · rw [hfilled.total]
      exact hfilled.ended hnil hlt

/-- `{}`. -/
theorem terminated_short :
    Terminated (List.replicate MAX_LEN 255) (oneRead [123, 125]) :=
  (readLoop_terminated_iff List.length_replicate (fits_oneRead (by decide))
    (ends_oneRead _)).mpr ⟨by decide, by decide⟩

/-- Blanks, as many as there is room for. -/
theorem not_terminated_full :
    Fits MAX_LEN (oneRead (List.replicate MAX_LEN 32)) ∧
      (∃ r ∈ oneRead (List.replicate MAX_LEN 32), r.readLen ≤ 0) ∧
      ¬Terminated (List.replicate MAX_LEN 0)
        (oneRead (List.replicate MAX_LEN 32)) := by
  have hfits : Fits MAX_LEN (oneRead (List.replicate MAX_LEN 32)) :=
    fits_oneRead (Nat.le_of_eq List.length_replicate)
  have hends := ends_oneRead (List.replicate MAX_LEN 32)
  refine ⟨hfits, hends, ?_⟩
  rintro ⟨s, hs, hwrites, -⟩
  obtain ⟨s', hs', hover⟩ := readLoop_overruns List.length_replicate hfits
    hends (by rw [response_oneRead, List.length_replicate])
  obtain rfl : s = s' := Option.some.inj (hs.symm.trans hs')
  exact Nat.lt_irrefl _ (hwrites _ hover)

/-! ## `baidu_get_access_token` -/

/-- `"access_token"`. -/
def ACCESS_TOKEN : List UInt8 :=
  [97, 99, 99, 101, 115, 115, 95, 116, 111, 107, 101, 110]

/-- Whether there is memory for the URL, whether the client is there and can
be opened, and the block that `malloc` finds for the response. -/
structure Setup where
  url : Bool
  httpClient : Bool
  opened : Bool
  data : Option (List UInt8)

/-- `baidu_get_access_token`; `none` while it reads. -/
def baiduGetAccessToken
    (jsmnParse : List UInt8 → Nat → Int × List JsmnTok) (memory : Int → Bool)
    (setup : Setup) (reads : List HttpRead) : Option Lookup :=
  if !setup.url then some .null
  else if !setup.httpClient then some .null
  else if !setup.opened then some .null
  else
    match setup.data with
    | none => some .null
    | some data =>
        (readLoop reads (.start data)).map fun s =>
          if s.totalLen ≤ 0 then .null
          else
            jsonGetTokenValue jsmnParse memory s.data (ACCESS_TOKEN ++ [0])

variable {jsmnParse : List UInt8 → Nat → Int × List JsmnTok}
  {memory : Int → Bool} {setup : Setup} {rs : List HttpRead} {doc : Document}
  {pad : Blanks} {members : Members}

/-- A block that holds a text and has room for its zero is a string. -/
theorem Filled.cString {text : List UInt8} (h : Filled data text s)
    (hne : text ≠ []) (hlt : text.length < MAX_LEN) (h0 : 0 ∉ text) :
    CString.cString s.data = text := by
  obtain ⟨hlen, hzero⟩ := List.getElem?_eq_some_iff.mp (h.ended hne hlt)
  have hsplit : s.data = text ++ 0 :: s.data.drop (text.length + 1) := by
    conv_lhs => rw [← List.take_append_drop text.length s.data, h.taken]
    rw [List.drop_eq_getElem_cons hlen, hzero]
  rw [hsplit, cString_append h0]

/-- A block that nothing has been read into is not looked at. -/
theorem baiduGetAccessToken_empty (hdata : ∀ d ∈ setup.data, d.length = MAX_LEN)
    (hfits : Fits MAX_LEN rs) (hends : ∃ r ∈ rs, r.readLen ≤ 0)
    (hresponse : response rs = []) :
    baiduGetAccessToken jsmnParse memory setup rs = some .null := by
  rw [baiduGetAccessToken]
  split_ifs
  · rfl
  · rfl
  · rfl
  cases hmalloc : setup.data with
  | none => rfl
  | some data =>
      obtain ⟨s, hs, hfilled⟩ :=
        (Filled.of_start (hdata data hmalloc)).readLoop hfits hends
      have htotal : s.totalLen = 0 := by
        rw [hfilled.total, hresponse]
        rfl
      simp [hs, htotal]

/-- The token of a response that leaves room for the zero is the first
`access_token` in it. -/
theorem baiduGetAccessToken_token (hurl : setup.url)
    (hclient : setup.httpClient) (hopened : setup.opened)
    (hmalloc : setup.data = some data) (hdata : data.length = MAX_LEN)
    (hfits : Fits MAX_LEN rs) (hends : ∃ r ∈ rs, r.readLen ≤ 0)
    (hresponse : response rs = doc.text) (hlt : doc.text.length < MAX_LEN)
    (hobject : doc.value = .object pad members)
    (hparse : Tokenised jsmnParse doc)
    (hfirst : KeyFirst ACCESS_TOKEN doc.tokens) :
    baiduGetAccessToken jsmnParse memory setup rs =
      some ((doc.lookup ACCESS_TOKEN).elim .null (copied memory)) := by
  obtain ⟨s, hs, hfilled⟩ := (Filled.of_start hdata).readLoop hfits hends
  rw [List.nil_append, hresponse] at hfilled
  have hne : doc.text ≠ [] := by simp [Document.text, hobject, Value.text]
  have hpos : 0 < s.totalLen := by
    rw [hfilled.total]
    exact List.length_pos_of_ne_nil hne
  have hname : cString (ACCESS_TOKEN ++ [0]) = ACCESS_TOKEN := by decide
  have hinner := (doc.keyFirst_object hobject).mp hfirst
  have hvalue : jsonGetTokenValue jsmnParse memory s.data
      (ACCESS_TOKEN ++ [0]) =
        (doc.lookup ACCESS_TOKEN).elim .null (copied memory) := by
    rw [jsonGetTokenValue_eq memory hobject
      (hfilled.cString hne hlt doc.zero_notMem) hparse, hname,
      scan_of_keyFirst memory members.keyed hinner, doc.lookup_object hobject]
  simp [baiduGetAccessToken, hurl, hclient, hopened, hmalloc, hs,
    hpos.ne', hvalue]

end EspAdf.Ports.BaiduAccessToken
