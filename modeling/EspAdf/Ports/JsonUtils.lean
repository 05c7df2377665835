import EspAdf.Verified.CString
import EspAdf.Verified.JsonText

/-!
# `json_utils.c`: a value by its name

`json_get_token_value` has the text cut into tokens and walks over them.  The
first string that is the name is taken for a key, wherever it stands, and the
token behind it is copied.  When that string is a key, this is the value of the
key; when it is the last token, the one behind it was never set.
-/

namespace EspAdf.Ports.JsonUtils

open EspAdf.Verified
open EspAdf.Verified.CString
open EspAdf.Verified.JsonText

/-! ## Data -/

/-- `jsmntok_t`, without the number of tokens in it. -/
structure JsmnTok where
  type : Kind
  start : Int
  stop : Int
  deriving DecidableEq, Repr

/-- The token that stands at a span. -/
def JsmnTok.ofSpan (span : Span) : JsmnTok :=
  ⟨span.kind, span.start, span.stop⟩

/-- What `json_get_token_value` comes to: `NULL`, a block of memory, or the
read of a token that `jsmn_parse` has not set. -/
inductive Lookup
  | null
  | copy (tok : List UInt8)
  | unset
  deriving DecidableEq, Repr

/-! ## The functions -/

def strlen (s : List UInt8) : Nat := (cString s).length

/-- `strncmp(s, t, n) == 0`. -/
def strncmp (s t : List UInt8) (n : Nat) : Bool :=
  cString (s.take n) == cString (t.take n)

def jsoneq (json : List UInt8) (tok : JsmnTok) (s : List UInt8) : Bool :=
  tok.type == .string && (strlen s : Int) == tok.stop - tok.start &&
    strncmp (json.drop tok.start.toNat) s (tok.stop - tok.start).toNat

/-- The end of `json_get_token_value`.  `memory` says whether `calloc` finds
that many bytes. -/
def copyToken (memory : Int → Bool) (json : List UInt8) (next : JsmnTok) :
    Lookup :=
  let tokLen := next.stop - next.start
  if memory (tokLen + 1) then
    .copy ((json.drop next.start.toNat).take tokLen.toNat ++ [0])
  else .null

/-- The loop of `json_get_token_value`, with so many of the `r` tokens
left. -/
def forTokens (memory : Int → Bool) (json name : List UInt8)
    (t : List JsmnTok) (r : Nat) : Nat → Lookup
  | 0 => .null
  | left + 1 =>
      let i := r - (left + 1)
      match t[i]? with
      | none => .unset
      | some tok =>
          if jsoneq json tok name && decide (i < r) then
            match t[i + 1]? with
            | none => .unset
            | some next => copyToken memory json next
          else forTokens memory json name t r left

variable (jsmnParse : List UInt8 → Nat → Int × List JsmnTok)
  (memory : Int → Bool)

/-- `json_get_token_value`.  `jsmnParse` returns what `jsmn_parse` returns for
a text and so many tokens, and the tokens that it sets. -/
def jsonGetTokenValue (json name : List UInt8) : Lookup :=
  let parsed := jsmnParse (json.take (strlen json)) 20
  let r := parsed.1
  let t := parsed.2
  if r < 0 then .null
  else if r < 1 then .null
  else
    match t[0]? with
    | none => .unset
    | some top =>
        if top.type ≠ .object then .null
        else forTokens memory json name t r.toNat (r.toNat - 1)

/-! ## One token -/

/-- The copy of a text, if there is memory for it. -/
def copied (raw : Bytes) : Lookup :=
  if memory (raw.length + 1) then .copy (raw ++ [0]) else .null

/-- What is compared and copied is the text of the token. -/
theorem ofSpan_length {json : Bytes} {span : Span} {t : Token}
    (h : span.Shows json t) :
    (JsmnTok.ofSpan span).stop - (JsmnTok.ofSpan span).start =
      (t.raw.length : Int) := by
  obtain ⟨-, pre, post, -, -, hstop⟩ := h
  simp [JsmnTok.ofSpan, hstop]

theorem drop_ofSpan {json z : Bytes} {span : Span} {t : Token}
    (h : span.Shows json t) :
    ∃ post, (json ++ z).drop (JsmnTok.ofSpan span).start.toNat =
      t.raw ++ post := by
  obtain ⟨-, pre, post, rfl, hstart, -⟩ := h
  exact ⟨post ++ z, by simp [JsmnTok.ofSpan, hstart]⟩

theorem zero_notMem_raw {json : Bytes} {span : Span} {t : Token}
    (h : span.Shows json t) (h0 : 0 ∉ json) : 0 ∉ t.raw := by
  obtain ⟨-, pre, post, rfl, -, -⟩ := h
  exact fun hraw => h0 (by simp [hraw])

theorem take_strlen (s : List UInt8) : s.take (strlen s) = cString s :=
  (List.prefix_iff_eq_take.mp (List.takeWhile_prefix _)).symm

theorem strncmp_eq {raw post s : List UInt8} (h0 : 0 ∉ raw)
    (hlen : strlen s = raw.length) :
    strncmp (raw ++ post) s raw.length = (raw == cString s) := by
  have hraw : cString raw = raw := by
    rw [cString, List.takeWhile_eq_self_iff]
    intro c hc
    simp only [bne_iff_ne, ne_eq]
    exact fun h => h0 (h ▸ hc)
  have hs : s.take raw.length = cString s := by
    rw [← hlen, take_strlen]
  have hcs : cString (cString s) = cString s := List.takeWhile_idem
  rw [strncmp, List.take_left, hraw, hs, hcs]

/-- A token is equal to a name when it is a string that is the name. -/
theorem jsoneq_ofSpan {json z name : Bytes} {span : Span} {t : Token}
    (h : span.Shows json t) (h0 : 0 ∉ json) :
    jsoneq (json ++ z) (.ofSpan span) name = t.string (cString name) := by
  obtain ⟨post, hdrop⟩ := drop_ofSpan (z := z) h
  have hkind : (JsmnTok.ofSpan span).type = t.kind := h.1
  rw [jsoneq, ofSpan_length h, hdrop, hkind, Int.toNat_natCast, Token.string]
  by_cases hlen : strlen name = t.raw.length
  · rw [strncmp_eq (zero_notMem_raw h h0) hlen, hlen, beq_self_eq_true,
      Bool.and_true]
  · have hraw : t.raw ≠ cString name := fun hraw => hlen (by rw [hraw, strlen])
    rw [beq_false_of_ne hraw, beq_false_of_ne (Int.ofNat_inj.not.mpr hlen)]
    simp

theorem copyToken_ofSpan {json z : Bytes} {span : Span} {t : Token}
    (h : span.Shows json t) :
    copyToken memory (json ++ z) (.ofSpan span) = copied memory t.raw := by
  obtain ⟨post, hdrop⟩ := drop_ofSpan (z := z) h
  rw [copyToken, ofSpan_length h, hdrop, Int.toNat_natCast, List.take_left,
    copied]

/-! ## The loop -/

/-- What the loop does with the tokens: the text of the token behind the first
string that is `name`. -/
def scan (name : Bytes) : List Token → Lookup
  | [] => .null
  | t :: rest =>
      if t.string name then
        rest.head?.elim .unset fun next => copied memory next.raw
      else scan name rest

theorem forTokens_eq {text z name : Bytes} {spans : List Span}
    {tokens : List Token} (hshown : List.Forall₂ (Span.Shows text) spans tokens)
    (h0 : 0 ∉ text) {left : Nat} (hleft : left ≤ tokens.length) :
    forTokens memory (text ++ z) name (spans.map .ofSpan) tokens.length left =
      scan memory (cString name) (tokens.drop (tokens.length - left)) := by
  induction left with
  | zero => simp [forTokens, scan]
  | succ left ih =>
      have hlength := hshown.length_eq
      obtain ⟨i, hi⟩ : ∃ i, i = tokens.length - (left + 1) := ⟨_, rfl⟩
      have hnext : tokens.length - left = i + 1 := by omega
      have hit : i < tokens.length := by omega
      have his : i < spans.length := by omega
      have hget : (spans.map JsmnTok.ofSpan)[i]? = some (.ofSpan spans[i]) := by
        simp [his]
      have heq : jsoneq (text ++ z) (.ofSpan spans[i]) name =
          tokens[i].string (cString name) :=
        jsoneq_ofSpan (hshown.get his hit) h0
      rw [hnext] at ih
      rw [forTokens, ← hi, List.drop_eq_getElem_cons hit, scan,
        ← ih (by omega)]
      simp only [hget, heq, hit, decide_true, Bool.and_true, List.head?_drop]
      by_cases hstring : tokens[i].string (cString name)
      · rw [if_pos hstring, if_pos hstring]
        rcases Nat.lt_or_ge (i + 1) tokens.length with hlt | hge
        · have hlts : i + 1 < spans.length := by omega
          have hcopy : copyToken memory (text ++ z) (.ofSpan spans[i + 1]) =
              copied memory tokens[i + 1].raw :=
            copyToken_ofSpan memory (hshown.get hlts hlt)
          simpa [hlength, hlt] using hcopy
        · simp [hlength, hge]
      · rw [if_neg hstring, if_neg hstring]

theorem copied_ne_unset (raw : Bytes) : copied memory raw ≠ .unset := by
  rw [copied]
  split <;> simp

/-- A token that is not set is read when the first string that is `name` is
the last token. -/
theorem scan_unset_iff (name : Bytes) (ts : List Token) :
    scan memory name ts = .unset ↔
      ∃ l t, ts = l ++ [t] ∧ t.string name ∧ ∀ u ∈ l, ¬u.string name := by
  induction ts with
  | nil => simp [scan]
  | cons t rest ih =>
      rw [scan]
      by_cases hstring : t.string name
      · rw [if_pos hstring]
        cases rest with
        | nil =>
            simp only [List.head?_nil, Option.elim_none, true_iff]
            exact ⟨[], t, rfl, hstring, by simp⟩
        | cons next rest =>
            simp only [List.head?_cons, Option.elim_some, copied_ne_unset,
              false_iff]
            rintro ⟨l, last, hts, -, hl⟩
            cases l with
            | nil => simp at hts
            | cons u l =>
                obtain ⟨rfl, -⟩ := List.cons.inj hts
                exact hl t List.mem_cons_self hstring
      · rw [if_neg hstring, ih]
        constructor
        · rintro ⟨l, last, rfl, hlast, hl⟩
          exact ⟨t :: l, last, rfl, hlast, by simpa [hstring] using hl⟩
        · rintro ⟨l, last, hts, hlast, hl⟩
          cases l with
          | nil =>
              obtain ⟨rfl, -⟩ := List.cons.inj hts
              exact absurd hlast hstring
          | cons u l =>
              obtain ⟨-, rfl⟩ := List.cons.inj hts
              exact ⟨l, last, rfl, hlast, fun u hu =>
                hl u (List.mem_cons_of_mem _ hu)⟩

/-- When the first string that is `name` is a key, its value is copied. -/
theorem scan_of_keyFirst {name : Bytes} {ts : List Token} (hkeyed : Keyed ts)
    (hfirst : KeyFirst name ts) :
    scan memory name ts =
      ((ts.find? (Token.key name)).bind Token.value).elim .null
        (copied memory) := by
  rw [hkeyed.find_string hfirst]
  induction ts with
  | nil => rfl
  | cons t rest ih =>
      obtain ⟨hvalue, hrest⟩ := hkeyed
      by_cases hstring : t.string name
      · obtain ⟨raw, hraw⟩ := Option.isSome_iff_exists.mp
          (hfirst t (by simp [hstring]))
        obtain ⟨-, u, hu, rfl⟩ := hvalue raw hraw
        simp [scan, hstring, hraw, Option.mem_def.mp hu]
      · have hfirst : KeyFirst name rest := by
          simpa [KeyFirst, hstring] using hfirst
        simpa [scan, hstring] using ih hrest hfirst

/-! ## `json_get_token_value` -/

/-- `jsmn_parse` cuts the text into its tokens, in document order. -/
def Tokenised (doc : Document) : Prop :=
  jsmnParse doc.text 20 =
    ((doc.spans.length : Int), doc.spans.map JsmnTok.ofSpan)

instance (doc : Document) : Decidable (Tokenised jsmnParse doc) :=
  inferInstanceAs (Decidable (_ = _))

variable {jsmnParse} {json name : List UInt8} {doc : Document} {pad : Blanks}
  {members : Members}

/-- `json_get_token_value` scans the tokens in the outermost object. -/
theorem jsonGetTokenValue_eq (hobject : doc.value = .object pad members)
    (hjson : cString json = doc.text) (hparse : Tokenised jsmnParse doc) :
    jsonGetTokenValue jsmnParse memory json name =
      scan memory (cString name) members.tokens := by
  have htext : json.take (strlen json) = doc.text := by
    rw [take_strlen, hjson]
  have hmem : doc.text ++ json.drop (strlen json) = json := by
    rw [← htext, List.take_append_drop]
  obtain ⟨top, htop, htype⟩ : ∃ top,
      (doc.spans.map JsmnTok.ofSpan)[0]? = some top ∧ top.type = .object := by
    rw [Document.spans, hobject]
    exact ⟨_, rfl, rfl⟩
  have htokens := doc.tokens_object hobject
  have hlength : doc.tokens.length = members.tokens.length + 1 := by
    rw [htokens, List.length_cons]
  have hdrop : doc.tokens.drop (doc.tokens.length - members.tokens.length) =
      members.tokens := by
    simp [htokens]
  have hleft : members.tokens.length ≤ doc.tokens.length := by omega
  have hloop : forTokens memory (doc.text ++ json.drop (strlen json)) name
      (doc.spans.map .ofSpan) doc.tokens.length members.tokens.length =
        scan memory (cString name) members.tokens := by
    rw [forTokens_eq memory doc.shown doc.zero_notMem hleft, hdrop]
  rw [hmem, hlength] at hloop
  rw [Tokenised, doc.shown.length_eq, hlength] at hparse
  have hr : ¬((members.tokens.length + 1 : Nat) : Int) < 0 := by omega
  have hr1 : ¬((members.tokens.length + 1 : Nat) : Int) < 1 := by omega
  simpa only [jsonGetTokenValue, htext, hparse, hr, hr1, htop, htype,
    if_false, Int.toNat_natCast, Nat.add_sub_cancel, ne_eq,
    not_true_eq_false] using hloop

/-- A token that is not set is read when a string that is the name is the last
token, and no other one is. -/
theorem jsonGetTokenValue_unset_iff
    (hobject : doc.value = .object pad members)
    (hjson : cString json = doc.text) (hparse : Tokenised jsmnParse doc) :
    jsonGetTokenValue jsmnParse memory json name = .unset ↔
      ∃ l t, members.tokens = l ++ [t] ∧ t.string (cString name) ∧
        ∀ u ∈ l, ¬u.string (cString name) := by
  rw [jsonGetTokenValue_eq memory hobject hjson hparse, scan_unset_iff]

/-- The outermost object is all there is to a name that is no key in one of
its values. -/
theorem jsonGetTokenValue_field (hobject : doc.value = .object pad members)
    (hjson : cString json = doc.text) (hparse : Tokenised jsmnParse doc)
    (hfirst : KeyFirst (cString name) doc.tokens)
    (hinner : ∀ t ∈ members.inner, ¬t.key (cString name)) :
    jsonGetTokenValue jsmnParse memory json name =
      (doc.field (cString name)).elim .null (copied memory) := by
  rw [jsonGetTokenValue_eq memory hobject hjson hparse,
    scan_of_keyFirst memory members.keyed
      ((doc.keyFirst_object hobject).mp hfirst),
    members.find_key hinner, Document.field, hobject]

/-- **The value of the first key.** -/
theorem jsonGetTokenValue_first_key (hobject : doc.value = .object pad members)
    (hjson : cString json = doc.text) (hparse : Tokenised jsmnParse doc)
    (hfirst : KeyFirst (cString name) doc.tokens) :
    jsonGetTokenValue jsmnParse memory json name =
      (doc.lookup (cString name)).elim .null fun raw =>
        if memory (raw.length + 1) then .copy (raw ++ [0]) else .null := by
  have hscan := scan_of_keyFirst memory members.keyed
    ((doc.keyFirst_object hobject).mp hfirst)
  rw [jsonGetTokenValue_eq memory hobject hjson hparse, hscan,
    doc.lookup_object hobject]
  rfl

/-- `{"a":{"k":"v"}}`. -/
def nested : Document :=
  let a : Label := ⟨⟨[], rfl⟩, ⟨[97], rfl⟩, ⟨[], rfl⟩, ⟨[], rfl⟩⟩
  let k : Label := ⟨⟨[], rfl⟩, ⟨[107], rfl⟩, ⟨[], rfl⟩, ⟨[], rfl⟩⟩
  let inner : Value := .object ⟨[], rfl⟩
    (.cons k (.string ⟨[118], rfl⟩) ⟨[], rfl⟩ .nil)
  ⟨⟨[], rfl⟩, .object ⟨[], rfl⟩ (.cons a inner ⟨[], rfl⟩ .nil), ⟨[], rfl⟩⟩

/-- What `jsmn_parse` sets for `nested`. -/
def nestedParse (_ : List UInt8) (_ : Nat) : Int × List JsmnTok :=
  (5, [⟨.object, 0, 15⟩, ⟨.string, 2, 3⟩, ⟨.object, 5, 14⟩, ⟨.string, 7, 8⟩,
    ⟨.string, 11, 12⟩])

/-- A key in a value is found, its value is copied. -/
theorem jsonGetTokenValue_nested :
    jsonGetTokenValue nestedParse (fun _ => true) (nested.text ++ [0])
      [107, 0] = .copy [118, 0] := by
  have hjson : cString (nested.text ++ [0]) = nested.text := by decide
  have hparse : Tokenised nestedParse nested := by decide
  exact jsonGetTokenValue_first_key (fun _ => true) rfl hjson hparse (by decide)

/-- There is no `k` in the outermost object, and the value of the `k` inside is
copied; the string `v` is taken for a key, and a token behind the last one is
read. -/
theorem jsonGetTokenValue_not_field :
    Tokenised nestedParse nested ∧ cString (nested.text ++ [0]) = nested.text ∧
      nested.field [107] = none ∧ nested.field [118] = none ∧
      jsonGetTokenValue nestedParse (fun _ => true) (nested.text ++ [0])
        [107, 0] = .copy [118, 0] ∧
      jsonGetTokenValue nestedParse (fun _ => true) (nested.text ++ [0])
        [118, 0] = .unset := by
  decide

end EspAdf.Ports.JsonUtils
