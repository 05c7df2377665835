import EspAdf.Verified.Machine
import EspAdf.Verified.Table

/-!
# `http_header.c`: the headers of a request

A list of items, searched by name without regard to case.  A name is trimmed
when its item is added, but not when it is searched.

`headers_are_map` says that the list behaves like a map from names, whose
values are those that were set last, exactly as long as no untrimmed name is
set of which the trimmed one is there: the list has two items of that name
then.
-/

namespace EspAdf.Ports.HttpHeader

open EspAdf.Verified
open EspAdf.Verified.Table

/-- `tolower`, in the C locale. -/
def tolower (c : UInt8) : UInt8 := if 65 ≤ c ∧ c ≤ 90 then c + 32 else c

/-- `isspace`, in the C locale. -/
def isspace (c : UInt8) : Bool := c == 32 || 9 ≤ c && c ≤ 13

/-- Two strings are equal for `strcasecmp` if these are. -/
def folded (s : List UInt8) : List UInt8 := s.map tolower

/-- `http_utils_trim_whitespace`. -/
def trimWhitespace (s : List UInt8) : List UInt8 :=
  (s.dropWhile isspace).rdropWhile isspace

/-- `http_header_item_t`. -/
structure Item where
  key : List UInt8
  /-- Null if `strdup` has failed. -/
  value : Option (List UInt8)
  deriving DecidableEq, Repr

inductive Err where
  | ok
  | noMem
  | invalidArg
  | notFound
  deriving DecidableEq, Repr

/-- `http_header_get_item`, as a position. -/
def httpHeaderGetItem (header : List Item) (key : List UInt8) : Option Nat :=
  header.findIdx? fun item => folded item.key = folded key

def httpHeaderGet (header : List Item) (key : List UInt8) :
    Option (List UInt8) :=
  (httpHeaderGetItem header key).bind fun i =>
    header[i]?.bind Item.value

/-- `http_header_new_item`; `mem` says whether there is memory for it. -/
def httpHeaderNewItem (header : List Item) (key value : List UInt8)
    (mem : Bool) : Err × List Item :=
  if mem then
    (.ok, header ++ [⟨trimWhitespace key, some (trimWhitespace value)⟩])
  else (.noMem, header)

def httpHeaderDelete (header : List Item) (key : List UInt8) :
    Err × List Item :=
  match httpHeaderGetItem header key with
  | some i => (.ok, header.eraseIdx i)
  | none => (.notFound, header)

def httpHeaderSet (header : List Item) (key : List UInt8)
    (value : Option (List UInt8)) (mem : Bool) : Err × List Item :=
  match value with
  | none => httpHeaderDelete header key
  | some value =>
      match httpHeaderGetItem header key with
      | some i =>
          (.ok, header.modify i fun item => { item with
            value := if mem then some (trimWhitespace value) else none })
      | none => httpHeaderNewItem header key value mem

/-- The text is split at its first colon; `copied` says whether there is
memory for a copy of it. -/
def httpHeaderSetFromString (header : List Item) (data : List UInt8)
    (copied mem : Bool) : Err × List Item :=
  if copied then
    if 58 ∈ data then
      (.ok, (httpHeaderSet header (data.takeWhile (· ≠ 58))
        (some ((data.dropWhile (· ≠ 58)).tail)) mem).2)
    else (.invalidArg, header)
  else (.noMem, header)

inductive Act where
  | set (key : List UInt8) (value : Option (List UInt8)) (mem : Bool)
  | setFromString (data : List UInt8) (copied mem : Bool)
  | delete (key : List UInt8)
  deriving DecidableEq, Repr

def headerCall (header : List Item) : Act → Err × List Item
  | .set key value mem => httpHeaderSet header key value mem
  | .setFromString data copied mem =>
      httpHeaderSetFromString header data copied mem
  | .delete key => httpHeaderDelete header key

/-- The items, and what the calls have returned. -/
structure Headers where
  items : List Item
  returned : List Err
  deriving DecidableEq, Repr

def headerMachine : Machine Headers Act where
  step h a :=
    some ⟨(headerCall h.items a).2, h.returned ++ [(headerCall h.items a).1]⟩

/-! ## The map -/

/-- An item by its folded name. -/
abbrev Dict := List UInt8 → Option Item

def Item.name (item : Item) : List UInt8 := folded item.key

def Dict.delete (M : Dict) (key : List UInt8) : Err × Dict :=
  if M (folded key) = none then (.notFound, M)
  else (.ok, fun k => if k = folded key then none else M k)

/-- A name keeps the case it was first set with. -/
def Dict.set (M : Dict) (key : List UInt8) (value : Option (List UInt8))
    (mem : Bool) : Err × Dict :=
  match value with
  | none => M.delete key
  | some value =>
      match M (folded key) with
      | some item => (.ok, Function.update M (folded key) (some { item with
          value := if mem then some (trimWhitespace value) else none }))
      | none =>
          if mem then (.ok, Function.update M (folded (trimWhitespace key))
            (some ⟨trimWhitespace key, some (trimWhitespace value)⟩))
          else (.noMem, M)

def Dict.call (M : Dict) : Act → Err × Dict
  | .set key value mem => M.set key value mem
  | .setFromString data copied mem =>
      if copied then
        if 58 ∈ data then
          (.ok, (M.set (data.takeWhile (· ≠ 58))
            (some ((data.dropWhile (· ≠ 58)).tail)) mem).2)
        else (.invalidArg, M)
      else (.noMem, M)
  | .delete key => M.delete key

/-! ## Names -/

theorem isspace_tolower (c : UInt8) : isspace (tolower c) = isspace c := by
  have hall : ∀ n < 256, isspace (tolower (UInt8.ofNat n)) =
      isspace (UInt8.ofNat n) := by decide +kernel
  simpa using hall c.toNat c.toNat_lt

theorem folded_trim (s : List UInt8) :
    folded (trimWhitespace s) = trimWhitespace (folded s) := by
  have hspace : isspace ∘ tolower = isspace := funext isspace_tolower
  rw [trimWhitespace, trimWhitespace, folded, folded, List.rdropWhile,
    List.rdropWhile, List.dropWhile_map, hspace, ← List.map_reverse,
    List.dropWhile_map, hspace, List.map_reverse]

theorem trim_trim (s : List UInt8) :
    trimWhitespace (trimWhitespace s) = trimWhitespace s := by
  have hhead : (trimWhitespace s).dropWhile isspace = trimWhitespace s := by
    cases ht : trimWhitespace s with
    | nil => rfl
    | cons c t =>
        obtain ⟨rest, hrest⟩ :=
          List.rdropWhile_prefix isspace (s.dropWhile isspace)
        rw [show (s.dropWhile isspace).rdropWhile isspace = c :: t from ht]
          at hrest
        have hc : isspace c = false := by
          have := List.head?_dropWhile_not isspace s
          rw [← hrest] at this
          simpa using this
        rw [List.dropWhile_cons_of_neg (by simp [hc])]
  rw [trimWhitespace, hhead]
  exact List.rdropWhile_idempotent _ _

/-- A name that is found is trimmed if the stored ones are. -/
theorem trim_of_folded {a b : List UInt8} (ha : trimWhitespace a = a)
    (hab : folded a = folded b) : trimWhitespace b = b := by
  have hfold : folded (trimWhitespace b) = folded b := by
    rw [folded_trim, ← hab, ← folded_trim, ha]
  have hlen : (trimWhitespace b).length = b.length := by
    simpa [folded] using congrArg List.length hfold
  have hsub : (trimWhitespace b).Sublist b :=
    (List.rdropWhile_prefix isspace _).sublist.trans
      (List.dropWhile_suffix _).sublist
  exact hsub.eq_of_length hlen

/-! ## The list represents the map -/

variable {items : List Item} {M : Dict}

theorem getItem_some {key : List UInt8} {i : Nat}
    (h : httpHeaderGetItem items key = some i) :
    ∃ front item back, items = front ++ item :: back ∧ front.length = i ∧
      item.name = folded key := by
  obtain ⟨front, item, back, rfl, hlen, hp⟩ := findIdx?_split h
  exact ⟨front, item, back, rfl, hlen, by simpa [Item.name] using hp⟩

theorem getItem_none_iff {key : List UInt8} :
    httpHeaderGetItem items key = none ↔
      ∀ item ∈ items, item.name ≠ folded key := by
  rw [httpHeaderGetItem, List.findIdx?_eq_none_iff]
  simp [Item.name]

/-- What is searched is what the map has. -/
theorem getItem_represents (h : Represents Item.name items M)
    (key : List UInt8) :
    httpHeaderGetItem items key = none ∧ M (folded key) = none ∨
      ∃ front item back, items = front ++ item :: back ∧
        httpHeaderGetItem items key = some front.length ∧
        M (folded key) = some item ∧ item.name = folded key := by
  cases hget : httpHeaderGetItem items key with
  | none => exact .inl ⟨rfl, h.eq_none_iff.2 (getItem_none_iff.1 hget)⟩
  | some i =>
      obtain ⟨front, item, back, rfl, rfl, hname⟩ := getItem_some hget
      exact .inr ⟨front, item, back, rfl, rfl,
        (h.iff _ _).2 ⟨by simp, hname⟩, hname⟩

theorem delete_represents (h : Represents Item.name items M)
    (key : List UInt8) :
    (httpHeaderDelete items key).1 = (M.delete key).1 ∧
      Represents Item.name (httpHeaderDelete items key).2
        (M.delete key).2 := by
  rw [httpHeaderDelete, Dict.delete]
  rcases getItem_represents h key with
    ⟨hget, hnone⟩ | ⟨front, item, back, rfl, hget, hsome, hname⟩
  · rw [hget, if_pos hnone]
    exact ⟨rfl, h⟩
  · rw [hget, if_neg (by simp [hsome]), ← hname]
    refine ⟨rfl, ?_⟩
    simp only [eraseIdx_middle]
    exact h.erase

theorem set_represents (h : Represents Item.name items M)
    {key : List UInt8} {value : Option (List UInt8)} {mem : Bool}
    (htidy : ∀ v, value = some v → mem = true →
      httpHeaderGetItem items key = none →
      httpHeaderGetItem items (trimWhitespace key) = none) :
    (httpHeaderSet items key value mem).1 = (M.set key value mem).1 ∧
      Represents Item.name (httpHeaderSet items key value mem).2
        (M.set key value mem).2 := by
  cases value with
  | none => exact delete_represents h key
  | some v =>
      rw [httpHeaderSet, Dict.set]
      rcases getItem_represents h key with
        ⟨hget, hnone⟩ | ⟨front, item, back, rfl, hget, hsome, hname⟩
      · rw [hget, hnone]
        simp only [httpHeaderNewItem]
        cases mem with
        | false => exact ⟨rfl, h⟩
        | true =>
            have hnew := h.eq_none_iff.2
              (getItem_none_iff.1 (htidy v rfl rfl hget))
            have hadd := h.insert
              (e := ⟨trimWhitespace key, some (trimWhitespace v)⟩) hnew
            refine ⟨rfl, hadd.perm ?_⟩
            rw [if_pos rfl]
            exact (List.perm_append_singleton _ _).symm
      · rw [hget, hsome]
        refine ⟨rfl, ?_⟩
        simp only [modify_middle, ← hname]
        exact h.replace rfl

/-! ## Runs -/

/-- The name that a call gives a value, if there is memory for it. -/
def Act.sets : Act → Option (List UInt8)
  | .set key value mem => if value.isSome && mem then some key else none
  | .setFromString data copied mem =>
      if copied ∧ 58 ∈ data ∧ mem then some (data.takeWhile (· ≠ 58)) else none
  | .delete _ => none

/-- A name that is given a value is trimmed, or new. -/
def Tidy (h : Headers) (a : Act) : Prop :=
  ∀ key, a.sets = some key → trimWhitespace key = key ∨
    httpHeaderGetItem h.items (trimWhitespace key) = none

theorem call_represents (h : Represents Item.name items M) {a : Act}
    {log : List Err} (htidy : Tidy ⟨items, log⟩ a) :
    (headerCall items a).1 = (M.call a).1 ∧
      Represents Item.name (headerCall items a).2 (M.call a).2 := by
  have hsets : ∀ key, a.sets = some key →
      httpHeaderGetItem items key = none →
      httpHeaderGetItem items (trimWhitespace key) = none := by
    intro key hkey hnone
    rcases htidy key hkey with htrim | hnew
    · rw [htrim]
      exact hnone
    · exact hnew
  cases a with
  | set key value mem =>
      refine set_represents h ?_
      rintro v rfl rfl
      exact hsets key rfl
  | setFromString data copied mem =>
      rw [headerCall, httpHeaderSetFromString, Dict.call]
      by_cases hcopied : copied = true
      · rw [if_pos hcopied, if_pos hcopied]
        by_cases hcolon : 58 ∈ data
        · rw [if_pos hcolon, if_pos hcolon]
          refine ⟨rfl, (set_represents h ?_).2⟩
          rintro v - rfl
          exact hsets _ (if_pos ⟨hcopied, hcolon, rfl⟩)
        · rw [if_neg hcolon, if_neg hcolon]
          exact ⟨rfl, h⟩
      · rw [if_neg hcopied, if_neg hcopied]
        exact ⟨rfl, h⟩
  | delete key => exact delete_represents h key

/-- What a call that gives a value does if the name is not found. -/
theorem call_new {a : Act} {key : List UInt8} (ha : a.sets = some key)
    (hnone : httpHeaderGetItem items key = none) :
    ∃ v, (headerCall items a).2 =
      items ++ [⟨trimWhitespace key, some v⟩] := by
  cases a with
  | set key' value mem =>
      simp only [Act.sets, Option.ite_none_right_eq_some, Bool.and_eq_true,
        Option.isSome_iff_exists, Option.some.injEq] at ha
      obtain ⟨⟨⟨v, rfl⟩, rfl⟩, rfl⟩ := ha
      exact ⟨trimWhitespace v, by
        rw [headerCall, httpHeaderSet, hnone]
        rfl⟩
  | setFromString data copied mem =>
      simp only [Act.sets, Option.ite_none_right_eq_some,
        Option.some.injEq] at ha
      obtain ⟨⟨rfl, hcolon, rfl⟩, rfl⟩ := ha
      refine ⟨trimWhitespace (data.dropWhile (· ≠ 58)).tail, ?_⟩
      rw [headerCall, httpHeaderSetFromString, if_pos rfl, if_pos hcolon,
        httpHeaderSet, hnone]
      rfl
  | delete key' => cases ha

/-- Otherwise it changes a value, or removes an item. -/
theorem call_keys {a : Act} {item : Item}
    (hmem : item ∈ (headerCall items a).2) :
    (∃ item' ∈ items, item'.key = item.key) ∨
      ∃ key, item.key = trimWhitespace key := by
  have hdelete : ∀ key, item ∈ (httpHeaderDelete items key).2 →
      ∃ item' ∈ items, item'.key = item.key := by
    intro key hmem
    rw [httpHeaderDelete] at hmem
    cases hget : httpHeaderGetItem items key with
    | none =>
        rw [hget] at hmem
        exact ⟨item, hmem, rfl⟩
    | some i =>
        rw [hget] at hmem
        exact ⟨item, List.mem_of_mem_eraseIdx hmem, rfl⟩
  have hset : ∀ key value mem,
      item ∈ (httpHeaderSet items key value mem).2 →
      (∃ item' ∈ items, item'.key = item.key) ∨
        ∃ key, item.key = trimWhitespace key := by
    intro key value mem hmem
    cases value with
    | none => exact .inl (hdelete key hmem)
    | some v =>
        rw [httpHeaderSet] at hmem
        cases hget : httpHeaderGetItem items key with
        | none =>
            rw [hget] at hmem
            simp only [httpHeaderNewItem] at hmem
            split at hmem
            · rcases List.mem_append.1 hmem with hmem | hmem
              · exact .inl ⟨item, hmem, rfl⟩
              · obtain rfl := List.mem_singleton.1 hmem
                exact .inr ⟨key, rfl⟩
            · exact .inl ⟨item, hmem, rfl⟩
        | some i =>
            obtain ⟨front, old, back, rfl, rfl, -⟩ := getItem_some hget
            rw [hget] at hmem
            simp only [modify_middle, List.mem_append, List.mem_cons] at hmem
            rcases hmem with hmem | rfl | hmem
            · exact .inl ⟨item, by simp [hmem], rfl⟩
            · exact .inl ⟨old, by simp, rfl⟩
            · exact .inl ⟨item, by simp [hmem], rfl⟩
  cases a with
  | set key value mem => exact hset key value mem hmem
  | setFromString data copied mem =>
      rw [headerCall, httpHeaderSetFromString] at hmem
      split at hmem
      · split at hmem
        · exact hset _ _ _ hmem
        · exact .inl ⟨item, hmem, rfl⟩
      · exact .inl ⟨item, hmem, rfl⟩
  | delete key => exact .inl (hdelete key hmem)

/-- The names are different, and as they are stored. -/
structure Sound (h : Headers) : Prop where
  names : (h.items.map Item.name).Nodup
  trimmed : ∀ item ∈ h.items, trimWhitespace item.key = item.key

/-- The names are different after the call. -/
def Distinct (h : Headers) (a : Act) : Prop :=
  ((headerCall h.items a).2.map Item.name).Nodup

theorem tidy_iff {h : Headers} (hsound : Sound h) (a : Act) :
    Tidy h a ↔ Distinct h a := by
  constructor
  · exact fun htidy =>
      (call_represents (represents_find hsound.names) htidy).2.nodup
  · intro hdistinct key hkey
    by_contra hno
    obtain ⟨htrim, hthere⟩ := not_or.1 hno
    have hnone : httpHeaderGetItem h.items key = none := by
      rw [getItem_none_iff]
      exact fun item hitem hname =>
        htrim (trim_of_folded (hsound.trimmed item hitem) hname)
    obtain ⟨v, hcall⟩ := call_new hkey hnone
    obtain ⟨i, hi⟩ := Option.ne_none_iff_exists'.1 hthere
    obtain ⟨front, item, back, hitems, -, hname⟩ := getItem_some hi
    rw [Distinct, hcall, List.map_append, List.nodup_append] at hdistinct
    exact hdistinct.2.2 item.name (List.mem_map_of_mem (by simp [hitems]))
      (folded (trimWhitespace key)) (by simp [Item.name]) hname

theorem Sound.step {h h' : Headers} {a : Act} (hsound : Sound h)
    (hdistinct : Distinct h a) (hs : headerMachine.step h a = some h') :
    Sound h' := by
  cases hs
  refine ⟨hdistinct, fun item hitem => ?_⟩
  rcases call_keys hitem with ⟨item', hitem', hkey⟩ | ⟨key, hkey⟩
  · rw [← hkey]
    exact hsound.trimmed item' hitem'
  · rw [hkey, trim_trim]

/-- The map, and what its calls have returned. -/
structure Abstract where
  dict : Dict
  returned : List Err

def dictMachine : Machine Abstract Act where
  step t a :=
    some ⟨(t.dict.call a).2, t.returned ++ [(t.dict.call a).1]⟩

theorem run_represents (acts : List Act) {h : Headers} {t : Abstract}
    (hrep : Represents Item.name h.items t.dict)
    (hlog : h.returned = t.returned)
    (hmeets : headerMachine.Meets Tidy h acts) :
    ∃ h' t', headerMachine.run h acts = some h' ∧
      dictMachine.run t acts = some t' ∧
      Represents Item.name h'.items t'.dict ∧ h'.returned = t'.returned := by
  induction acts generalizing h t with
  | nil => exact ⟨h, t, rfl, rfl, hrep, hlog⟩
  | cons a acts ih =>
      obtain ⟨herr, hrep'⟩ := call_represents hrep hmeets.1
      obtain ⟨h', t', hrun, hrun', hres⟩ := ih
        (t := ⟨(t.dict.call a).2, t.returned ++ [(t.dict.call a).1]⟩) hrep'
        (by rw [herr, hlog]) (hmeets.2 _ rfl)
      exact ⟨h', t', hrun, hrun', hres⟩

end EspAdf.Ports.HttpHeader
