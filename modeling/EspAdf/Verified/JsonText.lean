import Mathlib

/-!
# JSON texts, their tokens and their keys

`Document` is a JSON text as it is written, with the white space around every
value, and `text` writes it down.  The values and the keys in it are its
tokens, in document order: a container comes before what is in it.

* `Document.shown` — the span of a token is where its text stands.
* `Value.keyed` — the token behind a key is the value of the key.
* `Keyed.find_string` — the first string that is looked for, when it is a key,
  is the first key that is looked for.
* `Members.find_key` — keys of the outermost object only.
* `Document.zero_notMem` — a text can be held as a string that ends with a
  zero.

The module names nothing of the modelled repository.
-/

namespace EspAdf.Verified.JsonText

abbrev Bytes := List UInt8

/-! ## What a text is made of -/

def blank (c : UInt8) : Bool := c == 32 || c == 9 || c == 10 || c == 13

/-- White space. -/
abbrev Blanks := {s : Bytes // s.all blank}

/-- No quote and no zero, and a backslash only before the byte it escapes. -/
def quotable : Bytes → Bool
  | [] => true
  | c :: rest =>
      if c = 92 then
        match rest with
        | [] => false
        | e :: rest => e != 0 && quotable rest
      else c != 0 && c != 34 && quotable rest

/-- What stands between the quotes of a string. -/
abbrev Quoted := {s : Bytes // quotable s}

def plain (c : UInt8) : Bool :=
  decide (32 < c) && !([34, 44, 58, 91, 93, 123, 125] : Bytes).contains c

/-- A number, `true`, `false` or `null`. -/
abbrev Word := {s : Bytes // s ≠ [] ∧ s.all plain}

/-- A key and its colon. -/
structure Label where
  before : Blanks
  key : Quoted
  between : Blanks
  after : Blanks
  deriving DecidableEq

mutual

inductive Value
  | string (s : Quoted)
  | primitive (word : Word)
  | array (pad : Blanks) (items : Items)
  | object (pad : Blanks) (members : Members)

inductive Items
  | nil
  | cons (before : Blanks) (v : Value) (after : Blanks) (rest : Items)

inductive Members
  | nil
  | cons (label : Label) (v : Value) (after : Blanks) (rest : Members)

end

structure Document where
  before : Blanks
  value : Value
  after : Blanks

/-! ## The text -/

/-- What stands before the value of a key. -/
def Label.text (label : Label) : Bytes :=
  label.before.val ++ 34 :: (label.key.val ++ 34 :: (label.between.val ++
    58 :: label.after.val))

def Items.comma : Items → Bytes
  | .nil => []
  | .cons .. => [44]

def Members.comma : Members → Bytes
  | .nil => []
  | .cons .. => [44]

mutual

def Value.text : Value → Bytes
  | .string s => 34 :: (s.val ++ [34])
  | .primitive word => word.val
  | .array pad items => 91 :: (pad.val ++ (items.text ++ [93]))
  | .object pad members => 123 :: (pad.val ++ (members.text ++ [125]))

def Items.text : Items → Bytes
  | .nil => []
  | .cons before v after rest =>
      before.val ++ (v.text ++ (after.val ++ (rest.comma ++ rest.text)))

def Members.text : Members → Bytes
  | .nil => []
  | .cons label v after rest =>
      label.text ++ (v.text ++ (after.val ++ (rest.comma ++ rest.text)))

end

def Document.text (doc : Document) : Bytes :=
  doc.before.val ++ (doc.value.text ++ doc.after.val)

/-! ## Spans -/

inductive Kind
  | object
  | array
  | string
  | primitive
  deriving DecidableEq, Repr

/-- Where a token stands.  The quotes of a string are outside. -/
structure Span where
  kind : Kind
  start : Nat
  stop : Nat
  deriving DecidableEq, Repr

mutual

/-- The spans of a value that stands at `p`. -/
def Value.spans : Value → Nat → List Span
  | .string s, p => [⟨.string, p + 1, p + 1 + s.val.length⟩]
  | .primitive word, p => [⟨.primitive, p, p + word.val.length⟩]
  | .array pad items, p =>
      ⟨.array, p, p + (Value.array pad items).text.length⟩ ::
        items.spans (p + 1 + pad.val.length)
  | .object pad members, p =>
      ⟨.object, p, p + (Value.object pad members).text.length⟩ ::
        members.spans (p + 1 + pad.val.length)

def Items.spans : Items → Nat → List Span
  | .nil, _ => []
  | .cons before v after rest, p =>
      v.spans (p + before.val.length) ++
        rest.spans (p + before.val.length + v.text.length +
          after.val.length + rest.comma.length)

def Members.spans : Members → Nat → List Span
  | .nil, _ => []
  | .cons label v after rest, p =>
      let start := p + label.before.val.length + 1
      ⟨.string, start, start + label.key.val.length⟩ ::
        (v.spans (p + label.text.length) ++
          rest.spans (p + label.text.length + v.text.length +
            after.val.length + rest.comma.length))

end

def Document.spans (doc : Document) : List Span :=
  doc.value.spans doc.before.val.length

/-! ## Tokens -/

/-- A token, its text, and the text of its value when it is a key. -/
structure Token where
  kind : Kind
  raw : Bytes
  value : Option Bytes
  deriving DecidableEq, Repr

/-- The text of a value, without the quotes of a string. -/
def Value.raw : Value → Bytes
  | .string s => s.val
  | v => v.text

mutual

def Value.tokens : Value → List Token
  | .string s => [⟨.string, s.val, none⟩]
  | .primitive word => [⟨.primitive, word.val, none⟩]
  | .array pad items =>
      ⟨.array, (Value.array pad items).text, none⟩ :: items.tokens
  | .object pad members =>
      ⟨.object, (Value.object pad members).text, none⟩ :: members.tokens

def Items.tokens : Items → List Token
  | .nil => []
  | .cons _ v _ rest => v.tokens ++ rest.tokens

def Members.tokens : Members → List Token
  | .nil => []
  | .cons label v _ rest =>
      ⟨.string, label.key.val, some v.raw⟩ :: (v.tokens ++ rest.tokens)

end

def Document.tokens (doc : Document) : List Token := doc.value.tokens

/-- A key that is `name`. -/
def Token.key (name : Bytes) (t : Token) : Bool :=
  t.value.isSome && t.raw == name

/-- A string that is `name`. -/
def Token.string (name : Bytes) (t : Token) : Bool :=
  t.kind == .string && t.raw == name

/-- The text of the value of the first key that is `name`, at any depth. -/
def Document.lookup (doc : Document) (name : Bytes) : Option Bytes :=
  (doc.tokens.find? (Token.key name)).bind Token.value

def Members.field (name : Bytes) : Members → Option Bytes
  | .nil => none
  | .cons label v _ rest =>
      if label.key.val = name then some v.raw else rest.field name

/-- The text of the value of the first key of the outermost object that is
`name`. -/
def Document.field (doc : Document) (name : Bytes) : Option Bytes :=
  match doc.value with
  | .object _ members => members.field name
  | _ => none

/-! ## What stands at a span -/

/-- The span of a token in a text. -/
def Span.Shows (json : Bytes) (span : Span) (t : Token) : Prop :=
  span.kind = t.kind ∧ ∃ pre post, json = pre ++ (t.raw ++ post) ∧
    span.start = pre.length ∧ span.stop = span.start + t.raw.length

mutual

/-- The spans of a value are those of its tokens. -/
theorem Value.shown (v : Value) {json pre post : Bytes} {p : Nat}
    (hjson : json = pre ++ (v.text ++ post)) (hp : p = pre.length) :
    List.Forall₂ (Span.Shows json) (v.spans p) v.tokens := by
  cases v with
  | string s =>
      have hs : json = (pre ++ [34]) ++ (s.val ++ 34 :: post) := by
        simp [hjson, Value.text]
      exact .cons ⟨rfl, _, _, hs, by simp [hp], rfl⟩ .nil
  | primitive word =>
      exact .cons ⟨rfl, _, _, hjson, hp, rfl⟩ .nil
  | array pad items =>
      have hinner : json =
          (pre ++ 91 :: pad.val) ++ (items.text ++ 93 :: post) := by
        simp [hjson, Value.text]
      have hstart : p + 1 + pad.val.length =
          (pre ++ 91 :: pad.val).length := by
        simp only [hp, List.length_append, List.length_cons]
        omega
      exact .cons ⟨rfl, _, _, hjson, hp, rfl⟩ (items.shown hinner hstart)
  | object pad members =>
      have hinner : json =
          (pre ++ 123 :: pad.val) ++ (members.text ++ 125 :: post) := by
        simp [hjson, Value.text]
      have hstart : p + 1 + pad.val.length =
          (pre ++ 123 :: pad.val).length := by
        simp only [hp, List.length_append, List.length_cons]
        omega
      exact .cons ⟨rfl, _, _, hjson, hp, rfl⟩ (members.shown hinner hstart)

theorem Items.shown (items : Items) {json pre post : Bytes} {p : Nat}
    (hjson : json = pre ++ (items.text ++ post)) (hp : p = pre.length) :
    List.Forall₂ (Span.Shows json) (items.spans p) items.tokens := by
  cases items with
  | nil => exact .nil
  | cons before v after rest =>
      have hvalue : json = (pre ++ before.val) ++ (v.text ++
          (after.val ++ (rest.comma ++ (rest.text ++ post)))) := by
        simp [hjson, Items.text]
      have hnext : json = (pre ++ (before.val ++ (v.text ++ (after.val ++
          rest.comma)))) ++ (rest.text ++ post) := by
        simp [hjson, Items.text]
      exact List.rel_append
        (v.shown hvalue (by simp [hp]))
        (rest.shown hnext (by simp [hp]; omega))

theorem Members.shown (members : Members) {json pre post : Bytes} {p : Nat}
    (hjson : json = pre ++ (members.text ++ post)) (hp : p = pre.length) :
    List.Forall₂ (Span.Shows json) (members.spans p) members.tokens := by
  cases members with
  | nil => exact .nil
  | cons label v after rest =>
      have hkey : json = (pre ++ (label.before.val ++ [34])) ++
          (label.key.val ++ 34 :: (label.between.val ++ 58 ::
            (label.after.val ++ (v.text ++ (after.val ++ (rest.comma ++
              (rest.text ++ post))))))) := by
        simp [hjson, Members.text, Label.text]
      have hvalue : json = (pre ++ label.text) ++ (v.text ++
          (after.val ++ (rest.comma ++ (rest.text ++ post)))) := by
        simp [hjson, Members.text]
      have hnext : json = (pre ++ (label.text ++ (v.text ++ (after.val ++
          rest.comma)))) ++ (rest.text ++ post) := by
        simp [hjson, Members.text]
      refine .cons ⟨rfl, _, _, hkey, by simp [hp, Nat.add_assoc], rfl⟩ ?_
      exact List.rel_append
        (v.shown hvalue (by simp [hp]))
        (rest.shown hnext (by simp [hp]; omega))

end

/-- The spans of a text are those of its tokens. -/
theorem Document.shown (doc : Document) :
    List.Forall₂ (Span.Shows doc.text) doc.spans doc.tokens :=
  doc.value.shown rfl rfl

/-! ## Keys and their values -/

/-- Only strings are keys, and the token behind a key is its value. -/
def Keyed : List Token → Prop
  | [] => True
  | t :: rest =>
      (∀ raw ∈ t.value, t.kind = .string ∧ ∃ u ∈ rest.head?, u.raw = raw) ∧
        Keyed rest

variable {ts us : List Token}

theorem Keyed.append (hts : Keyed ts) (hus : Keyed us) : Keyed (ts ++ us) := by
  induction ts with
  | nil => exact hus
  | cons t rest ih =>
      obtain ⟨hvalue, hrest⟩ := hts
      refine ⟨fun raw hraw => ?_, ih hrest⟩
      obtain ⟨hkind, u, hu, huraw⟩ := hvalue raw hraw
      refine ⟨hkind, u, ?_, huraw⟩
      show u ∈ (rest ++ us).head?
      rw [List.head?_append, Option.mem_def.mp hu]
      rfl

/-- A value starts with the token of its own text. -/
theorem Value.head_tokens (v : Value) (us : List Token) :
    ∃ u ∈ (v.tokens ++ us).head?, u.raw = v.raw := by
  cases v <;> simp [Value.tokens, Value.raw, Value.text]

mutual

theorem Value.keyed (v : Value) : Keyed v.tokens := by
  cases v with
  | string s => simp [Value.tokens, Keyed]
  | primitive word => simp [Value.tokens, Keyed]
  | array pad items => simp [Value.tokens, Keyed, items.keyed]
  | object pad members => simp [Value.tokens, Keyed, members.keyed]

theorem Items.keyed (items : Items) : Keyed items.tokens := by
  cases items with
  | nil => trivial
  | cons before v after rest => exact v.keyed.append rest.keyed

theorem Members.keyed (members : Members) : Keyed members.tokens := by
  cases members with
  | nil => trivial
  | cons label v after rest =>
      refine ⟨fun raw hraw => ⟨rfl, ?_⟩, v.keyed.append rest.keyed⟩
      obtain rfl : v.raw = raw := by simpa using hraw
      exact v.head_tokens rest.tokens

end

/-- The first string that is `name`, if there is one, is a key. -/
def KeyFirst (name : Bytes) (ts : List Token) : Prop :=
  ∀ t ∈ ts.find? (Token.string name), t.value.isSome

instance (name : Bytes) (ts : List Token) : Decidable (KeyFirst name ts) :=
  inferInstanceAs (Decidable (∀ t ∈ ts.find? (Token.string name), _))

/-- The first string that is looked for, when it is a key, is the first key
that is looked for. -/
theorem Keyed.find_string {name : Bytes} (hkeyed : Keyed ts)
    (hfirst : KeyFirst name ts) :
    ts.find? (Token.key name) = ts.find? (Token.string name) := by
  induction ts with
  | nil => rfl
  | cons t rest ih =>
      obtain ⟨hvalue, hrest⟩ := hkeyed
      by_cases hstring : t.string name
      · have hkey : t.key name := by
          have hvalue := hfirst t (by simp [hstring])
          simp only [Token.string, Bool.and_eq_true] at hstring
          simp [Token.key, hvalue, hstring.2]
        rw [List.find?_cons_of_pos hkey, List.find?_cons_of_pos hstring]
      · have hkey : ¬t.key name := by
          intro h
          simp only [Token.key, Bool.and_eq_true] at h
          obtain ⟨raw, hraw⟩ := Option.isSome_iff_exists.mp h.1
          exact hstring (by simp [Token.string, (hvalue raw hraw).1, h.2])
        rw [List.find?_cons_of_neg hkey, List.find?_cons_of_neg hstring]
        refine ih hrest fun u hu => hfirst u ?_
        rwa [List.find?_cons_of_neg hstring]

/-! ## The outermost object -/

/-- The tokens of the values of an object. -/
def Members.inner : Members → List Token
  | .nil => []
  | .cons _ v _ rest => v.tokens ++ rest.inner

/-- A key that is not a key in a value as well is looked up in the outermost
object. -/
theorem Members.find_key {name : Bytes} (members : Members)
    (hinner : ∀ t ∈ members.inner, ¬t.key name) :
    (members.tokens.find? (Token.key name)).bind Token.value =
      members.field name := by
  cases members with
  | nil => rfl
  | cons label v after rest =>
      by_cases hkey : label.key.val = name
      · simp [Members.tokens, Members.field, Token.key, hkey]
      · have hv : v.tokens.find? (Token.key name) = none :=
          List.find?_eq_none.mpr fun t ht =>
            hinner t (List.mem_append_left _ ht)
        have ih := rest.find_key fun t ht =>
          hinner t (List.mem_append_right _ ht)
        simp [Members.tokens, Members.field, Token.key, hkey, hv, ← ih]

variable {doc : Document} {pad : Blanks} {members : Members} {name : Bytes}

theorem Document.tokens_object (h : doc.value = .object pad members) :
    doc.tokens = ⟨.object, doc.value.text, none⟩ :: members.tokens := by
  rw [Document.tokens, h, Value.tokens]

theorem Document.lookup_object (h : doc.value = .object pad members) :
    doc.lookup name =
      (members.tokens.find? (Token.key name)).bind Token.value := by
  simp [Document.lookup, Document.tokens_object h, Token.key]

theorem Document.keyFirst_object (h : doc.value = .object pad members) :
    KeyFirst name doc.tokens ↔ KeyFirst name members.tokens := by
  simp [KeyFirst, Document.tokens_object h, Token.string]

/-! ## No text holds a zero -/

theorem zero_notMem_of_all {f : UInt8 → Bool} (hf : ¬f 0) {s : Bytes}
    (h : s.all f) : 0 ∉ s :=
  fun h0 => hf (List.all_eq_true.mp h 0 h0)

@[simp] theorem zero_notMem_blanks (s : Blanks) : 0 ∉ s.val :=
  zero_notMem_of_all (by decide) s.property

@[simp] theorem zero_notMem_word (word : Word) : 0 ∉ word.val :=
  zero_notMem_of_all (by decide) word.property.2

theorem zero_notMem_of_quotable {s : Bytes} (h : quotable s) : 0 ∉ s := by
  fun_induction quotable s with
  | case1 => simp
  | case2 => simp at h
  | case3 e rest ih =>
      simp only [Bool.and_eq_true, bne_iff_ne, ne_eq] at h
      simp [ih h.2, Ne.symm h.1]
  | case4 c rest _ ih =>
      simp only [Bool.and_eq_true, bne_iff_ne, ne_eq] at h
      simp [ih h.2, Ne.symm h.1.1]

@[simp] theorem zero_notMem_quoted (s : Quoted) : 0 ∉ s.val :=
  zero_notMem_of_quotable s.property

@[simp] theorem Label.zero_notMem (label : Label) : 0 ∉ label.text := by
  simp [Label.text]

@[simp] theorem Items.zero_notMem_comma (items : Items) : 0 ∉ items.comma := by
  cases items <;> simp [Items.comma]

@[simp] theorem Members.zero_notMem_comma (members : Members) :
    0 ∉ members.comma := by
  cases members <;> simp [Members.comma]

mutual

theorem Value.zero_notMem (v : Value) : 0 ∉ v.text := by
  cases v with
  | string s => simp [Value.text]
  | primitive word => simp [Value.text]
  | array pad items => simp [Value.text, items.zero_notMem]
  | object pad members => simp [Value.text, members.zero_notMem]

theorem Items.zero_notMem (items : Items) : 0 ∉ items.text := by
  cases items with
  | nil => simp [Items.text]
  | cons before v after rest =>
      simp [Items.text, v.zero_notMem, rest.zero_notMem]

theorem Members.zero_notMem (members : Members) : 0 ∉ members.text := by
  cases members with
  | nil => simp [Members.text]
  | cons label v after rest =>
      simp [Members.text, v.zero_notMem, rest.zero_notMem]

end

/-- A text is a string. -/
theorem Document.zero_notMem (doc : Document) : 0 ∉ doc.text := by
  simp [Document.text, doc.value.zero_notMem]

end EspAdf.Verified.JsonText
