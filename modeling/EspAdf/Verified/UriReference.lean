import Mathlib

/-!
# URI references and their targets

A URI reference has up to five components.  `Reference.text` writes them down,
`Reference.WF` says which components a text can have, and `target` resolves a
reference against a base, up to the removal of `.` and `..` segments: it keeps
what the reference has, takes what comes before that from the base, and merges
a relative path with the path of the base.

* `target_text_authority`, `target_text_rooted`, `target_text_relative` — the
  target's text is the text of the reference, behind a prefix of the base.
* `SameUri.length_text` — the case of the scheme does not matter, so two texts
  of one URI have the same length.

The module names nothing of the modelled repository.
-/

namespace EspAdf.Verified.Uri

def COLON : UInt8 := 58

def SLASH : UInt8 := 47

def QUESTION : UInt8 := 63

def HASH : UInt8 := 35

/-- An ASCII letter in lower case. -/
def lower (c : UInt8) : UInt8 := if 65 ≤ c ∧ c ≤ 90 then c + 32 else c

/-! ## Components -/

structure Reference where
  scheme : Option (List UInt8)
  authority : Option (List UInt8)
  path : List UInt8
  query : Option (List UInt8)
  fragment : Option (List UInt8)
  deriving DecidableEq, Repr

namespace Reference

def schemeText (r : Reference) : List UInt8 :=
  match r.scheme with
  | none => []
  | some s => s ++ [COLON]

def authorityText (r : Reference) : List UInt8 :=
  match r.authority with
  | none => []
  | some a => [SLASH, SLASH] ++ a

def queryText (r : Reference) : List UInt8 :=
  match r.query with
  | none => []
  | some q => QUESTION :: q

def fragmentText (r : Reference) : List UInt8 :=
  match r.fragment with
  | none => []
  | some f => HASH :: f

/-- A reference as it is written. -/
def text (r : Reference) : List UInt8 :=
  r.schemeText ++ (r.authorityText ++ (r.path ++
    (r.queryText ++ r.fragmentText)))

/-- No component holds a delimiter that would end it, and none is mistaken for
another one. -/
structure WF (r : Reference) : Prop where
  scheme : ∀ s ∈ r.scheme, s ≠ [] ∧
    ∀ c ∈ s, c ≠ COLON ∧ c ≠ SLASH ∧ c ≠ QUESTION ∧ c ≠ HASH
  authority : ∀ a ∈ r.authority,
    ∀ c ∈ a, c ≠ SLASH ∧ c ≠ QUESTION ∧ c ≠ HASH
  path : ∀ c ∈ r.path, c ≠ QUESTION ∧ c ≠ HASH
  query : ∀ q ∈ r.query, HASH ∉ q
  pathAbempty : r.authority.isSome → r.path = [] ∨ r.path.head? = some SLASH
  pathAbsolute : r.authority = none → ¬[SLASH, SLASH] <+: r.path
  pathNoscheme : r.scheme = none → r.authority = none →
    COLON ∉ r.path.takeWhile fun c => c != SLASH

/-- The base's path up to its last `/`, which an empty path lacks. -/
def directory (base : Reference) : List UInt8 :=
  if base.authority.isSome ∧ base.path = [] then [SLASH]
  else base.path.rdropWhile fun c => c != SLASH

/-- The target of `r` against `base`, before dot segments are removed. -/
def target (base r : Reference) : Reference :=
  match r.scheme with
  | some _ => r
  | none =>
      match r.authority with
      | some _ => { r with scheme := base.scheme }
      | none =>
          if r.path = [] then
            { scheme := base.scheme
              authority := base.authority
              path := base.path
              query := r.query.or base.query
              fragment := r.fragment }
          else if r.path.head? = some SLASH then
            { r with scheme := base.scheme, authority := base.authority }
          else
            { r with
              scheme := base.scheme
              authority := base.authority
              path := base.directory ++ r.path }

/-! ## The target's text -/

variable {r : Reference}

theorem target_of_scheme (base : Reference) {s : List UInt8} (hs : r.scheme = some s) :
    target base r = r := by
  rw [target, hs]

theorem target_text_authority (base : Reference) {a : List UInt8} (hs : r.scheme = none)
    (ha : r.authority = some a) :
    (target base r).text = base.schemeText ++ r.text := by
  simp [target, hs, ha, text, schemeText, authorityText, queryText,
    fragmentText]

theorem target_text_rooted (base : Reference) (hs : r.scheme = none) (ha : r.authority = none)
    (hp : r.path.head? = some SLASH) :
    (target base r).text = base.schemeText ++ (base.authorityText ++ r.text) := by
  have hne : r.path ≠ [] := by
    intro hnil
    rw [hnil] at hp
    contradiction
  simp [target, hs, ha, hne, hp, text, schemeText, authorityText, queryText,
    fragmentText]

theorem target_text_relative (base : Reference) (hs : r.scheme = none) (ha : r.authority = none)
    (hne : r.path ≠ []) (hp : r.path.head? ≠ some SLASH) :
    (target base r).text = base.schemeText ++ (base.authorityText ++
      (base.directory ++ r.text)) := by
  simp [target, hs, ha, hne, hp, text, schemeText, authorityText, queryText,
    fragmentText]

/-! ## The case of the scheme -/

/-- The same URI: the case of the scheme does not matter. -/
structure SameUri (r r' : Reference) : Prop where
  scheme : r.scheme.map (List.map lower) = r'.scheme.map (List.map lower)
  authority : r.authority = r'.authority
  path : r.path = r'.path
  query : r.query = r'.query
  fragment : r.fragment = r'.fragment

theorem SameUri.refl (r : Reference) : SameUri r r := ⟨rfl, rfl, rfl, rfl, rfl⟩

theorem SameUri.length_text {r' : Reference} (h : SameUri r r') :
    r.text.length = r'.text.length := by
  have hscheme : r.schemeText.length = r'.schemeText.length := by
    have hmap := congrArg (Option.map List.length) h.scheme
    unfold schemeText
    cases hr : r.scheme <;> cases hr' : r'.scheme <;> simp_all
  simp [text, hscheme, authorityText, queryText, fragmentText, h.authority,
    h.path, h.query, h.fragment]

end Reference

end EspAdf.Verified.Uri
