import EspAdf.Ports.AwsSigV4

/-!
# `aws_sig_v4_signing.c`: the header and the formula

The formula of the signature is stated here in its own terms, with its lists
joined by their separators.  `aws_sig_v4_signing_header` prints the separator
of the signed headers as a character, and without signed headers that character
is NUL: it goes into the hash of the request, and it ends the header.

`signing_formula_iff` proves that the header is the one of the formula exactly
if there are signed headers, and the header fits behind the stages.
-/

namespace EspAdf.Ports.AwsSigV4

open EspAdf.Verified.CString

/-! ## The formula -/

/-- Parts with a separator between them. -/
def joined (sep : String) (parts : List (List UInt8)) : List UInt8 :=
  List.intercalate (ascii sep) parts

section

variable (crypto : Crypto) (config : Config)

/-- The names of the headers that are signed. -/
def signedNames : List UInt8 :=
  joined ";" ((if config.signedHeaders.val = [] then []
    else [config.signedHeaders.val]) ++ [ascii "host", ascii "x-amz-date"])

/-- The headers that are signed, a line for each. -/
def signedLines : List UInt8 :=
  config.canonicalHeaders ++ ascii "host:" ++ config.host ++ ascii "\n" ++
    ascii "x-amz-date:" ++ config.amzDate ++ ascii "\n"

def formulaRequest : List UInt8 :=
  joined "\n" [config.method, config.path, config.query, signedLines config,
    signedNames config, hex (crypto.sha256 config.payload)]

def formulaScope : List UInt8 :=
  joined "/" [config.dateStamp, config.regionName, config.serviceName,
    ascii "aws4_request"]

def formulaToSign : List UInt8 :=
  joined "\n" [ascii "AWS4-HMAC-SHA256", config.amzDate, formulaScope config,
    hex (crypto.sha256 (formulaRequest crypto config))]

def formulaKey : List UInt8 :=
  [config.dateStamp.val, config.regionName.val, config.serviceName.val,
    ascii "aws4_request"].foldl (fun key part => (crypto.hmac key part).toList)
    (ascii "AWS4" ++ config.secretKey)

def formulaSignature : List UInt8 :=
  hex (crypto.hmac (formulaKey crypto config) (formulaToSign crypto config))

/-- The value of the header `Authorization`. -/
def authorization : List UInt8 :=
  ascii "AWS4-HMAC-SHA256 " ++ joined ", "
    [ascii "Credential=" ++ config.accessKey ++ ascii "/" ++
        formulaScope config,
      ascii "SignedHeaders=" ++ signedNames config,
      ascii "Signature=" ++ formulaSignature crypto config]

end

/-- `aws_sig_v4_signing_header` returns the string `s`. -/
def Returns (crypto : Crypto) (config : Config) (s : List UInt8) : Prop :=
  ∃ ctx p, awsSigV4SigningHeader crypto config = some (ctx, p) ∧
    Holds ctx.buffer p s

/-! ## What is printed, with signed headers -/

variable {crypto : Crypto} {config : Config}

theorem formulaScope_eq : formulaScope config = credentialScope config := by
  simp [formulaScope, credentialScope, joined, List.intercalate, ascii]

theorem formulaKey_eq :
    formulaKey crypto config = (signingKey crypto config).toList := rfl

/-- The names, and what is printed for them. -/
theorem signedNames_eq (h : config.signedHeaders.val ≠ []) :
    signedNames config = config.signedHeaders.val ++ [separate config] ++
      ascii "host;x-amz-date" := by
  rw [separate, if_pos (List.length_pos_iff.2 h), signedNames, if_neg h]
  simp [joined, List.intercalate, ascii]

theorem formulaRequest_eq (h : config.signedHeaders.val ≠ []) :
    formulaRequest crypto config = request crypto config := by
  rw [formulaRequest, signedNames_eq h]
  simp [request, canonicalRequest, payloadHash, joined, List.intercalate, ascii,
    signedLines]

theorem formulaToSign_eq (h : config.signedHeaders.val ≠ []) :
    formulaToSign crypto config = toSign crypto config := by
  rw [formulaToSign, formulaRequest_eq h, formulaScope_eq]
  simp [toSign, stringToSign, requestHash, joined, List.intercalate, ascii,
    awsAlgorithm]

/-- With signed headers the formula is what is printed. -/
theorem authorization_eq (h : config.signedHeaders.val ≠ []) :
    authorization crypto config = header crypto config := by
  have hsignature : formulaSignature crypto config =
      signature crypto config := by
    rw [formulaSignature, formulaToSign_eq h, formulaKey_eq, signature]
  rw [authorization, hsignature, formulaScope_eq, signedNames_eq h]
  simp [header, authorizationHeader, joined, List.intercalate, ascii,
    awsAlgorithm]

/-! ## The length of the header -/

/-- The length of the header of the formula, with signed headers. -/
def authorizationLen (config : Config) : Nat :=
  config.accessKey.val.length + scopeLen config +
    config.signedHeaders.val.length + 137

theorem length_authorization (h : config.signedHeaders.val ≠ []) :
    (authorization crypto config).length = authorizationLen config := by
  rw [authorization_eq h]
  simp only [header, authorizationHeader, signature, List.length_append,
    length_hex, length_scope, authorizationLen]
  simp [ascii, awsAlgorithm]
  omega

/-! ## The separator -/

/-- What is printed before the signed headers. -/
def beforeNames (config : Config) : List UInt8 :=
  awsAlgorithm ++ ascii " Credential=" ++ config.accessKey ++ ascii "/" ++
    credentialScope config ++ ascii ", SignedHeaders="

theorem zero_notMem_beforeNames : 0 ∉ beforeNames config :=
  zero_notMem_append (zero_notMem_append (zero_notMem_append
    (zero_notMem_append (zero_notMem_append (by decide) (by decide))
      config.accessKey.2) (by decide)) zero_notMem_scope) (by decide)

/-- With signed headers a string is printed. -/
theorem zero_notMem_header (h : config.signedHeaders.val ≠ []) :
    0 ∉ header crypto config := by
  have hseparate : 0 ∉ [separate config] := by
    rw [separate, if_pos (List.length_pos_iff.2 h)]
    decide
  exact zero_notMem_append (zero_notMem_append (zero_notMem_append
    (zero_notMem_append zero_notMem_beforeNames config.signedHeaders.2)
      hseparate) (by decide)) (hex_ne_zero _)

/-- Without signed headers a NUL is printed behind `SignedHeaders=`. -/
theorem header_of_empty (h : config.signedHeaders.val = []) :
    header crypto config = beforeNames config ++
      0 :: (ascii "host;x-amz-date, Signature=" ++
        signature crypto config) := by
  rw [header, authorizationHeader, separate, h, if_neg (by decide)]
  simp [beforeNames]

theorem authorization_of_empty (h : config.signedHeaders.val = []) :
    authorization crypto config = beforeNames config ++
      (ascii "host;x-amz-date, Signature=" ++
        formulaSignature crypto config) := by
  rw [authorization, signedNames, if_pos h, formulaScope_eq]
  simp [beforeNames, joined, List.intercalate, ascii, awsAlgorithm]

/-! ## What is returned -/

variable {ctx ctx' : Ctx} {l t s a b : List UInt8}

/-- What `snprintf` writes is some bytes. -/
theorem snprintf_write (hs : ctx.snprintf s = some ctx') :
    ∃ bytes, ctx.write bytes = some ctx' := by
  rw [Ctx.snprintf] at hs
  exact ⟨_, (Option.ite_none_left_eq_some.1 hs).2⟩

/-- The string that is printed, if it fits. -/
theorem Laid.print_holds (h : Laid ctx l t) (hs : ctx.snprintf s = some ctx')
    (hzero : 0 ∉ s)
    (hle : l.length + s.length + 1 ≤ AWS_SIG_V4_BUFFER_SIZE) :
    Holds ctx'.buffer l.length s :=
  (h.print hle hs).2.holds (b := []) hzero (List.append_assoc l s [0])

/-- A NUL in what is printed ends the string, if it fits. -/
theorem Laid.print_nul (h : Laid ctx l t)
    (hs : ctx.snprintf (a ++ 0 :: b) = some ctx') (hzero : 0 ∉ a)
    (hle : l.length + a.length + 2 ≤ AWS_SIG_V4_BUFFER_SIZE) :
    Holds ctx'.buffer l.length a := by
  obtain ⟨k, hk⟩ := Nat.exists_eq_add_of_le hle
  have hremain : ctx.remain = ((a.length + k + 2 : Nat) : Int) := by
    rw [Ctx.remain, h.offset]
    omega
  have htake : (a ++ 0 :: b).take (a.length + k + 2 - 1) ++ [0] =
      a ++ (0 :: (b.take k ++ [0])) := by
    have hlength : a.length + k + 2 - 1 = a.length + (k + 1) := by omega
    rw [hlength, List.take_length_add_append, List.take_succ_cons,
      List.append_assoc, List.cons_append]
  rw [Ctx.snprintf, hremain, if_neg (by omega), if_neg (by omega),
    Int.toNat_natCast, htake] at hs
  exact (h.write hs rfl).2.holds hzero (List.append_assoc l a _)

/-- What is returned is printed behind the stages. -/
theorem Returns.holds (h : Returns crypto config s) :
    ∃ ctx ctx', Laid ctx (layout crypto config) [] ∧
      ctx.snprintf (header crypto config) = some ctx' ∧
        Holds ctx'.buffer (layout crypto config).length s := by
  obtain ⟨c, p, hreturn, hholds⟩ := h
  obtain ⟨ctx, hlaid, hsome⟩ | ⟨-, hnone⟩ := signing_lays crypto config
  · obtain ⟨ctx', hs⟩ := snprintf_isSome hlaid (header crypto config)
    rw [hs, Option.map_some, hreturn] at hsome
    obtain ⟨rfl, rfl⟩ := Prod.mk.inj (Option.some.inj hsome)
    exact ⟨ctx, c, hlaid, hs, hholds⟩
  · rw [hnone] at hreturn
    cases hreturn

/-- What is returned ends inside the buffer. -/
theorem Returns.lt (h : Returns crypto config s) :
    headerOffset config + s.length < AWS_SIG_V4_BUFFER_SIZE := by
  obtain ⟨ctx, ctx', hlaid, hs, hholds⟩ := h.holds
  obtain ⟨bytes, hw⟩ := snprintf_write hs
  have hlt := hholds.lt
  have hsize := (hlaid.write hw (List.append_nil _).symm).2.size
  rw [Ctx.next] at hsize
  rw [hsize, length_layout] at hlt
  exact hlt

/-- With signed headers, a header that fits is the one of the formula. -/
theorem returns_of_fits (h : config.signedHeaders.val ≠ [])
    (hle : headerOffset config + authorizationLen config + 1 ≤
      AWS_SIG_V4_BUFFER_SIZE) :
    Returns crypto config (authorization crypto config) := by
  have hlength : (authorization crypto config).length =
      authorizationLen config := length_authorization h
  obtain ⟨ctx, hlaid, hsome⟩ | ⟨hlt, -⟩ := signing_lays crypto config
  · obtain ⟨ctx', hs⟩ := snprintf_isSome hlaid (header crypto config)
    rw [hs, Option.map_some] at hsome
    refine ⟨ctx', (layout crypto config).length, hsome, ?_⟩
    rw [authorization_eq h] at hlength ⊢
    refine hlaid.print_holds hs (zero_notMem_header h) ?_
    rw [length_layout, hlength]
    exact hle
  · rw [length_layout] at hlt
    omega

/-- Without signed headers, the header ends where they would stand. -/
theorem not_returns_of_empty (h : config.signedHeaders.val = []) :
    ¬ Returns crypto config (authorization crypto config) := by
  intro hreturns
  have hlt := hreturns.lt
  obtain ⟨ctx, ctx', hlaid, hs, hholds⟩ := hreturns.holds
  rw [authorization_of_empty h] at hlt hholds
  have hrest : 0 < (ascii "host;x-amz-date, Signature=" ++
      formulaSignature crypto config).length := by
    rw [List.length_append]
    exact Nat.lt_of_lt_of_le (by decide) (Nat.le_add_right _ _)
  rw [List.length_append] at hlt
  have hnul := hlaid.print_nul (header_of_empty h ▸ hs) zero_notMem_beforeNames
    (by rw [length_layout]; omega)
  have heq := congrArg List.length (hnul.cString.symm.trans hholds.cString)
  rw [List.length_append] at heq
  omega

/-- **The header is the one of the formula exactly if there are signed headers,
and it fits behind the stages with its NUL.** -/
theorem signing_formula_iff (crypto : Crypto) (config : Config) :
    Returns crypto config (authorization crypto config) ↔
      config.signedHeaders.val ≠ [] ∧
        headerOffset config + authorizationLen config + 1 ≤
          AWS_SIG_V4_BUFFER_SIZE := by
  constructor
  · intro hreturns
    have hne : config.signedHeaders.val ≠ [] := fun hempty =>
      not_returns_of_empty hempty hreturns
    have hlt := hreturns.lt
    rw [length_authorization hne] at hlt
    exact ⟨hne, hlt⟩
  · rintro ⟨hne, hle⟩
    exact returns_of_fits hne hle

/-- A request without headers of its own. -/
def pollyRequest : Config :=
  speechRequest ⟨ascii "polly.us-east-1.amazonaws.com", by decide⟩

/-- All strings of the request fit, and its header is not the one of the
formula. -/
theorem signing_formula_empty :
    ¬ (headerOffset pollyRequest ≤ AWS_SIG_V4_BUFFER_SIZE →
        Returns zeroCrypto pollyRequest
          (authorization zeroCrypto pollyRequest)) := by
  intro hclaim
  have hfits : headerOffset pollyRequest ≤ AWS_SIG_V4_BUFFER_SIZE := by decide
  exact not_returns_of_empty rfl (hclaim hfits)

end EspAdf.Ports.AwsSigV4
