import EspAdf.Verified.CString

/-!
# `aws_sig_v4_signing.c`: the stages in one buffer

`aws_sig_v4_signing_header` puts hashes and strings one behind the other into
the buffer of its context.  A stage writes at `buffer_offset`, reads strings of
earlier stages from the buffer, and moves `buffer_offset` on by what `snprintf`
says it would have printed.  `snprintf` is told how much room is left, and cuts
off what does not fit; the hashes are written without a look at the room, and
nothing looks at what was cut off.

`Laid` is what is known of the buffer after a stage, and `signing_lays` says
what all stages come to.  `signing_inside_iff` proves that no byte is written
behind the buffer, and no size is negative, exactly if all stages up to the
header fit.  Lengths are counted in ℕ.
-/

namespace EspAdf.Ports.AwsSigV4

open EspAdf.Verified.CString

/-! ## Data -/

def HASH_LENGHT : Nat := 32
def HASH_HEX_LENGTH : Nat := 65
def AWS_SIG_V4_BUFFER_SIZE : Nat := 2048

/-- The bytes of a literal. -/
def ascii (s : String) : List UInt8 := s.toList.map fun c => UInt8.ofNat c.toNat

def awsAlgorithm : List UInt8 := ascii "AWS4-HMAC-SHA256"

/-- A string without the NUL at its end. -/
abbrev Str := {s : List UInt8 // 0 ∉ s}

/-- `aws_sig_v4_config_t`; the payload has `payload_len` bytes. -/
structure Config where
  serviceName : Str
  regionName : Str
  secretKey : Str
  accessKey : Str
  host : Str
  method : Str
  path : Str
  query : Str
  amzDate : Str
  dateStamp : Str
  signedHeaders : Str
  canonicalHeaders : Str
  payload : List UInt8

/-- A digest. -/
abbrev Hash := Vector UInt8 HASH_LENGHT

/-- SHA-256 and HMAC-SHA-256. -/
structure Crypto where
  sha256 : List UInt8 → Hash
  hmac : List UInt8 → List UInt8 → Hash

/-- The buffer of `aws_sig_v4_context_t`, and its offset. -/
structure Ctx where
  buffer : List UInt8
  bufferOffset : Nat

/-! ## Hashes -/

def hexDigit (n : Nat) : UInt8 :=
  UInt8.ofNat (if n < 10 then 48 + n else 87 + n)

/-- `"%02x"` for every byte of a hash. -/
def hex (hash : Hash) : List UInt8 :=
  hash.toList.flatMap fun b =>
    [hexDigit (b.toNat / 16), hexDigit (b.toNat % 16)]

/-- `_get_signature_key`. -/
def getSignatureKey (crypto : Crypto) (aws4Key dateStamp regionName
    serviceName : List UInt8) : Hash :=
  let kDate := crypto.hmac aws4Key dateStamp
  let kRegion := crypto.hmac kDate.toList regionName
  let kService := crypto.hmac kRegion.toList serviceName
  crypto.hmac kService.toList (ascii "aws4_request")

/-! ## The buffer -/

/-- The string at a pointer into the buffer. -/
def Ctx.stringAt (ctx : Ctx) (p : Nat) : List UInt8 :=
  cString (ctx.buffer.drop p)

/-- `len` bytes at a pointer into the buffer. -/
def Ctx.bytesAt (ctx : Ctx) (p len : Nat) : List UInt8 :=
  (ctx.buffer.drop p).take len

/-- Bytes are written at `GET_BUFFER(ctx)`, if they end inside the buffer. -/
def Ctx.write (ctx : Ctx) (bytes : List UInt8) : Option Ctx :=
  if ctx.bufferOffset + bytes.length ≤ AWS_SIG_V4_BUFFER_SIZE then
    some { ctx with buffer := store ctx.buffer ctx.bufferOffset bytes }
  else none

/-- `REMAIN_BUFFER(ctx)`. -/
def Ctx.remain (ctx : Ctx) : Int := AWS_SIG_V4_BUFFER_SIZE - ctx.bufferOffset

/-- `snprintf(GET_BUFFER(ctx), REMAIN_BUFFER(ctx), ..)`, if the size is not
negative. -/
def Ctx.snprintf (ctx : Ctx) (s : List UInt8) : Option Ctx :=
  if ctx.remain < 0 then none
  else ctx.write
    (if ctx.remain = 0 then [] else s.take (ctx.remain.toNat - 1) ++ [0])

/-- `NEXT_BUFFER(ctx, len)`. -/
def Ctx.next (ctx : Ctx) (len : Nat) : Ctx :=
  { ctx with bufferOffset := ctx.bufferOffset + len }

/-! ## The stages -/

/-- `separate`. -/
def separate (config : Config) : UInt8 :=
  if 0 < config.signedHeaders.val.length then 59 else 0

/-- What is printed for the canonical request. -/
def canonicalRequest (config : Config) (payloadHash : List UInt8) :
    List UInt8 :=
  config.method ++ ascii "\n" ++ config.path ++ ascii "\n" ++ config.query ++
    ascii "\n" ++ config.canonicalHeaders ++ ascii "host:" ++ config.host ++
    ascii "\nx-amz-date:" ++ config.amzDate ++ ascii "\n\n" ++
    config.signedHeaders ++ [separate config] ++ ascii "host;x-amz-date\n" ++
    payloadHash

/-- What is printed for the credential scope. -/
def credentialScope (config : Config) : List UInt8 :=
  config.dateStamp ++ ascii "/" ++ config.regionName ++ ascii "/" ++
    config.serviceName ++ ascii "/aws4_request"

/-- What is printed for the key. -/
def aws4Key (config : Config) : List UInt8 := ascii "AWS4" ++ config.secretKey

/-- What is printed for the string to sign. -/
def stringToSign (config : Config)
    (scope canonicalRequestSha256 : List UInt8) : List UInt8 :=
  awsAlgorithm ++ ascii "\n" ++ config.amzDate ++ ascii "\n" ++ scope ++
    ascii "\n" ++ canonicalRequestSha256

/-- What is printed for the header. -/
def authorizationHeader (config : Config) (scope signature : List UInt8) :
    List UInt8 :=
  awsAlgorithm ++ ascii " Credential=" ++ config.accessKey ++ ascii "/" ++
    scope ++ ascii ", SignedHeaders=" ++ config.signedHeaders ++
    [separate config] ++ ascii "host;x-amz-date, Signature=" ++ signature

/-- A hash is written, with a NUL, at `GET_BUFFER(ctx)`. -/
def Ctx.putHex (ctx : Ctx) (hash : Hash) : Option Ctx :=
  ctx.write (hex hash ++ [0])

/-- `aws_sig_v4_signing_header` up to `canonical_request_sha256`, which is the
pointer that is returned. -/
def hashRequest (crypto : Crypto) (config : Config) (ctx : Ctx) :
    Option (Ctx × Nat) := do
  let payloadHash := ctx.bufferOffset
  let ctx ← ctx.putHex (crypto.sha256 config.payload)
  let ctx := ctx.next HASH_HEX_LENGTH
  let canonical := ctx.bufferOffset
  let printed := canonicalRequest config (ctx.stringAt payloadHash)
  let ctx ← ctx.snprintf printed
  let ctx := ctx.next (printed.length + 1)
  let requestSha256 := ctx.bufferOffset
  let ctx ← ctx.putHex
    (crypto.sha256 (ctx.bytesAt canonical printed.length))
  return (ctx.next HASH_HEX_LENGTH, requestSha256)

/-- From `credential_scope` to `signing_key`, the two pointers that are
returned. -/
def deriveKey (crypto : Crypto) (config : Config) (ctx : Ctx) :
    Option (Ctx × Nat × Nat) := do
  let scope := ctx.bufferOffset
  let printed := credentialScope config
  let ctx ← ctx.snprintf printed
  let ctx := ctx.next (printed.length + 1)
  let key := ctx.bufferOffset
  let printed := aws4Key config
  let ctx ← ctx.snprintf printed
  let ctx := ctx.next printed.length
  let signingKey := ctx.bufferOffset
  let ctx ← ctx.write (getSignatureKey crypto (ctx.stringAt key)
    config.dateStamp config.regionName config.serviceName).toList
  return (ctx.next HASH_LENGHT, scope, signingKey)

/-- From `string_to_sign` to `authorization_header`, the pointer that is
returned. -/
def signRequest (crypto : Crypto) (config : Config) (ctx : Ctx)
    (requestSha256 scope signingKey : Nat) : Option (Ctx × Nat) := do
  let toSign := ctx.bufferOffset
  let printed := stringToSign config (ctx.stringAt scope)
    (ctx.stringAt requestSha256)
  let ctx ← ctx.snprintf printed
  let ctx := ctx.next (printed.length + 1)
  let signature := ctx.bufferOffset
  let ctx ← ctx.putHex (crypto.hmac (ctx.bytesAt signingKey HASH_LENGHT)
    (ctx.bytesAt toSign printed.length))
  let ctx := ctx.next HASH_HEX_LENGTH
  let header := ctx.bufferOffset
  let ctx ← ctx.snprintf (authorizationHeader config (ctx.stringAt scope)
    (ctx.stringAt signature))
  return (ctx, header)

/-- `aws_sig_v4_signing_header`: the context, and the pointer that is returned
into its buffer; nothing if a byte is written behind the buffer, or a size is
negative. -/
def awsSigV4SigningHeader (crypto : Crypto) (config : Config) :
    Option (Ctx × Nat) := do
  let ctx : Ctx := ⟨List.replicate AWS_SIG_V4_BUFFER_SIZE 0, 0⟩
  let (ctx, requestSha256) ← hashRequest crypto config ctx
  let (ctx, scope, signingKey) ← deriveKey crypto config ctx
  signRequest crypto config ctx requestSha256 scope signingKey

/-! ## What is known of the buffer -/

/-- The buffer holds `l` up to the offset, and `t` behind it. -/
structure Laid (ctx : Ctx) (l t : List UInt8) : Prop where
  offset : ctx.bufferOffset = l.length
  size : ctx.buffer.length = AWS_SIG_V4_BUFFER_SIZE
  content : ctx.buffer.take (l ++ t).length = l ++ t

variable {ctx ctx' : Ctx} {l t s bytes : List UInt8}

theorem Laid.le (h : Laid ctx l t) :
    l.length + t.length ≤ AWS_SIG_V4_BUFFER_SIZE := by
  have hlength := congrArg List.length h.content
  rw [List.length_take, h.size, List.length_append] at hlength
  omega

theorem Laid.start : Laid ⟨List.replicate AWS_SIG_V4_BUFFER_SIZE 0, 0⟩ [] [] :=
  ⟨rfl, List.length_replicate, rfl⟩

/-- Some of what is known is part of it. -/
theorem Laid.take (h : Laid ctx l t) : ctx.buffer.take l.length = l := by
  have htake := congrArg (List.take l.length) h.content
  rw [List.take_take, List.take_left, List.length_append,
    Nat.min_eq_left (Nat.le_add_right _ _)] at htake
  exact htake

/-- Bytes are written, over what is known behind the offset. -/
theorem Laid.write (h : Laid ctx l t) (hw : ctx.write bytes = some ctx')
    {a b : List UInt8} (hbytes : bytes = a ++ b) :
    l.length + bytes.length ≤ AWS_SIG_V4_BUFFER_SIZE ∧
      Laid (ctx'.next a.length) (l ++ a) b := by
  rw [Ctx.write, h.offset] at hw
  obtain ⟨hle, hw⟩ := Option.ite_none_right_eq_some.1 hw
  obtain rfl := Option.some.inj hw
  have hlt : l.length + bytes.length ≤ ctx.buffer.length := by
    rw [h.size]
    exact hle
  refine ⟨hle, ⟨?_, ?_, ?_⟩⟩
  · exact List.length_append.symm
  · exact (length_store hlt).trans h.size
  · have hlength : (l ++ a ++ b).length = l.length + bytes.length := by
      rw [hbytes, List.append_assoc, List.length_append]
    rw [hlength]
    refine (take_store (by omega)).trans ?_
    rw [h.take, hbytes, List.append_assoc]

theorem write_isSome (h : Laid ctx l t)
    (hle : l.length + bytes.length ≤ AWS_SIG_V4_BUFFER_SIZE) :
    ∃ ctx', ctx.write bytes = some ctx' := by
  rw [Ctx.write, h.offset, if_pos hle]
  exact ⟨_, rfl⟩

/-- What fits is printed with a NUL. -/
theorem snprintf_fits (h : Laid ctx l t)
    (hle : l.length + s.length + 1 ≤ AWS_SIG_V4_BUFFER_SIZE) :
    ctx.snprintf s = ctx.write (s ++ [0]) := by
  have hremain : ctx.remain =
      ((AWS_SIG_V4_BUFFER_SIZE - l.length : Nat) : Int) := by
    rw [Ctx.remain, h.offset]
    omega
  rw [Ctx.snprintf, hremain, if_neg (by omega), if_neg (by omega),
    Int.toNat_natCast, List.take_of_length_le (by omega)]

/-- What is printed does not move the offset, and a size was left. -/
theorem snprintf_some (hs : ctx.snprintf s = some ctx') :
    ctx.bufferOffset ≤ AWS_SIG_V4_BUFFER_SIZE ∧
      ctx'.bufferOffset = ctx.bufferOffset := by
  rw [Ctx.snprintf] at hs
  obtain ⟨hremain, hs⟩ := Option.ite_none_left_eq_some.1 hs
  rw [Ctx.remain] at hremain
  rw [Ctx.write] at hs
  obtain ⟨-, hs⟩ := Option.ite_none_right_eq_some.1 hs
  obtain rfl := Option.some.inj hs
  exact ⟨by omega, rfl⟩

/-- There is room for what `snprintf` writes. -/
theorem snprintf_isSome (h : Laid ctx l t) (s : List UInt8) :
    ∃ ctx', ctx.snprintf s = some ctx' := by
  have hle := h.le
  rw [Ctx.snprintf, if_neg (by rw [Ctx.remain, h.offset]; omega)]
  refine write_isSome h ?_
  rw [Ctx.remain, h.offset]
  split
  · exact Nat.le_trans (Nat.le_add_right _ _) hle
  · rw [List.length_append, List.length_take, List.length_singleton]
    omega

/-- A string that stands in the buffer. -/
theorem Laid.holds (h : Laid ctx l t) {a b : List UInt8} (hs : 0 ∉ s)
    (hl : l ++ t = a ++ (s ++ 0 :: b)) : Holds ctx.buffer a.length s := by
  have hcontent := h.content
  rw [hl] at hcontent
  exact Holds.of_prefix hs hcontent

theorem Laid.stringAt (h : Laid ctx l t) {a b : List UInt8} (hs : 0 ∉ s)
    (hl : l ++ t = a ++ (s ++ 0 :: b)) : ctx.stringAt a.length = s :=
  (h.holds hs hl).cString

/-- Bytes that stand in the buffer. -/
theorem Laid.bytesAt (h : Laid ctx l t) {a b : List UInt8}
    (hl : l ++ t = a ++ (s ++ b)) : ctx.bytesAt a.length s.length = s := by
  have hcontent := h.content
  rw [hl] at hcontent
  exact bytes_of_prefix hcontent

/-- A digest that stands in the buffer. -/
theorem Laid.hashAt (h : Laid ctx l t) {hash : Hash} {a b : List UInt8}
    (hl : l ++ t = a ++ (hash.toList ++ b)) :
    ctx.bytesAt a.length HASH_LENGHT = hash.toList := by
  have hbytes := h.bytesAt hl
  rw [Vector.length_toList] at hbytes
  exact hbytes

/-! ## One stage -/

theorem length_hex (hash : Hash) : (hex hash).length = 64 := by
  rw [hex, List.length_flatMap]
  show (hash.toList.map fun _ => 2).sum = 64
  rw [List.map_const', List.sum_replicate, Vector.length_toList]
  rfl

/-- A hexadecimal digit is no NUL. -/
theorem hex_ne_zero (hash : Hash) : 0 ∉ hex hash := by
  have hdigit : ∀ n : Fin 16, hexDigit n ≠ 0 := by decide
  intro h0
  obtain ⟨b, -, hb⟩ := List.mem_flatMap.1 h0
  have hlt := b.toNat_lt
  rcases List.mem_pair.1 hb with hhigh | hlow
  · exact hdigit ⟨b.toNat / 16, by omega⟩ hhigh.symm
  · exact hdigit ⟨b.toNat % 16, by omega⟩ hlow.symm

/-- A hash is put behind what is there. -/
theorem Laid.putHex (h : Laid ctx l t) {hash : Hash}
    (hput : ctx.putHex hash = some ctx') :
    l.length + 65 ≤ AWS_SIG_V4_BUFFER_SIZE ∧
      Laid (ctx'.next HASH_HEX_LENGTH) (l ++ (hex hash ++ [0])) [] := by
  have hlength : (hex hash ++ [0]).length = 65 := by
    rw [List.length_append, length_hex]
    rfl
  obtain ⟨hle, hlaid⟩ := h.write hput (List.append_nil _).symm
  rw [hlength] at hle hlaid
  exact ⟨hle, hlaid⟩

theorem Laid.putHex_isSome (h : Laid ctx l t) (hash : Hash)
    (hle : l.length + 65 ≤ AWS_SIG_V4_BUFFER_SIZE) :
    ∃ ctx', ctx.putHex hash = some ctx' := by
  refine write_isSome h ?_
  rw [List.length_append, length_hex]
  exact hle

/-- A string that fits is printed behind what is there; the offset moves
behind its NUL, or to the NUL. -/
theorem Laid.print (h : Laid ctx l t)
    (hle : l.length + s.length + 1 ≤ AWS_SIG_V4_BUFFER_SIZE)
    (hs : ctx.snprintf s = some ctx') :
    Laid (ctx'.next (s.length + 1)) (l ++ (s ++ [0])) [] ∧
      Laid (ctx'.next s.length) (l ++ s) [0] := by
  rw [snprintf_fits h hle] at hs
  have hbehind := (h.write hs (List.append_nil _).symm).2
  rw [List.length_append] at hbehind
  exact ⟨hbehind, (h.write hs rfl).2⟩

/-- The digest of the key is written over its NUL. -/
theorem Laid.putHash (h : Laid ctx l t) {hash : Hash}
    (hput : ctx.write hash.toList = some ctx') :
    l.length + 32 ≤ AWS_SIG_V4_BUFFER_SIZE ∧
      Laid (ctx'.next HASH_LENGHT) (l ++ hash.toList) [] := by
  have hlength : hash.toList.length = 32 := Vector.length_toList
  obtain ⟨hle, hlaid⟩ := h.write hput (List.append_nil _).symm
  rw [hlength] at hle hlaid
  exact ⟨hle, hlaid⟩

/-! ## All stages -/

section

variable (crypto : Crypto) (config : Config)

/-- The strings of the stages. -/
def payloadHash : List UInt8 := hex (crypto.sha256 config.payload)

def request : List UInt8 :=
  canonicalRequest config (payloadHash crypto config)

def requestHash : List UInt8 := hex (crypto.sha256 (request crypto config))

def signingKey : Hash :=
  getSignatureKey crypto (aws4Key config) config.dateStamp config.regionName
    config.serviceName

def toSign : List UInt8 :=
  stringToSign config (credentialScope config) (requestHash crypto config)

def signature : List UInt8 :=
  hex (crypto.hmac (signingKey crypto config).toList (toSign crypto config))

def header : List UInt8 :=
  authorizationHeader config (credentialScope config)
    (signature crypto config)

/-- The buffer up to the hash of the request. -/
def canonicalLayout : List UInt8 :=
  [] ++ (payloadHash crypto config ++ [0]) ++ (request crypto config ++ [0])

/-- The buffer up to the credential scope. -/
def requestLayout : List UInt8 :=
  canonicalLayout crypto config ++ (requestHash crypto config ++ [0])

/-- The buffer up to the signing key. -/
def scopeLayout : List UInt8 :=
  requestLayout crypto config ++ (credentialScope config ++ [0]) ++
    aws4Key config

/-- The buffer up to the string to sign. -/
def keyLayout : List UInt8 :=
  scopeLayout crypto config ++ (signingKey crypto config).toList

/-- The buffer up to the header. -/
def layout : List UInt8 :=
  keyLayout crypto config ++ (toSign crypto config ++ [0]) ++
    (signature crypto config ++ [0])

end

variable {crypto : Crypto} {config : Config}

theorem zero_notMem_append {a b : List UInt8} (ha : 0 ∉ a) (hb : 0 ∉ b) :
    0 ∉ a ++ b := by
  rw [List.mem_append, not_or]
  exact ⟨ha, hb⟩

theorem zero_notMem_scope : 0 ∉ credentialScope config :=
  zero_notMem_append (zero_notMem_append (zero_notMem_append
    (zero_notMem_append (zero_notMem_append config.dateStamp.2 (by decide))
      config.regionName.2) (by decide)) config.serviceName.2) (by decide)

theorem zero_notMem_key : 0 ∉ aws4Key config :=
  zero_notMem_append (by decide) config.secretKey.2

/-- Behind the buffer nothing is written. -/
theorem write_none (h : AWS_SIG_V4_BUFFER_SIZE <
    ctx.bufferOffset + bytes.length) : ctx.write bytes = none :=
  if_neg (by omega)

/-- Behind the buffer the size is negative. -/
theorem snprintf_none (h : AWS_SIG_V4_BUFFER_SIZE < ctx.bufferOffset)
    (s : List UInt8) : ctx.snprintf s = none := by
  rw [Ctx.snprintf, if_pos (by rw [Ctx.remain]; omega)]

/-! ## The stages, one after the other -/

/-- What is to be done lays out `l` and prints `s` behind it, or it runs
behind the buffer. -/
def Lays (o : Option (Ctx × Nat)) (l s : List UInt8) : Prop :=
  (∃ ctx, Laid ctx l [] ∧
      o = (ctx.snprintf s).map fun ctx' => (ctx', l.length)) ∨
    (AWS_SIG_V4_BUFFER_SIZE < l.length ∧ o = none)

variable {l' s' : List UInt8} {f : Ctx → Option (Ctx × Nat)}

/-- A hash is put behind what is there. -/
theorem Lays.putHex (h : Laid ctx l t) (hash : Hash)
    (hle : (l ++ (hex hash ++ [0])).length ≤ l'.length)
    (hf : ∀ ctx', Laid (ctx'.next HASH_HEX_LENGTH) (l ++ (hex hash ++ [0])) [] →
      Lays (f ctx') l' s') : Lays ((ctx.putHex hash).bind f) l' s' := by
  by_cases hfit : l.length + 65 ≤ AWS_SIG_V4_BUFFER_SIZE
  · obtain ⟨ctx', hput⟩ := h.putHex_isSome hash hfit
    rw [hput, Option.bind_some]
    exact hf ctx' (h.putHex hput).2
  · have hlength : (l ++ (hex hash ++ [0])).length = l.length + 65 := by
      rw [List.length_append, List.length_append, length_hex]
      rfl
    refine Or.inr ⟨by omega, ?_⟩
    rw [Ctx.putHex, write_none, Option.bind_none]
    rw [h.offset, List.length_append, length_hex, List.length_singleton]
    omega

/-- A digest is put over what is behind the offset. -/
theorem Lays.putHash (h : Laid ctx l t) (hash : Hash)
    (hle : (l ++ hash.toList).length ≤ l'.length)
    (hf : ∀ ctx', Laid (ctx'.next HASH_LENGHT) (l ++ hash.toList) [] →
      Lays (f ctx') l' s') : Lays ((ctx.write hash.toList).bind f) l' s' := by
  have hlength : hash.toList.length = 32 := Vector.length_toList
  by_cases hfit : l.length + 32 ≤ AWS_SIG_V4_BUFFER_SIZE
  · have hroom : l.length + hash.toList.length ≤ AWS_SIG_V4_BUFFER_SIZE := by
      omega
    obtain ⟨ctx', hput⟩ := write_isSome h hroom
    rw [hput, Option.bind_some]
    exact hf ctx' (h.putHash hput).2
  · rw [List.length_append] at hle
    refine Or.inr ⟨by omega, ?_⟩
    rw [write_none (by rw [h.offset]; omega), Option.bind_none]

/-- A string is printed behind what is there; if it is cut off, the next stage
is behind the buffer. -/
theorem Lays.print (h : Laid ctx l t) (s : List UInt8)
    (hle : (l ++ (s ++ [0])).length ≤ l'.length)
    (hcut : ∀ ctx', ctx'.bufferOffset = l.length →
      AWS_SIG_V4_BUFFER_SIZE < l.length + s.length + 1 → f ctx' = none)
    (hf : ∀ ctx', Laid (ctx'.next (s.length + 1)) (l ++ (s ++ [0])) [] →
      Laid (ctx'.next s.length) (l ++ s) [0] → Lays (f ctx') l' s') :
    Lays ((ctx.snprintf s).bind f) l' s' := by
  obtain ⟨ctx', hs⟩ := snprintf_isSome h s
  rw [hs, Option.bind_some]
  by_cases hfit : l.length + s.length + 1 ≤ AWS_SIG_V4_BUFFER_SIZE
  · exact hf ctx' (h.print hfit hs).1 (h.print hfit hs).2
  · rw [List.length_append, List.length_append, List.length_singleton] at hle
    refine Or.inr ⟨by omega, ?_⟩
    exact hcut ctx' ((snprintf_some hs).2.trans h.offset) (by omega)

variable {f : Ctx × Nat → Option (Ctx × Nat)}
variable {g : Ctx × Nat × Nat → Option (Ctx × Nat)}

/-- The request and its hash are laid out. -/
theorem hashRequest_lays (h : Laid ctx [] [])
    (hle : (requestLayout crypto config).length ≤ l'.length)
    (hf : ∀ ctx', Laid ctx' (requestLayout crypto config) [] →
      Lays (f (ctx', (canonicalLayout crypto config).length)) l' s') :
    Lays ((hashRequest crypto config ctx).bind f) l' s' := by
  unfold hashRequest
  simp only [Option.bind_eq_bind, Option.bind_assoc]
  simp only [requestLayout, canonicalLayout, requestHash, payloadHash,
    List.length_append] at hle
  refine Lays.putHex h _ ?_ fun c1 h1 => ?_
  · simp only [List.length_append]
    omega
  have hpayload : (c1.next HASH_HEX_LENGTH).stringAt ctx.bufferOffset =
      payloadHash crypto config := by
    rw [h.offset]
    exact h1.stringAt (b := []) (hex_ne_zero _) (by simp [payloadHash])
  rw [hpayload, ← request]
  refine Lays.print h1 _ ?_ (fun c hc hlt => ?_) fun c2 h2 _ => ?_
  · simp only [List.length_append]
    omega
  · rw [Ctx.putHex, write_none, Option.bind_none]
    show _ < c.bufferOffset + _ + _
    omega
  have hrequest : (c2.next ((request crypto config).length + 1)).bytesAt
      (c1.next HASH_HEX_LENGTH).bufferOffset (request crypto config).length =
        request crypto config := by
    rw [h1.offset]
    exact h2.bytesAt (b := [0]) (by simp)
  rw [hrequest]
  refine Lays.putHex h2 _ ?_ fun c3 h3 => ?_
  · simp only [List.length_append]
    omega
  rw [h2.offset]
  exact hf _ h3

/-- The scope and the signing key are laid out, the key over its NUL. -/
theorem deriveKey_lays (h : Laid ctx (requestLayout crypto config) [])
    (hle : (keyLayout crypto config).length ≤ l'.length)
    (hf : ∀ ctx', Laid ctx' (keyLayout crypto config) [] →
      Lays (g (ctx', (requestLayout crypto config).length,
        (scopeLayout crypto config).length)) l' s') :
    Lays ((deriveKey crypto config ctx).bind g) l' s' := by
  unfold deriveKey
  simp only [Option.bind_eq_bind, Option.bind_assoc]
  have hkey : (signingKey crypto config).toList.length = 32 :=
    Vector.length_toList
  simp only [keyLayout, scopeLayout, List.length_append,
    List.length_singleton, hkey] at hle
  refine Lays.print h _ ?_ (fun c hc hlt => ?_) fun c1 h1 _ => ?_
  · simp only [List.length_append, List.length_singleton]
    omega
  · rw [snprintf_none, Option.bind_none]
    show _ < c.bufferOffset + _
    omega
  refine Lays.print h1 _ ?_ (fun c hc hlt => ?_) fun c2 _ h2 => ?_
  · simp only [List.length_append, List.length_singleton]
    omega
  · rw [write_none, Option.bind_none]
    rw [Vector.length_toList]
    show _ < c.bufferOffset + _ + 32
    omega
  have hread : (c2.next (aws4Key config).length).stringAt
      (c1.next ((credentialScope config).length + 1)).bufferOffset =
        aws4Key config := by
    rw [h1.offset]
    exact h2.stringAt (b := []) zero_notMem_key (by simp)
  rw [hread, ← signingKey]
  refine Lays.putHash h2 _ ?_ fun c3 h3 => ?_
  · simp only [List.length_append, List.length_singleton, hkey]
    omega
  rw [h.offset, h2.offset]
  exact hf _ h3

/-- The string to sign and the signature are laid out. -/
theorem signRequest_lays (h : Laid ctx (keyLayout crypto config) []) :
    Lays (signRequest crypto config ctx (canonicalLayout crypto config).length
      (requestLayout crypto config).length (scopeLayout crypto config).length)
      (layout crypto config) (header crypto config) := by
  unfold signRequest
  simp only [Option.bind_eq_bind]
  have hscope : ctx.stringAt (requestLayout crypto config).length =
      credentialScope config :=
    h.stringAt (b := aws4Key config ++ (signingKey crypto config).toList)
      zero_notMem_scope (by simp [keyLayout, scopeLayout])
  have hhash : ctx.stringAt (canonicalLayout crypto config).length =
      requestHash crypto config :=
    h.stringAt (b := credentialScope config ++ 0 :: (aws4Key config ++
      (signingKey crypto config).toList)) (hex_ne_zero _)
      (by simp [keyLayout, scopeLayout, requestLayout])
  rw [hscope, hhash, ← toSign]
  refine Lays.print h _ ?_ (fun c hc hlt => ?_) fun c1 h1 _ => ?_
  · simp only [layout, List.length_append]
    omega
  · rw [Ctx.putHex, write_none, Option.bind_none]
    show _ < c.bufferOffset + _ + _
    omega
  have hkey : (c1.next ((toSign crypto config).length + 1)).bytesAt
      (scopeLayout crypto config).length HASH_LENGHT =
        (signingKey crypto config).toList :=
    h1.hashAt (b := toSign crypto config ++ [0]) (by simp [keyLayout])
  have htoSign : (c1.next ((toSign crypto config).length + 1)).bytesAt
      ctx.bufferOffset (toSign crypto config).length =
        toSign crypto config := by
    rw [h.offset]
    exact h1.bytesAt (b := [0]) (by simp)
  rw [hkey, htoSign]
  refine Lays.putHex h1 _ ?_ fun c2 h2 => ?_
  · simp only [layout, signature, List.length_append]
    omega
  have hscope' : (c2.next HASH_HEX_LENGTH).stringAt
      (requestLayout crypto config).length = credentialScope config :=
    h2.stringAt (b := aws4Key config ++ ((signingKey crypto config).toList ++
      (toSign crypto config ++ 0 :: (signature crypto config ++ [0]))))
      zero_notMem_scope (by simp [keyLayout, scopeLayout, signature])
  have hsignature : (c2.next HASH_HEX_LENGTH).stringAt
      (c1.next ((toSign crypto config).length + 1)).bufferOffset =
        signature crypto config := by
    rw [h1.offset]
    exact h2.stringAt (b := []) (hex_ne_zero _) (by simp [signature])
  rw [hscope', hsignature, ← header, h2.offset]
  refine Or.inl ⟨c2.next HASH_HEX_LENGTH, h2, ?_⟩
  rw [Option.map_eq_bind]
  rfl

/-- **The stages**: if all fit, each reads what the earlier ones have written,
and if one does not, nothing comes of it. -/
theorem signing_lays (crypto : Crypto) (config : Config) :
    Lays (awsSigV4SigningHeader crypto config) (layout crypto config)
      (header crypto config) := by
  have hkey : (keyLayout crypto config).length ≤
      (layout crypto config).length := by
    simp only [layout, List.length_append]
    omega
  have hrequest : (requestLayout crypto config).length ≤
      (keyLayout crypto config).length := by
    simp only [keyLayout, scopeLayout, List.length_append]
    omega
  refine hashRequest_lays Laid.start (hrequest.trans hkey) fun c1 h1 => ?_
  refine deriveKey_lays h1 hkey fun c2 h2 => ?_
  exact signRequest_lays h2

/-! ## Inside the buffer -/

/-- The length of what is printed for the canonical request. -/
def requestLen (config : Config) : Nat :=
  config.method.val.length + config.path.val.length + config.query.val.length +
    config.canonicalHeaders.val.length + config.host.val.length +
    config.amzDate.val.length + config.signedHeaders.val.length + 103

/-- The length of what is printed for the credential scope. -/
def scopeLen (config : Config) : Nat :=
  config.dateStamp.val.length + config.regionName.val.length +
    config.serviceName.val.length + 15

/-- The length of what is printed for the string to sign. -/
def toSignLen (config : Config) : Nat :=
  config.amzDate.val.length + scopeLen config + 83

/-- Where the header is printed. -/
def headerOffset (config : Config) : Nat :=
  HASH_HEX_LENGTH + (requestLen config + 1) + HASH_HEX_LENGTH +
    (scopeLen config + 1) + (config.secretKey.val.length + 4) + HASH_LENGHT +
    (toSignLen config + 1) + HASH_HEX_LENGTH

theorem length_request (crypto : Crypto) (config : Config) :
    (request crypto config).length = requestLen config := by
  simp only [request, canonicalRequest, payloadHash, List.length_append,
    length_hex, requestLen]
  simp [ascii]
  omega

theorem length_scope (config : Config) :
    (credentialScope config).length = scopeLen config := by
  simp only [credentialScope, List.length_append, scopeLen]
  simp [ascii]
  omega

theorem length_key (config : Config) :
    (aws4Key config).length = config.secretKey.val.length + 4 := by
  simp only [aws4Key, List.length_append]
  simp [ascii]
  omega

theorem length_toSign (crypto : Crypto) (config : Config) :
    (toSign crypto config).length = toSignLen config := by
  simp only [toSign, stringToSign, requestHash, List.length_append, length_hex,
    length_scope, toSignLen]
  simp [ascii, awsAlgorithm]
  omega

/-- The header is printed behind the layout. -/
theorem length_layout (crypto : Crypto) (config : Config) :
    (layout crypto config).length = headerOffset config := by
  simp only [layout, keyLayout, scopeLayout, requestLayout, canonicalLayout,
    List.length_append, payloadHash, requestHash, signature, length_hex,
    length_request, length_scope, length_key, length_toSign,
    Vector.length_toList]
  rfl

/-- A host name is not longer than the buffer. -/
theorem length_host_lt (config : Config) :
    config.host.val.length < headerOffset config := by
  rw [headerOffset, requestLen]
  omega

/-- **Signing stays inside the buffer, and no size is negative, exactly if the
header starts inside it**; what of the header does not fit is cut off. -/
theorem signing_inside_iff (crypto : Crypto) (config : Config) :
    (awsSigV4SigningHeader crypto config).isSome ↔
      headerOffset config ≤ AWS_SIG_V4_BUFFER_SIZE := by
  rw [← length_layout crypto config]
  obtain ⟨ctx, h, hsome⟩ | ⟨hlt, hnone⟩ := signing_lays crypto config
  · obtain ⟨ctx', hs⟩ := snprintf_isSome h (header crypto config)
    rw [hsome, hs]
    exact iff_of_true rfl h.le
  · rw [hnone]
    exact iff_of_false Bool.false_ne_true (by omega)

/-! ## A long host name -/

/-- Every digest is zero. -/
def zeroCrypto : Crypto where
  sha256 := fun _ => Vector.replicate HASH_LENGHT 0
  hmac := fun _ _ => Vector.replicate HASH_LENGHT 0

/-- A request without headers of its own to `host`. -/
def speechRequest (host : Str) : Config where
  serviceName := ⟨ascii "polly", by decide⟩
  regionName := ⟨ascii "us-east-1", by decide⟩
  secretKey := ⟨ascii "secret", by decide⟩
  accessKey := ⟨ascii "access", by decide⟩
  host := host
  method := ⟨ascii "POST", by decide⟩
  path := ⟨ascii "/v1/speech", by decide⟩
  query := ⟨[], by decide⟩
  amzDate := ⟨ascii "20180815T000000Z", by decide⟩
  dateStamp := ⟨ascii "20180815", by decide⟩
  signedHeaders := ⟨[], by decide⟩
  canonicalHeaders := ⟨[], by decide⟩
  payload := ascii "\x7b\x7d"

/-- A host name of 2048 bytes. -/
def longHost : Str :=
  ⟨List.replicate AWS_SIG_V4_BUFFER_SIZE 97, by simp [List.mem_replicate]⟩

/-- The hash of the request is written behind the buffer. -/
theorem signing_outside :
    ¬ (awsSigV4SigningHeader zeroCrypto (speechRequest longHost)).isSome := by
  have hlong : (speechRequest longHost).host.val.length =
      AWS_SIG_V4_BUFFER_SIZE := List.length_replicate
  have hlt := length_host_lt (speechRequest longHost)
  obtain ⟨ctx, h, -⟩ | ⟨-, hnone⟩ :=
    signing_lays zeroCrypto (speechRequest longHost)
  · have hle := h.le
    rw [length_layout] at hle
    omega
  · rw [hnone]
    exact Bool.false_ne_true

end EspAdf.Ports.AwsSigV4
