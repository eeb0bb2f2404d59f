import TermMux.AsciiText
import TermMux.Base64
import TermMux.FrameModel

/-!
# The agent's assertion on a WebSocket upgrade

`ws_auth_payload`, the header parser, the timestamp window, and
`authenticate_ws_upgrade` up to the replay cache, in the order of the source.
Text of headers, hosts and ids is its bytes. Certificate parsing, chain
validation, hashing and signature verification are parameters.
-/

set_option autoImplicit false

namespace Term.AgentAuth
open Term.ByteOrder Term.Utf8Text Term.AsciiText Term.FrameModel Term.Outcome

def wsAuthDomain : Bytes := asBytes "term-agent-ws-auth"
def machineUrn : Bytes := asBytes "urn:term-agent:"
def maxAgentCertHeaderBytes : ℕ := 8*1024
def maxAgentAuthHeaderBytes : ℕ := 512
def wsAuthSkewSecs : ℕ := 300
def wsAuthNonceLen : ℕ := 16

def newline : UInt8 := 0x0A
def dot : UInt8 := 0x2E

def b64Encode (b : Bytes) : Bytes := Base64.encode Base64.urlSafe b
def b64Decode (t : Bytes) : Option Bytes := Base64.decode Base64.urlSafe t

def wsAuthPayload (host : Bytes) (unixSecs : UInt64) (nonce : Bytes) : Bytes :=
  wsAuthDomain++newline::(host++newline::(decimal unixSecs.toNat++newline::b64Encode nonce))

structure Pki where
  /-- Chain validation to the agent CA at a time in seconds. -/
  verifyChain : ℕ → Bytes → Outcome String Unit
  sha256 : Bytes → Bytes
  /-- The URI names of the Subject Alternative Name, in order. -/
  subjectUris : Bytes → Outcome String (List Bytes)
  verifySignature : Bytes → Bytes → Bytes → Outcome String Unit

structure IssuedCertEntry where
  machineId : Bytes
  fingerprint : Bytes
  deriving DecidableEq, Repr

structure Headers where
  cert : Option Bytes
  auth : Option Bytes
  host : Option Bytes
  deriving DecidableEq, Repr

inductive HeaderName where
  | agentCert | agentAuth | host
  deriving DecidableEq, Repr

inductive SanError where
  | x509 (e : String)
  | multiple
  | absent
  | idLength (n : ℕ)
  | idChars (id : Bytes)
  deriving DecidableEq, Repr

inductive ParseError where
  | missingTimestamp
  | missingNonce
  | missingSignature
  | tooManyFields
  | timestamp
  | nonce
  | nonceLength (n : ℕ)
  | signature
  deriving DecidableEq, Repr

inductive AuthError where
  | missing (h : HeaderName)
  | notAscii (h : HeaderName)
  | tooLong (h : HeaderName) (len : ℕ)
  | decodeCert
  | certChain (e : String)
  | notIssued (fp : Bytes)
  | extractSan (e : SanError)
  | sanDisagrees (san entry : Bytes)
  | parseAuth (e : ParseError)
  | timestamp (diff : ℕ)
  | signature (e : String)
  | replayed
  deriving DecidableEq, Repr

def certFingerprint (pki : Pki) (certDer : Bytes) : Bytes := b64Encode (pki.sha256 certDer)

def validateMachineId (id : Bytes) : Outcome SanError Unit := do
  rejectIf (id.length = 0 ∨ 32 < id.length) (.idLength id.length)
  rejectIf (¬id.all isSessionIdByte) (.idChars id)

/-- The loop over the URI names: at most one may carry the machine URN. -/
def findMachineUrn (found : Option Bytes) : List Bytes → Outcome SanError (Option Bytes)
  | [] => .ok found
  | uri::rest =>
    if machineUrn.isPrefixOf uri then
      if found.isSome then .err .multiple
      else findMachineUrn (some (uri.drop machineUrn.length)) rest
    else findMachineUrn found rest

def extractMachineIdFromSan (pki : Pki) (certDer : Bytes) : Outcome SanError Bytes := do
  let uris ← mapErr .x509 (pki.subjectUris certDer)
  let id ← orElse (← findMachineUrn none uris) .absent
  validateMachineId id
  return id

def checkWsAuthTimestamp (nowUnix : ℕ) (ts : UInt64) : Outcome ℕ Unit :=
  let diff := if nowUnix ≤ ts.toNat then ts.toNat-nowUnix else nowUnix-ts.toNat
  rejectIf (wsAuthSkewSecs < diff) diff

def parseWsAuthHeader (value : Bytes) : Outcome ParseError (UInt64 × Bytes × Bytes) := do
  let parts := splitn dot 3 value
  let tsStr ← orElse parts[0]? .missingTimestamp
  let nonceStr ← orElse parts[1]? .missingNonce
  let sigStr ← orElse parts[2]? .missingSignature
  rejectIf (parts[3]?.isSome) .tooManyFields
  let ts ← orElse (parseU64 tsStr) .timestamp
  let nonce ← orElse (b64Decode nonceStr) .nonce
  rejectIf (nonce.length ≠ wsAuthNonceLen) (.nonceLength nonce.length)
  let sig ← orElse (b64Decode sigStr) .signature
  return (ts,nonce,sig)

/-- `get(..).ok_or(..)?.to_str().map_err(..)?` -/
def headerStr (name : HeaderName) (value : Option Bytes) : Outcome AuthError Bytes := do
  let v ← orElse value (.missing name)
  rejectIf (¬v.all headerText) (.notAscii name)
  return v

def decodeCert (certB64 : Bytes) : Option Bytes :=
  match b64Decode certB64 with
  | some der => some der
  | none => Base64.decodePadded Base64.standard certB64

/-- The locals that are alive when the replay cache is consulted. -/
structure Checked where
  machineId : Bytes
  certDer : Bytes
  authHeader : Bytes
  fp : Bytes
  ts : UInt64
  nonce : Bytes
  deriving DecidableEq, Repr

def Checked.key (c : Checked) : Bytes × Bytes := (c.fp,c.nonce)

/-- `authenticate_ws_upgrade` up to the replay cache. -/
def checkUpgrade (pki : Pki) (store : List IssuedCertEntry) (now : ℕ) (h : Headers) :
    Outcome AuthError Checked := do
  let certB64 := trim (← headerStr .agentCert h.cert)
  rejectIf (maxAgentCertHeaderBytes < certB64.length) (.tooLong .agentCert certB64.length)
  let authHeader := trim (← headerStr .agentAuth h.auth)
  rejectIf (maxAgentAuthHeaderBytes < authHeader.length) (.tooLong .agentAuth authHeader.length)
  let certDer ← orElse (decodeCert certB64) .decodeCert
  mapErr .certChain (pki.verifyChain now certDer)
  let fp := certFingerprint pki certDer
  let entry ← orElse (store.find? fun e => e.fingerprint = fp) (.notIssued fp)
  let sanId ← mapErr .extractSan (extractMachineIdFromSan pki certDer)
  rejectIf (sanId ≠ entry.machineId) (.sanDisagrees sanId entry.machineId)
  let (ts,nonce,sig) ← mapErr .parseAuth (parseWsAuthHeader authHeader)
  mapErr .timestamp (checkWsAuthTimestamp now ts)
  let host ← orElse (h.host.filter fun v => v.all headerText) (.missing .host)
  mapErr .signature (pki.verifySignature certDer (wsAuthPayload host ts nonce) sig)
  return ⟨entry.machineId,certDer,authHeader,fp,ts,nonce⟩

abbrev Cache := List ((Bytes × Bytes) × ℕ)

def claimNonce (cache : Cache) (c : Checked) (instant : ℕ) : Outcome AuthError Cache := do
  rejectIf (c.key ∈ cache.map Prod.fst) .replayed
  return (c.key,instant)::cache

theorem claimNonce_eq_ok {cache cache' : Cache} {c : Checked} {instant : ℕ} :
    claimNonce cache c instant = .ok cache' ↔
      c.key ∉ cache.map Prod.fst ∧ (c.key,instant)::cache = cache' := by
  simp only [claimNonce, bind_eq_ok, rejectIf_eq_ok, pure_eq_ok, exists_const]

/-- `authenticate_ws_upgrade`, undisturbed between its checks and the cache. -/
def authenticateWsUpgrade (pki : Pki) (store : List IssuedCertEntry) (now : ℕ) (cache : Cache)
    (instant : ℕ) (h : Headers) : Outcome AuthError (Bytes × Cache) := do
  let c ← checkUpgrade pki store now h
  let cache ← claimNonce cache c instant
  return (c.machineId,cache)

theorem checkWsAuthTimestamp_eq_ok {now : ℕ} {ts : UInt64} {u : Unit} :
    checkWsAuthTimestamp now ts = .ok u ↔
      now ≤ ts.toNat+wsAuthSkewSecs ∧ ts.toNat ≤ now+wsAuthSkewSecs := by
  simp only [checkWsAuthTimestamp, rejectIf_eq_ok]
  split_ifs <;> omega

theorem checkUpgrade_ok {pki : Pki} {store : List IssuedCertEntry} {now : ℕ} {h : Headers}
    {c : Checked} (hc : checkUpgrade pki store now h = .ok c) :
    (∃ sig, parseWsAuthHeader c.authHeader = .ok (c.ts,c.nonce,sig)) ∧
      c.fp = certFingerprint pki c.certDer ∧ now ≤ c.ts.toNat+wsAuthSkewSecs := by
  simp only [checkUpgrade, bind_eq_ok, mapErr_eq_ok, orElse_eq_ok, rejectIf_eq_ok, pure_eq_ok,
    Prod.exists, checkWsAuthTimestamp_eq_ok] at hc
  obtain ⟨_,_,-,-,auth,_,-,-,der,-,-,-,entry,-,san,-,-,-,ts,nonce,sig,hparse,-,hts,host,-,-,-,rfl⟩
    := hc
  exact ⟨⟨sig,hparse⟩,rfl,hts.1⟩

end Term.AgentAuth
