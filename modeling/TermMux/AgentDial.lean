import TermMux.AgentAuth

/-!
# The agent's side of a WebSocket upgrade

`agent_auth_headers` and the request it is attached to. The signer takes its
host from the URI and the verifier from the `Host` header, which the client
library fills with the authority of the URL. The two agree exactly when the URL
names no port.
-/

set_option autoImplicit false

namespace Term.AgentDial
open Term.ByteOrder Term.AsciiText Term.AgentAuth Term.Outcome Term.Utf8Text

structure HubUrl where
  secure : Bool
  host : Bytes
  port : Option Bytes
  host_text : host.all headerText
  port_text : ∀ p, port = some p → p.all headerText

namespace HubUrl

/-- `request.uri().host()`, without the port. -/
def uriHost (url : HubUrl) : Bytes := url.host

def hostHeader (url : HubUrl) : Bytes :=
  match url.port with
  | none => url.host
  | some p => url.host++0x3A::p

theorem hostHeader_text (url : HubUrl) : url.hostHeader.all headerText := by
  unfold hostHeader
  cases hport : url.port with
  | none => exact url.host_text
  | some p =>
    have hp := url.port_text p hport
    rw [List.all_append, List.all_cons, url.host_text, hp]
    rfl

end HubUrl

inductive DialError where
  | emptyChain
  | sign (e : String)
  | headerValue
  deriving DecidableEq, Repr

/-- The bytes `HeaderValue::from_str` admits. -/
def headerByte (b : UInt8) : Bool := (0x20 ≤ b && b != 0x7F) || b == 0x09

def authValue (now : UInt64) (nonce sig : Bytes) : Bytes :=
  decimal now.toNat++dot::(b64Encode nonce++dot::b64Encode sig)

def agentAuthHeaders (certChain : List Bytes) (sign : Bytes → Outcome String Bytes) (host : Bytes)
    (now : UInt64) (nonce : Bytes) : Outcome DialError (Bytes × Bytes) := do
  let leaf ← orElse certChain.head? .emptyChain
  let sig ← mapErr .sign (sign (wsAuthPayload host now nonce))
  rejectIf (¬(b64Encode leaf).all headerByte) .headerValue
  rejectIf (¬(authValue now nonce sig).all headerByte) .headerValue
  return (b64Encode leaf,authValue now nonce sig)

def upgradeHeaders (certChain : List Bytes) (sign : Bytes → Outcome String Bytes) (url : HubUrl)
    (now : UInt64) (nonce : Bytes) : Outcome DialError Headers := do
  let (cert,auth) ← agentAuthHeaders certChain sign url.uriHost now nonce
  return ⟨some cert,some auth,some url.hostHeader⟩

/-- A key and its certificate: signatures have the fixed length and verify. -/
structure KeyOk (pki : Pki) (leaf : Bytes) (sign : Bytes → Outcome String Bytes) : Prop where
  fixedLength : ∀ p sig, sign p = .ok sig → sig.length = 64
  verifies : ∀ p sig, sign p = .ok sig → pki.verifySignature leaf p sig = .ok ()

structure CertOk (pki : Pki) (store : List IssuedCertEntry) (now : ℕ) (leaf : Bytes)
    (entry : IssuedCertEntry) : Prop where
  fits : (b64Encode leaf).length ≤ maxAgentCertHeaderBytes
  chain : pki.verifyChain now leaf = .ok ()
  issued : store.find? (fun e => e.fingerprint = certFingerprint pki leaf) = some entry
  san : extractMachineIdFromSan pki leaf = .ok entry.machineId

/-- The header value parses back, the hub rebuilds the signed payload, and a
fresh assertion in the window passes. -/
def AcceptedAsSigned (pki : Pki) (leaf : Bytes) (h : Headers) (host : Bytes) (ts : UInt64)
    (nonce sig : Bytes) : Prop :=
  (∃ v, h.auth = some v ∧ parseWsAuthHeader v = .ok (ts,nonce,sig)) ∧
  h.host.map (fun host => wsAuthPayload host ts nonce) = some (wsAuthPayload host ts nonce) ∧
  ∀ store now cache instant entry, CertOk pki store now leaf entry →
    checkWsAuthTimestamp now ts = .ok () → (certFingerprint pki leaf,nonce) ∉ cache.map Prod.fst →
    ∃ cache', authenticateWsUpgrade pki store now cache instant h = .ok (entry.machineId,cache')

def Plain (b : UInt8) : Prop := headerText b = true ∧ headerByte b = true ∧ isBlank b = false

instance : DecidablePred Plain := fun _ => inferInstanceAs (Decidable (_ ∧ _ ∧ _))

theorem urlSymbol_plain {b : UInt8} (h : Base64.UrlSymbol b) : Plain b ∧ b ≠ dot := by
  have hall : ∀ n < 256, Base64.UrlSymbol (UInt8.ofNat n) →
      Plain (UInt8.ofNat n) ∧ UInt8.ofNat n ≠ dot := by decide +kernel
  have hb := hall b.toNat b.toNat_lt
  rw [UInt8.ofNat_toNat] at hb
  exact hb h

theorem b64Encode_plain (x : Bytes) : ∀ b ∈ b64Encode x, Plain b :=
  fun b hb => (urlSymbol_plain (Base64.encode_urlSymbol x b hb)).1

theorem dot_not_mem_b64Encode (x : Bytes) : dot ∉ b64Encode x :=
  fun h => (urlSymbol_plain (Base64.encode_urlSymbol x dot h)).2 rfl

theorem decimal_plain (n : ℕ) : ∀ b ∈ decimal n, Plain b ∧ b ≠ dot :=
  forall_decimal (fun d hd => by interval_cases d <;> decide) n

theorem authValue_plain (ts : UInt64) (nonce sig : Bytes) : ∀ b ∈ authValue ts nonce sig, Plain b := by
  intro b hb
  simp only [authValue, List.mem_append, List.mem_cons] at hb
  rcases hb with h | rfl | h | rfl | h
  · exact (decimal_plain _ b h).1
  · decide
  · exact b64Encode_plain nonce b h
  · decide
  · exact b64Encode_plain sig b h

theorem all_headerText {t : Bytes} (h : ∀ b ∈ t, Plain b) : t.all headerText = true :=
  List.all_eq_true.mpr fun b hb => (h b hb).1

theorem all_headerByte {t : Bytes} (h : ∀ b ∈ t, Plain b) : t.all headerByte = true :=
  List.all_eq_true.mpr fun b hb => (h b hb).2.1

theorem trim_plain {t : Bytes} (h : ∀ b ∈ t, Plain b) : trim t = t :=
  trim_of_forall fun b hb => (h b hb).2.2

theorem authValue_length {ts : UInt64} {nonce sig : Bytes} (hn : nonce.length = wsAuthNonceLen)
    (hs : sig.length = 64) : (authValue ts nonce sig).length ≤ maxAgentAuthHeaderBytes := by
  have hd := decimal_length ts.toNat_lt
  simp only [authValue, b64Encode, List.length_append, List.length_cons, Base64.encode_length, hn,
    hs, wsAuthNonceLen, maxAgentAuthHeaderBytes]
  omega

/-- The hub's parser undoes the agent's formatting. -/
theorem parse_authValue {ts : UInt64} {nonce : Bytes} (sig : Bytes)
    (hn : nonce.length = wsAuthNonceLen) :
    parseWsAuthHeader (authValue ts nonce sig) = .ok (ts,nonce,sig) := by
  have hts : dot ∉ decimal ts.toNat := fun h => (decimal_plain _ dot h).2 rfl
  have hparts : splitn dot 3 (authValue ts nonce sig) =
      [decimal ts.toNat,b64Encode nonce,b64Encode sig] := by
    rw [authValue, splitn_separator 1 _ hts, splitn_separator 0 _ (dot_not_mem_b64Encode nonce)]
    rfl
  have hnonce : b64Decode (b64Encode nonce) = some nonce := Base64.decode_encode nonce
  have hsig : b64Decode (b64Encode sig) = some sig := Base64.decode_encode sig
  simp only [parseWsAuthHeader, hparts, List.getElem?_cons_zero, List.getElem?_cons_succ,
    orElse_some, ok_bind, parseU64_decimal, hnonce, hsig, pure_eq,
    rejectIf_neg (not_not.mpr hn)]
  rfl

theorem upgradeHeaders_eq {certChain : List Bytes} {leaf sig nonce : Bytes}
    {sign : Bytes → Outcome String Bytes} {url : HubUrl} {ts : UInt64}
    (hleaf : certChain.head? = some leaf)
    (hsig : sign (wsAuthPayload url.uriHost ts nonce) = .ok sig) :
    upgradeHeaders certChain sign url ts nonce =
      .ok ⟨some (b64Encode leaf),some (authValue ts nonce sig),some url.hostHeader⟩ := by
  have hcert := all_headerByte (b64Encode_plain leaf)
  have hauth := all_headerByte (authValue_plain ts nonce sig)
  simp only [upgradeHeaders, agentAuthHeaders, hleaf, hsig, orElse_some, mapErr_ok, ok_bind,
    rejectIf_neg (not_not.mpr hcert), rejectIf_neg (not_not.mpr hauth), pure_eq]

theorem newline_not_plain : ¬Plain newline := by decide

theorem decimal_inj {x y : UInt64} (h : decimal x.toNat = decimal y.toNat) : x = y := by
  have hx := parseU64_decimal x
  rw [h, parseU64_decimal] at hx
  exact (Option.some.inj hx).symm

theorem b64Encode_inj {x y : Bytes} (h : b64Encode x = b64Encode y) : x = y := by
  have hx : b64Decode (b64Encode x) = some x := Base64.decode_encode x
  have hy : b64Decode (b64Encode y) = some y := Base64.decode_encode y
  rw [h, hy] at hx
  exact (Option.some.inj hx).symm

/-- The signed payload determines what it was built from. Only the host may hold line feeds,
so the fields are read from the right end. -/
theorem wsAuthPayload_injective (h₁ h₂ : String) (t₁ t₂ : UInt64) (n₁ n₂ : Bytes) :
    wsAuthPayload (asBytes h₁) t₁ n₁ = wsAuthPayload (asBytes h₂) t₂ n₂ ↔
      h₁ = h₂ ∧ t₁ = t₂ ∧ n₁ = n₂ := by
  have hnonce : ∀ n, newline ∉ b64Encode n := fun n h => newline_not_plain (b64Encode_plain n _ h)
  have htime : ∀ t : UInt64, newline ∉ decimal t.toNat := fun t h =>
    newline_not_plain (decimal_plain _ _ h).1
  constructor
  · intro h
    unfold wsAuthPayload at h
    have hfields := List.cons.inj (List.append_cancel_left h)
    have hlast : ∀ (host : Bytes) (t : UInt64) (n : Bytes),
        host++newline::(decimal t.toNat++newline::b64Encode n) =
          (host++newline::decimal t.toNat)++newline::b64Encode n := by simp
    rw [hlast, hlast, last_separator_inj (hnonce n₁) (hnonce n₂),
      last_separator_inj (htime t₁) (htime t₂)] at hfields
    obtain ⟨-,⟨hhost,ht⟩,hn⟩ := hfields
    exact ⟨asBytes_injective hhost,decimal_inj ht,b64Encode_inj hn⟩
  · rintro ⟨rfl,rfl,rfl⟩
    rfl
/-- The signed and the rebuilt payload agree exactly on URLs without a port. -/
theorem payload_eq_iff (url : HubUrl) (ts : UInt64) (nonce : Bytes) :
    wsAuthPayload url.hostHeader ts nonce = wsAuthPayload url.uriHost ts nonce ↔
      url.port = none := by
  constructor
  · intro h
    have hlen := congrArg List.length h
    cases hport : url.port with
    | none => rfl
    | some p =>
      simp [wsAuthPayload, HubUrl.hostHeader, HubUrl.uriHost, hport] at hlen
      omega
  · intro h
    simp only [HubUrl.hostHeader, HubUrl.uriHost, h]

theorem checkUpgrade_honest {pki : Pki} {store : List IssuedCertEntry} {now : ℕ}
    {leaf nonce sig host : Bytes} {entry : IssuedCertEntry} {ts : UInt64}
    (hcert : CertOk pki store now leaf entry) (hn : nonce.length = wsAuthNonceLen)
    (hlen : sig.length = 64) (hts : checkWsAuthTimestamp now ts = .ok ())
    (hhost : host.all headerText = true)
    (hver : pki.verifySignature leaf (wsAuthPayload host ts nonce) sig = .ok ()) :
    checkUpgrade pki store now
        ⟨some (b64Encode leaf),some (authValue ts nonce sig),some host⟩ =
      .ok ⟨entry.machineId,leaf,authValue ts nonce sig,certFingerprint pki leaf,ts,nonce⟩ := by
  have hder : decodeCert (b64Encode leaf) = some leaf := by
    have hdec : b64Decode (b64Encode leaf) = some leaf := Base64.decode_encode leaf
    simp only [decodeCert, hdec]
  have hfits := not_lt.mpr hcert.fits
  have hauth : ¬maxAgentAuthHeaderBytes < (authValue ts nonce sig).length :=
    not_lt.mpr (authValue_length hn hlen)
  have hct := all_headerText (b64Encode_plain leaf)
  have hat := all_headerText (authValue_plain ts nonce sig)
  simp only [checkUpgrade, headerStr, orElse_some, ok_bind, pure_eq, mapErr_ok,
    rejectIf_neg (not_not.mpr hct), rejectIf_neg (not_not.mpr hat),
    trim_plain (b64Encode_plain leaf), trim_plain (authValue_plain ts nonce sig),
    rejectIf_neg hfits, rejectIf_neg hauth, hder, hcert.chain, hcert.issued, hcert.san,
    rejectIf_neg (not_not.mpr (Eq.refl entry.machineId)), parse_authValue sig hn, hts,
    Option.filter_some, hhost, if_true, hver]

/-- An honest agent is accepted exactly when its hub URL names no port. -/
theorem honest_agent_accepted_iff {pki : Pki} {leaf nonce sig : Bytes} {certChain : List Bytes}
    {sign : Bytes → Outcome String Bytes} {url : HubUrl} {ts : UInt64}
    (hkey : KeyOk pki leaf sign) (hleaf : certChain.head? = some leaf)
    (hn : nonce.length = wsAuthNonceLen)
    (hsig : sign (wsAuthPayload url.uriHost ts nonce) = .ok sig) :
    (∃ h, upgradeHeaders certChain sign url ts nonce = .ok h ∧
      AcceptedAsSigned pki leaf h url.uriHost ts nonce sig) ↔ url.port = none := by
  constructor
  · rintro ⟨h,hh,-,hpayload,-⟩
    rw [upgradeHeaders_eq hleaf hsig, ok.injEq] at hh
    rw [← hh, Option.map_some, Option.some.injEq] at hpayload
    exact (payload_eq_iff url ts nonce).mp hpayload
  · intro hport
    have hpayload := (payload_eq_iff url ts nonce).mpr hport
    refine ⟨_,upgradeHeaders_eq hleaf hsig,⟨_,rfl,parse_authValue sig hn⟩,?_,?_⟩
    · rw [Option.map_some, hpayload]
    · intro store now cache instant entry hcert hts hfresh
      have hver := hkey.verifies _ sig hsig
      rw [← hpayload] at hver
      have hcheck := checkUpgrade_honest hcert hn (hkey.fixedLength _ sig hsig) hts
        url.hostHeader_text hver
      refine ⟨((certFingerprint pki leaf,nonce),instant)::cache,?_⟩
      rw [authenticateWsUpgrade, hcheck, ok_bind, claimNonce_eq_ok.mpr ⟨hfresh,rfl⟩]
      rfl

def fixedSign : Bytes → Outcome String Bytes := fun _ => .ok (List.replicate 64 0x02)

def fixedPki : Pki where
  verifyChain _ _ := .ok ()
  sha256 _ := List.replicate 32 0x07
  subjectUris _ := .ok [machineUrn++[0x61]]
  verifySignature _ _ sig := rejectIf (sig ≠ List.replicate 64 0x02) "did not verify"

theorem fixedKey_ok (leaf : Bytes) : KeyOk fixedPki leaf fixedSign := by
  constructor
  · rintro p sig ⟨⟩
    rfl
  · rintro p sig ⟨⟩
    rfl

def hubUrl : HubUrl := ⟨true,[0x68,0x75,0x62],none,by decide,nofun⟩

def hubPortUrl : HubUrl :=
  ⟨true,[0x68,0x75,0x62],some [0x38,0x34,0x34,0x33],by decide,by rintro p ⟨⟩; decide⟩

theorem honest_agent_accepted_hubUrl : KeyOk fixedPki [0x30] fixedSign ∧
    ∃ h, upgradeHeaders [[0x30]] fixedSign hubUrl 1700000000 (List.replicate 16 0x01) = .ok h ∧
      AcceptedAsSigned fixedPki [0x30] h hubUrl.uriHost 1700000000 (List.replicate 16 0x01)
        (List.replicate 64 0x02) :=
  ⟨fixedKey_ok _,(honest_agent_accepted_iff (fixedKey_ok _) rfl rfl rfl).mpr rfl⟩

/-- With a port in the URL the hub rebuilds another payload than was signed. -/
theorem honest_agent_with_port_refused :
    ¬∃ h, upgradeHeaders [[0x30]] fixedSign hubPortUrl 1700000000 (List.replicate 16 0x01) = .ok h ∧
      AcceptedAsSigned fixedPki [0x30] h hubPortUrl.uriHost 1700000000 (List.replicate 16 0x01)
        (List.replicate 64 0x02) := by
  rintro ⟨h,hh,-,hpayload,-⟩
  have hsig : fixedSign (wsAuthPayload hubPortUrl.uriHost 1700000000 (List.replicate 16 0x01)) =
      .ok (List.replicate 64 0x02) := rfl
  have hleaf : [[(0x30 : UInt8)]].head? = some [0x30] := rfl
  rw [upgradeHeaders_eq hleaf hsig, ok.injEq] at hh
  rw [← hh, Option.map_some, Option.some.injEq, payload_eq_iff] at hpayload
  cases hpayload

end Term.AgentDial
