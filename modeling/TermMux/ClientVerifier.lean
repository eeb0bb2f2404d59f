import TermMux.AgentAuth

/-!
# The certificate decision on the two agent transports

An agent reaches the hub over raw mTLS, where `AgentClientVerifier` decides in
the handshake, or over a WebSocket upgrade, where `authenticate_ws_upgrade`
decides in the handler. Both walk the chain, the allow-list and the SAN. Only
the first reads the expiry stored with the allow-list entry.
-/

set_option autoImplicit false

namespace Term.ClientVerifier
open Term.ByteOrder Term.Utf8Text Term.AsciiText Term.AgentAuth Term.Outcome

structure IssuedCert extends IssuedCertEntry where
  notAfterUnix : UInt64
  deriving DecidableEq, Repr

inductive TlsError where
  | chain (e : String)
  | applicationVerificationFailure
  | expired
  deriving DecidableEq, Repr

def findByFingerprint (store : List IssuedCert) (fp : Bytes) : Option IssuedCert :=
  store.find? fun e => e.fingerprint = fp

/-- The condition of step 4 of `verify_client_cert`. -/
def Expired (now : ℕ) (e : IssuedCert) : Prop := 0 < e.notAfterUnix ∧ e.notAfterUnix.toNat < now

instance (now : ℕ) (e : IssuedCert) : Decidable (Expired now e) :=
  inferInstanceAs (Decidable (_ ∧ _))

def verifyClientCert (pki : Pki) (store : List IssuedCert) (now : ℕ) (endEntity : Bytes) :
    Outcome TlsError Unit := do
  mapErr .chain (pki.verifyChain now endEntity)
  let fp := certFingerprint pki endEntity
  let entry ← orElse (findByFingerprint store fp) .applicationVerificationFailure
  let sanId ← mapErr (fun _ => .applicationVerificationFailure)
    (extractMachineIdFromSan pki endEntity)
  rejectIf (sanId ≠ entry.machineId) .applicationVerificationFailure
  rejectIf (Expired now entry) .expired

/-- The id `accept_loop` takes from the leaf after the handshake. -/
def peerMachineId (pki : Pki) (leaf : Bytes) : Outcome SanError Bytes :=
  extractMachineIdFromSan pki leaf

/-- Steps 1 and 2 of `authenticate_ws_upgrade`. -/
def readHeaders (h : Headers) : Outcome AuthError (Bytes × Bytes) := do
  let certB64 := trim (← headerStr .agentCert h.cert)
  rejectIf (maxAgentCertHeaderBytes < certB64.length) (.tooLong .agentCert certB64.length)
  let authHeader := trim (← headerStr .agentAuth h.auth)
  rejectIf (maxAgentAuthHeaderBytes < authHeader.length) (.tooLong .agentAuth authHeader.length)
  let certDer ← orElse (decodeCert certB64) .decodeCert
  return (certDer,authHeader)

/-- Steps 3 to 5 of `authenticate_ws_upgrade`, with the id it returns. -/
def checkCertificate (pki : Pki) (store : List IssuedCertEntry) (now : ℕ) (certDer : Bytes) :
    Outcome AuthError Bytes := do
  mapErr .certChain (pki.verifyChain now certDer)
  let fp := certFingerprint pki certDer
  let entry ← orElse (store.find? fun e => e.fingerprint = fp) (.notIssued fp)
  let sanId ← mapErr .extractSan (extractMachineIdFromSan pki certDer)
  rejectIf (sanId ≠ entry.machineId) (.sanDisagrees sanId entry.machineId)
  return entry.machineId

/-- Steps 6 and 7 of `authenticate_ws_upgrade`. -/
def checkAssertion (pki : Pki) (now : ℕ) (h : Headers) (certDer authHeader machineId : Bytes) :
    Outcome AuthError Checked := do
  let (ts,nonce,sig) ← mapErr .parseAuth (parseWsAuthHeader authHeader)
  mapErr .timestamp (checkWsAuthTimestamp now ts)
  let host ← orElse (h.host.filter fun v => v.all headerText) (.missing .host)
  mapErr .signature (pki.verifySignature certDer (wsAuthPayload host ts nonce) sig)
  return ⟨machineId,certDer,authHeader,certFingerprint pki certDer,ts,nonce⟩

theorem checkUpgrade_eq (pki : Pki) (store : List IssuedCertEntry) (now : ℕ) (h : Headers) :
    checkUpgrade pki store now h = readHeaders h >>= fun (certDer,authHeader) =>
      checkCertificate pki store now certDer >>= fun machineId =>
        checkAssertion pki now h certDer authHeader machineId := by
  simp only [checkUpgrade, readHeaders, checkCertificate, checkAssertion, bind_assoc, pure_eq,
    ok_bind]

theorem find?_toIssuedCertEntry (store : List IssuedCert) (fp : Bytes) :
    ((store.map IssuedCert.toIssuedCertEntry).find? fun e => e.fingerprint = fp) =
      (findByFingerprint store fp).map IssuedCert.toIssuedCertEntry := by
  rw [findByFingerprint, List.find?_map]
  rfl

def Listed (pki : Pki) (store : List IssuedCert) (now : ℕ) (cert : Bytes) (e : IssuedCert) :
    Prop :=
  pki.verifyChain now cert = .ok () ∧
    findByFingerprint store (certFingerprint pki cert) = some e ∧
    extractMachineIdFromSan pki cert = .ok e.machineId

section Decisions
variable {pki : Pki} {store : List IssuedCert} {now : ℕ} {cert : Bytes}

theorem listed_inj {e e' : IssuedCert} (h : Listed pki store now cert e)
    (h' : Listed pki store now cert e') : e = e' :=
  Option.some.inj (h.2.1.symm.trans h'.2.1)

theorem verifyClientCert_eq_ok : verifyClientCert pki store now cert = .ok () ↔
    ∃ e, Listed pki store now cert e ∧ ¬Expired now e := by
  simp only [verifyClientCert, bind_eq_ok, mapErr_eq_ok, orElse_eq_ok, rejectIf_eq_ok, Listed,
    not_not]
  constructor
  · rintro ⟨_,hchain,e,hfind,san,hsan,_,rfl,hlive⟩
    exact ⟨e,⟨hchain,hfind,hsan⟩,hlive⟩
  · rintro ⟨e,⟨hchain,hfind,hsan⟩,hlive⟩
    exact ⟨(),hchain,e,hfind,e.machineId,hsan,(),rfl,hlive⟩

theorem checkCertificate_eq_ok {id : Bytes} :
    checkCertificate pki (store.map IssuedCert.toIssuedCertEntry) now cert = .ok id ↔
      ∃ e, Listed pki store now cert e ∧ e.machineId = id := by
  simp only [checkCertificate, bind_eq_ok, mapErr_eq_ok, orElse_eq_ok, rejectIf_eq_ok, pure_eq_ok,
    find?_toIssuedCertEntry, Option.map_eq_some_iff, Listed, not_not]
  constructor
  · rintro ⟨_,hchain,_,⟨e,hfind,rfl⟩,san,hsan,_,rfl,hid⟩
    exact ⟨e,⟨hchain,hfind,hsan⟩,hid⟩
  · rintro ⟨e,⟨hchain,hfind,hsan⟩,hid⟩
    exact ⟨(),hchain,_,⟨e,hfind,rfl⟩,e.machineId,hsan,(),rfl,hid⟩

end Decisions

/-- The raw path accepts exactly when the upgrade's certificate checks do, and
an accepted certificate has one id on both. -/
def SameDecision (pki : Pki) (store : List IssuedCert) (now : ℕ) (cert : Bytes) : Prop :=
  let upgrade := checkCertificate pki (store.map IssuedCert.toIssuedCertEntry) now cert
  (verifyClientCert pki store now cert = .ok () ↔ ∃ id, upgrade = .ok id) ∧
    (verifyClientCert pki store now cert = .ok () → ∀ id, upgrade = .ok id →
      peerMachineId pki cert = .ok id)

/-- The two transports differ on the certificates that are valid but for an
expired allow-list entry, and only on them. -/
theorem same_decision_iff (pki : Pki) (store : List IssuedCert) (now : ℕ) (cert : Bytes) :
    SameDecision pki store now cert ↔
      ∀ e, Listed pki store now cert e → ¬Expired now e := by
  constructor
  · rintro ⟨hsame,-⟩ e he
    have hupgrade : ∃ id, checkCertificate pki (store.map IssuedCert.toIssuedCertEntry) now cert =
        .ok id := ⟨e.machineId,checkCertificate_eq_ok.mpr ⟨e,he,rfl⟩⟩
    obtain ⟨e',he',hlive⟩ := verifyClientCert_eq_ok.mp (hsame.mpr hupgrade)
    rw [listed_inj he he']
    exact hlive
  · intro hlive
    have hraw : ∀ e, Listed pki store now cert e → verifyClientCert pki store now cert = .ok () :=
      fun e he => verifyClientCert_eq_ok.mpr ⟨e,he,hlive e he⟩
    constructor
    · constructor
      · intro h
        obtain ⟨e,he,-⟩ := verifyClientCert_eq_ok.mp h
        exact ⟨e.machineId,checkCertificate_eq_ok.mpr ⟨e,he,rfl⟩⟩
      · rintro ⟨id,h⟩
        obtain ⟨e,he,-⟩ := checkCertificate_eq_ok.mp h
        exact hraw e he
    · intro _ id h
      obtain ⟨e,he,rfl⟩ := checkCertificate_eq_ok.mp h
      exact he.2.2

def alphaPki : Pki where
  verifyChain _ _ := .ok ()
  sha256 b := b
  subjectUris _ := .ok [machineUrn++asBytes "alpha"]
  verifySignature _ _ _ := .ok ()

def alphaEntry : IssuedCert where
  machineId := asBytes "alpha"
  fingerprint := certFingerprint alphaPki [7]
  notAfterUnix := 100

theorem expired_entry_accepted_on_upgrade : ¬SameDecision alphaPki [alphaEntry] 101 [7] := by
  rintro ⟨hsame,-⟩
  have hraw : verifyClientCert alphaPki [alphaEntry] 101 [7] = .err .expired := by
    decide +kernel
  have hupgrade : checkCertificate alphaPki ([alphaEntry].map IssuedCert.toIssuedCertEntry) 101 [7]
      = .ok (asBytes "alpha") := by
    decide +kernel
  have hok := hsame.mpr ⟨_,hupgrade⟩
  rw [hraw] at hok
  cases hok

end Term.ClientVerifier
