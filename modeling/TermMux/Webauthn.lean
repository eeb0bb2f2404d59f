import TermMux.Base64
import TermMux.Outcome
import TermMux.Utf8Text

/-!
# The check of a login assertion

`finish_authenticate` with what it calls: the validation of the client data,
the parser of the authenticator data, and the comparison of signature counters.
Text is its bytes. JSON parsing, hashing and signature verification are
parameters.
-/

set_option autoImplicit false

namespace Term.Webauthn
open Term.ByteOrder Term.Utf8Text Term.Outcome

/-- A parsed JSON value, as far as the validation looks into it. -/
inductive Json where
  | object (fields : List (Bytes × Json))
  | string (s : Bytes)
  | other

/-- What the code takes from the JSON, hash and signature libraries. -/
structure Libs where
  fromSlice : Bytes → Outcome String Json
  sha256 : Bytes → Bytes
  /-- `VerifyingKey::from_sec1_bytes` accepts the key. -/
  validKey : Bytes → Bool
  /-- `Signature::from_der` accepts the signature. -/
  validSignature : Bytes → Bool
  verify : Bytes → Bytes → Bytes → Bool

inductive ClientField where
  | type | challenge | origin
  deriving DecidableEq, Repr

def ClientField.name : ClientField → Bytes
  | .type => asBytes "type"
  | .challenge => asBytes "challenge"
  | .origin => asBytes "origin"

inductive ClientDataError where
  | json (e : String)
  | notObject
  | missingField (f : ClientField)
  | notString (f : ClientField)
  | wrongType (expected got : Bytes)
  | challengeMismatch
  | originMismatch (expected got : Bytes)
  deriving DecidableEq, Repr

def typeCreate : Bytes := asBytes "webauthn.create"
def typeGet : Bytes := asBytes "webauthn.get"

def difference (a b : Bytes) : UInt8 := (a.zip b).foldl (fun d p => d ||| (p.1 ^^^ p.2)) 0

def constantTimeEq (a b : Bytes) : Bool := a.length = b.length ∧ difference a b = 0

def asObject : Json → Outcome ClientDataError (List (Bytes × Json))
  | .object fields => .ok fields
  | _ => .err .notObject

def asStr (f : ClientField) : Json → Outcome ClientDataError Bytes
  | .string s => .ok s
  | _ => .err (.notString f)

def getStr (obj : List (Bytes × Json)) (f : ClientField) : Outcome ClientDataError Bytes := do
  asStr f (← orElse (obj.lookup f.name) (.missingField f))

def validateClientData (libs : Libs) (clientDataJson expectedType expectedChallengeB64u
    expectedOrigin : Bytes) : Outcome ClientDataError Unit := do
  let v ← mapErr .json (libs.fromSlice clientDataJson)
  let obj ← asObject v
  let ty ← getStr obj .type
  rejectIf (ty ≠ expectedType)
    (.wrongType (if expectedType = typeCreate then typeCreate else typeGet) ty)
  let chal ← getStr obj .challenge
  rejectIf (¬constantTimeEq chal expectedChallengeB64u) .challengeMismatch
  let origin ← getStr obj .origin
  rejectIf (origin ≠ expectedOrigin) (.originMismatch expectedOrigin origin)

inductive AuthDataError where
  | tooShort (len : ℕ)
  deriving DecidableEq, Repr

def flagUp : UInt8 := 1
def headerLen : ℕ := 37

structure AuthDataPrefix where
  rpIdHash : Bytes
  flags : UInt8
  signCount : UInt32
  deriving DecidableEq, Repr

def AuthDataPrefix.userPresent (p : AuthDataPrefix) : Bool := p.flags &&& flagUp ≠ 0

def parsePrefix (data : Bytes) : Outcome AuthDataError AuthDataPrefix := do
  rejectIf (data.length < headerLen) (.tooShort data.length)
  let rpIdHash ← slice data 0 32
  let flags ← index data 32
  let signCount ← u32At data 33
  return ⟨rpIdHash,flags,signCount⟩

inductive ResponseField where
  | rawId | clientDataJson | authenticatorData | signature
  deriving DecidableEq, Repr

structure AuthenticationResponse where
  rawId : Bytes
  ty : Bytes
  clientDataJson : Bytes
  authenticatorData : Bytes
  signature : Bytes
  deriving DecidableEq, Repr

inductive WebauthnError where
  | base64 (f : ResponseField)
  | wrongType (ty : Bytes)
  | authData (e : AuthDataError)
  | clientData (e : ClientDataError)
  | rpIdHashMismatch
  | userPresenceNotSet
  | signatureInvalid
  | unknownCredential
  | signCountRegression (got stored : UInt32)
  | invalidStoredPubkey
  deriving DecidableEq, Repr

structure StoredCredentialView where
  credentialPublicKey : Bytes
  signCount : UInt32
  deriving DecidableEq, Repr

structure AuthenticatedCredential where
  credentialId : Bytes
  newSignCount : UInt32
  signCountAdvanced : Bool
  deriving DecidableEq, Repr

def toB64url (challenge : Bytes) : Bytes := Base64.encode Base64.urlSafe challenge

def b64u (s : Bytes) (f : ResponseField) : Outcome WebauthnError Bytes :=
  orElse (Base64.decode Base64.urlSafe s) (.base64 f)

def checkRpIdHash (libs : Libs) (got rpId : Bytes) : Outcome WebauthnError Unit :=
  rejectIf (difference got (libs.sha256 rpId) ≠ 0) .rpIdHashMismatch

def verifySignature (libs : Libs) (publicKey msg signature : Bytes) :
    Outcome WebauthnError Unit := do
  rejectIf (¬libs.validKey publicKey) .invalidStoredPubkey
  rejectIf (¬libs.validSignature signature) .signatureInvalid
  rejectIf (¬libs.verify publicKey msg signature) .signatureInvalid

def finishAuthenticate (libs : Libs) (response : AuthenticationResponse)
    (expectedChallenge rpId expectedOrigin : Bytes)
    (findCredential : Bytes → Option StoredCredentialView) :
    Outcome WebauthnError AuthenticatedCredential := do
  rejectIf (response.ty ≠ asBytes "public-key") (.wrongType response.ty)
  let rawId ← b64u response.rawId .rawId
  let clientData ← b64u response.clientDataJson .clientDataJson
  mapErr .clientData
    (validateClientData libs clientData typeGet (toB64url expectedChallenge) expectedOrigin)
  let authData ← b64u response.authenticatorData .authenticatorData
  let signature ← b64u response.signature .signature
  let head ← mapErr .authData (parsePrefix authData)
  checkRpIdHash libs head.rpIdHash rpId
  rejectIf (¬head.userPresent) .userPresenceNotSet
  let stored ← orElse (findCredential rawId) .unknownCredential
  verifySignature libs stored.credentialPublicKey (authData++libs.sha256 clientData) signature
  let advanced : Bool := stored.signCount < head.signCount
  rejectIf (¬advanced ∧ head.signCount ≠ 0) (.signCountRegression head.signCount stored.signCount)
  return ⟨rawId,head.signCount,advanced⟩

def presented (response : AuthenticationResponse) : Outcome WebauthnError (Bytes × UInt32) := do
  let rawId ← b64u response.rawId .rawId
  let authData ← b64u response.authenticatorData .authenticatorData
  let head ← mapErr .authData (parsePrefix authData)
  return (rawId,head.signCount)

section Checks
variable {libs : Libs} {response : AuthenticationResponse} {challenge rpId origin : Bytes}
  {find find' : Bytes → Option StoredCredentialView} {auth : AuthenticatedCredential}

/-- What an accepted assertion shows of its counter. -/
theorem finishAuthenticate_ok
    (h : finishAuthenticate libs response challenge rpId origin find = .ok auth) :
    presented response = .ok (auth.credentialId,auth.newSignCount) ∧
    ∃ stored, find auth.credentialId = some stored ∧
      auth.signCountAdvanced = decide (stored.signCount < auth.newSignCount) ∧
      (stored.signCount < auth.newSignCount ∨ auth.newSignCount = 0) := by
  simp only [finishAuthenticate, bind_eq_ok] at h
  obtain ⟨-,-,rawId,hraw,clientData,-,-,-,authData,hauth,signature,-,head,hhead,-,-,-,-,stored,
    hstored,-,-,u,hcount,hret⟩ := h
  rw [pure_eq_ok] at hret
  subst hret
  rw [rejectIf_eq_ok] at hcount
  refine ⟨?_,stored,orElse_eq_ok.mp hstored,rfl,?_⟩
  · rw [presented, hraw, ok_bind, hauth, ok_bind, hhead, ok_bind, pure_eq]
  · by_contra hnot
    rw [not_or] at hnot
    exact hcount ⟨by simpa using hnot.1,hnot.2⟩

/-- The check without its comparison of counters: the stored counter reads as
zero. -/
def genuine (libs : Libs) (response : AuthenticationResponse) (challenge rpId origin : Bytes)
    (find : Bytes → Option StoredCredentialView) : Bool :=
  match finishAuthenticate libs response challenge rpId origin
    (fun id => (find id).map fun v => { v with signCount := 0 }) with
  | .ok _ => true
  | _ => false

theorem genuine_of_ok
    (h : finishAuthenticate libs response challenge rpId origin find = .ok auth) :
    genuine libs response challenge rpId origin find = true := by
  simp only [finishAuthenticate, bind_eq_ok] at h
  obtain ⟨_,hty,rawId,hraw,clientData,hclient,_,hvalid,authData,hauth,signature,hsig,head,hhead,_,
    hrp,_,hpresent,stored,hstored,_,hverify,_,-,-⟩ := h
  have hzero : ¬(¬decide ((0 : UInt32) < head.signCount) = true ∧ head.signCount ≠ 0) := by
    rintro ⟨hle,hne⟩
    exact hle (decide_eq_true (UInt32.pos_iff_ne_zero.mpr hne))
  rw [genuine, finishAuthenticate, hty, ok_bind, hraw, ok_bind, hclient, ok_bind, hvalid, ok_bind,
    hauth, ok_bind, hsig, ok_bind, hhead, ok_bind, hrp, ok_bind, hpresent, ok_bind,
    orElse_eq_ok.mp hstored, Option.map_some, orElse_some, ok_bind, hverify, ok_bind]
  dsimp only
  rw [rejectIf_neg hzero]
  rfl

end Checks

end Term.Webauthn
