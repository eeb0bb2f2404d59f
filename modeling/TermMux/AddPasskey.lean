import TermMux.CredFile
import TermMux.Envelope
import TermMux.Logins
import TermMux.Registration
import TermMux.WebBase64

/-!
# From the browser to the credential file

The way of a passkey: `register_start` signs an envelope, `doRegister` in the
browser packs it with the answer of the authenticator, the operator carries the
text over, and `cmd_add` checks it all with `finish_register` and adds the
credential that later logins are checked against. What the credential file
holds at any time goes back to such pastes, and a paste that was made honestly
is added and offered at the next login.
-/

set_option autoImplicit false

namespace Term.AddPasskey
open Term.ByteOrder Term.Outcome Term.Utf8Text Term.Machine Term.TokenCache Term.Webauthn
  Term.Registration Term.Envelope Term.LockedFile
open Term.CredStore (StoredCredential CredentialStore RegisteredCredential AdminError StoreError)

/-- What the code takes from the hash, JSON and signature libraries. -/
structure Libs extends Codecs, Webauthn.Libs

inductive RegistrationField where
  | clientDataJson | attestationObject
  deriving DecidableEq, Repr

inductive RegisterError where
  | wrongType (ty : Bytes)
  | base64 (f : RegistrationField)
  | clientData (e : ClientDataError)
  | extract (e : ExtractError)
  | attested (e : AttestedError)
  | webauthn (e : WebauthnError)
  | userPresenceNotSet
  deriving DecidableEq, Repr

inductive AddError where
  | envelope (e : EnvelopeError)
  | finishRegister (e : RegisterError)
  | store (e : AdminError)
  deriving DecidableEq, Repr

def b64u (s : Bytes) (f : RegistrationField) : Outcome RegisterError Bytes :=
  orElse (Base64.decode Base64.urlSafe s) (.base64 f)

def finishRegister (libs : Webauthn.Libs) (response : RegistrationResponse)
    (expectedChallenge rpId expectedOrigin : Bytes) :
    Outcome RegisterError RegisteredCredential := do
  rejectIf (response.ty ≠ asBytes "public-key") (.wrongType response.ty)
  let clientData ← b64u response.clientDataJson .clientDataJson
  mapErr .clientData
    (validateClientData libs clientData typeCreate (toB64url expectedChallenge) expectedOrigin)
  let attestationObject ← b64u response.attestationObject .attestationObject
  let authData ← mapErr .extract (extractAuthData attestationObject)
  let parsed ← mapErr .attested (parseAttested authData)
  mapErr .webauthn (checkRpIdHash libs parsed.head.rpIdHash rpId)
  rejectIf (¬parsed.head.userPresent) .userPresenceNotSet
  return ⟨parsed.credentialId,parsed.credentialPublicKey,parsed.head.signCount⟩

/-- A label of whitespace counts as none. -/
def labelOf (label : Option String) (credIdB64 : Bytes) : Bytes :=
  match label.filter fun s => trimText s ≠ "" with
  | some s => asBytes s
  | none => asBytes "cred-"++credIdB64.take 8

def register (libs : Libs) (secret : Bytes) (now : Option UInt64) (blobText : String) :
    Outcome AddError (RegisteredCredential × Bytes) := do
  let (paste,inner) ← mapErr .envelope (openPaste libs.toCodecs secret now blobText)
  let challenge ← mapErr .envelope inner.challenge
  let registered ← mapErr .finishRegister
    (finishRegister libs.toLibs paste.response challenge inner.rpId inner.origin)
  return (registered,labelOf paste.label (CredStore.b64Encode registered.credentialId))

def cmdAdd (libs : Libs) (secret : Bytes) (now : Option UInt64) (addedAt : Bytes)
    (blobText : String) (s : CredentialStore) : Outcome AddError (Option CredentialStore) := do
  let (r,label) ← register libs secret now blobText
  mapErr .store (CredStore.cmdAdd r label addedAt s)

structure RegisterStart where
  challenge : Bytes
  envelope : SignedEnvelope
  deriving DecidableEq, Repr

def registerStart (libs : Codecs) (cfg : Logins.Config) (secret challenge : Bytes)
    (now : Option UInt64) : RegisterStart :=
  ⟨toB64url challenge,
    .sign libs ⟨cfg.rpId,cfg.origin,issuedAtNow now,toB64url challenge⟩ secret⟩

structure Credential where
  id : Bytes
  rawId : Bytes
  ty : Bytes
  clientDataJson : Bytes
  attestationObject : Bytes
  deriving DecidableEq, Repr

def credentialToJson (cred : Credential) : RegistrationResponse :=
  ⟨cred.id,WebBase64.bufToB64u cred.rawId,cred.ty,WebBase64.bufToB64u cred.clientDataJson,
    WebBase64.bufToB64u cred.attestationObject⟩

/-- The end of `doRegister`: an empty label is `null`. -/
def pasteOf (start : RegisterStart) (cred : Credential) (label : String) : PasteBlob :=
  ⟨start.envelope,credentialToJson cred,if label = "" then none else some label⟩

def doRegister (stringify : PasteBlob → Bytes) (start : RegisterStart) (cred : Credential)
    (label : String) : Bytes :=
  WebBase64.bytesToB64NoPad (stringify (pasteOf start cred label))

section Checks
variable {libs : Webauthn.Libs} {clientData ty challenge origin : Bytes}

theorem constantTimeEq_iff {a b : Bytes} : constantTimeEq a b = true ↔ a = b := by
  rw [constantTimeEq, decide_eq_true_eq]
  constructor
  · rintro ⟨hlen,hdiff⟩
    exact (difference_eq_zero hlen).mp hdiff
  · intro h
    subst h
    exact ⟨rfl,(difference_eq_zero rfl).mpr rfl⟩

theorem asObject_eq_ok {v : Json} {fields : List (Bytes × Json)} :
    asObject v = .ok fields ↔ v = .object fields := by
  cases v <;> simp [asObject]

theorem asStr_eq_ok {f : ClientField} {v : Json} {s : Bytes} :
    asStr f v = .ok s ↔ v = .string s := by
  cases v <;> simp [asStr]

def ClientDataOk (libs : Webauthn.Libs) (clientData ty challengeB64u origin : Bytes) : Prop :=
  ∃ fields, libs.fromSlice clientData = .ok (.object fields) ∧
    fields.lookup (asBytes "type") = some (.string ty) ∧
    fields.lookup (asBytes "challenge") = some (.string challengeB64u) ∧
    fields.lookup (asBytes "origin") = some (.string origin)

theorem validateClientData_eq_ok {u : Unit} :
    validateClientData libs clientData ty challenge origin = .ok u ↔
      ClientDataOk libs clientData ty challenge origin := by
  simp only [validateClientData, bind_eq_ok, mapErr_eq_ok, asObject_eq_ok, getStr, orElse_eq_ok,
    asStr_eq_ok, rejectIf_eq_ok, not_not, constantTimeEq_iff, ClientDataOk]
  constructor
  · rintro ⟨_,hparse,fields,rfl,_,⟨_,htype,rfl⟩,-,rfl,_,⟨_,hchallenge,rfl⟩,-,rfl,_,
      ⟨_,horigin,rfl⟩,rfl⟩
    exact ⟨fields,hparse,htype,hchallenge,horigin⟩
  · rintro ⟨fields,hparse,htype,hchallenge,horigin⟩
    exact ⟨_,hparse,fields,rfl,_,⟨_,htype,rfl⟩,(),rfl,_,⟨_,hchallenge,rfl⟩,(),rfl,_,
      ⟨_,horigin,rfl⟩,rfl⟩

theorem decodeEs256_length {b k : Bytes} (h : CoseKey.decodeEs256 b = .ok k) :
    k.length = CredStore.sec1UncompressedLen := by
  obtain ⟨rest,hrest⟩ := CoseKey.decodeEs256_eq_ok.mp h
  rw [CoseKey.decodeEs256Rest, bind_eq_ok] at hrest
  obtain ⟨_,_,hrest⟩ := hrest
  rw [bind_eq_ok] at hrest
  obtain ⟨_,_,hrest⟩ := hrest
  rw [bind_eq_ok] at hrest
  obtain ⟨k',hslots,hrest⟩ := hrest
  cases pure_eq_ok.mp hrest
  obtain ⟨-,-,-,x,y,-,-,hx,hy,rfl⟩ := CoseKey.checkSlots_eq_ok.mp hslots
  simp [hx, hy, CredStore.sec1UncompressedLen]

theorem parsePrefix_length {data : Bytes} {p : AuthDataPrefix} (h : parsePrefix data = .ok p) :
    p.rpIdHash.length = 32 := by
  simp only [parsePrefix, bind_eq_ok, slice_eq_ok, pure_eq_ok] at h
  obtain ⟨-,-,_,⟨⟨-,hlen⟩,rfl⟩,_,-,_,-,rfl⟩ := h
  show ((data.take 32).drop 0).length = 32
  rw [List.drop_zero, List.length_take]
  omega

theorem parseAttested_ok {data : Bytes} {p : AttestedCredentialData}
    (h : parseAttested data = .ok p) : p.head.rpIdHash.length = 32 ∧
      p.credentialPublicKey.length = CredStore.sec1UncompressedLen := by
  rw [parseAttested, bind_eq_ok] at h
  obtain ⟨⟨head,aaguid,credentialId,buf⟩,hhead,h⟩ := h
  simp only [bind_eq_ok, mapErr_eq_ok, pure_eq_ok] at h
  obtain ⟨key,hkey,-,-,rfl⟩ := h
  rw [parseAttestedHead, bind_eq_ok] at hhead
  obtain ⟨head',hparsed,hhead⟩ := hhead
  have hsame : head' = head := by
    simp only [bind_eq_ok, pure_eq_ok, Prod.mk.injEq] at hhead
    obtain ⟨-,-,-,-,-,-,-,-,-,-,-,-,-,-,-,-,-,-,-,-,hhead,-⟩ := hhead
    exact hhead
  rw [mapErr_eq_ok] at hparsed
  exact ⟨hsame ▸ parsePrefix_length hparsed,decodeEs256_length hkey⟩

/-- What `finish_register` checks, on the parts that it takes out of a response. -/
structure Attested (libs : Webauthn.Libs) (response : RegistrationResponse)
    (challenge rpId origin : Bytes) (p : AttestedCredentialData) : Prop where
  type : response.ty = asBytes "public-key"
  client : ∃ clientData, response.clientDataJson = Base64.encode Base64.urlSafe clientData ∧
    ClientDataOk libs clientData typeCreate (toB64url challenge) origin
  object : ∃ object authData,
    response.attestationObject = Base64.encode Base64.urlSafe object ∧
      extractAuthData object = .ok authData ∧ parseAttested authData = .ok p
  rpIdHash : p.head.rpIdHash = libs.sha256 rpId
  present : p.head.userPresent = true

theorem b64u_eq_ok {s b : Bytes} {f : RegistrationField} :
    b64u s f = .ok b ↔ s = Base64.encode Base64.urlSafe b := by
  rw [b64u, orElse_eq_ok]
  exact Base64.decode_eq_some_iff fun _ h => Base64.value_symbol_urlSafe h

theorem checkRpIdHash_eq_ok {got rpId : Bytes} {u : Unit}
    (hlen : got.length = (libs.sha256 rpId).length) :
    checkRpIdHash libs got rpId = .ok u ↔ got = libs.sha256 rpId := by
  rw [checkRpIdHash, rejectIf_eq_ok, not_not, difference_eq_zero hlen]

theorem finishRegister_eq_ok (hsha : ∀ b, (libs.sha256 b).length = 32)
    {response : RegistrationResponse} {rpId : Bytes} {r : RegisteredCredential} :
    finishRegister libs response challenge rpId origin = .ok r ↔
      ∃ p, Attested libs response challenge rpId origin p ∧
        r = ⟨p.credentialId,p.credentialPublicKey,p.head.signCount⟩ := by
  simp only [finishRegister, bind_eq_ok, mapErr_eq_ok, rejectIf_eq_ok, not_not, b64u_eq_ok,
    validateClientData_eq_ok, pure_eq_ok]
  constructor
  · rintro ⟨-,htype,clientData,hclient,-,hvalid,object,hobject,authData,hextract,p,hparse,_,hrp,-,
      hpresent,rfl⟩
    rw [checkRpIdHash_eq_ok ((parseAttested_ok hparse).1.trans (hsha _).symm)] at hrp
    exact ⟨p,⟨htype,⟨clientData,hclient,hvalid⟩,⟨object,authData,hobject,hextract,hparse⟩,hrp,
      hpresent⟩,rfl⟩
  · rintro ⟨p,⟨htype,⟨clientData,hclient,hvalid⟩,⟨object,authData,hobject,hextract,hparse⟩,hrp,
      hpresent⟩,rfl⟩
    have hlen := (parseAttested_ok hparse).1.trans (hsha rpId).symm
    exact ⟨(),htype,clientData,hclient,(),hvalid,object,hobject,authData,hextract,p,hparse,(),
      (checkRpIdHash_eq_ok hlen).mpr hrp,(),hpresent,rfl⟩

end Checks

structure Enrolled (libs : Libs) (secret : Bytes) (paste : PasteBlob) (inner : EnvelopeInner)
    (challenge : Bytes) (p : AttestedCredentialData) : Prop where
  signed : paste.envelope = .sign libs.toCodecs inner secret
  challengeText : inner.challengeB64u = toB64url challenge
  challengeLen : challenge.length = 32
  attested : Attested libs.toLibs paste.response challenge inner.rpId inner.origin p

def Pasted (libs : Codecs) (blobText : String) (now : Option UInt64) (paste : PasteBlob)
    (inner : EnvelopeInner) : Prop :=
  (∃ json, asBytes (cleaned blobText) = Envelope.b64Encode json ∧
    libs.blobFromSlice json = some paste) ∧
  ∃ n, now = some n ∧ n.toNat ≤ inner.issuedAt.toNat+envelopeTtlSecs

section Pipeline
variable {libs : Libs} {secret : Bytes} {now : Option UInt64} {blobText : String}
  {r : RegisteredCredential} {label addedAt : Bytes}

theorem register_eq_ok (hsha : ∀ b, (libs.sha256 b).length = 32) :
    register libs secret now blobText = .ok (r,label) ↔
      ∃ paste inner challenge p, Pasted libs.toCodecs blobText now paste inner ∧
        Enrolled libs secret paste inner challenge p ∧
        r = ⟨p.credentialId,p.credentialPublicKey,p.head.signCount⟩ ∧
        label = labelOf paste.label (CredStore.b64Encode p.credentialId) := by
  simp only [register, bind_eq_ok, mapErr_eq_ok, pure_eq_ok, Prod.exists, openPaste_eq_ok,
    challenge_eq_ok, finishRegister_eq_ok hsha, Prod.mk.injEq]
  constructor
  · rintro ⟨paste,inner,⟨hjson,hsigned,hnow⟩,challenge,⟨hchallenge,hlen⟩,_,⟨p,hattested,rfl⟩,rfl,
      rfl⟩
    exact ⟨paste,inner,challenge,p,⟨hjson,hnow⟩,⟨hsigned,hchallenge,hlen,hattested⟩,rfl,rfl⟩
  · rintro ⟨paste,inner,challenge,p,⟨hjson,hnow⟩,⟨hsigned,hchallenge,hlen,hattested⟩,rfl,rfl⟩
    exact ⟨paste,inner,⟨hjson,hsigned,hnow⟩,challenge,⟨hchallenge,hlen⟩,_,⟨p,hattested,rfl⟩,rfl,
      rfl⟩

end Pipeline

section Origin
variable {libs : Libs} {serde : CredFile.Serde} {init : CredentialStore}
  {ops : List CredStore.Op} {c : StoredCredential}

theorem inTurn_origin (h : c ∈ (CredFile.inTurn init ops).credentials) :
    (∃ d ∈ init.credentials, CredStore.Keeps d c) ∨
    ∃ r label addedAt, .cmdAdd r label addedAt ∈ ops ∧ CredStore.Keeps
      ⟨label,addedAt,CredStore.b64Encode r.credentialId,
        CredStore.b64Encode r.credentialPublicKey,r.signCount⟩ c := by
  induction ops using List.reverseRecOn generalizing c with
  | nil => exact .inl ⟨c,h,CredStore.keeps_refl c⟩
  | append_singleton ops op ih =>
    have hold : ∀ d ∈ (CredFile.inTurn init ops).credentials, CredStore.Keeps d c →
        (∃ d ∈ init.credentials, CredStore.Keeps d c) ∨
        ∃ r label addedAt, .cmdAdd r label addedAt ∈ ops++[op] ∧ CredStore.Keeps
          ⟨label,addedAt,CredStore.b64Encode r.credentialId,
            CredStore.b64Encode r.credentialPublicKey,r.signCount⟩ c := by
      intro d hd hkeeps
      rcases ih hd with ⟨e,he,hkept⟩ | ⟨r,label,addedAt,hop,hkept⟩
      · exact .inl ⟨e,he,hkept.trans hkeeps⟩
      · exact .inr ⟨r,label,addedAt,List.mem_append_left _ hop,hkept.trans hkeeps⟩
    rw [CredFile.inTurn, serial_concat, apply] at h
    cases hsave : op.save (serial CredStore.Op.save init ops) with
    | none =>
      rw [hsave] at h
      exact hold c h (CredStore.keeps_refl c)
    | some t =>
      rw [hsave] at h
      rcases CredStore.save_origin hsave h with ⟨d,hd,hkeeps⟩ | ⟨r,label,addedAt,rfl,rfl⟩
      · exact hold d hd hkeeps
      · exact .inr ⟨r,label,addedAt,List.mem_append_right _ (List.mem_singleton_self _),
          CredStore.keeps_refl _⟩

/-- Whatever a load of the credential file returns, in any interleaving of logins and
administration: each credential was there at first or came with a paste that was signed for this
installation, was at most ten minutes old, and answered its challenge for its origin. Of the two
only the counter may have changed since, upwards. -/
theorem credential_origin (libs : Libs) (hsha : ∀ b, (libs.sha256 b).length = 32)
    (serde : CredFile.Serde) (secret : Bytes) (file stale : Option Bytes) (init : CredentialStore)
    (as : List (Act CredStore.Op)) (w : CredFile.Files)
    (hinit : CredFile.load serde (World.start (Disk.ofContents file stale)) = some init)
    (hrun : run (CredFile.step serde) (World.start (Disk.ofContents file stale)) as = some w)
    (hserde : ∀ s ∈ w.saves, serde.fromSlice (serde.toVecPretty s) = some s)
    (hadd : ∀ r label addedAt, Act.spawn (.cmdAdd r label addedAt) ∈ as →
      ∃ now blobText, register libs secret now blobText = .ok (r,label))
    (s : CredentialStore) (hload : CredFile.load serde w = some s)
    (c : StoredCredential) (hc : c ∈ s.credentials) :
    (∃ d ∈ init.credentials, CredStore.Keeps d c) ∨
    ∃ now blobText paste inner challenge p addedAt,
      Pasted libs.toCodecs blobText now paste inner ∧
      Enrolled libs secret paste inner challenge p ∧
      CredStore.Keeps ⟨labelOf paste.label (CredStore.b64Encode p.credentialId),addedAt,
        CredStore.b64Encode p.credentialId,CredStore.b64Encode p.credentialPublicKey,
        p.head.signCount⟩ c := by
  have hstart : FilesOk (CredFile.codec serde) CredStore.Op.save init
      (World.start (Disk.ofContents file stale)) := filesOk_start hinit
  have hfiles := filesOk_run (lockOk_start _) hstart hserde hrun
  have hs := CredFile.load_eq hfiles.2
  rw [hload] at hs
  cases hs
  rcases inTurn_origin hc with hold | ⟨r,label,addedAt,hop,hkeeps⟩
  · exact .inl hold
  · have ⟨now,blobText,hregister⟩ := hadd r label addedAt (completed_spawned hrun hop)
    obtain ⟨paste,inner,challenge,p,hpasted,henrolled,rfl,rfl⟩ := (register_eq_ok hsha).mp hregister
    exact .inr ⟨now,blobText,paste,inner,challenge,p,addedAt,hpasted,henrolled,hkeeps⟩

end Origin

/-- An authenticator that answers what the browser hands it, with the credential `r` in the
authenticator data of an attestation object. -/
structure Answers (libs : Webauthn.Libs) (cfg : Logins.Config) (start : RegisterStart)
    (cred : Credential) (r : Registered) : Prop where
  type : cred.ty = asBytes "public-key"
  client : ∃ challenge, WebBase64.b64uToBuf start.challenge = some challenge ∧
    ClientDataOk libs cred.clientDataJson (asBytes "webauthn.create") (toB64url challenge)
      cfg.origin
  object : extractAuthData cred.attestationObject = .ok r.authData
  rpIdHash : r.head.rpIdHash = libs.sha256 cfg.rpId
  present : r.head.userPresent = true

section RoundTrip
variable {libs : Libs} {cfg : Logins.Config} {secret challenge addedAt : Bytes}
  {issued now : UInt64}
  {stringify : PasteBlob → Bytes} {cred : Credential} {label blobText : String}
  {r : Registered}
  {s t : CredentialStore} {c : StoredCredential}

theorem parseAttested_authData (r : Registered) :
    parseAttested r.authData = .ok ⟨r.head,r.aaguid,r.credentialId,4::(r.x++r.y)⟩ := by
  have hhead := parseAttestedHead_append r.hrpIdHash r.hflags r.haaguid r.hcredentialId
    (CoseKey.mapBytes r.width r.entries++r.extensions)
  have hdecode := (CoseKey.decodeEs256Rest_iff r.hdistinct r.hwidth r.extensions).mpr
    ⟨r.x,r.y,r.hkey,rfl⟩
  have hskip := (skipValue_of_decoded hdecode).mpr
    ⟨rfl,r.width,r.entries,r.extensions,r.hwidth,rfl,r.hextras⟩
  rw [parseAttested, Registered.authData, hhead, ok_bind]
  dsimp only
  rw [CoseKey.decodeEs256_eq_ok.mpr ⟨_,hdecode⟩, mapErr_ok, ok_bind, hskip]
  rfl

theorem attested_of_answers
    (h : Answers libs.toLibs cfg (registerStart libs.toCodecs cfg secret challenge (some issued))
      cred r) :
    Attested libs.toLibs (credentialToJson cred) challenge cfg.rpId cfg.origin
      ⟨r.head,r.aaguid,r.credentialId,4::(r.x++r.y)⟩ where
  type := h.type
  client := by
    have ⟨challenge',hbuf,hclient⟩ := h.client
    have hsame : some challenge' = some challenge :=
      hbuf.symm.trans (WebBase64.b64uToBuf_encode challenge)
    cases hsame
    exact ⟨cred.clientDataJson,WebBase64.bufToB64u_eq _,hclient⟩
  object := ⟨cred.attestationObject,r.authData,WebBase64.bufToB64u_eq _,h.object,
    parseAttested_authData r⟩
  rpIdHash := h.rpIdHash
  present := h.present

theorem register_answered (hsha : ∀ b, (libs.sha256 b).length = 32) (hlen : challenge.length = 32)
    (hage : now.toNat ≤ issued.toNat+600)
    (hcred : Answers libs.toLibs cfg
      (registerStart libs.toCodecs cfg secret challenge (some issued)) cred r)
    (hjson : libs.blobFromSlice (stringify (pasteOf
      (registerStart libs.toCodecs cfg secret challenge (some issued)) cred label)) =
        some (pasteOf (registerStart libs.toCodecs cfg secret challenge (some issued)) cred label))
    (htext : asBytes (cleaned blobText) = doRegister stringify
      (registerStart libs.toCodecs cfg secret challenge (some issued)) cred label) :
    register libs secret (some now) blobText =
      .ok (⟨r.credentialId,4::(r.x++r.y),r.head.signCount⟩,
        labelOf (if label = "" then none else some label)
          (CredStore.b64Encode r.credentialId)) := by
  rw [doRegister, WebBase64.bytesToB64NoPad_eq] at htext
  exact (register_eq_ok hsha).mpr ⟨_,_,challenge,_,⟨⟨_,htext,hjson⟩,now,rfl,hage⟩,
    ⟨rfl,rfl,hlen,attested_of_answers hcred⟩,rfl,rfl⟩

theorem lawfulMonad (ε : Type) : LawfulMonad (Outcome ε) :=
  LawfulMonad.mk' (Outcome ε) (fun x => by cases x <;> rfl) (fun _ _ => rfl) bind_assoc

theorem mapM_ok_concat {α β ε : Type} (f : α → Outcome ε β) {l : List α} {bs : List β} {a : α}
    {b : β} (hl : l.mapM f = .ok bs) (ha : f a = .ok b) : (l++[a]).mapM f = .ok (bs++[b]) := by
  have := lawfulMonad ε
  rw [List.mapM_append, hl, ok_bind, List.mapM_cons, ha, ok_bind, List.mapM_nil]
  rfl

theorem offered_concat {id : Bytes} {ids : List Bytes}
    (hid : c.credentialIdB64 = CredStore.b64Encode id)
    (hids : s.credentials = [] ∧ ids = [] ∨ Logins.offered (some s) = .ok ids) :
    Logins.offered (some ⟨s.credentials++[c]⟩) = .ok (ids++[id]) := by
  have hc : c.credentialId = .ok id := by
    rw [StoredCredential.credentialId, hid, CredStore.b64Decode_b64Encode]
    rfl
  have hmap : s.credentials.mapM (·.credentialId) = .ok ids := by
    rcases hids with ⟨hnil,rfl⟩ | hids
    · rw [hnil]
      rfl
    · simp only [Logins.offered, bind_eq_ok, orElse_eq_ok, mapErr_eq_ok, Option.some.injEq] at hids
      obtain ⟨_,rfl,-,-,hids⟩ := hids
      exact hids
  rw [Logins.offered, orElse_some, ok_bind, rejectIf_neg (by simp), ok_bind,
    mapM_ok_concat _ hmap hc]
  rfl

theorem findById_concat_self {id : Bytes} (hid : c.credentialIdB64 = CredStore.b64Encode id)
    (hnew : CredStore.b64Encode id ∉ s.ids) :
    CredentialStore.findById ⟨s.credentials++[c]⟩ id = some c := by
  have hnone : s.credentials.find? (fun c => c.credentialIdB64 = CredStore.b64Encode id) =
      none := by
    rw [List.find?_eq_none]
    intro d hd heq
    exact hnew (List.mem_map.mpr ⟨d,hd,by simpa using heq⟩)
  rw [CredentialStore.findById, List.find?_append, hnone, Option.none_or]
  simp [hid]

theorem findById_concat_other {id : Bytes} (hid : c.credentialIdB64 ≠ CredStore.b64Encode id) :
    CredentialStore.findById ⟨s.credentials++[c]⟩ id = s.findById id := by
  rw [CredentialStore.findById, List.find?_append, CredentialStore.findById]
  simp [hid]

theorem lookup_added {id pk : Bytes} {pending : Logins.PendingLogin}
    (hid : c.credentialIdB64 = CredStore.b64Encode id)
    (hpk : c.credentialPublicKeyB64 = CredStore.b64Encode pk) (hlen : pk.length = 65)
    (hnew : CredStore.b64Encode id ∉ s.ids) (hallowed : id ∈ pending.allowedIds) :
    Logins.lookup pending ⟨s.credentials++[c]⟩ id = some ⟨pk,c.signCount⟩ := by
  have hkey : c.credentialPublicKey = .ok pk := by
    rw [StoredCredential.credentialPublicKey, hpk, CredStore.b64Decode_b64Encode, orElse_some,
      ok_bind, rejectIf_neg (by rw [hlen]; decide)]
    rfl
  have hany : pending.allowedIds.any (· = id) = true := by simpa using hallowed
  rw [Logins.lookup, if_pos hany, findById_concat_self hid hnew, Option.bind_some, hkey]

theorem lookup_others {id other : Bytes} {pending : Logins.PendingLogin}
    (hid : c.credentialIdB64 = CredStore.b64Encode id) (hne : other ≠ id) :
    Logins.lookup pending ⟨s.credentials++[c]⟩ other = Logins.lookup pending s other := by
  have hother : c.credentialIdB64 ≠ CredStore.b64Encode other := by
    rw [hid]
    exact fun h => hne (CredStore.b64Encode_injective h).symm
  rw [Logins.lookup, Logins.lookup, findById_concat_other hother]

/-- The passkey of an honest browser is added whatever whitespace the operator's text has taken
up, unless its id is in the store already. The next `login_start` offers it behind the others,
and the lookup of a login then finds exactly its key and counter, and for any other id what it
found before. -/
theorem added_then_offered (libs : Libs) (hsha : ∀ b, (libs.sha256 b).length = 32)
    (cfg : Logins.Config) (secret challenge : Bytes) (hlen : challenge.length = 32)
    (issued now : UInt64) (hage : now.toNat ≤ issued.toNat+600) (start : RegisterStart)
    (hstart : start = registerStart libs.toCodecs cfg secret challenge (some issued))
    (cred : Credential) (r : Registered) (hcred : Answers libs.toLibs cfg start cred r)
    (stringify : PasteBlob → Bytes) (label : String)
    (hjson : libs.blobFromSlice (stringify (pasteOf start cred label)) =
      some (pasteOf start cred label))
    (blobText : String)
    (htext : asBytes (cleaned blobText) = doRegister stringify start cred label)
    (addedAt : Bytes) (s : CredentialStore) :
    (CredStore.b64Encode r.credentialId ∈ s.ids →
      cmdAdd libs secret (some now) addedAt blobText s =
        .err (.store (.alreadyRegistered (CredStore.b64Encode r.credentialId)))) ∧
    (CredStore.b64Encode r.credentialId ∉ s.ids →
      ∃ t, cmdAdd libs secret (some now) addedAt blobText s = .ok (some t) ∧
        t.ids = s.ids++[CredStore.b64Encode r.credentialId] ∧
        (∀ ids, s.credentials = [] ∧ ids = [] ∨ Logins.offered (some s) = .ok ids →
          Logins.offered (some t) = .ok (ids++[r.credentialId])) ∧
        ∀ pending : Logins.PendingLogin,
          (r.credentialId ∈ pending.allowedIds →
            Logins.lookup pending t r.credentialId =
              some ⟨4::(r.x++r.y),r.head.signCount⟩) ∧
          ∀ id, id ≠ r.credentialId → Logins.lookup pending t id = Logins.lookup pending s id) := by
  subst hstart
  have hregister := register_answered hsha hlen hage hcred hjson htext
  have hany : (s.credentials.any fun c =>
      c.credentialIdB64 = CredStore.b64Encode r.credentialId) = true ↔
      CredStore.b64Encode r.credentialId ∈ s.ids := by
    simp [CredentialStore.ids]
  rw [cmdAdd, hregister, ok_bind]
  dsimp only [CredStore.cmdAdd]
  constructor
  · intro hold
    rw [rejectIf, if_pos (hany.mpr hold)]
    rfl
  · intro hnew
    rw [rejectIf_neg fun h => hnew (hany.mp h), ok_bind]
    have hkey : (4::(r.x++r.y)).length = 65 := by
      simp [r.hkey.xLength, r.hkey.yLength]
    refine ⟨_,rfl,?_,?_,?_⟩
    · exact List.map_append
    · intro ids hids
      exact offered_concat rfl hids
    · intro pending
      exact ⟨lookup_added rfl rfl hkey hnew,fun id hne => lookup_others rfl hne⟩

end RoundTrip

section Sample

def renderPaste (paste : PasteBlob) : Bytes :=
  asBytes "\x7b\"envelope\":\x7b\"inner\":"++sampleCodecs.innerToVec paste.envelope.inner++
    asBytes ",\"hmac_b64\":\""++paste.envelope.hmacB64++
    asBytes "\"\x7d,\"response\":\x7b\"id\":\""++paste.response.id++
    asBytes "\",\"rawId\":\""++paste.response.rawId++asBytes "\",\"type\":\""++paste.response.ty++
    asBytes "\",\"extensions\":\x7b\x7d,\"response\":\x7b\"clientDataJSON\":\""++
    paste.response.clientDataJson++asBytes "\",\"attestationObject\":\""++
    paste.response.attestationObject++asBytes "\"\x7d\x7d,\"label\":"++
    (match paste.label with
      | some label => asBytes "\""++asBytes label++asBytes "\""
      | none => asBytes "null")++asBytes "\x7d"

def sampleHash : Bytes :=
  [0x1E,0x35,0xC7,0x0B,0x2B,0x88,0xFB,0x17,0x5B,0xE5,0x6D,0x9E,0xF5,0x5B,0x0B,0xC8,
    0xCB,0xD4,0x2B,0x7D,0xE3,0x3B,0x04,0x73,0x17,0x5E,0xBB,0x32,0xD5,0xB9,0xD4,0xAB]

def sampleConfig : Logins.Config := ⟨asBytes "term.example",asBytes "https://term.example"⟩
def sampleChallenge : Bytes := (List.range 32).map fun i => UInt8.ofNat (32+i)

def sampleClientData : Bytes :=
  asBytes "\x7b\"type\":\"webauthn.create\","++
    asBytes "\"challenge\":\"ICEiIyQlJicoKSorLC0uLzAxMjM0NTY3ODk6Ozw9Pj8\","++
    asBytes "\"origin\":\"https://term.example\",\"crossOrigin\":false\x7d"

def sampleFields : List (Bytes × Json) :=
  [(asBytes "type",.string (asBytes "webauthn.create")),
    (asBytes "challenge",.string (asBytes "ICEiIyQlJicoKSorLC0uLzAxMjM0NTY3ODk6Ozw9Pj8")),
    (asBytes "origin",.string (asBytes "https://term.example")),(asBytes "crossOrigin",.other)]

def sampleRegistered : Registered :=
  { Registration.registered with
    head := ⟨sampleHash,0x41,0⟩
    hrpIdHash := by decide
    hflags := by decide }

def sampleCredential : Credential where
  id := asBytes "AQID"
  rawId := [1,2,3]
  ty := asBytes "public-key"
  clientDataJson := sampleClientData
  attestationObject := attestationObject .direct .direct .two [fmt] [attStmt]
    sampleRegistered.authData

def sampleStart : RegisterStart :=
  registerStart sampleCodecs sampleConfig sampleSecret sampleChallenge (some 1700000000)

def samplePaste : PasteBlob := pasteOf sampleStart sampleCredential "key"

def sampleLibs : Libs where
  hmac := sampleCodecs.hmac
  innerToVec := sampleCodecs.innerToVec
  blobFromSlice json := if json = renderPaste samplePaste then some samplePaste else none
  fromSlice b := if b = sampleClientData then .ok (.object sampleFields) else .err "expected value"
  sha256 b := if b = asBytes "term.example" then sampleHash else List.replicate 32 0
  validKey _ := true
  validSignature _ := false
  verify _ _ _ := false

def sampleText : String :=
  ofAscii (doRegister renderPaste sampleStart sampleCredential "key"++[0x0A])

theorem cleaned_line (b : Bytes) :
    asBytes (cleaned (ofAscii (Base64.encode Base64.standard b++[0x0A]))) =
      Base64.encode Base64.standard b := by
  have hsymbol : ∀ x ∈ Base64.encode Base64.standard b,
      x < 0x80 ∧ (!isWhitespace (Char.ofNat x.toNat)) = true :=
    WebBase64.forall_encode (fun v hv => by interval_cases v <;> decide) b
  have hfilter : (Base64.encode Base64.standard b++[0x0A]).filter
      ((fun c => !isWhitespace c) ∘ fun x => Char.ofNat x.toNat) =
        Base64.encode Base64.standard b := by
    have hbody : (Base64.encode Base64.standard b).filter
        ((fun c => !isWhitespace c) ∘ fun x => Char.ofNat x.toNat) =
          Base64.encode Base64.standard b := List.filter_eq_self.mpr fun x hx => (hsymbol x hx).2
    rw [List.filter_append, hbody, List.filter_cons_of_neg (by decide), List.filter_nil,
      List.append_nil]
  rw [cleaned, ofAscii, String.toList_ofList, List.filter_map, hfilter]
  exact asBytes_ofAscii fun x hx => (hsymbol x hx).1

theorem sample_start : sampleStart =
    registerStart sampleLibs.toCodecs sampleConfig sampleSecret sampleChallenge
      (some 1700000000) := by
  simp only [sampleStart, registerStart, SignedEnvelope.sign, sampleLibs]

theorem sample_hash (b : Bytes) : (sampleLibs.sha256 b).length = 32 := by
  simp only [sampleLibs]
  split_ifs
  · decide
  · rw [List.length_replicate]

theorem sample_answers :
    Answers sampleLibs.toLibs sampleConfig sampleStart sampleCredential sampleRegistered where
  type := rfl
  client := by
    have hparse : sampleLibs.fromSlice sampleClientData = .ok (.object sampleFields) := by
      simp only [sampleLibs, if_true]
    have hchallenge : asBytes "ICEiIyQlJicoKSorLC0uLzAxMjM0NTY3ODk6Ozw9Pj8" =
        toB64url sampleChallenge := by decide +kernel
    refine ⟨sampleChallenge,WebBase64.b64uToBuf_encode _,sampleFields,hparse,rfl,?_,rfl⟩
    rw [← hchallenge]
    rfl
  object := by decide +kernel
  rpIdHash := by
    show sampleHash = sampleLibs.sha256 (asBytes "term.example")
    simp only [sampleLibs, if_true]
  present := by decide

theorem sample_text : asBytes (cleaned sampleText) =
    doRegister renderPaste sampleStart sampleCredential "key" := by
  rw [sampleText, doRegister, WebBase64.bytesToB64NoPad_eq]
  exact cleaned_line _

theorem sample_json : sampleLibs.blobFromSlice (renderPaste samplePaste) = some samplePaste := by
  simp only [sampleLibs, if_true]

theorem added_then_offered_sample : ∃ t,
    cmdAdd sampleLibs sampleSecret (some 1700000600) (asBytes "2023-11-14T22:23:20Z") sampleText
      default = .ok (some t) ∧
    Logins.offered (some t) = .ok [[1,2,3]] ∧
    Logins.lookup ⟨[],[[1,2,3]],0⟩ t [1,2,3] = some ⟨4::(CoseKey.xCoord++CoseKey.yCoord),0⟩ := by
  have hnew : CredStore.b64Encode sampleRegistered.credentialId ∉
      (default : CredentialStore).ids := by decide
  obtain ⟨t,hadd,-,hoffered,hlookup⟩ := (added_then_offered sampleLibs sample_hash sampleConfig
    sampleSecret sampleChallenge (by decide) 1700000000 1700000600 (by decide) sampleStart
    sample_start sampleCredential sampleRegistered sample_answers renderPaste "key" sample_json
    sampleText sample_text (asBytes "2023-11-14T22:23:20Z") default).2 hnew
  have hoffers := hoffered [] (.inl ⟨rfl,rfl⟩)
  have hallowed : sampleRegistered.credentialId ∈ ([[1,2,3]] : List Bytes) := by decide
  have hfound := (hlookup ⟨[],[[1,2,3]],0⟩).1 hallowed
  exact ⟨t,hadd,hoffers,hfound⟩

def sampleKey : RegisteredCredential := ⟨[1,2,3],4::(CoseKey.xCoord++CoseKey.yCoord),0⟩
def sampleAdded : Bytes := asBytes "2023-11-14T22:23:20Z"
def addSample : CredStore.Op := .cmdAdd sampleKey (asBytes "key") sampleAdded

def sampleStored (signCount : UInt32) : StoredCredential :=
  ⟨asBytes "key",sampleAdded,CredStore.b64Encode sampleKey.credentialId,
    CredStore.b64Encode sampleKey.credentialPublicKey,signCount⟩

def sampleSerde : CredFile.Serde where
  toVecPretty := CredFile.renderStore
  fromSlice b := [default,⟨[sampleStored 0]⟩,⟨[sampleStored 5]⟩].find? fun s =>
    CredFile.renderStore s = b

def addedAndUsed : List (Act CredStore.Op) :=
  .spawn addSample::.spawn (.persistCounterUpdate sampleKey.credentialId 5)::
    ([.lock,.openFile,.readFile,.openTmp,.write 1000,.rename,.finish].map (Act.move 0)++
      [.lock,.openFile,.readFile,.openTmp,.write 1000,.rename,.finish].map (Act.move 1))

theorem credential_origin_sample : ∃ w,
    run (CredFile.step sampleSerde) (World.start (Disk.ofContents none none)) addedAndUsed =
      some w ∧
    ((∃ d ∈ (default : CredentialStore).credentials, CredStore.Keeps d (sampleStored 5)) ∨
    ∃ now blobText paste inner challenge p addedAt,
      Pasted sampleLibs.toCodecs blobText now paste inner ∧
      Enrolled sampleLibs sampleSecret paste inner challenge p ∧
      CredStore.Keeps ⟨labelOf paste.label (CredStore.b64Encode p.credentialId),addedAt,
        CredStore.b64Encode p.credentialId,CredStore.b64Encode p.credentialPublicKey,
        p.head.signCount⟩ (sampleStored 5)) := by
  have hfacts : ((run (CredFile.step sampleSerde) (World.start (Disk.ofContents none none))
      addedAndUsed).map fun w => (CredFile.load sampleSerde w,w.saves)) =
      some (some ⟨[sampleStored 5]⟩,[⟨[sampleStored 5]⟩,⟨[sampleStored 0]⟩]) := by
    decide +kernel
  obtain ⟨w,hrun,hw⟩ := Option.map_eq_some_iff.mp hfacts
  obtain ⟨hload,hsaves⟩ := Prod.mk.inj hw
  have hserde : ∀ s ∈ w.saves, sampleSerde.fromSlice (sampleSerde.toVecPretty s) = some s := by
    rw [hsaves]
    decide +kernel
  have hregister : register sampleLibs sampleSecret (some 1700000600) sampleText =
      .ok (sampleKey,asBytes "key") := by
    have h := @register_answered sampleLibs sampleConfig sampleSecret sampleChallenge 1700000000
      1700000600 renderPaste sampleCredential "key" sampleText sampleRegistered sample_hash
      (by decide) (by decide)
    rw [← sample_start] at h
    exact h sample_answers sample_json sample_text
  have hadd : ∀ r label addedAt, Act.spawn (.cmdAdd r label addedAt) ∈ addedAndUsed →
      ∃ now blobText, register sampleLibs sampleSecret now blobText = .ok (r,label) := by
    intro r label addedAt hmem
    simp only [addedAndUsed, addSample, List.mem_cons, List.mem_append, List.mem_map, List.map_cons,
      reduceCtorEq, Act.spawn.injEq, CredStore.Op.cmdAdd.injEq, or_false,
      and_false, exists_false] at hmem
    obtain ⟨rfl,rfl,-⟩ := hmem
    exact ⟨_,_,hregister⟩
  exact ⟨w,hrun,credential_origin sampleLibs sample_hash sampleSerde sampleSecret none none default
    addedAndUsed w rfl hrun hserde hadd _ hload _ (List.mem_singleton_self _)⟩

end Sample

end Term.AddPasskey
