import TermMux.AddPasskey
import TermMux.BearerTokens

/-!
# An honest login among others

`doLogin` in the browser with the options that `login_start` sends, and the way
of its request through `login_finish`. Whatever other logins, requests and the
administrator do meanwhile, a passkey that is in the store gets its token and
the token is valid, as long as the login is over in time and nobody else knows
its nonce or its token.
-/

set_option autoImplicit false

namespace Term.HonestLogin
open Term.ByteOrder Term.Outcome Term.Utf8Text Term.Machine Term.ExpiringMap Term.Webauthn
  Term.Logins Term.Registration Term.AddPasskey
open Term.CredStore (CredentialStore)

/-- `PublicKeyCredentialRequestOptions`, with its bytes as base64url text or decoded. -/
structure RequestOptions where
  challenge : Bytes
  rpId : Bytes
  allowCredentials : List Bytes
  deriving DecidableEq, Repr

def RequestOptions.build (rpId challenge : Bytes) (allow : List Bytes) : RequestOptions :=
  ⟨toB64url challenge,rpId,allow.map (Base64.encode Base64.urlSafe)⟩

/-- `none` where `atob` throws. -/
def prepGetOptions (rcr : RequestOptions) : Option RequestOptions := do
  let challenge ← WebBase64.b64uToBuf rcr.challenge
  let ids ← rcr.allowCredentials.mapM WebBase64.b64uToBuf
  some ⟨challenge,rcr.rpId,ids⟩

structure Assertion where
  rawId : Bytes
  ty : Bytes
  clientDataJson : Bytes
  authenticatorData : Bytes
  signature : Bytes
  deriving DecidableEq, Repr

def assertionToJson (cred : Assertion) : AuthenticationResponse :=
  ⟨WebBase64.bufToB64u cred.rawId,cred.ty,WebBase64.bufToB64u cred.clientDataJson,
    WebBase64.bufToB64u cred.authenticatorData,WebBase64.bufToB64u cred.signature⟩

def doLogin (nonce : Bytes) (rcr : RequestOptions) (get : RequestOptions → Option Assertion) :
    Option LoginFinishReq := do
  let pk ← prepGetOptions rcr
  let cred ← get pk
  some ⟨nonce,assertionToJson cred⟩

/-- An authenticator that holds the key of the credential `id` and answers the options. -/
structure Answers (libs : Webauthn.Libs) (origin id key : Bytes) (count : UInt32)
    (pk : RequestOptions) (cred : Assertion) : Prop where
  type : cred.ty = asBytes "public-key"
  rawId : cred.rawId = id
  client : ClientDataOk libs cred.clientDataJson (asBytes "webauthn.get") (toB64url pk.challenge)
    origin
  data : ∃ flags rest, flags &&& flagUp ≠ 0 ∧
    cred.authenticatorData = prefixBytes ⟨libs.sha256 pk.rpId,flags,count⟩++rest
  validKey : libs.validKey key = true
  validSignature : libs.validSignature cred.signature = true
  verifies : libs.verify key (cred.authenticatorData++libs.sha256 cred.clientDataJson)
    cred.signature = true

section Browser
variable {libs : Webauthn.Libs} {rpId origin challenge id key nonce : Bytes} {count : UInt32}
  {ids : List Bytes} {cred : Assertion} {req : LoginFinishReq}
  {find : Bytes → Option StoredCredentialView} {stored : StoredCredentialView}

theorem prepGetOptions_build (rpId challenge : Bytes) (ids : List Bytes) :
    prepGetOptions (.build rpId challenge ids) = some ⟨challenge,rpId,ids⟩ := by
  have hids : ∀ l : List Bytes,
      (l.map (Base64.encode Base64.urlSafe)).mapM WebBase64.b64uToBuf = some l := by
    intro l
    induction l with
    | nil => rfl
    | cons id l ih =>
      rw [List.map_cons, List.mapM_cons, WebBase64.b64uToBuf_encode, ih]
      rfl
  simp only [prepGetOptions, RequestOptions.build, toB64url, WebBase64.b64uToBuf_encode, hids]
  rfl

theorem b64u_bufToB64u (b : Bytes) (f : ResponseField) :
    Webauthn.b64u (WebBase64.bufToB64u b) f = .ok b := by
  rw [Webauthn.b64u, WebBase64.bufToB64u_eq, Base64.decode_encode]
  rfl

/-- An honest assertion passes the check of `login_finish`. -/
theorem finishAuthenticate_answered (hsha : ∀ b, (libs.sha256 b).length = 32)
    (h : Answers libs origin id key count ⟨challenge,rpId,ids⟩ cred)
    (hfind : find id = some stored) (hkey : stored.credentialPublicKey = key)
    (hcount : stored.signCount < count ∨ count = 0) :
    finishAuthenticate libs (assertionToJson cred) challenge rpId origin find =
      .ok ⟨id,count,decide (stored.signCount < count)⟩ := by
  obtain ⟨flags,rest,hflags,hdata⟩ := h.data
  have htype : ¬(assertionToJson cred).ty ≠ asBytes "public-key" := fun hne => hne h.type
  have hclient : validateClientData libs cred.clientDataJson typeGet (toB64url challenge) origin =
      .ok () := validateClientData_eq_ok.mpr h.client
  have hhead : parsePrefix cred.authenticatorData = .ok ⟨libs.sha256 rpId,flags,count⟩ := by
    rw [hdata]
    exact parsePrefix_append (hsha rpId) rest
  have hrpId : checkRpIdHash libs (libs.sha256 rpId) rpId = .ok () :=
    (checkRpIdHash_eq_ok rfl).mpr rfl
  have hpresent : ¬¬(AuthDataPrefix.userPresent ⟨libs.sha256 rpId,flags,count⟩) = true := by
    rw [not_not, AuthDataPrefix.userPresent, decide_eq_true_eq]
    exact hflags
  have hverify : verifySignature libs stored.credentialPublicKey
      (cred.authenticatorData++libs.sha256 cred.clientDataJson) cred.signature = .ok () := by
    rw [hkey, verifySignature, rejectIf_neg (not_not.mpr h.validKey), ok_bind,
      rejectIf_neg (not_not.mpr h.validSignature), ok_bind, rejectIf_neg (not_not.mpr h.verifies)]
  have hcounted : ¬(¬decide (stored.signCount < count) = true ∧ count ≠ 0) := by
    rintro ⟨hle,hne⟩
    rcases hcount with hlt | hzero
    · exact hle (decide_eq_true hlt)
    · exact hne hzero
  rw [finishAuthenticate, rejectIf_neg htype, ok_bind]
  simp only [assertionToJson, b64u_bufToB64u, ok_bind, hclient, mapErr_ok, hhead, hrpId, h.rawId,
    hfind, orElse_some, hverify]
  rw [rejectIf_neg hpresent, ok_bind, rejectIf_neg hcounted]
  rfl

end Browser

/-- The acts of everybody else: they do not know the nonce and do not draw the token. -/
def Foreign (nonce token : Bytes) : Act → Prop
  | .startInsert t _ => t.nonce ≠ nonce
  | .redeem req => req.nonce ≠ nonce
  | .load t => t.req.nonce ≠ nonce
  | .authenticate t => t.req.nonce ≠ nonce
  | .persist t _ => t.req.nonce ≠ nonce
  | .mint t _ => t.req.nonce ≠ nonce
  | .storeToken t => t.req.nonce ≠ nonce ∧ t.token ≠ token
  | .logout t => t ≠ token
  | .pass _ | .changeStore _ | .startLoad _ _ | .validate _ _ => True

structure Kept (nonce token : Bytes) (s t : Hub) : Prop where
  now : s.now ≤ t.now
  pending : ∀ p, get s.pendingLogins nonce = some p → t.now < p.expiresAt →
    get t.pendingLogins nonce = some p
  redeemed : ∀ u ∈ s.redeemed, u.req.nonce = nonce → u ∈ t.redeemed
  loaded : ∀ u ∈ s.loaded, u.req.nonce = nonce → u ∈ t.loaded
  persisting : ∀ u ∈ s.persisting, u.req.nonce = nonce → u ∈ t.persisting
  ready : ∀ u ∈ s.ready, u.req.nonce = nonce → u ∈ t.ready
  storing : ∀ u ∈ s.storing, u.req.nonce = nonce → u ∈ t.storing
  session : ∀ e, get s.sessions token = some e → t.now < e → get t.sessions token = some e

section Others
variable {libs : Webauthn.Libs} {cfg : Config} {nonce token : Bytes} {s t u : Hub} {a : Act}
  {as : List Act}

theorem kept_refl (nonce token : Bytes) (s : Hub) : Kept nonce token s s where
  now := le_refl _
  pending _ h _ := h
  redeemed _ h _ := h
  loaded _ h _ := h
  persisting _ h _ := h
  ready _ h _ := h
  storing _ h _ := h
  session _ h _ := h

theorem Kept.trans (hst : Kept nonce token s t) (htu : Kept nonce token t u) :
    Kept nonce token s u where
  now := hst.now.trans htu.now
  pending p h hlive := htu.pending p (hst.pending p h (htu.now.trans_lt hlive)) hlive
  redeemed v h hv := htu.redeemed v (hst.redeemed v h hv) hv
  loaded v h hv := htu.loaded v (hst.loaded v h hv) hv
  persisting v h hv := htu.persisting v (hst.persisting v h hv) hv
  ready v h hv := htu.ready v (hst.ready v h hv) hv
  storing v h hv := htu.storing v (hst.storing v h hv) hv
  session e h hlive := htu.session e (hst.session e h (htu.now.trans_lt hlive)) hlive

theorem mem_erase_other {α : Type} [DecidableEq α] {l : List α} (f : α → Bytes) {x y : α}
    (hx : f x ≠ nonce) (hmem : y ∈ l) (hy : f y = nonce) : y ∈ l.erase x := by
  have hne : y ≠ x := fun h => hx (by rw [← h, hy])
  exact (List.mem_erase_of_ne hne).mpr hmem

theorem kept_effect (h : Effect libs cfg s a t) (ha : Foreign nonce token a) :
    Kept nonce token s t := by
  have hself := kept_refl nonce token s
  cases h with
  | pass nanos =>
    exact { hself with
      now := Nat.le_add_right _ _
      pending := fun _ hp _ => hp
      session := fun _ he _ => he }
  | changeStore disk => exact { hself with }
  | startFailed n challenge => exact hself
  | started n challenge allowedIds hoffered => exact { hself with }
  | tooMany v nanos hv =>
    exact { hself with
      now := Nat.le_add_right _ _
      pending := fun p hp hlive => get_gc hp (lt_of_le_of_lt (Nat.le_add_right _ _) hlive)
      session := fun _ he _ => he }
  | inserted v nanos hv hroom =>
    refine { hself with
      now := Nat.le_add_right _ _
      pending := ?_
      session := fun _ he _ => he }
    intro p hp hlive
    show get (insert _ _ _) _ = _
    rw [get_insert_other _ _ (Ne.symm ha)]
    exact get_gc hp (lt_of_le_of_lt (Nat.le_add_right _ _) hlive)
  | unknownNonce req =>
    exact { hself with pending := fun p hp hlive => get_gc hp hlive }
  | redeemed req p hget =>
    refine { hself with pending := ?_, redeemed := fun v hv _ => List.mem_cons_of_mem _ hv }
    intro q hq hlive
    show get (remove _ _) _ = _
    rw [get_remove_other _ (Ne.symm ha)]
    exact get_gc hq hlive
  | loadFailed v hv =>
    exact { hself with
      redeemed := fun w hw hn => mem_erase_other (fun u : Redeemed => u.req.nonce) ha hw hn }
  | loaded v store hv hdisk =>
    exact { hself with
      redeemed := fun w hw hn => mem_erase_other (fun u : Redeemed => u.req.nonce) ha hw hn
      loaded := fun w hw _ => List.mem_cons_of_mem _ hw }
  | refused v hv =>
    exact { hself with
      loaded := fun w hw hn => mem_erase_other (fun u : Loaded => u.req.nonce) ha hw hn }
  | advanced v auth hv hauth hadvanced =>
    exact { hself with
      loaded := fun w hw hn => mem_erase_other (fun u : Loaded => u.req.nonce) ha hw hn
      persisting := fun w hw _ => List.mem_cons_of_mem _ hw }
  | passed v auth hv hauth hadvanced =>
    exact { hself with
      loaded := fun w hw hn => mem_erase_other (fun u : Loaded => u.req.nonce) ha hw hn
      ready := fun w hw _ => List.mem_cons_of_mem _ hw }
  | persist v succeeds hv =>
    exact { hself with
      persisting := fun w hw hn => mem_erase_other (fun u : Accepted => u.req.nonce) ha hw hn
      ready := fun w hw _ => List.mem_cons_of_mem _ hw }
  | mint v tok hv =>
    exact { hself with
      ready := fun w hw hn => mem_erase_other (fun u : Accepted => u.req.nonce) ha hw hn
      storing := fun w hw _ => List.mem_cons_of_mem _ hw }
  | storeToken v hv =>
    refine { hself with
      storing := fun w hw hn => mem_erase_other (fun u : Minted => u.req.nonce) ha.1 hw hn
      session := ?_ }
    intro e he hlive
    show get (insert _ _ _) _ = _
    rw [get_insert_other _ _ (Ne.symm ha.2)]
    exact get_gc he hlive
  | validate tok nanos =>
    exact { hself with
      now := Nat.le_add_right _ _
      pending := fun _ hp _ => hp
      session := fun e he hlive => get_gc he (lt_of_le_of_lt (Nat.le_add_right _ _) hlive) }
  | logout tok htoken =>
    refine { hself with session := fun e he _ => ?_ }
    show get (remove _ _) _ = _
    rw [get_remove_other _ (Ne.symm ha)]
    exact he

theorem kept_run (hrun : run (step libs cfg) s as = some t)
    (has : ∀ a ∈ as, Foreign nonce token a) : Kept nonce token s t := by
  have halong : Along (step libs cfg) (fun _ a => Foreign nonce token a) s as :=
    along_of_forall (step libs cfg) has
  exact run_along (step libs cfg) (I := Kept nonce token s)
    (fun _ _ _ hI ha hstep => hI.trans (kept_effect (effect_of_step hstep) ha))
    (kept_refl nonce token s) halong hrun

end Others

section Own
variable {libs : Webauthn.Libs} {cfg : Config} {s : Hub} {token : Bytes}

theorem startInsert_pending {t : Starting} {nanos : ℕ}
    (hroom : (gc PendingLogin.expiresAt s.now s.pendingLogins).length < maxPendingLogins) :
    get (startInsert s t nanos).pendingLogins t.nonce =
      some ⟨t.challenge,t.allowedIds,s.now+nanos+pendingLoginTtl⟩ := by
  have hadd : addPending (gc PendingLogin.expiresAt s.now s.pendingLogins) t.nonce t.challenge
      t.allowedIds (s.now+nanos) = .ok (insert (gc PendingLogin.expiresAt s.now s.pendingLogins)
        t.nonce ⟨t.challenge,t.allowedIds,s.now+nanos+pendingLoginTtl⟩) := by
    rw [addPending, rejectIf_neg (Nat.not_le.mpr hroom)]
    rfl
  rw [startInsert, hadd]
  exact get_insert_self _ _ _

theorem redeem_redeemed {req : LoginFinishReq} {p : PendingLogin}
    (hp : get s.pendingLogins req.nonce = some p) (hlive : s.now < p.expiresAt) :
    ⟨req,p,s.now⟩ ∈ (redeem s req).redeemed := by
  rw [redeem, get_gc hp hlive]
  exact List.mem_cons_self

theorem load_loaded {t : Redeemed} {store : CredentialStore} (hdisk : s.disk = some store) :
    { t with store := store } ∈ (load s t).loaded := by
  rw [load, hdisk]
  exact List.mem_cons_self

theorem finish_accepted {t : Loaded} {auth : AuthenticatedCredential}
    (h : authenticate libs cfg t.pending t.store t.req.response = .ok auth) :
    if auth.signCountAdvanced then { t with auth := auth } ∈ (finish libs cfg s t).persisting
    else { t with auth := auth } ∈ (finish libs cfg s t).ready := by
  rw [finish, h]
  cases hadvanced : auth.signCountAdvanced with
  | true => simp [hadvanced]
  | false => simp [hadvanced]

theorem storeToken_session (t : Minted) :
    get (storeToken s t).sessions t.token = some (t.mintedAt+sessionTtl) :=
  get_insert_self _ _ _

theorem validateToken_of_get {nanos expiresAt : ℕ} (h : get s.sessions token = some expiresAt)
    (hlive : s.now+nanos < expiresAt) : validateToken s token nanos = true := by
  have hgc : get (gc id s.now s.sessions) token = some expiresAt :=
    get_gc h (lt_of_le_of_lt (Nat.le_add_right _ _) hlive)
  rw [validateToken, hgc]
  exact decide_eq_true hlive

end Own

/-- Between the steps of a login anything may happen that others can do. It passes with a passkey
that is in the store when it loads it, with a counter below its own or its own at zero, if it
comes back in time; then its token is valid until it expires. -/
theorem honest_login_succeeds (libs : Webauthn.Libs) (hsha : ∀ b, (libs.sha256 b).length = 32)
    (cfg : Config) {s u₁ u₂ u₃ u₄ u₅ u₆ u₇ : Hub} {m₁ m₂ m₃ m₄ m₅ m₆ m₇ : List Act}
    {t : Starting} {nanos : ℕ} {succeeds : Bool} {id key token : Bytes} {count stored : UInt32}
    {store : CredentialStore} {req : LoginFinishReq} {r : Redeemed} {l : Loaded} {a : Accepted}
    {m : Minted} (getCredential : RequestOptions → Option Assertion)
    (hanswer : ∀ pk cred, prepGetOptions (.build cfg.rpId t.challenge t.allowedIds) = some pk →
      getCredential pk = some cred → Answers libs cfg.origin id key count pk cred)
    (hreq : doLogin t.nonce (.build cfg.rpId t.challenge t.allowedIds) getCredential = some req)
    (hroom : (gc PendingLogin.expiresAt s.now s.pendingLogins).length < maxPendingLogins)
    (h₁ : run (step libs cfg) (startInsert s t nanos) m₁ = some u₁)
    (hintime : u₁.now < s.now+nanos+pendingLoginTtl)
    (hr : r = ⟨req,⟨t.challenge,t.allowedIds,s.now+nanos+pendingLoginTtl⟩,u₁.now⟩)
    (h₂ : run (step libs cfg) (redeem u₁ req) m₂ = some u₂) (hdisk : u₂.disk = some store)
    (hl : l = { r with store := store })
    (hkey : Logins.lookup r.pending store id = some ⟨key,stored⟩)
    (hcount : stored < count ∨ count = 0)
    (h₃ : run (step libs cfg) (load u₂ r) m₃ = some u₃)
    (ha : a = { l with auth := ⟨id,count,decide (stored < count)⟩ })
    (h₄ : run (step libs cfg) (finish libs cfg u₃ l) m₄ = some u₄)
    (h₅ : run (step libs cfg) (if stored < count then persist u₄ a succeeds else u₄) m₅ = some u₅)
    (hm : m = { a with token := token, mintedAt := u₅.now })
    (h₆ : run (step libs cfg) (mint u₅ a token) m₆ = some u₆)
    (h₇ : run (step libs cfg) (storeToken u₆ m) m₇ = some u₇)
    (hforeign : ∀ act ∈ m₁++m₂++m₃++m₄++m₅++m₆++m₇, Foreign t.nonce token act) :
    r ∈ u₂.redeemed ∧ l ∈ u₃.loaded ∧
      (if stored < count then a ∈ u₄.persisting else a ∈ u₄.ready) ∧ a ∈ u₅.ready ∧
      m ∈ u₆.storing ∧
      ∀ d, u₇.now+d < u₅.now+sessionTtl → validateToken u₇ token d = true := by
  simp only [List.mem_append, or_imp, forall_and] at hforeign
  obtain ⟨⟨⟨⟨⟨⟨hf₁,hf₂⟩,hf₃⟩,hf₄⟩,hf₅⟩,hf₆⟩,hf₇⟩ := hforeign
  have ⟨cred,hcred,hresponse⟩ : ∃ cred, Answers libs cfg.origin id key count
      ⟨t.challenge,cfg.rpId,t.allowedIds⟩ cred ∧ req = ⟨t.nonce,assertionToJson cred⟩ := by
    have ⟨pk,hpk,hrest⟩ := Option.bind_eq_some_iff.mp hreq
    have ⟨cred,hget,heq⟩ := Option.bind_eq_some_iff.mp hrest
    have hanswers := hanswer pk cred hpk hget
    rw [prepGetOptions_build] at hpk
    cases hpk
    cases heq
    exact ⟨cred,hanswers,rfl⟩
  have hnonce : req.nonce = t.nonce := by rw [hresponse]
  -- the nonce is still pending when the browser comes back
  have hpending := (kept_run h₁ hf₁).pending _ (startInsert_pending hroom) hintime
  have hredeemed : r ∈ u₂.redeemed := by
    apply (kept_run h₂ hf₂).redeemed
    · rw [hr]
      exact redeem_redeemed (hnonce ▸ hpending) hintime
    · rw [hr]
      exact hnonce
  have hloaded : l ∈ u₃.loaded := by
    apply (kept_run h₃ hf₃).loaded
    · rw [hl]
      exact load_loaded hdisk
    · rw [hl, hr]
      exact hnonce
  have hauth : authenticate libs cfg l.pending l.store l.req.response =
      .ok ⟨id,count,decide (stored < count)⟩ := by
    have hpass := finishAuthenticate_answered hsha hcred hkey rfl hcount
    rw [authenticate, hl, hr, hresponse]
    rw [hr] at hpass
    exact mapErr_eq_ok.mpr hpass
  have han : a.req.nonce = t.nonce := by rw [ha, hl, hr, hnonce]
  have hafter := finish_accepted (s := u₃) hauth
  rw [← ha] at hafter
  have haccepted : if stored < count then a ∈ u₄.persisting else a ∈ u₄.ready := by
    have hkept := kept_run h₄ hf₄
    by_cases hlt : stored < count
    · rw [if_pos (decide_eq_true hlt)] at hafter
      rw [if_pos hlt]
      exact hkept.persisting a hafter han
    · rw [if_neg (by simpa using hlt)] at hafter
      rw [if_neg hlt]
      exact hkept.ready a hafter han
  have hready : a ∈ u₅.ready := by
    apply (kept_run h₅ hf₅).ready a _ han
    by_cases hlt : stored < count
    · rw [if_pos hlt]
      exact List.mem_cons_self
    · rw [if_neg hlt] at haccepted ⊢
      exact haccepted
  have hstoring : m ∈ u₆.storing := by
    apply (kept_run h₆ hf₆).storing
    · rw [hm]
      exact List.mem_cons_self
    · rw [hm]
      exact han
  refine ⟨hredeemed,hloaded,haccepted,hready,hstoring,fun d hd => ?_⟩
  have hsession : get (storeToken u₆ m).sessions token = some (u₅.now+sessionTtl) := by
    have htoken := storeToken_session (s := u₆) m
    rw [hm] at htoken ⊢
    exact htoken
  have hlast := (kept_run h₇ hf₇).session _ hsession (by omega)
  exact validateToken_of_get hlast hd

section Sample
open Term.BearerTokens

def sampleAnswer : Assertion :=
  ⟨keyId,asBytes "public-key",clientData (challengeOf 1),digest++flagUp::be32 7,signature⟩

def sampleGet (pk : RequestOptions) : Option Assertion :=
  if pk = ⟨challengeOf 1,rpId,[keyId]⟩ then some sampleAnswer else none

def sampleStarting : Starting := ⟨[1],challengeOf 1,[keyId]⟩

def otherLogin : Redeemed :=
  ⟨⟨[2],answer (challengeOf 2) 5⟩,⟨challengeOf 2,[keyId],5+pendingLoginTtl⟩,5⟩

def othersFirst : List Act :=
  [.startLoad [2] (challengeOf 2),.startInsert ⟨[2],challengeOf 2,[keyId]⟩ 0,
    .redeem otherLogin.req]

def othersThen : List Act :=
  [.load otherLogin,.authenticate { otherLogin with store := credentials 3 }]

def sampleReq : LoginFinishReq := ⟨[1],assertionToJson sampleAnswer⟩

def after (s : Hub) (as : List Act) : Hub := (run (step BearerTokens.libs config) s as).getD s

def sampleBegun : Hub := startLoad (Hub.start 0 (some (credentials 3))) [1] (challengeOf 1)

def samplePending : Hub := after (startInsert sampleBegun sampleStarting 5) othersFirst

def sampleRedeemed : Redeemed :=
  ⟨sampleReq,⟨challengeOf 1,[keyId],sampleBegun.now+5+pendingLoginTtl⟩,samplePending.now⟩

def sampleHeld : Hub := after (redeem samplePending sampleReq) [.pass 1000]
def sampleLoaded : Loaded := { sampleRedeemed with store := credentials 3 }
def sampleRead : Hub := after (load sampleHeld sampleRedeemed) othersThen
def sampleAccepted : Accepted := { sampleLoaded with auth := ⟨keyId,7,true⟩ }
def samplePassed : Hub := finish BearerTokens.libs config sampleRead sampleLoaded
def samplePersisted : Hub := after (persist samplePassed sampleAccepted true) [.validate [8] 0]

def sampleMinted : Minted :=
  { sampleAccepted with token := [9], mintedAt := samplePersisted.now }

def sampleKnown : Hub := mint samplePersisted sampleAccepted [9]
def sampleDone : Hub := after (storeToken sampleKnown sampleMinted) [.pass 1000]

theorem run_after {s : Hub} {as : List Act}
    (h : (run (step BearerTokens.libs config) s as).isSome = true) :
    run (step BearerTokens.libs config) s as = some (after s as) := by
  have ⟨t,ht⟩ := Option.isSome_iff_exists.mp h
  rw [after, ht]
  rfl

theorem sample_answers (pk : RequestOptions) (cred : Assertion)
    (hpk : prepGetOptions (.build config.rpId sampleStarting.challenge sampleStarting.allowedIds) =
      some pk) (hcred : sampleGet pk = some cred) :
    Answers BearerTokens.libs config.origin keyId publicKey 7 pk cred := by
  rw [prepGetOptions_build] at hpk
  cases hpk
  cases hcred
  have hfind : [challengeOf 1,challengeOf 2].find?
      (fun c => clientData c = clientData (challengeOf 1)) = some (challengeOf 1) := by
    decide +kernel
  have hparse : BearerTokens.libs.fromSlice (clientData (challengeOf 1)) =
      .ok (.object [(asBytes "type",.string typeGet),
        (asBytes "challenge",.string (toB64url (challengeOf 1))),
        (asBytes "origin",.string config.origin)]) := by
    simp only [BearerTokens.libs, hfind]
  exact ⟨rfl,rfl,⟨_,hparse,rfl,rfl,rfl⟩,⟨flagUp,[],by decide,rfl⟩,by decide,by decide,by decide⟩

theorem honest_login_succeeds_overlap :
    sampleRedeemed ∈ sampleHeld.redeemed ∧ sampleAccepted ∈ samplePassed.persisting ∧
      validateToken sampleDone [9] 1000 = true := by
  have h₁ : run (step BearerTokens.libs config) (startInsert sampleBegun sampleStarting 5)
      othersFirst = some samplePending := run_after (by decide +kernel)
  have h₂ : run (step BearerTokens.libs config) (redeem samplePending sampleReq) [.pass 1000] =
      some sampleHeld := run_after (by decide +kernel)
  have h₃ : run (step BearerTokens.libs config) (load sampleHeld sampleRedeemed) othersThen =
      some sampleRead := run_after (by decide +kernel)
  have h₄ : run (step BearerTokens.libs config)
      (finish BearerTokens.libs config sampleRead sampleLoaded) [] = some samplePassed := rfl
  have h₅ : run (step BearerTokens.libs config)
      (if (3 : UInt32) < 7 then persist samplePassed sampleAccepted true else samplePassed)
      [.validate [8] 0] = some samplePersisted := run_after (by decide +kernel)
  have h₆ : run (step BearerTokens.libs config) (mint samplePersisted sampleAccepted [9]) [] =
      some sampleKnown := rfl
  have h₇ : run (step BearerTokens.libs config) (storeToken sampleKnown sampleMinted)
      [.pass 1000] = some sampleDone := run_after (by decide +kernel)
  have hkey : Logins.lookup sampleRedeemed.pending (credentials 3) keyId = some ⟨publicKey,3⟩ := by
    decide +kernel
  have hforeign : ∀ act ∈ othersFirst++[.pass 1000]++othersThen++[]++[.validate [8] 0]++[]++
      [.pass 1000], Foreign sampleStarting.nonce [9] act := by
    simp [othersFirst, othersThen, Foreign, sampleStarting, otherLogin]
  obtain ⟨hredeemed,-,hpersisting,-,-,hvalid⟩ := honest_login_succeeds BearerTokens.libs
    (fun _ => rfl) config sampleGet sample_answers rfl (by decide +kernel) h₁ (by decide +kernel)
    rfl h₂ (by decide +kernel) rfl hkey (.inl (by decide)) h₃ rfl h₄ h₅ rfl h₆ h₇ hforeign
  exact ⟨hredeemed,hpersisting,hvalid 1000 (by decide +kernel)⟩

end Sample

end Term.HonestLogin
