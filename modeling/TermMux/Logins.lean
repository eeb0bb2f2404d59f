import TermMux.CredStore
import TermMux.ExpiringMap
import TermMux.Machine
import TermMux.Webauthn

/-!
# Logins and bearer tokens

The handlers `login_start`, `login_finish` and `logout` with `store_token`,
`validate_token` and `drop_token`, as one machine. A handler gives way at every
lock and at every access to the credential file, so the steps of concurrent
logins interleave freely; the clock may also move between the two times that
one critical section reads it. What the file holds is what a load of it would
return, and it may change at any time.

The state also keeps what has happened: the nonces issued, the assertions
accepted, the tokens minted and those dropped.
-/

set_option autoImplicit false

namespace Term.Logins
open Term.ByteOrder Term.Outcome Term.ExpiringMap Term.CredStore Term.Webauthn

def nanosPerSec : ℕ := 1000000000
def sessionTtl : ℕ := 12*60*60*nanosPerSec
def pendingLoginTtl : ℕ := 5*60*nanosPerSec
def maxPendingLogins : ℕ := 1024

structure Config where
  rpId : Bytes
  origin : Bytes

structure PendingLogin where
  challenge : Bytes
  allowedIds : List Bytes
  expiresAt : ℕ
  deriving DecidableEq, Repr

structure LoginFinishReq where
  nonce : Bytes
  response : AuthenticationResponse
  deriving DecidableEq, Repr

inductive LoginError where
  | loadCredentials
  | noCredentials
  | decodeCredentialId (e : StoreError)
  | tooManyLogins
  | unknownNonce
  | authFailed (e : WebauthnError)
  deriving DecidableEq, Repr

section Handlers

def offered (disk : Option CredentialStore) : Outcome LoginError (List Bytes) := do
  let store ← orElse disk .loadCredentials
  rejectIf (store.credentials = []) .noCredentials
  mapErr .decodeCredentialId (store.credentials.mapM (·.credentialId))

def addPending (pending : List (Bytes × PendingLogin)) (nonce challenge : Bytes)
    (allowedIds : List Bytes) (now : ℕ) : Outcome LoginError (List (Bytes × PendingLogin)) := do
  rejectIf (maxPendingLogins ≤ pending.length) .tooManyLogins
  return insert pending nonce ⟨challenge,allowedIds,now+pendingLoginTtl⟩

/-- The closure that `login_finish` hands to the check. -/
def lookup (pending : PendingLogin) (store : CredentialStore) (id : Bytes) :
    Option StoredCredentialView :=
  if pending.allowedIds.any (· = id) then
    (store.findById id).bind fun c =>
      match c.credentialPublicKey with
      | .ok pk => some ⟨pk,c.signCount⟩
      | _ => none
  else none

def authenticate (libs : Libs) (cfg : Config) (pending : PendingLogin) (store : CredentialStore)
    (response : AuthenticationResponse) : Outcome LoginError AuthenticatedCredential :=
  mapErr .authFailed
    (finishAuthenticate libs response pending.challenge cfg.rpId cfg.origin (lookup pending store))

end Handlers

/-- A `login_start` awaiting the lock on the pending logins. -/
structure Starting where
  nonce : Bytes
  challenge : Bytes
  allowedIds : List Bytes
  deriving DecidableEq, Repr

structure Redeemed where
  req : LoginFinishReq
  pending : PendingLogin
  redeemedAt : ℕ
  deriving DecidableEq, Repr

structure Loaded extends Redeemed where
  store : CredentialStore
  deriving DecidableEq, Repr

structure Accepted extends Loaded where
  auth : AuthenticatedCredential
  deriving DecidableEq, Repr

structure Minted extends Accepted where
  token : Bytes
  mintedAt : ℕ
  deriving DecidableEq, Repr

structure Issued where
  nonce : Bytes
  pending : PendingLogin
  issuedAt : ℕ
  deriving DecidableEq, Repr

structure Acceptance where
  credentialId : Bytes
  signCount : UInt32
  stored : Option UInt32
  deriving DecidableEq, Repr

structure Hub where
  /-- Nanoseconds since the Unix epoch. -/
  now : ℕ
  /-- What a load of the credential file returns, `none` for an error. -/
  disk : Option CredentialStore
  pendingLogins : List (Bytes × PendingLogin)
  /-- Tokens with the time at which they expire. -/
  sessions : List (Bytes × ℕ)
  starting : List Starting
  redeemed : List Redeemed
  loaded : List Loaded
  /-- Accepted with a counter to persist. -/
  persisting : List Accepted
  ready : List Accepted
  /-- Awaiting the lock on the sessions. -/
  storing : List Minted
  /-- Tokens that handlers hold after a successful validation. -/
  bearers : List Bytes
  /-- Every string that `mint_token` has drawn. -/
  drawn : List Bytes
  issued : List Issued
  /-- The accepted assertions, the latest last. -/
  accepted : List Acceptance
  minted : List Minted
  dropped : List Bytes
  deriving DecidableEq, Repr

def Hub.start (now : ℕ) (disk : Option CredentialStore) : Hub :=
  ⟨now,disk,[],[],[],[],[],[],[],[],[],[],[],[],[],[]⟩

inductive Act where
  | pass (nanos : ℕ)
  | changeStore (disk : Option CredentialStore)
  | startLoad (nonce challenge : Bytes)
  | startInsert (t : Starting) (nanos : ℕ)
  | redeem (req : LoginFinishReq)
  | load (t : Redeemed)
  | authenticate (t : Loaded)
  | persist (t : Accepted) (succeeds : Bool)
  | mint (t : Accepted) (token : Bytes)
  | storeToken (t : Minted)
  | validate (token : Bytes) (nanos : ℕ)
  | logout (token : Bytes)
  deriving DecidableEq, Repr

def signCountOf (disk : Option CredentialStore) (id : Bytes) : Option UInt32 :=
  disk.bind fun store => store.signCount (b64Encode id)

def acceptance (s : Hub) (auth : AuthenticatedCredential) : Acceptance :=
  ⟨auth.credentialId,auth.newSignCount,signCountOf s.disk auth.credentialId⟩

def startLoad (s : Hub) (nonce challenge : Bytes) : Hub :=
  match offered s.disk with
  | .ok allowedIds =>
    { s with
      starting := ⟨nonce,challenge,allowedIds⟩::s.starting
      drawn := nonce::s.drawn }
  | _ => s

def startInsert (s : Hub) (t : Starting) (nanos : ℕ) : Hub :=
  let pending := gc PendingLogin.expiresAt s.now s.pendingLogins
  let now := s.now+nanos
  match addPending pending t.nonce t.challenge t.allowedIds now with
  | .ok pending =>
    { s with
      now := now
      starting := s.starting.erase t
      pendingLogins := pending
      issued := ⟨t.nonce,⟨t.challenge,t.allowedIds,now+pendingLoginTtl⟩,now⟩::s.issued }
  | _ => { s with now := now, starting := s.starting.erase t, pendingLogins := pending }

def redeem (s : Hub) (req : LoginFinishReq) : Hub :=
  let pending := gc PendingLogin.expiresAt s.now s.pendingLogins
  match get pending req.nonce with
  | some p =>
    { s with
      pendingLogins := remove pending req.nonce
      redeemed := ⟨req,p,s.now⟩::s.redeemed }
  | none => { s with pendingLogins := pending }

def load (s : Hub) (t : Redeemed) : Hub :=
  match s.disk with
  | some store =>
    { s with redeemed := s.redeemed.erase t, loaded := { t with store := store }::s.loaded }
  | none => { s with redeemed := s.redeemed.erase t }

def finish (libs : Libs) (cfg : Config) (s : Hub) (t : Loaded) : Hub :=
  match authenticate libs cfg t.pending t.store t.req.response with
  | .ok auth =>
    let accepted := s.accepted++[acceptance s auth]
    if auth.signCountAdvanced then
      { s with
        loaded := s.loaded.erase t
        persisting := { t with auth := auth }::s.persisting
        accepted := accepted }
    else
      { s with
        loaded := s.loaded.erase t
        ready := { t with auth := auth }::s.ready
        accepted := accepted }
  | _ => { s with loaded := s.loaded.erase t }

def persist (s : Hub) (t : Accepted) (succeeds : Bool) : Hub :=
  let op := Op.persistCounterUpdate t.auth.credentialId t.auth.newSignCount
  { s with
    persisting := s.persisting.erase t
    ready := t::s.ready
    disk := if succeeds then s.disk.map fun store => (op.save store).getD store else s.disk }

/-- `mint_token` and the time that `store_token` reads at once. -/
def mint (s : Hub) (t : Accepted) (token : Bytes) : Hub :=
  { s with
    ready := s.ready.erase t
    storing := { t with token := token, mintedAt := s.now }::s.storing
    minted := { t with token := token, mintedAt := s.now }::s.minted
    drawn := token::s.drawn }

def storeToken (s : Hub) (t : Minted) : Hub :=
  { s with
    storing := s.storing.erase t
    sessions := insert (gc id s.now s.sessions) t.token (t.mintedAt+sessionTtl) }

/-- What `validate_token` returns when its second reading of the clock is
`nanos` after the first. -/
def validateToken (s : Hub) (token : Bytes) (nanos : ℕ) : Bool :=
  match get (gc id s.now s.sessions) token with
  | some expiresAt => s.now+nanos < expiresAt
  | none => false

def validate (s : Hub) (token : Bytes) (nanos : ℕ) : Hub :=
  { s with
    now := s.now+nanos
    sessions := gc id s.now s.sessions
    bearers := if validateToken s token nanos then token::s.bearers else s.bearers }

def logout (s : Hub) (token : Bytes) : Hub :=
  { s with
    bearers := s.bearers.erase token
    sessions := remove s.sessions token
    dropped := token::s.dropped }

def step (libs : Libs) (cfg : Config) (s : Hub) : Act → Option Hub
  | .pass nanos => some { s with now := s.now+nanos }
  | .changeStore disk => some { s with disk := disk }
  | .startLoad nonce challenge => some (startLoad s nonce challenge)
  | .startInsert t nanos => if t ∈ s.starting then some (startInsert s t nanos) else none
  | .redeem req => some (redeem s req)
  | .load t => if t ∈ s.redeemed then some (load s t) else none
  | .authenticate t => if t ∈ s.loaded then some (finish libs cfg s t) else none
  | .persist t succeeds => if t ∈ s.persisting then some (persist s t succeeds) else none
  | .mint t token => if t ∈ s.ready then some (mint s t token) else none
  | .storeToken t => if t ∈ s.storing then some (storeToken s t) else none
  | .validate token nanos => some (validate s token nanos)
  | .logout token => if token ∈ s.bearers then some (logout s token) else none

inductive Effect (libs : Libs) (cfg : Config) (s : Hub) : Act → Hub → Prop
  | pass (nanos : ℕ) : Effect libs cfg s (.pass nanos) { s with now := s.now+nanos }
  | changeStore (disk : Option CredentialStore) :
      Effect libs cfg s (.changeStore disk) { s with disk := disk }
  | startFailed (nonce challenge : Bytes) : Effect libs cfg s (.startLoad nonce challenge) s
  | started (nonce challenge : Bytes) (allowedIds : List Bytes)
      (hoffered : offered s.disk = .ok allowedIds) :
      Effect libs cfg s (.startLoad nonce challenge)
        { s with
          starting := ⟨nonce,challenge,allowedIds⟩::s.starting
          drawn := nonce::s.drawn }
  | tooMany (u : Starting) (nanos : ℕ) (hu : u ∈ s.starting) :
      Effect libs cfg s (.startInsert u nanos)
        { s with
          now := s.now+nanos
          starting := s.starting.erase u
          pendingLogins := gc PendingLogin.expiresAt s.now s.pendingLogins }
  | inserted (u : Starting) (nanos : ℕ) (hu : u ∈ s.starting)
      (hroom : (gc PendingLogin.expiresAt s.now s.pendingLogins).length < maxPendingLogins) :
      Effect libs cfg s (.startInsert u nanos)
        { s with
          now := s.now+nanos
          starting := s.starting.erase u
          pendingLogins := insert (gc PendingLogin.expiresAt s.now s.pendingLogins) u.nonce
            ⟨u.challenge,u.allowedIds,s.now+nanos+pendingLoginTtl⟩
          issued := ⟨u.nonce,⟨u.challenge,u.allowedIds,s.now+nanos+pendingLoginTtl⟩,
            s.now+nanos⟩::s.issued }
  | unknownNonce (req : LoginFinishReq) :
      Effect libs cfg s (.redeem req)
        { s with pendingLogins := gc PendingLogin.expiresAt s.now s.pendingLogins }
  | redeemed (req : LoginFinishReq) (p : PendingLogin)
      (hget : get (gc PendingLogin.expiresAt s.now s.pendingLogins) req.nonce = some p) :
      Effect libs cfg s (.redeem req)
        { s with
          pendingLogins := remove (gc PendingLogin.expiresAt s.now s.pendingLogins) req.nonce
          redeemed := ⟨req,p,s.now⟩::s.redeemed }
  | loadFailed (u : Redeemed) (hu : u ∈ s.redeemed) :
      Effect libs cfg s (.load u) { s with redeemed := s.redeemed.erase u }
  | loaded (u : Redeemed) (store : CredentialStore) (hu : u ∈ s.redeemed)
      (hdisk : s.disk = some store) :
      Effect libs cfg s (.load u)
        { s with redeemed := s.redeemed.erase u, loaded := { u with store := store }::s.loaded }
  | refused (u : Loaded) (hu : u ∈ s.loaded) :
      Effect libs cfg s (.authenticate u) { s with loaded := s.loaded.erase u }
  | advanced (u : Loaded) (auth : AuthenticatedCredential) (hu : u ∈ s.loaded)
      (hauth : authenticate libs cfg u.pending u.store u.req.response = .ok auth)
      (hadvanced : auth.signCountAdvanced = true) :
      Effect libs cfg s (.authenticate u)
        { s with
          loaded := s.loaded.erase u
          persisting := { u with auth := auth }::s.persisting
          accepted := s.accepted++[acceptance s auth] }
  | passed (u : Loaded) (auth : AuthenticatedCredential) (hu : u ∈ s.loaded)
      (hauth : authenticate libs cfg u.pending u.store u.req.response = .ok auth)
      (hadvanced : auth.signCountAdvanced = false) :
      Effect libs cfg s (.authenticate u)
        { s with
          loaded := s.loaded.erase u
          ready := { u with auth := auth }::s.ready
          accepted := s.accepted++[acceptance s auth] }
  | persist (u : Accepted) (succeeds : Bool) (hu : u ∈ s.persisting) :
      Effect libs cfg s (.persist u succeeds) (persist s u succeeds)
  | mint (u : Accepted) (token : Bytes) (hu : u ∈ s.ready) :
      Effect libs cfg s (.mint u token) (mint s u token)
  | storeToken (u : Minted) (hu : u ∈ s.storing) :
      Effect libs cfg s (.storeToken u) (storeToken s u)
  | validate (token : Bytes) (nanos : ℕ) :
      Effect libs cfg s (.validate token nanos) (validate s token nanos)
  | logout (token : Bytes) (htoken : token ∈ s.bearers) :
      Effect libs cfg s (.logout token) (logout s token)

section Effects
variable {libs : Libs} {cfg : Config} {s t : Hub} {a : Act}

theorem ite_some {c : Prop} [Decidable c] {α : Type} {x y : α}
    (h : (if c then some x else none) = some y) : c ∧ x = y := by
  simpa using h

theorem effect_startInsert {u : Starting} (hu : u ∈ s.starting) (nanos : ℕ) :
    Effect libs cfg s (.startInsert u nanos) (startInsert s u nanos) := by
  simp only [startInsert]
  split
  · rename_i pending hadd
    obtain ⟨v,hroom,hret⟩ := bind_eq_ok.mp hadd
    rw [rejectIf_eq_ok, Nat.not_le] at hroom
    rw [pure_eq_ok] at hret
    subst hret
    exact .inserted u nanos hu hroom
  · exact .tooMany u nanos hu

theorem effect_finish {u : Loaded} (hu : u ∈ s.loaded) :
    Effect libs cfg s (.authenticate u) (finish libs cfg s u) := by
  simp only [finish]
  split
  · rename_i auth hauth
    split
    · exact .advanced u auth hu hauth ‹_›
    · exact .passed u auth hu hauth (Bool.not_eq_true _ ▸ ‹_›)
  · exact .refused u hu

theorem effect_of_step (h : step libs cfg s a = some t) : Effect libs cfg s a t := by
  cases a with
  | pass nanos =>
    cases h
    exact .pass nanos
  | changeStore disk =>
    cases h
    exact .changeStore disk
  | startLoad nonce challenge =>
    cases h
    unfold startLoad
    split
    · exact .started nonce challenge _ ‹_›
    · exact .startFailed nonce challenge
  | startInsert u nanos =>
    obtain ⟨hu,rfl⟩ := ite_some h
    exact effect_startInsert hu nanos
  | redeem req =>
    cases h
    simp only [redeem]
    split
    · exact .redeemed req _ ‹_›
    · exact .unknownNonce req
  | load u =>
    obtain ⟨hu,rfl⟩ := ite_some h
    unfold load
    split
    · exact .loaded u _ hu ‹_›
    · exact .loadFailed u hu
  | authenticate u =>
    obtain ⟨hu,rfl⟩ := ite_some h
    exact effect_finish hu
  | persist u succeeds =>
    obtain ⟨hu,rfl⟩ := ite_some h
    exact .persist u succeeds hu
  | mint u token =>
    obtain ⟨hu,rfl⟩ := ite_some h
    exact .mint u token hu
  | storeToken u =>
    obtain ⟨hu,rfl⟩ := ite_some h
    exact .storeToken u hu
  | validate token nanos =>
    cases h
    exact .validate token nanos
  | logout token =>
    obtain ⟨htoken,rfl⟩ := ite_some h
    exact .logout token htoken

end Effects

end Term.Logins
