import TermMux.AgentDial
import TermMux.Machine

/-!
# The perimeter token of a reconnecting agent

`current_token` with its cache, `jwt_exp` and `tunnel_auth_header`. Each reconnect has a
clock reading and finds the token file as some rotator left it. Instants are nanoseconds
since the epoch; arithmetic on them panics past the last second of `i64`. JSON parsing is a
parameter.
-/

set_option autoImplicit false

namespace Term.TokenCache
open Term.AgentAuth Term.ByteOrder Term.Machine Term.Outcome Term.Utf8Text

def nanosPerSec : ℕ := 10^9

/-- The first instant that `SystemTime` does not have. -/
def timeEnd : ℤ := 2^63*nanosPerSec

inductive TokenError where
  | readFile
  | headerName
  | headerValue
  deriving DecidableEq, Repr

/-- `SystemTime + Duration`. -/
def addDuration (t : ℤ) (nanos : ℕ) : Outcome TokenError ℤ :=
  if t+nanos < timeEnd then .ok (t+nanos) else .panicked

structure CachedToken where
  raw : String
  expiresAt : ℤ
  deriving DecidableEq, Repr

def tokenRefreshMargin : ℕ := 60*nanosPerSec

/-- `char::is_whitespace`. -/
def isWhitespace (c : Char) : Bool :=
  let n := c.toNat
  (0x09 ≤ n && n ≤ 0x0D) || n == 0x20 || n == 0x85 || n == 0xA0 || n == 0x1680 ||
    (0x2000 ≤ n && n ≤ 0x200A) || n == 0x2028 || n == 0x2029 || n == 0x202F || n == 0x205F ||
    n == 0x3000

def trimText (s : String) : String :=
  String.ofList ((s.toList.dropWhile isWhitespace).reverse.dropWhile isWhitespace).reverse

def jwtPayload (token : String) : Option (List Char) :=
  match token.toList.splitOn '.' with
  | [_,payload,_] => some payload
  | _ => none

/-- The number under `exp` in the payload of a token. `expField` parses JSON and reads the
field as a `u64`. -/
def jwtSecs (expField : Bytes → Option UInt64) (token : String) : Option UInt64 := do
  let payload ← jwtPayload token
  let bytes ← b64Decode (asBytes (String.ofList payload))
  expField bytes

def jwtExp (expField : Bytes → Option UInt64) (token : String) : Outcome TokenError (Option ℤ) :=
  match jwtSecs expField token with
  | none => .ok none
  | some exp => do return some (← addDuration 0 (exp.toNat*nanosPerSec))

def fromCache (cache : Option CachedToken) (now : ℤ) : Outcome TokenError (Option String) :=
  match cache with
  | none => .ok none
  | some c => do
    let limit ← addDuration now tokenRefreshMargin
    return if limit < c.expiresAt then some c.raw else none

/-- The token in the file, which is cached if its expiry is known. A file that cannot be read
as text is `none`. -/
def fromFile (expField : Bytes → Option UInt64) (file : Option String) :
    Outcome TokenError (String × Option CachedToken) := do
  let text ← orElse file .readFile
  let raw := trimText text
  let expiresAt ← jwtExp expField raw
  return (raw,expiresAt.map (CachedToken.mk raw))

def currentToken (expField : Bytes → Option UInt64) (cache : Option CachedToken) (now : ℤ)
    (file : Option String) : Outcome TokenError (String × Option CachedToken) := do
  match ← fromCache cache now with
  | some raw => return (raw,cache)
  | none => fromFile expField file

structure TunnelConfig where
  tunnelTokenFile : Bool
  tunnelAuthHeader : Bytes
  tunnelAuthScheme : String
  deriving DecidableEq, Repr

/-- The perimeter header for one upgrade. `headerName` is what a header name may be. -/
def tunnelAuthHeader (expField : Bytes → Option UInt64) (headerName : Bytes → Bool)
    (cfg : TunnelConfig) (cache : Option CachedToken) (now : ℤ) (file : Option String) :
    Outcome TokenError (Option (Bytes × Bytes) × Option CachedToken) := do
  if cfg.tunnelTokenFile = false then return (none,cache) else
  let (token,cache) ← currentToken expField cache now file
  if token = "" then return (none,cache) else
  let value := if cfg.tunnelAuthScheme = "" then asBytes token
    else asBytes cfg.tunnelAuthScheme++0x20::asBytes token
  rejectIf (¬headerName cfg.tunnelAuthHeader) .headerName
  rejectIf (¬value.all AgentDial.headerByte) .headerValue
  return (some (cfg.tunnelAuthHeader,value),cache)

structure Resolved where
  now : ℤ
  file : Option String
  readings : List String
  cached : Bool
  result : Outcome TokenError String
  deriving DecidableEq, Repr

structure Agent where
  cache : Option CachedToken
  readings : List String
  log : List Resolved
  crashed : Bool
  deriving DecidableEq, Repr

def Agent.new : Agent := ⟨none,[],[],false⟩

structure Reconnect where
  now : ℤ
  file : Option String
  deriving DecidableEq, Repr

def isCached (cache : Option CachedToken) (now : ℤ) : Bool :=
  match fromCache cache now with
  | .ok (some _) => true
  | _ => false

/-- A panic ends the agent. An error leaves the cache alone. -/
def step (expField : Bytes → Option UInt64) (s : Agent) (a : Reconnect) : Option Agent :=
  if s.crashed then none else
  let cached := isCached s.cache a.now
  let resolved := Resolved.mk a.now a.file s.readings cached
  match currentToken expField s.cache a.now a.file with
  | .ok (token,cache) => some
    { s with
      cache := cache
      readings := if cached then s.readings else s.readings++[token]
      log := s.log++[resolved (.ok token)] }
  | .err e => some { s with log := s.log++[resolved (.err e)] }
  | .panicked => some { s with log := s.log++[resolved .panicked], crashed := true }

section Tokens
variable {expField : Bytes → Option UInt64} {cache : Option CachedToken} {now : ℤ}
  {file : Option String}

/-- What a call owes its caller: a result for a readable file, which is the file's content or
a token from an earlier reading that has more than the margin to live. -/
structure Served (expField : Bytes → Option UInt64) (r : Resolved) : Prop where
  returns : r.result ≠ .panicked ∧ ∀ text, r.file = some text → ∃ token, r.result = .ok token
  kept : r.cached = true → ∃ token, r.result = .ok token ∧ token ∈ r.readings ∧
    ∃ exp, jwtSecs expField token = some exp ∧ r.now+tokenRefreshMargin < exp.toNat*nanosPerSec
  read : r.cached = false → ∀ token, r.result = .ok token →
    ∃ text, r.file = some text ∧ token = trimText text

/-- The clock is not at its end while a token is cached, and a token that is read has an
expiry that the clock can show. -/
structure Safe (expField : Bytes → Option UInt64) (s : Agent) (a : Reconnect) : Prop where
  clock : ∀ c, s.cache = some c → a.now+tokenRefreshMargin < timeEnd
  expiry : ∀ text, a.file = some text →
    (∀ c, s.cache = some c → c.expiresAt ≤ a.now+tokenRefreshMargin) →
    ∀ exp, jwtSecs expField (trimText text) = some exp → exp.toNat < 2^63

def CacheOk (expField : Bytes → Option UInt64) (readings : List String)
    (cache : Option CachedToken) : Prop :=
  ∀ c, cache = some c → c.raw ∈ readings ∧
    ∃ exp, jwtSecs expField c.raw = some exp ∧ c.expiresAt = exp.toNat*nanosPerSec

theorem addDuration_epoch (secs : ℕ) : addDuration 0 (secs*nanosPerSec) =
    if secs < 2^63 then .ok (secs*nanosPerSec) else .panicked := by
  have hcast : (0 : ℤ)+((secs*nanosPerSec : ℕ) : ℤ) = secs*nanosPerSec := by
    rw [Int.zero_add, Int.natCast_mul]
  have hlt : (secs : ℤ)*nanosPerSec < timeEnd ↔ secs < 2^63 := by
    unfold timeEnd nanosPerSec
    omega
  unfold addDuration
  rw [hcast, if_congr hlt rfl rfl]

/-- Reading a token panics on an expiry past the last second. -/
theorem jwtExp_cases (token : String) :
    jwtSecs expField token = none ∧ jwtExp expField token = .ok none ∨
    (∃ exp, jwtSecs expField token = some exp ∧ exp.toNat < 2^63 ∧
      jwtExp expField token = .ok (some (exp.toNat*nanosPerSec))) ∨
    ∃ exp, jwtSecs expField token = some exp ∧ ¬exp.toNat < 2^63 ∧
      jwtExp expField token = .panicked := by
  unfold jwtExp
  cases hsecs : jwtSecs expField token with
  | none => exact .inl ⟨rfl,rfl⟩
  | some exp =>
    simp only [addDuration_epoch]
    by_cases hlt : exp.toNat < 2^63
    · rw [if_pos hlt]
      exact .inr (.inl ⟨exp,rfl,hlt,rfl⟩)
    · rw [if_neg hlt]
      exact .inr (.inr ⟨exp,rfl,hlt,rfl⟩)

/-- The cache serves a token that has more than the margin to live. -/
theorem fromCache_cases (cache : Option CachedToken) (now : ℤ) :
    fromCache cache now = .ok none ∧ (∀ c, cache = some c → c.expiresAt ≤ now+tokenRefreshMargin) ∧
      (∀ c, cache = some c → now+tokenRefreshMargin < timeEnd) ∨
    (∃ c, cache = some c ∧ now+tokenRefreshMargin < timeEnd ∧ now+tokenRefreshMargin < c.expiresAt ∧
      fromCache cache now = .ok (some c.raw)) ∨
    ∃ c, cache = some c ∧ ¬now+tokenRefreshMargin < timeEnd ∧ fromCache cache now = .panicked := by
  cases cache with
  | none => exact .inl ⟨rfl,nofun,nofun⟩
  | some c =>
    unfold fromCache addDuration
    by_cases hend : now+tokenRefreshMargin < timeEnd
    · simp only [if_pos hend, ok_bind, pure_eq]
      by_cases hfresh : now+tokenRefreshMargin < c.expiresAt
      · rw [if_pos hfresh]
        exact .inr (.inl ⟨c,rfl,hend,hfresh,rfl⟩)
      · rw [if_neg hfresh]
        refine .inl ⟨rfl,?_,?_⟩
        · rintro d ⟨⟩
          exact not_lt.mp hfresh
        · rintro d ⟨⟩
          exact hend
    · refine .inr (.inr ⟨c,rfl,hend,?_⟩)
      simp only [if_neg hend]
      rfl

/-- The perimeter gets the token of this call as the last word of its header. -/
theorem tunnelAuthHeader_token {headerName : Bytes → Bool} {cfg : TunnelConfig}
    {cache' : Option CachedToken} {name value : Bytes}
    (h : tunnelAuthHeader expField headerName cfg cache now file = .ok (some (name,value),cache')) :
    ∃ token, currentToken expField cache now file = .ok (token,cache') ∧ token ≠ "" ∧
      asBytes token <:+ value := by
  unfold tunnelAuthHeader at h
  split at h
  · cases h
  obtain ⟨⟨token,cache''⟩,hcur,h⟩ := bind_eq_ok.mp h
  dsimp only at h
  split at h
  · cases h
  · next hne =>
    simp only [bind_eq_ok, pure_eq_ok, Prod.mk.injEq, Option.some.injEq] at h
    obtain ⟨-,-,-,-,⟨-,hvalue⟩,rfl⟩ := h
    refine ⟨token,hcur,hne,?_⟩
    rw [← hvalue]
    split_ifs
    · exact List.suffix_refl _
    · exact (List.suffix_cons _ _).trans (List.suffix_append _ _)

end Tokens

section Runs
variable {expField : Bytes → Option UInt64} {s t : Agent} {a : Reconnect}

structure NotKept (s : Agent) (a : Reconnect) : Prop where
  expiring : ∀ c, s.cache = some c → c.expiresAt ≤ a.now+tokenRefreshMargin
  clock : ∀ c, s.cache = some c → a.now+tokenRefreshMargin < timeEnd

inductive Effect (expField : Bytes → Option UInt64) (s : Agent) (a : Reconnect) : Agent → Prop
  | kept {c : CachedToken} (hcache : s.cache = some c)
      (hclock : a.now+tokenRefreshMargin < timeEnd)
      (hfresh : a.now+tokenRefreshMargin < c.expiresAt) :
      Effect expField s a { s with log := s.log++[⟨a.now,a.file,s.readings,true,.ok c.raw⟩] }
  | unreadable (hnot : NotKept s a) (hfile : a.file = none) :
      Effect expField s a { s with log := s.log++[⟨a.now,a.file,s.readings,false,.err .readFile⟩] }
  | read {text : String} {cache : Option CachedToken} (hnot : NotKept s a)
      (hfile : a.file = some text)
      (hsecs : jwtSecs expField (trimText text) = none ∧ cache = none ∨
        ∃ exp, jwtSecs expField (trimText text) = some exp ∧ exp.toNat < 2^63 ∧
          cache = some ⟨trimText text,exp.toNat*nanosPerSec⟩) :
      Effect expField s a { s with
        cache := cache
        readings := s.readings++[trimText text]
        log := s.log++[⟨a.now,a.file,s.readings,false,.ok (trimText text)⟩] }
  | crash {cached : Bool} (hdanger : ¬Safe expField s a) :
      Effect expField s a { s with
        log := s.log++[⟨a.now,a.file,s.readings,cached,.panicked⟩]
        crashed := true }

theorem effect_of_step (h : step expField s a = some t) : Effect expField s a t := by
  unfold step at h
  split at h
  · cases h
  rcases fromCache_cases s.cache a.now with ⟨hnone,hexp,hclock⟩ | ⟨c,hc,hclock,hfresh,hkept⟩ |
    ⟨c,hc,hend,hpanic⟩
  · have hcur : currentToken expField s.cache a.now a.file = fromFile expField a.file := by
      rw [currentToken, hnone, ok_bind]
    have hcached : isCached s.cache a.now = false := by rw [isCached, hnone]
    rw [hcur, hcached] at h
    cases hfile : a.file with
    | none =>
      rw [hfile] at h
      cases h
      rw [← hfile]
      exact .unreadable ⟨hexp,hclock⟩ hfile
    | some text =>
      rw [hfile, fromFile, orElse_some, ok_bind] at h
      rcases @jwtExp_cases expField (trimText text) with ⟨hsecs,hjwt⟩ |
        ⟨exp,hsecs,hlt,hjwt⟩ | ⟨exp,hsecs,hlt,hjwt⟩
      · simp only [hjwt, ok_bind] at h
        cases h
        rw [← hfile]
        exact .read ⟨hexp,hclock⟩ hfile (.inl ⟨hsecs,rfl⟩)
      · simp only [hjwt, ok_bind] at h
        cases h
        rw [← hfile]
        exact .read ⟨hexp,hclock⟩ hfile (.inr ⟨exp,hsecs,hlt,rfl⟩)
      · simp only [hjwt] at h
        cases h
        rw [← hfile]
        exact .crash fun hsafe => hlt (hsafe.expiry text hfile hexp exp hsecs)
  · have hcur : currentToken expField s.cache a.now a.file = .ok (c.raw,s.cache) := by
      rw [currentToken, hkept, ok_bind]
      rfl
    have hcached : isCached s.cache a.now = true := by rw [isCached, hkept]
    rw [hcur, hcached] at h
    cases h
    exact .kept hc hclock hfresh
  · have hcur : currentToken expField s.cache a.now a.file = .panicked := by
      rw [currentToken, hpanic]
      rfl
    rw [hcur] at h
    cases h
    exact .crash fun hsafe => hend (hsafe.clock c hc)

theorem cacheOk_step (hok : CacheOk expField s.readings s.cache) (h : step expField s a = some t) :
    CacheOk expField t.readings t.cache := by
  cases effect_of_step h with
  | kept hcache hclock hfresh => exact hok
  | unreadable hnot hfile => exact hok
  | crash hdanger => exact hok
  | read hnot hfile hsecs =>
    intro c hc
    rcases hsecs with ⟨-,hnone⟩ | ⟨exp,hsecs,-,hsome⟩
    · rw [hnone] at hc
      cases hc
    · rw [hsome] at hc
      cases hc
      exact ⟨by simp,exp,hsecs,rfl⟩

/-- A safe reconnect is served as it should be. -/
theorem served_step (hok : CacheOk expField s.readings s.cache)
    (hlog : ∀ r ∈ s.log, Served expField r) (hsafe : Safe expField s a)
    (h : step expField s a = some t) : ∀ r ∈ t.log, Served expField r := by
  cases effect_of_step h with
  | kept hcache hclock hfresh =>
    obtain ⟨hread,exp,hsecs,hexp⟩ := hok _ hcache
    refine forall_mem_concat hlog ⟨⟨nofun,fun _ _ => ⟨_,rfl⟩⟩,fun _ => ?_,nofun⟩
    exact ⟨_,rfl,hread,exp,hsecs,by rwa [hexp] at hfresh⟩
  | unreadable hnot hfile =>
    refine forall_mem_concat hlog ⟨⟨nofun,fun text htext => ?_⟩,nofun,nofun⟩
    cases hfile.symm.trans htext
  | read hnot hfile hsecs =>
    refine forall_mem_concat hlog ⟨⟨nofun,fun _ _ => ⟨_,rfl⟩⟩,nofun,fun _ token htoken => ?_⟩
    cases htoken
    exact ⟨_,hfile,rfl⟩
  | crash hdanger => exact absurd hsafe hdanger

/-- A reconnect that was served was safe. -/
theorem safe_of_served (h : step expField s a = some t) (hlog : ∀ r ∈ t.log, Served expField r) :
    Safe expField s a := by
  cases effect_of_step h with
  | @kept c hcache hclock hfresh =>
    refine ⟨fun d hd => hclock,fun text htext hexp => ?_⟩
    exact absurd (hexp c hcache) (not_le.mpr hfresh)
  | unreadable hnot hfile =>
    refine ⟨hnot.clock,fun text htext => ?_⟩
    cases hfile.symm.trans htext
  | read hnot hfile hsecs =>
    refine ⟨hnot.clock,fun text htext _ exp hexp => ?_⟩
    cases hfile.symm.trans htext
    rcases hsecs with ⟨hnone,-⟩ | ⟨exp',hsome,hlt,-⟩
    · cases hnone.symm.trans hexp
    · cases hsome.symm.trans hexp
      exact hlt
  | crash hdanger => exact absurd rfl (hlog _ List.mem_concat_self).returns.1

theorem log_step (h : step expField s a = some t) : s.log <+: t.log := by
  cases effect_of_step h with
  | kept => exact List.prefix_append _ _
  | unreadable => exact List.prefix_append _ _
  | read => exact List.prefix_append _ _
  | crash => exact List.prefix_append _ _

theorem log_run {as : List Reconnect} (h : run (step expField) s as = some t) :
    s.log <+: t.log :=
  run_invariant (step expField) (I := fun u => s.log <+: u.log)
    (fun _ _ _ hu hstep => hu.trans (log_step hstep)) (List.prefix_refl _) h

/-- In a run of reconnects every call returns the token it should, without a panic, exactly if
every reconnect was safe. -/
theorem tokens_fresh_iff (expField : Bytes → Option UInt64) {as : List Reconnect} {s : Agent}
    (hrun : run (step expField) Agent.new as = some s) :
    (∀ r ∈ s.log, Served expField r) ↔
      Along (step expField) (Safe expField) Agent.new as := by
  constructor
  · intro hlog
    refine along_of_prefixes (step expField) (P := fun u => ∀ r ∈ u.log, Served expField r)
      (fun _ _ _ hstep ht => safe_of_served hstep ht) hrun ?_
    rintro bs u ⟨cs,rfl⟩ hu r hr
    obtain ⟨u',hu',hrest⟩ := (run_append _).mp hrun
    cases hu'.symm.trans hu
    exact hlog r ((log_run hrest).subset hr)
  · intro hsafe
    refine (run_along (step expField)
      (I := fun u => CacheOk expField u.readings u.cache ∧ ∀ r ∈ u.log, Served expField r)
      ?_ (by simp [CacheOk, Agent.new]) hsafe hrun).2
    rintro u a v ⟨hok,hlog⟩ ha hstep
    exact ⟨cacheOk_step hok hstep,served_step hok hlog ha hstep⟩

def sampleField (b : Bytes) : Option UInt64 :=
  if b = asBytes "\x7b\"exp\":18446744073709551615\x7d" then some 18446744073709551615
  else if b = asBytes "\x7b\"exp\":1000\x7d" then some 1000
  else none

def endlessToken : String := "h.eyJleHAiOjE4NDQ2NzQ0MDczNzA5NTUxNjE1fQ.s"

def shortToken : String := "h.eyJleHAiOjEwMDB9.s"

example : jwtSecs sampleField endlessToken = some 18446744073709551615 := by decide +kernel
example : jwtSecs sampleField shortToken = some 1000 := by decide +kernel

/-- The second call is served from the cache, the third after the token has run out. -/
theorem tokens_fresh_rotation :
    ∃ s, run (step sampleField) Agent.new [⟨0,some shortToken⟩,⟨50*10^9,some "other"⟩,
        ⟨2000*10^9,some " next\n"⟩] = some s ∧
      s.log.map Resolved.result = [.ok shortToken,.ok shortToken,.ok "next"] ∧
      ((∀ r ∈ s.log, Served sampleField r) ↔
        Along (step sampleField) (Safe sampleField) Agent.new [⟨0,some shortToken⟩,
          ⟨50*10^9,some "other"⟩,⟨2000*10^9,some " next\n"⟩]) :=
  ⟨_,rfl,by decide +kernel,tokens_fresh_iff sampleField rfl⟩

theorem endless_token_panics :
    ∃ s, run (step sampleField) Agent.new [⟨0,some endlessToken⟩] = some s ∧
      ¬∀ r ∈ s.log, Served sampleField r := by
  refine ⟨_,rfl,fun h => ?_⟩
  exact (h _ List.mem_cons_self).returns.1 (by decide +kernel)

end Runs

end Term.TokenCache
