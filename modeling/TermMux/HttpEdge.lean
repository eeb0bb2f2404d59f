import TermMux.AsciiText
import TermMux.BearerTokens

/-!
# The two browser-facing listeners

What stands between a request and its handler: the `Origin` middleware, the
routers of the authenticated and of the no-auth listener, the `Bearer`
extractor and the checks of `term_ws`. A request is decided up to one check of
a token; `validate_token` comes last, so a step of a listener is at most one
validation by the login machine. The parameters of a path stay as they are
spelled.
-/

set_option autoImplicit false

namespace Term.HttpEdge
open Term.ByteOrder Term.Utf8Text Term.AsciiText Term.Machine Term.Logins Term.BearerTokens

inductive Method where
  | get | head | post | delete
  | other (name : Bytes)
  deriving DecidableEq, Repr

structure Request where
  method : Method
  path : Bytes
  /-- Names are in lower case. -/
  headers : List (Bytes × Bytes)
  /-- The request asks for a WebSocket in the way that the server takes. -/
  upgrade : Bool
  deriving DecidableEq, Repr

inductive Listener where
  | authed | noAuth
  deriving DecidableEq, Repr

inductive Handler where
  | registerStart | loginStart | loginFinish | machines | listSessions | killSession | me | mode
  | logout | metrics | termWs | agentConnect | asset
  deriving DecidableEq, Repr

inductive Refusal where
  | badOrigin | methodNotAllowed | notUpgrade | missingBearer | missingSubprotocol | invalidBearer
  deriving DecidableEq, Repr

def Refusal.status : Refusal → ℕ
  | .badOrigin => 403
  | .methodNotAllowed => 405
  | .notUpgrade => 426
  | .missingBearer | .missingSubprotocol | .invalidBearer => 401

section Routing

structure Route where
  /-- The segments, `none` for a parameter. -/
  path : List (Option Bytes)
  method : Method
  handler : Handler
  deriving DecidableEq, Repr

def lit (s : String) : Option Bytes := some (asBytes s)

def authedRoutes : List Route :=
  [⟨[lit "webauthn",lit "register",lit "start"],.post,.registerStart⟩,
    ⟨[lit "webauthn",lit "login",lit "start"],.post,.loginStart⟩,
    ⟨[lit "webauthn",lit "login",lit "finish"],.post,.loginFinish⟩,
    ⟨[lit "api",lit "machines"],.get,.machines⟩,
    ⟨[lit "api",lit "machines",none,lit "sessions"],.get,.listSessions⟩,
    ⟨[lit "api",lit "machines",none,lit "sessions",none],.delete,.killSession⟩,
    ⟨[lit "api",lit "me"],.get,.me⟩,
    ⟨[lit "api",lit "mode"],.get,.mode⟩,
    ⟨[lit "api",lit "logout"],.post,.logout⟩,
    ⟨[lit "metrics"],.get,.metrics⟩,
    ⟨[lit "ws",lit "term",none],.get,.termWs⟩,
    ⟨[lit "agent",lit "connect"],.get,.agentConnect⟩]

def noAuthRoutes : List Route :=
  [⟨[lit "api",lit "machines"],.get,.machines⟩,
    ⟨[lit "api",lit "machines",none,lit "sessions"],.get,.listSessions⟩,
    ⟨[lit "api",lit "machines",none,lit "sessions",none],.delete,.killSession⟩,
    ⟨[lit "api",lit "me"],.get,.me⟩,
    ⟨[lit "api",lit "mode"],.get,.mode⟩,
    ⟨[lit "ws",lit "term",none],.get,.termWs⟩,
    ⟨[lit "agent",lit "connect"],.get,.agentConnect⟩]

def routes : Listener → List Route
  | .authed => authedRoutes
  | .noAuth => noAuthRoutes

def matchPath : List (Option Bytes) → List Bytes → Option (List Bytes)
  | [], [] => some []
  | some name::ps, seg::segs => if seg = name then matchPath ps segs else none
  | none::ps, seg::segs => if seg = [] then none else (matchPath ps segs).map (seg::·)
  | _, _ => none

def segments (path : Bytes) : List Bytes := (path.drop 1).splitOn 0x2F

/-- A route for `GET` also answers `HEAD`. -/
def Route.allows (r : Route) (m : Method) : Bool := r.method = m ∨ (r.method = .get ∧ m = .head)

inductive Routed where
  | found (h : Handler) (params : List Bytes)
  | methodNotAllowed
  deriving DecidableEq, Repr

def route (l : Listener) (m : Method) (path : Bytes) : Routed :=
  match (routes l).find? fun r => (matchPath r.path (segments path)).isSome with
  | some r =>
    if r.allows m then .found r.handler ((matchPath r.path (segments path)).getD [])
    else .methodNotAllowed
  | none => .found .asset []

end Routing

section Checks

def Request.header (req : Request) (name : String) : Option Bytes :=
  req.headers.lookup (asBytes name)

def toStr (v : Bytes) : Option Bytes := if v.all headerText then some v else none

/-- `edge::middleware`: an origin that is given must be the expected one. -/
def originAllowed (origin : Bytes) (req : Request) : Bool :=
  match req.header "origin" with
  | some v => toStr v = some origin
  | none => true

/-- `check_origin`: the expected origin must be given. -/
def checkOrigin (origin : Bytes) (req : Request) : Bool :=
  (req.header "origin").bind toStr = some origin

def stripPrefix (p t : Bytes) : Option Bytes :=
  if p.isPrefixOf t then some (t.drop p.length) else none

def bearerToken (req : Request) : Option Bytes :=
  ((req.header "authorization").bind toStr).bind (stripPrefix (asBytes "Bearer "))

def tokenFromWsProtocol (req : Request) : Option (Bytes × Bytes) := do
  let values := req.headers.filterMap fun h =>
    if h.1 = asBytes "sec-websocket-protocol" then toStr h.2 else none
  let raw ← ((values.flatMap fun s => s.splitOn 0x2C).map trim).find? fun s =>
    (asBytes "bearer.").isPrefixOf s
  let token ← stripPrefix (asBytes "bearer.") raw
  return (token,raw)

inductive Decision where
  | refuse (r : Refusal)
  | run (h : Handler) (params : List Bytes)
  | check (token : Bytes) (h : Handler) (params : List Bytes)
  deriving DecidableEq, Repr

def bearer (l : Listener) (req : Request) (h : Handler) (params : List Bytes) : Decision :=
  match l with
  | .noAuth => .run h params
  | .authed =>
    match bearerToken req with
    | some token => .check token h params
    | none => .refuse .missingBearer

def termWs (l : Listener) (origin : Bytes) (req : Request) (params : List Bytes) : Decision :=
  if ¬req.upgrade then .refuse .notUpgrade
  else if ¬checkOrigin origin req then .refuse .badOrigin
  else
    match l with
    | .noAuth => .run .termWs params
    | .authed =>
      match tokenFromWsProtocol req with
      | some (token,_) => .check token .termWs params
      | none => .refuse .missingSubprotocol

def extract (l : Listener) (origin : Bytes) (req : Request) (h : Handler) (params : List Bytes) :
    Decision :=
  match h with
  | .registerStart | .loginStart | .loginFinish | .mode | .asset => .run h params
  | .machines | .listSessions | .killSession | .me | .logout | .metrics => bearer l req h params
  | .termWs => termWs l origin req params
  | .agentConnect => if req.upgrade then .run h params else .refuse .notUpgrade

def decision (l : Listener) (origin : Bytes) (req : Request) : Decision :=
  if ¬originAllowed origin req then .refuse .badOrigin
  else
    match route l req.method req.path with
    | .found h params => extract l origin req h params
    | .methodNotAllowed => .refuse .methodNotAllowed

end Checks

structure Origins where
  authed : Bytes
  noAuth : Bytes

def Origins.of (o : Origins) : Listener → Bytes
  | .authed => o.authed
  | .noAuth => o.noAuth

inductive Act where
  | login (a : Logins.Act)
  | request (l : Listener) (req : Request) (nanos : ℕ)
  deriving DecidableEq, Repr

def serve (o : Origins) (s : Hub) (l : Listener) (req : Request) (nanos : ℕ) :
    Except Refusal (Handler × List Bytes) × Hub :=
  match decision l (o.of l) req with
  | .refuse r => (.error r,s)
  | .run h params => (.ok (h,params),s)
  | .check token h params =>
    (if validateToken s token nanos then .ok (h,params) else .error .invalidBearer,
      validate s token nanos)

def step (libs : Webauthn.Libs) (cfg : Config) (o : Origins) (s : Hub) : Act → Option Hub
  | .login a => Logins.step libs cfg s a
  | .request l req nanos => some (serve o s l req nanos).2

def Fresh (s : Hub) : Act → Prop
  | .login a => BearerTokens.Fresh s a
  | .request _ _ _ => True

instance (s : Hub) (a : Act) : Decidable (Fresh s a) :=
  match a with
  | .login a => inferInstanceAs (Decidable (BearerTokens.Fresh s a))
  | .request _ _ _ => isTrue trivial

def Protected (h : Handler) : Prop :=
  h ∈ [.machines,.listSessions,.killSession,.me,.logout,.metrics,.termWs]

instance : DecidablePred Protected := fun h => inferInstanceAs (Decidable (h ∈ _))

section Routers
variable {l : Listener} {m : Method} {path : Bytes} {h : Handler} {params : List Bytes}

def overlap : List (Option Bytes) → List (Option Bytes) → Bool
  | [], [] => true
  | some a::ps, some b::qs => a = b ∧ overlap ps qs
  | _::ps, _::qs => overlap ps qs
  | _, _ => false

theorem overlap_of_match {ps qs : List (Option Bytes)} {segs : List Bytes}
    (hp : (matchPath ps segs).isSome) (hq : (matchPath qs segs).isSome) : overlap ps qs := by
  induction segs generalizing ps qs with
  | nil =>
    cases ps with
    | nil =>
      cases qs with
      | nil => rfl
      | cons q qs => cases q <;> cases hq
    | cons p ps => cases p <;> cases hp
  | cons seg segs ih =>
    cases ps with
    | nil => cases hp
    | cons p ps =>
      cases qs with
      | nil => cases hq
      | cons q qs =>
        have hptail : (matchPath ps segs).isSome := by
          cases p <;> simp only [matchPath] at hp <;> split_ifs at hp <;> simp_all
        have hqtail : (matchPath qs segs).isSome := by
          cases q <;> simp only [matchPath] at hq <;> split_ifs at hq <;> simp_all
        have htail := ih hptail hqtail
        cases p with
        | none => exact htail
        | some a =>
          cases q with
          | none => exact htail
          | some b =>
            simp only [matchPath] at hp hq
            split_ifs at hp hq with ha hb
            · simp [overlap, ← ha, ← hb, htail]
            all_goals simp at hp hq

theorem noAuth_subset : ∀ r ∈ noAuthRoutes, r ∈ authedRoutes := by decide

theorem routes_subset (l : Listener) : ∀ r ∈ routes l, r ∈ authedRoutes :=
  match l with
  | .authed => fun _ hr => hr
  | .noAuth => noAuth_subset

theorem routes_apart : ∀ r ∈ authedRoutes, ∀ r' ∈ authedRoutes,
    overlap r.path r'.path → r = r' := by
  decide +kernel

/-- One route at most matches a path, so the order of the routes says nothing. -/
theorem find_eq_some {segs : List Bytes} {r : Route} :
    (routes l).find? (fun r => (matchPath r.path segs).isSome) = some r ↔
      r ∈ routes l ∧ (matchPath r.path segs).isSome := by
  constructor
  · intro hr
    exact ⟨List.mem_of_find?_eq_some hr,by simpa using List.find?_some hr⟩
  · rintro ⟨hmem,hmatch⟩
    cases hfind : (routes l).find? (fun r => (matchPath r.path segs).isSome) with
    | none =>
      rw [List.find?_eq_none] at hfind
      exact absurd hmatch (hfind r hmem)
    | some r' =>
      have hmatch' : (matchPath r'.path segs).isSome := by simpa using List.find?_some hfind
      have hmem' := List.mem_of_find?_eq_some hfind
      rw [routes_apart r' (routes_subset l r' hmem') r (routes_subset l r hmem)
        (overlap_of_match hmatch' hmatch)]

theorem route_found (hne : h ≠ .asset) : route l m path = .found h params ↔
    ∃ r ∈ routes l, matchPath r.path (segments path) = some params ∧ r.allows m = true ∧
      r.handler = h := by
  rw [route]
  constructor
  · intro hroute
    split at hroute
    · rename_i r hfind
      have ⟨hmem,hmatch⟩ := find_eq_some.mp hfind
      have ⟨ps,hps⟩ := Option.isSome_iff_exists.mp hmatch
      split_ifs at hroute with hallows
      cases hroute
      exact ⟨r,hmem,by rw [hps]; rfl,hallows,rfl⟩
    · cases hroute
      exact absurd rfl hne
  · rintro ⟨r,hmem,hmatch,hallows,rfl⟩
    have hfind : (routes l).find? (fun r => (matchPath r.path (segments path)).isSome) = some r :=
      find_eq_some.mpr ⟨hmem,by rw [hmatch]; rfl⟩
    rw [hfind]
    simp only [hallows, if_true, hmatch, Option.getD_some]

def withheld : List Handler := [.registerStart,.loginStart,.loginFinish,.logout,.metrics]

theorem noAuth_iff : ∀ r ∈ authedRoutes, r ∈ noAuthRoutes ↔ r.handler ∉ withheld := by decide

theorem route_noAuth (hne : h ≠ .asset) : route .noAuth m path = .found h params ↔
    h ∉ withheld ∧ route .authed m path = .found h params := by
  rw [route_found hne, route_found hne]
  constructor
  · rintro ⟨r,hmem,hmatch,hallows,rfl⟩
    have hmem' := noAuth_subset r hmem
    exact ⟨(noAuth_iff r hmem').mp hmem,r,hmem',hmatch,hallows,rfl⟩
  · rintro ⟨hshared,r,hmem,hmatch,hallows,rfl⟩
    exact ⟨r,(noAuth_iff r hmem).mpr hshared,hmatch,hallows,rfl⟩

end Routers

section Perimeter
variable {libs : Webauthn.Libs} {cfg : Config} {o : Origins} {s t : Hub} {l : Listener}
  {req : Request} {nanos : ℕ} {h : Handler} {params : List Bytes} {origin token : Bytes}

def Presents (req : Request) (token : Bytes) : Prop :=
  bearerToken req = some token ∨ ∃ raw, tokenFromWsProtocol req = some (token,raw)

theorem toStr_eq_some {v w : Bytes} (h : toStr v = some w) : v = w := by
  unfold toStr at h
  split_ifs at h
  exact Option.some.inj h

theorem originAllowed_eq_true (h : originAllowed origin req = true) :
    ∀ v, req.header "origin" = some v → v = origin := by
  intro v hv
  rw [originAllowed, hv] at h
  exact toStr_eq_some (by simpa using h)

theorem checkOrigin_eq_true (h : checkOrigin origin req = true) :
    req.header "origin" = some origin := by
  have h : (req.header "origin").bind toStr = some origin := by simpa [checkOrigin] using h
  have ⟨v,hv,hstr⟩ := Option.bind_eq_some_iff.mp h
  rw [hv, toStr_eq_some hstr]

def Passes (l : Listener) (req : Request) (h : Handler) (params : List Bytes) (d : Decision) :
    Prop :=
  (d = .run h params ∧ (l = .authed → ¬Protected h)) ∨
    ∃ token, d = .check token h params ∧ l = .authed ∧ Presents req token

theorem bearer_cases (l : Listener) (req : Request) (h : Handler) (params : List Bytes) :
    (∃ r, bearer l req h params = .refuse r) ∨ Passes l req h params (bearer l req h params) := by
  cases l with
  | noAuth => exact .inr (.inl ⟨rfl,nofun⟩)
  | authed =>
    rw [bearer]
    cases htoken : bearerToken req with
    | none => exact .inl ⟨_,rfl⟩
    | some token => exact .inr (.inr ⟨token,rfl,rfl,.inl htoken⟩)

theorem termWs_cases (l : Listener) (origin : Bytes) (req : Request) (params : List Bytes) :
    (∃ r, termWs l origin req params = .refuse r) ∨
      checkOrigin origin req = true ∧ Passes l req .termWs params (termWs l origin req params) := by
  unfold termWs
  by_cases hupgrade : req.upgrade = true
  · rw [if_neg (not_not.mpr hupgrade)]
    by_cases horigin : checkOrigin origin req = true
    · rw [if_neg (not_not.mpr horigin)]
      cases l with
      | noAuth => exact .inr ⟨horigin,.inl ⟨rfl,nofun⟩⟩
      | authed =>
        cases htoken : tokenFromWsProtocol req with
        | none => exact .inl ⟨_,rfl⟩
        | some p => exact .inr ⟨horigin,.inr ⟨p.1,rfl,rfl,.inr ⟨p.2,htoken⟩⟩⟩
    · rw [if_pos horigin]
      exact .inl ⟨_,rfl⟩
  · rw [if_pos hupgrade]
    exact .inl ⟨_,rfl⟩

theorem extract_cases (l : Listener) (origin : Bytes) (req : Request) (h : Handler)
    (params : List Bytes) : (∃ r, extract l origin req h params = .refuse r) ∨
      (h = .termWs → checkOrigin origin req = true) ∧
        Passes l req h params (extract l origin req h params) := by
  have hbearer := bearer_cases l req h params
  cases h with
  | registerStart | loginStart | loginFinish | mode | asset =>
    exact .inr ⟨nofun,.inl ⟨rfl,fun _ => by decide⟩⟩
  | machines | listSessions | killSession | me | logout | metrics =>
    exact hbearer.imp_right fun h => ⟨nofun,h⟩
  | termWs => exact (termWs_cases l origin req params).imp_right fun h => ⟨fun _ => h.1,h.2⟩
  | agentConnect =>
    rw [extract]
    by_cases hupgrade : req.upgrade = true
    · rw [if_pos hupgrade]
      exact .inr ⟨nofun,.inl ⟨rfl,fun _ => by decide⟩⟩
    · rw [if_neg hupgrade]
      exact .inl ⟨_,rfl⟩

/-- Everything that lets a request through, up to the check of its token. -/
theorem decision_cases (l : Listener) (origin : Bytes) (req : Request) :
    (∃ r, decision l origin req = .refuse r) ∨
    ∃ h params, route l req.method req.path = .found h params ∧
      originAllowed origin req = true ∧ (h = .termWs → checkOrigin origin req = true) ∧
      Passes l req h params (decision l origin req) := by
  rw [decision]
  by_cases horigin : originAllowed origin req = true
  · rw [if_neg (not_not.mpr horigin)]
    cases hroute : route l req.method req.path with
    | methodNotAllowed => exact .inl ⟨_,rfl⟩
    | found h params =>
      exact (extract_cases l origin req h params).imp_right fun hpass =>
        ⟨h,params,rfl,horigin,hpass⟩
  · rw [if_pos horigin]
    exact .inl ⟨_,rfl⟩

theorem serve_ok (hserve : (serve o s l req nanos).1 = .ok (h,params)) :
    route l req.method req.path = .found h params ∧ originAllowed (o.of l) req = true ∧
      (h = .termWs → checkOrigin (o.of l) req = true) ∧
      (l = .authed → Protected h →
        ∃ token, Presents req token ∧ validateToken s token nanos = true) := by
  rw [serve] at hserve
  rcases decision_cases l (o.of l) req with ⟨r,hd⟩ | ⟨h',params',hroute,horigin,hws,hpass⟩
  · rw [hd] at hserve
    cases hserve
  rcases hpass with ⟨hd,hopen⟩ | ⟨token,hd,-,hpresents⟩
  · rw [hd] at hserve
    cases hserve
    exact ⟨hroute,horigin,hws,fun hl hprotected => absurd hprotected (hopen hl)⟩
  · rw [hd] at hserve
    dsimp only at hserve
    split_ifs at hserve with hvalid
    cases hserve
    exact ⟨hroute,horigin,hws,fun _ _ => ⟨token,hpresents,hvalid⟩⟩

theorem serve_state (o : Origins) (s : Hub) (l : Listener) (req : Request) (nanos : ℕ) :
    (serve o s l req nanos).2 = s ∨
      l = .authed ∧ ∃ token, (serve o s l req nanos).2 = validate s token nanos := by
  rw [serve]
  rcases decision_cases l (o.of l) req with ⟨r,hd⟩ | ⟨h,params,-,-,-,hpass⟩
  · rw [hd]
    exact .inl rfl
  rcases hpass with ⟨hd,-⟩ | ⟨token,hd,hl,-⟩
  · rw [hd]
    exact .inl rfl
  · rw [hd]
    exact .inr ⟨hl,token,rfl⟩

theorem loginsOk_request {a : Act} (hs : LoginsOk libs cfg s) (hfresh : Fresh s a)
    (h : step libs cfg o s a = some t) : LoginsOk libs cfg t := by
  cases a with
  | login a => exact loginsOk_step hs hfresh h
  | request l req nanos =>
    cases h
    rcases serve_state o s l req nanos with hsame | ⟨-,token,hvalidate⟩
    · rw [hsame]
      exact hs
    · rw [hvalidate]
      exact loginsOk_step (a := .validate token nanos) hs trivial rfl

theorem dropped_step {a : Act} {token : Bytes} (h : step libs cfg o s a = some t)
    (hout : token ∈ s.dropped ∨ a = .login (.logout token)) : token ∈ t.dropped := by
  cases a with
  | login a =>
    apply dropped_effect (effect_of_step h)
    exact hout.imp_right Act.login.inj
  | request l req nanos =>
    have hold : token ∈ s.dropped := by
      rcases hout with hold | heq
      · exact hold
      · cases heq
    cases h
    rcases serve_state o s l req nanos with hsame | ⟨-,k,hvalidate⟩
    · rwa [hsame]
    · rw [hvalidate]
      exact hold

theorem dropped_run {as : List Act} {token : Bytes} (hrun : run (step libs cfg o) s as = some t)
    (hout : .login (.logout token) ∈ as) : token ∈ t.dropped :=
  run_mem (step libs cfg o) (P := fun u => token ∈ u.dropped)
    (fun _ _ h => dropped_step h (.inr rfl)) (fun _ _ _ hu h => dropped_step h (.inl hu)) hrun hout

end Perimeter

/-- In any interleaving of logins, logouts and requests on both listeners: a request that reaches
a handler named no other origin than that of its listener, a terminal was asked for from that
origin, and on the authenticated listener a handler behind the perimeter was reached with a
token that a login had earned less than twelve hours ago and no logout had dropped. -/
theorem perimeter_holds (libs : Webauthn.Libs) (cfg : Config) (o : Origins) (now : ℕ)
    (disk : Option CredStore.CredentialStore) (as : List Act) (s : Hub)
    (hfresh : Along (step libs cfg o) Fresh (Hub.start now disk) as)
    (hrun : run (step libs cfg o) (Hub.start now disk) as = some s) (l : Listener) (req : Request)
    (nanos : ℕ) (h : Handler) (params : List Bytes)
    (hserve : (serve o s l req nanos).1 = .ok (h,params)) :
    (∀ v, req.header "origin" = some v → v = o.of l) ∧
    (h = .termWs → req.header "origin" = some (o.of l)) ∧
    (l = .authed → h ∈ [.machines,.listSessions,.killSession,.me,.logout,.metrics,.termWs] →
      ∃ token, Presents req token ∧ token ∉ s.dropped ∧ .login (.logout token) ∉ as ∧
        ∃ u ∈ s.minted, u.token = token ∧ u.mintedAt ≤ s.now ∧
          s.now+nanos < u.mintedAt+sessionTtl ∧ Earned libs cfg s u) := by
  have hok : LoginsOk libs cfg s := run_along (step libs cfg o)
    (fun _ _ _ hs hfresh h => loginsOk_request hs hfresh h) (loginsOk_start now disk) hfresh hrun
  have ⟨_,horigin,hws,htoken⟩ := serve_ok hserve
  refine ⟨originAllowed_eq_true horigin,fun hh => checkOrigin_eq_true (hws hh),?_⟩
  intro hl hprotected
  have ⟨token,hpresents,hvalid⟩ := htoken hl hprotected
  have ⟨expiresAt,hmem,hlive⟩ := validateToken_eq_true hvalid
  obtain ⟨u,hu,hminted,hexpires⟩ := hok.tokens.sessions _ hmem
  have ⟨haccepted,hat⟩ := hok.earned.minted u hu
  have hdropped := hok.tokens.dropped _ hmem
  exact ⟨token,hpresents,hdropped,fun hout => hdropped (dropped_run hrun hout),u,hu,hminted,
    hat,hexpires ▸ hlive,earned_of_accepted haccepted⟩

def origins : Origins := ⟨asBytes "https://term.example",asBytes "https://perimeter.example"⟩
def sampleToken : Bytes := asBytes "c2Vzc2lvbg"

def openTerminal : Request where
  method := .get
  path := asBytes "/ws/term/alpha"
  headers := [(asBytes "host",asBytes "term.example"),
    (asBytes "origin",asBytes "https://term.example"),
    (asBytes "sec-websocket-protocol",asBytes "term, bearer.c2Vzc2lvbg")]
  upgrade := true

def sampleLogin : List Logins.Act :=
  begun 1 7++[.authenticate (loadedOf 1 7 3),.persist (acceptedOf 1 7 3) true,
    .mint (acceptedOf 1 7 3) sampleToken,
    .storeToken { acceptedOf 1 7 3 with token := sampleToken, mintedAt := 0 }]

def loginAndAsk : List Act := sampleLogin.map Act.login++[.request .noAuth openTerminal 5]

theorem perimeter_holds_terminal : ∃ s,
    run (step libs config origins) (Hub.start 0 (some (credentials 3))) loginAndAsk = some s ∧
    (serve origins s .authed openTerminal 2).1.toOption = some (.termWs,[asBytes "alpha"]) ∧
    ∃ token, Presents openTerminal token ∧ token ∉ s.dropped ∧
      ∃ u ∈ s.minted, u.token = token ∧ Earned libs config s u := by
  have hfresh : Along (step libs config origins) Fresh (Hub.start 0 (some (credentials 3)))
      loginAndAsk := by
    decide +kernel
  have hfacts : ((run (step libs config origins) (Hub.start 0 (some (credentials 3)))
      loginAndAsk).map fun s => (serve origins s .authed openTerminal 2).1.toOption) =
      some (some (.termWs,[asBytes "alpha"])) := by
    decide +kernel
  obtain ⟨s,hrun,hserved⟩ := Option.map_eq_some_iff.mp hfacts
  have hserve : (serve origins s .authed openTerminal 2).1 = .ok (.termWs,[asBytes "alpha"]) := by
    cases hres : (serve origins s .authed openTerminal 2).1 with
    | error r =>
      rw [hres] at hserved
      cases hserved
    | ok x =>
      rw [hres] at hserved
      exact congrArg Except.ok (Option.some.inj hserved)
  obtain ⟨-,-,hauthed⟩ := perimeter_holds libs config origins 0 (some (credentials 3)) loginAndAsk
    s hfresh hrun .authed openTerminal 2 .termWs [asBytes "alpha"] hserve
  obtain ⟨token,hpresents,hdropped,-,u,hu,htoken,-,-,hearned⟩ := hauthed rfl (by decide)
  exact ⟨s,hrun,hserved,token,hpresents,hdropped,u,hu,htoken,hearned⟩

/-- Whatever is asked of the no-auth listener, sessions and logins stay as they are, the
withheld handlers do not run, and what does run other than an asset is exactly what the
authenticated router has for the same method and path. -/
theorem noAuth_restricted (o : Origins) (s : Hub) (req : Request) (nanos : ℕ) :
    (serve o s .noAuth req nanos).2 = s ∧
    (∀ h params, (serve o s .noAuth req nanos).1 = .ok (h,params) →
      h ∉ [.registerStart,.loginStart,.loginFinish,.logout,.metrics] ∧
      (h = .asset ∨ route .authed req.method req.path = .found h params)) ∧
    ∀ h params, h ≠ .asset → h ∉ [.registerStart,.loginStart,.loginFinish,.logout,.metrics] →
      route .authed req.method req.path = .found h params →
      route .noAuth req.method req.path = .found h params := by
  refine ⟨?_,?_,?_⟩
  · rcases serve_state o s .noAuth req nanos with hsame | ⟨hl,-⟩
    · exact hsame
    · cases hl
  · intro h params hserve
    have ⟨hroute,_⟩ := serve_ok hserve
    by_cases hasset : h = .asset
    · subst hasset
      exact ⟨by decide,.inl rfl⟩
    · have ⟨hshared,hauthed⟩ := (route_noAuth hasset).mp hroute
      exact ⟨hshared,.inr hauthed⟩
  · intro h params hasset hshared hroute
    exact (route_noAuth hasset).mpr ⟨hshared,hroute⟩

end Term.HttpEdge
