import TermMux.Logins

/-!
# Bearer tokens are earned

Every nonce drawn is in one place: with a login that is starting, among the
pending logins, with a login that is finishing, or behind a minted token. Every
record of a finishing login carries what it came from. A token validates only
while its session is there, and sessions come from minted tokens and go when
the token is dropped.
-/

set_option autoImplicit false

namespace Term.BearerTokens
open Term.ByteOrder Term.Utf8Text Term.Outcome Term.Machine Term.ExpiringMap Term.CredStore
open Term.Webauthn Term.Logins

def Fresh (s : Hub) : Act → Prop
  | .startLoad nonce _ => nonce ∉ s.drawn
  | .mint _ token => token ∉ s.drawn
  | _ => True

instance (s : Hub) (a : Act) : Decidable (Fresh s a) :=
  match a with
  | .startLoad nonce _ => inferInstanceAs (Decidable (nonce ∉ s.drawn))
  | .mint _ token => inferInstanceAs (Decidable (token ∉ s.drawn))
  | .pass _ => isTrue trivial
  | .changeStore _ => isTrue trivial
  | .startInsert _ _ => isTrue trivial
  | .redeem _ => isTrue trivial
  | .load _ => isTrue trivial
  | .authenticate _ => isTrue trivial
  | .persist _ _ => isTrue trivial
  | .storeToken _ => isTrue trivial
  | .validate _ _ => isTrue trivial
  | .logout _ => isTrue trivial

section Nonces
variable {libs : Libs} {cfg : Config} {s t : Hub} {a : Act}

def places (s : Hub) (n : Bytes) : ℕ :=
  tally (·.nonce) s.starting n+tally Prod.fst s.pendingLogins n+
    tally (·.req.nonce) s.redeemed n+tally (·.req.nonce) s.loaded n+
    tally (·.req.nonce) s.persisting n+tally (·.req.nonce) s.ready n+
    tally (·.req.nonce) s.minted n

/-- Only a nonce that is drawn gains a place. -/
theorem places_effect (h : Effect libs cfg s a t) (n : Bytes) :
    places t n ≤ places s n ∨
      places t n ≤ places s n+1 ∧ n ∈ t.drawn ∧ ∃ challenge, a = .startLoad n challenge := by
  have hgc := tally_gc_le PendingLogin.expiresAt s.now s.pendingLogins n
  cases h with
  | started nonce challenge allowedIds hoffered =>
    by_cases hn : nonce = n
    · subst hn
      refine .inr ⟨?_,List.mem_cons_self,challenge,rfl⟩
      simp only [places, tally_cons, if_true]
      omega
    · left
      simp only [places, tally_cons, if_neg hn]
      omega
  | tooMany u nanos hu =>
    have hout := tally_erase (·.nonce) hu n
    left
    simp only [places]
    omega
  | inserted u nanos hu hroom =>
    have hout := tally_erase (·.nonce) hu n
    have hin := tally_insert_le (gc PendingLogin.expiresAt s.now s.pendingLogins) u.nonce
      ⟨u.challenge,u.allowedIds,s.now+nanos+pendingLoginTtl⟩ n
    left
    simp only [places]
    omega
  | unknownNonce req =>
    left
    simp only [places]
    omega
  | redeemed req p hget =>
    have hout := tally_remove_of_get hget n
    left
    simp only [places, tally_cons]
    omega
  | loadFailed u hu | loaded u store hu hdisk | refused u hu | advanced u auth hu hauth hadvanced
  | passed u auth hu hauth hadvanced | persist u succeeds hu | mint u token hu =>
    have hout := tally_erase (·.req.nonce) hu n
    left
    simp only [places, persist, mint, tally_cons]
    omega
  | _ => exact .inl le_rfl

theorem effect_grows (h : Effect libs cfg s a t) :
    (∀ n ∈ s.drawn, n ∈ t.drawn) ∧ (∀ i ∈ s.issued, i ∈ t.issued) ∧ s.now ≤ t.now := by
  cases h with
  | pass | tooMany | validate => exact ⟨fun _ h => h,fun _ h => h,Nat.le_add_right _ _⟩
  | started | mint => exact ⟨fun _ h => List.mem_cons_of_mem _ h,fun _ h => h,le_rfl⟩
  | inserted =>
    exact ⟨fun _ h => h,fun _ h => List.mem_cons_of_mem _ h,Nat.le_add_right _ _⟩
  | _ => exact ⟨fun _ h => h,fun _ h => h,le_rfl⟩

structure NoncesOk (s : Hub) : Prop where
  once : ∀ n, places s n ≤ 1
  drawn : ∀ n, 0 < places s n → n ∈ s.drawn

theorem noncesOk_effect (hs : NoncesOk s) (hfresh : Fresh s a) (h : Effect libs cfg s a t) :
    NoncesOk t := by
  constructor
  · intro n
    rcases places_effect h n with hle | ⟨hle,-,challenge,rfl⟩
    · exact hle.trans (hs.once n)
    · have hzero : places s n = 0 := Nat.eq_zero_of_not_pos fun hpos => hfresh (hs.drawn n hpos)
      rwa [hzero] at hle
  · intro n hn
    rcases places_effect h n with hle | ⟨-,hdrawn,-⟩
    · exact (effect_grows h).1 n (hs.drawn n (hn.trans_le hle))
    · exact hdrawn

end Nonces

section Provenance
variable {libs : Libs} {cfg : Config} {s t : Hub} {a : Act}

def PendingFrom (s : Hub) (e : Bytes × PendingLogin) : Prop :=
  ∃ i ∈ s.issued, i.nonce = e.1 ∧ i.pending = e.2 ∧
    e.2.expiresAt = i.issuedAt+pendingLoginTtl ∧ i.issuedAt ≤ s.now

def RedeemedFrom (s : Hub) (u : Redeemed) : Prop :=
  ∃ i ∈ s.issued, i.nonce = u.req.nonce ∧ i.pending = u.pending ∧ i.issuedAt ≤ u.redeemedAt ∧
    u.redeemedAt < i.issuedAt+pendingLoginTtl

def AcceptedFrom (libs : Libs) (cfg : Config) (s : Hub) (u : Accepted) : Prop :=
  RedeemedFrom s u.toRedeemed ∧
    authenticate libs cfg u.pending u.store u.req.response = .ok u.auth

structure EarnedOk (libs : Libs) (cfg : Config) (s : Hub) : Prop where
  pending : ∀ e ∈ s.pendingLogins, PendingFrom s e
  redeemed : ∀ u ∈ s.redeemed, RedeemedFrom s u
  loaded : ∀ u ∈ s.loaded, RedeemedFrom s u.toRedeemed
  persisting : ∀ u ∈ s.persisting, AcceptedFrom libs cfg s u
  ready : ∀ u ∈ s.ready, AcceptedFrom libs cfg s u
  minted : ∀ u ∈ s.minted, AcceptedFrom libs cfg s u.toAccepted ∧ u.mintedAt ≤ s.now

theorem earnedOk_mono (hs : EarnedOk libs cfg s) (hissued : ∀ i ∈ s.issued, i ∈ t.issued)
    (hnow : s.now ≤ t.now) :
    (∀ e ∈ s.pendingLogins, PendingFrom t e) ∧ (∀ u ∈ s.redeemed, RedeemedFrom t u) ∧
    (∀ u ∈ s.loaded, RedeemedFrom t u.toRedeemed) ∧
    (∀ u ∈ s.persisting, AcceptedFrom libs cfg t u) ∧ (∀ u ∈ s.ready, AcceptedFrom libs cfg t u) ∧
    ∀ u ∈ s.minted, AcceptedFrom libs cfg t u.toAccepted ∧ u.mintedAt ≤ t.now := by
  have hmono : ∀ u, RedeemedFrom s u → RedeemedFrom t u := by
    rintro u ⟨i,hi,hrest⟩
    exact ⟨i,hissued i hi,hrest⟩
  refine ⟨fun e he => ?_,fun u hu => hmono u (hs.redeemed u hu),fun u hu => hmono _ (hs.loaded u hu),
    fun u hu => (hs.persisting u hu).imp_left (hmono _),
    fun u hu => (hs.ready u hu).imp_left (hmono _),fun u hu => ?_⟩
  · obtain ⟨i,hi,hn,hp,hx,hle⟩ := hs.pending e he
    exact ⟨i,hissued i hi,hn,hp,hx,hle.trans hnow⟩
  · obtain ⟨haccepted,hat⟩ := hs.minted u hu
    exact ⟨haccepted.imp_left (hmono _),hat.trans hnow⟩

theorem earnedOk_effect (hs : EarnedOk libs cfg s) (h : Effect libs cfg s a t) :
    EarnedOk libs cfg t := by
  obtain ⟨-,hissued,hnow⟩ := effect_grows h
  obtain ⟨hpending,hredeemed,hloaded,hpersisting,hready,hminted⟩ := earnedOk_mono hs hissued hnow
  cases h with
  | tooMany | unknownNonce =>
    exact ⟨fun e he => hpending e (mem_gc.mp he).1,hredeemed,hloaded,hpersisting,hready,hminted⟩
  | inserted u nanos hu hroom =>
    refine ⟨fun e he => ?_,hredeemed,hloaded,hpersisting,hready,hminted⟩
    rcases mem_insert.mp he with rfl | ⟨hold,-⟩
    · exact ⟨_,List.mem_cons_self,rfl,rfl,rfl,le_rfl⟩
    · exact hpending e (mem_gc.mp hold).1
  | redeemed req p hget =>
    refine ⟨fun e he => hpending e (mem_gc.mp (mem_remove.mp he).1).1,
      List.forall_mem_cons.mpr ⟨?_,hredeemed⟩,hloaded,hpersisting,hready,hminted⟩
    obtain ⟨hmem,hlive⟩ := mem_gc.mp (mem_of_get hget)
    obtain ⟨i,hi,hn,hp,hx,hle⟩ := hs.pending _ hmem
    exact ⟨i,hi,hn,hp,hle,hx ▸ hlive⟩
  | loadFailed u hu =>
    exact ⟨hpending,fun v hv => hredeemed v (List.mem_of_mem_erase hv),hloaded,hpersisting,hready,
      hminted⟩
  | loaded u store hu hdisk =>
    exact ⟨hpending,fun v hv => hredeemed v (List.mem_of_mem_erase hv),
      List.forall_mem_cons.mpr ⟨hredeemed u hu,hloaded⟩,hpersisting,hready,hminted⟩
  | refused u hu =>
    exact ⟨hpending,hredeemed,fun v hv => hloaded v (List.mem_of_mem_erase hv),hpersisting,hready,
      hminted⟩
  | advanced u auth hu hauth hadvanced =>
    exact ⟨hpending,hredeemed,fun v hv => hloaded v (List.mem_of_mem_erase hv),
      List.forall_mem_cons.mpr ⟨⟨hloaded u hu,hauth⟩,hpersisting⟩,hready,hminted⟩
  | passed u auth hu hauth hadvanced =>
    exact ⟨hpending,hredeemed,fun v hv => hloaded v (List.mem_of_mem_erase hv),hpersisting,
      List.forall_mem_cons.mpr ⟨⟨hloaded u hu,hauth⟩,hready⟩,hminted⟩
  | persist u succeeds hu =>
    exact ⟨hpending,hredeemed,hloaded,fun v hv => hpersisting v (List.mem_of_mem_erase hv),
      List.forall_mem_cons.mpr ⟨hpersisting u hu,hready⟩,hminted⟩
  | mint u token hu =>
    exact ⟨hpending,hredeemed,hloaded,hpersisting,fun v hv => hready v (List.mem_of_mem_erase hv),
      List.forall_mem_cons.mpr ⟨⟨hready u hu,le_rfl⟩,hminted⟩⟩
  | _ => exact ⟨hpending,hredeemed,hloaded,hpersisting,hready,hminted⟩

end Provenance

section Tokens
variable {libs : Libs} {cfg : Config} {s t : Hub} {a : Act}

def used (s : Hub) : List Bytes := s.sessions.map Prod.fst++s.bearers++s.dropped

structure TokensOk (s : Hub) : Prop where
  drawn : ∀ u ∈ s.minted, u.token ∈ s.drawn
  storing : ∀ u ∈ s.storing, u ∈ s.minted
  apart : (s.storing.map (·.token)).Nodup
  sessions : ∀ e ∈ s.sessions, ∃ u ∈ s.minted, u.token = e.1 ∧ e.2 = u.mintedAt+sessionTtl
  usedDrawn : ∀ k ∈ used s, k ∈ s.drawn
  usedStored : ∀ k ∈ used s, k ∉ s.storing.map (·.token)
  dropped : ∀ e ∈ s.sessions, e.1 ∉ s.dropped

theorem mem_used {k : Bytes} :
    k ∈ used s ↔ k ∈ s.sessions.map Prod.fst ∨ k ∈ s.bearers ∨ k ∈ s.dropped := by
  rw [used, List.mem_append, List.mem_append, or_assoc]

theorem validateToken_eq_true {token : Bytes} {nanos : ℕ}
    (h : validateToken s token nanos = true) :
    ∃ expiresAt, (token,expiresAt) ∈ s.sessions ∧ s.now+nanos < expiresAt := by
  unfold validateToken at h
  split at h
  · rename_i expiresAt hget
    exact ⟨expiresAt,(mem_gc.mp (mem_of_get hget)).1,by simpa using h⟩
  · cases h

theorem tokensOk_of (hs : TokensOk s) (hdrawn : ∀ k ∈ s.drawn, k ∈ t.drawn)
    (hminted : t.minted = s.minted) (hstoring : t.storing = s.storing)
    (hsessions : ∀ e ∈ t.sessions, e ∈ s.sessions) (hused : ∀ k ∈ used t, k ∈ used s)
    (hdropped : ∀ e ∈ t.sessions, e.1 ∉ t.dropped) : TokensOk t where
  drawn u hu := hdrawn _ (hs.drawn u (hminted ▸ hu))
  storing u hu := hminted ▸ hs.storing u (hstoring ▸ hu)
  apart := hstoring ▸ hs.apart
  sessions e he := hminted ▸ hs.sessions e (hsessions e he)
  usedDrawn k hk := hdrawn k (hs.usedDrawn k (hused k hk))
  usedStored k hk := hstoring ▸ hs.usedStored k (hused k hk)
  dropped := hdropped

theorem tokensOk_mint {u : Accepted} {token : Bytes} (hs : TokensOk s) (hfresh : token ∉ s.drawn) :
    TokensOk (mint s u token) where
  drawn := List.forall_mem_cons.mpr ⟨List.mem_cons_self,fun v hv =>
    List.mem_cons_of_mem _ (hs.drawn v hv)⟩
  storing := List.forall_mem_cons.mpr ⟨List.mem_cons_self,fun v hv =>
    List.mem_cons_of_mem _ (hs.storing v hv)⟩
  apart := by
    refine List.nodup_cons.mpr ⟨fun hmem => hfresh ?_,hs.apart⟩
    obtain ⟨v,hv,hk⟩ := List.mem_map.mp hmem
    have hv' := hs.drawn v (hs.storing v hv)
    rwa [show v.token = token from hk] at hv'
  sessions e he := by
    obtain ⟨v,hv,hrest⟩ := hs.sessions e he
    exact ⟨v,List.mem_cons_of_mem _ hv,hrest⟩
  usedDrawn k hk := List.mem_cons_of_mem _ (hs.usedDrawn k hk)
  usedStored k hk hmem := by
    rcases List.mem_cons.mp hmem with rfl | hold
    · exact hfresh (hs.usedDrawn _ hk)
    · exact hs.usedStored k hk hold
  dropped := hs.dropped

theorem tokensOk_storeToken {u : Minted} (hs : TokensOk s) (hu : u ∈ s.storing) :
    TokensOk (storeToken s u) := by
  have hmem : u.token ∈ s.storing.map (·.token) := List.mem_map_of_mem hu
  have hused : ∀ k ∈ used (storeToken s u), k = u.token ∨ k ∈ used s := by
    intro k hk
    rcases mem_used.mp hk with hsession | hrest
    · obtain ⟨e,he,rfl⟩ := List.mem_map.mp hsession
      rcases mem_insert.mp he with rfl | ⟨hold,-⟩
      · exact .inl rfl
      · exact .inr (mem_used.mpr (.inl (List.mem_map_of_mem (mem_gc.mp hold).1)))
    · exact .inr (mem_used.mpr (.inr hrest))
  refine ⟨hs.drawn,fun v hv => hs.storing v (List.mem_of_mem_erase hv),
    hs.apart.sublist ((List.erase_sublist).map _),?_,?_,?_,?_⟩
  · intro e he
    rcases mem_insert.mp he with rfl | ⟨hold,-⟩
    · exact ⟨u,hs.storing u hu,rfl,rfl⟩
    · exact hs.sessions e (mem_gc.mp hold).1
  · intro k hk
    rcases hused k hk with rfl | hold
    · exact hs.drawn u (hs.storing u hu)
    · exact hs.usedDrawn k hold
  · intro k hk hin
    rcases hused k hk with rfl | hold
    · have hperm := (List.perm_cons_erase hu).map (·.token)
      exact (List.nodup_cons.mp (hperm.nodup_iff.mp hs.apart)).1 hin
    · exact hs.usedStored k hold (((List.erase_sublist).map _).subset hin)
  · intro e he hdrop
    rcases mem_insert.mp he with rfl | ⟨hold,-⟩
    · exact hs.usedStored _ (mem_used.mpr (.inr (.inr hdrop))) hmem
    · exact hs.dropped e (mem_gc.mp hold).1 hdrop

theorem tokensOk_effect (hs : TokensOk s) (hfresh : Fresh s a) (h : Effect libs cfg s a t) :
    TokensOk t := by
  have hdrawn := (effect_grows h).1
  cases h with
  | mint u token hu => exact tokensOk_mint hs hfresh
  | storeToken u hu => exact tokensOk_storeToken hs hu
  | validate token nanos =>
    have hold : ∀ e ∈ gc id s.now s.sessions, e ∈ s.sessions := fun e he => (mem_gc.mp he).1
    refine tokensOk_of hs hdrawn rfl rfl hold ?_ fun e he => hs.dropped e (hold e he)
    intro k hk
    rcases mem_used.mp hk with hsession | hbearer | hdrop
    · obtain ⟨e,he,rfl⟩ := List.mem_map.mp hsession
      exact mem_used.mpr (.inl (List.mem_map_of_mem (hold e he)))
    · simp only [validate] at hbearer
      split_ifs at hbearer with hvalid
      · rcases List.mem_cons.mp hbearer with rfl | hbearer
        · obtain ⟨x,hx,-⟩ := validateToken_eq_true hvalid
          exact mem_used.mpr (.inl (List.mem_map.mpr ⟨_,hx,rfl⟩))
        · exact mem_used.mpr (.inr (.inl hbearer))
      · exact mem_used.mpr (.inr (.inl hbearer))
    · exact mem_used.mpr (.inr (.inr hdrop))
  | logout token htoken =>
    refine tokensOk_of hs hdrawn rfl rfl (fun e he => (mem_remove.mp he).1) ?_ ?_
    · intro k hk
      rcases mem_used.mp hk with hsession | hbearer | hdrop
      · obtain ⟨e,he,rfl⟩ := List.mem_map.mp hsession
        exact mem_used.mpr (.inl (List.mem_map_of_mem (mem_remove.mp he).1))
      · exact mem_used.mpr (.inr (.inl (List.mem_of_mem_erase hbearer)))
      · rcases List.mem_cons.mp hdrop with rfl | hdrop
        · exact mem_used.mpr (.inr (.inl htoken))
        · exact mem_used.mpr (.inr (.inr hdrop))
    · intro e he hdrop
      obtain ⟨hmem,hne⟩ := mem_remove.mp he
      rcases List.mem_cons.mp hdrop with heq | hdrop
      · exact hne heq
      · exact hs.dropped e hmem hdrop
  | _ => exact tokensOk_of hs hdrawn rfl rfl (fun _ h => h) (fun _ h => h) hs.dropped

end Tokens

section Runs
variable {libs : Libs} {cfg : Config} {s t : Hub} {a : Act}

theorem pending_effect (hs : s.pendingLogins.length ≤ maxPendingLogins)
    (h : Effect libs cfg s a t) : t.pendingLogins.length ≤ maxPendingLogins := by
  have hgc := (length_gc_le PendingLogin.expiresAt s.now s.pendingLogins).trans hs
  cases h with
  | tooMany | unknownNonce => exact hgc
  | inserted u nanos hu hroom => exact (length_insert_le _).trans hroom
  | redeemed req p hget => exact (List.length_filter_le _ _).trans hgc
  | _ => exact hs

structure LoadsOk (P : Loaded → Prop) (s : Hub) : Prop where
  loaded : ∀ u ∈ s.loaded, P u
  persisting : ∀ u ∈ s.persisting, P u.toLoaded
  ready : ∀ u ∈ s.ready, P u.toLoaded
  minted : ∀ u ∈ s.minted, P u.toLoaded

theorem loadsOk_effect {P : Loaded → Prop} (hs : LoadsOk P s)
    (hnew : ∀ u ∈ s.redeemed, ∀ store, s.disk = some store → P { u with store := store })
    (h : Effect libs cfg s a t) : LoadsOk P t := by
  obtain ⟨hloaded,hpersisting,hready,hminted⟩ := hs
  cases h with
  | loaded u store hu hdisk =>
    exact ⟨List.forall_mem_cons.mpr ⟨hnew u hu store hdisk,hloaded⟩,hpersisting,hready,hminted⟩
  | refused u hu =>
    exact ⟨fun v hv => hloaded v (List.mem_of_mem_erase hv),hpersisting,hready,hminted⟩
  | advanced u auth hu hauth hadvanced =>
    exact ⟨fun v hv => hloaded v (List.mem_of_mem_erase hv),
      List.forall_mem_cons.mpr ⟨hloaded u hu,hpersisting⟩,hready,hminted⟩
  | passed u auth hu hauth hadvanced =>
    exact ⟨fun v hv => hloaded v (List.mem_of_mem_erase hv),hpersisting,
      List.forall_mem_cons.mpr ⟨hloaded u hu,hready⟩,hminted⟩
  | persist u succeeds hu =>
    exact ⟨hloaded,fun v hv => hpersisting v (List.mem_of_mem_erase hv),
      List.forall_mem_cons.mpr ⟨hpersisting u hu,hready⟩,hminted⟩
  | mint u token hu =>
    exact ⟨hloaded,hpersisting,fun v hv => hready v (List.mem_of_mem_erase hv),
      List.forall_mem_cons.mpr ⟨hready u hu,hminted⟩⟩
  | _ => exact ⟨hloaded,hpersisting,hready,hminted⟩

theorem loadsOk_mono {P Q : Loaded → Prop} (hs : LoadsOk P s) (h : ∀ u, P u → Q u) :
    LoadsOk Q s :=
  ⟨fun u hu => h u (hs.loaded u hu),fun u hu => h _ (hs.persisting u hu),
    fun u hu => h _ (hs.ready u hu),fun u hu => h _ (hs.minted u hu)⟩

structure LoginsOk (libs : Libs) (cfg : Config) (s : Hub) : Prop where
  nonces : NoncesOk s
  earned : EarnedOk libs cfg s
  tokens : TokensOk s
  pending : s.pendingLogins.length ≤ maxPendingLogins

theorem loginsOk_start (now : ℕ) (disk : Option CredentialStore) :
    LoginsOk libs cfg (Hub.start now disk) := by
  refine ⟨⟨?_,?_⟩,?_,?_,Nat.zero_le _⟩
  · simp [places, tally, Hub.start]
  · simp [places, tally, Hub.start]
  · constructor <;> simp [Hub.start]
  · constructor <;> simp [Hub.start, used]

theorem loginsOk_step (hs : LoginsOk libs cfg s) (hfresh : Fresh s a)
    (h : step libs cfg s a = some t) : LoginsOk libs cfg t :=
  have heffect := effect_of_step h
  ⟨noncesOk_effect hs.nonces hfresh heffect,earnedOk_effect hs.earned heffect,
    tokensOk_effect hs.tokens hfresh heffect,pending_effect hs.pending heffect⟩

def LoadedIn (u : Loaded) (v : Hub) : Prop := u.toRedeemed ∈ v.redeemed ∧ v.disk = some u.store

theorem loads_visited {now : ℕ} {disk : Option CredentialStore} {as : List Act}
    (hrun : run (step libs cfg) (Hub.start now disk) as = some t) :
    LoadsOk (fun u => Visits (step libs cfg) (Hub.start now disk) as (LoadedIn u)) t := by
  refine run_history (step libs cfg) (J := fun bs v =>
    LoadsOk (fun u => Visits (step libs cfg) (Hub.start now disk) bs (LoadedIn u)) v) ?_ ?_ hrun
  · constructor <;> simp [Hub.start]
  · intro bs v a w hv hloads hstep
    refine loadsOk_effect (loadsOk_mono hloads fun u hu => visits_append _ hu) ?_
      (effect_of_step hstep)
    intro u hu store hdisk
    exact visits_append _ (visits_last _ hv ⟨hu,hdisk⟩)

/-- A logout drops its token, and no step takes that back. -/
theorem dropped_effect {token : Bytes} (h : Effect libs cfg s a t)
    (hout : token ∈ s.dropped ∨ a = .logout token) : token ∈ t.dropped := by
  rcases hout with hdropped | rfl
  · cases h with
    | logout => exact List.mem_cons_of_mem _ hdropped
    | _ => exact hdropped
  · cases h with
    | logout => exact List.mem_cons_self

theorem dropped_run {token : Bytes} {as : List Act} (hrun : run (step libs cfg) s as = some t)
    (hout : .logout token ∈ as) : token ∈ t.dropped :=
  run_mem (step libs cfg) (P := fun u => token ∈ u.dropped)
    (fun _ _ hstep => dropped_effect (effect_of_step hstep) (.inr rfl))
    (fun _ _ _ hu hstep => dropped_effect (effect_of_step hstep) (.inl hu)) hrun hout

theorem lookup_some {p : PendingLogin} {store : CredentialStore} {id : Bytes}
    {view : StoredCredentialView} (h : lookup p store id = some view) :
    id ∈ p.allowedIds ∧ ∃ c, store.findById id = some c ∧ view.signCount = c.signCount := by
  unfold lookup at h
  split_ifs at h with hoffered
  obtain ⟨c,hc,hview⟩ := Option.bind_eq_some_iff.mp h
  split at hview
  · cases hview
    exact ⟨by simpa using hoffered,c,hc,rfl⟩
  · cases hview

end Runs

/-- How a token was earned: a nonce issued with a challenge and some ids was
redeemed in time, and the check succeeded against them for one of these ids,
which the store that was loaded holds. -/
structure Earned (libs : Libs) (cfg : Config) (s : Hub) (u : Minted) : Prop where
  issued : ∃ i ∈ s.issued, i.nonce = u.req.nonce ∧ i.pending = u.pending ∧
    i.issuedAt ≤ u.redeemedAt ∧ u.redeemedAt < i.issuedAt+pendingLoginTtl
  passed : finishAuthenticate libs u.req.response u.pending.challenge cfg.rpId cfg.origin
    (lookup u.pending u.store) = .ok u.auth
  offered : u.auth.credentialId ∈ u.pending.allowedIds
  stored : ∃ c, u.store.findById u.auth.credentialId = some c

theorem earned_of_accepted {libs : Libs} {cfg : Config} {s : Hub} {u : Minted}
    (h : AcceptedFrom libs cfg s u.toAccepted) : Earned libs cfg s u := by
  obtain ⟨hissued,hauth⟩ := h
  have hpassed := mapErr_eq_ok.mp hauth
  obtain ⟨-,view,hview,-⟩ := finishAuthenticate_ok hpassed
  obtain ⟨hoffered,c,hc,-⟩ := lookup_some hview
  exact ⟨hissued,hpassed,hoffered,c,hc⟩

/-- A nonce yields at most one token; a token validates only if it was minted
less than a session ago by a login that earned it, against a store that was in
the file after the nonce was redeemed, and the run has no logout of it; and the
pending logins stay within their cap. -/
theorem tokens_earned (libs : Libs) (cfg : Config) (now : ℕ) (disk : Option CredentialStore)
    (as : List Act) (s : Hub)
    (hfresh : Along (step libs cfg) Fresh (Hub.start now disk) as)
    (hrun : run (step libs cfg) (Hub.start now disk) as = some s) :
    (s.minted.map (·.req.nonce)).Nodup ∧
    (∀ token nanos, validateToken s token nanos = true →
      token ∉ s.dropped ∧ .logout token ∉ as ∧ ∃ u ∈ s.minted, u.token = token ∧
        u.mintedAt ≤ s.now ∧ s.now+nanos < u.mintedAt+sessionTtl ∧ Earned libs cfg s u ∧
        Visits (step libs cfg) (Hub.start now disk) as (LoadedIn u.toLoaded)) ∧
    s.pendingLogins.length ≤ maxPendingLogins := by
  have hok : LoginsOk libs cfg s := run_along (step libs cfg)
    (fun _ _ _ hs hfresh h => loginsOk_step hs hfresh h) (loginsOk_start now disk) hfresh hrun
  refine ⟨?_,?_,hok.pending⟩
  · refine nodup_of_tally fun n => ?_
    have hle := hok.nonces.once n
    rw [places] at hle
    exact (Nat.le_add_left _ _).trans hle
  · intro token nanos hvalid
    obtain ⟨expiresAt,hmem,hlive⟩ := validateToken_eq_true hvalid
    obtain ⟨u,hu,htoken,hexpires⟩ := hok.tokens.sessions _ hmem
    obtain ⟨haccepted,hat⟩ := hok.earned.minted u hu
    have hdropped := hok.tokens.dropped _ hmem
    refine ⟨hdropped,fun hout => hdropped (dropped_run hrun hout),u,hu,htoken,hat,?_,
      earned_of_accepted haccepted,(loads_visited hrun).minted u hu⟩
    exact hexpires ▸ hlive

section Sample

/-! One passkey and the answers of its authenticator. -/

def rpId : Bytes := asBytes "term.example"
def config : Config := ⟨rpId,asBytes "https://term.example"⟩
def keyId : Bytes := [1,2]
def publicKey : Bytes := 0x04::List.replicate 64 7
def digest : Bytes := List.replicate 32 7
def signature : Bytes := [0x30,0x06,0x02,0x01,0x05,0x02,0x01,0x06]

def challengeOf (i : UInt8) : Bytes := List.replicate 32 i

def clientData (challenge : Bytes) : Bytes :=
  asBytes "\x7b\"type\":\"webauthn.get\",\"challenge\":\""++toB64url challenge++
    asBytes "\",\"origin\":\"https://term.example\"\x7d"

def libs : Libs where
  fromSlice b :=
    match [challengeOf 1,challengeOf 2].find? fun c => clientData c = b with
    | some c => .ok (.object [(asBytes "type",.string typeGet),
        (asBytes "challenge",.string (toB64url c)),(asBytes "origin",.string config.origin)])
    | none => .err "expected value"
  sha256 _ := digest
  validKey k := k = publicKey
  validSignature sig := sig = signature
  verify k _ sig := k = publicKey ∧ sig = signature

def credentials (signCount : UInt32) : CredentialStore :=
  ⟨[⟨asBytes "key",asBytes "2024-05-01T00:00:00Z",CredStore.b64Encode keyId,
    CredStore.b64Encode publicKey,signCount⟩]⟩

def answer (challenge : Bytes) (signCount : UInt32) : AuthenticationResponse where
  rawId := toB64url keyId
  ty := asBytes "public-key"
  clientDataJson := toB64url (clientData challenge)
  authenticatorData := toB64url (digest++flagUp::be32 signCount)
  signature := toB64url signature

def pendingOf (challenge : Bytes) : PendingLogin := ⟨challenge,[keyId],pendingLoginTtl⟩

def redeemedOf (i : UInt8) (signCount : UInt32) : Redeemed :=
  ⟨⟨[i],answer (challengeOf i) signCount⟩,pendingOf (challengeOf i),0⟩

def loadedOf (i : UInt8) (signCount stored : UInt32) : Loaded :=
  { redeemedOf i signCount with store := credentials stored }

def acceptedOf (i : UInt8) (signCount stored : UInt32) : Accepted :=
  { loadedOf i signCount stored with auth := ⟨keyId,signCount,stored < signCount⟩ }

def begun (i : UInt8) (signCount : UInt32) : List Act :=
  [.startLoad [i] (challengeOf i),.startInsert ⟨[i],challengeOf i,[keyId]⟩ 0,
    .redeem ⟨[i],answer (challengeOf i) signCount⟩,.load (redeemedOf i signCount)]

def login : List Act :=
  begun 1 7++[.authenticate (loadedOf 1 7 3),.persist (acceptedOf 1 7 3) true,
    .mint (acceptedOf 1 7 3) [9],.storeToken { acceptedOf 1 7 3 with token := [9], mintedAt := 0 },
    .pass 1000]

theorem login_token_earned :
    ∃ s, run (step libs config) (Hub.start 0 (some (credentials 3))) login = some s ∧
      validateToken s [9] 1 = true ∧ .logout [9] ∉ login ∧
      ∃ u ∈ s.minted, u.token = [9] ∧ Earned libs config s u := by
  have hfresh : Along (step libs config) Fresh (Hub.start 0 (some (credentials 3))) login := by
    decide +kernel
  have hfacts : ((run (step libs config) (Hub.start 0 (some (credentials 3))) login).map
      fun s => validateToken s [9] 1) = some true := by
    decide +kernel
  obtain ⟨s,hrun,hvalid⟩ := Option.map_eq_some_iff.mp hfacts
  obtain ⟨-,htokens,-⟩ := tokens_earned libs config 0 (some (credentials 3)) login s hfresh hrun
  obtain ⟨-,hout,u,hu,htoken,-,-,hearned,-⟩ := htokens [9] 1 hvalid
  exact ⟨s,hrun,hvalid,hout,u,hu,htoken,hearned⟩

end Sample

end Term.BearerTokens
