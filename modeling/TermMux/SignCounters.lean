import TermMux.BearerTokens

/-!
# Signature counters against cloned authenticators

The counters of the assertions accepted for one credential, in runs whose
counter updates are all persisted. The check compares with a copy of the store
that was read before the file is locked, and lets a zero counter pass. Counters
rise in every run in which a zero counter comes only while the stored one is
zero, and an assertion that does not exceed an accepted one meets a copy that
shows it.
-/

set_option autoImplicit false

namespace Term.SignCounters
open Term.ByteOrder Term.Outcome Term.Machine Term.CredStore Term.Webauthn Term.Logins
open Term.BearerTokens

section Discipline
variable (libs : Libs) (cfg : Config) (idB64 : Bytes)

def storedCount (s : Hub) : Option UInt32 := s.disk.bind fun store => store.signCount idB64

def Persisted (s : Hub) : Act → Prop
  | .changeStore disk => (disk.bind fun store => store.signCount idB64) = storedCount idB64 s
  | .persist u succeeds => b64Encode u.auth.credentialId = idB64 → succeeds = true
  | _ => True

def shows (copy : CredentialStore) (count : UInt32) : Bool :=
  match copy.signCount idB64 with
  | some c => count ≤ c
  | none => false

def CounterOk (s : Hub) (u : Loaded) (count : UInt32) : Prop :=
  (count = 0 → storedCount idB64 s = some 0) ∧
  ∀ r ∈ s.accepted, b64Encode r.credentialId = idB64 → count ≤ r.signCount →
    shows idB64 u.store count = true

/-- The condition on an assertion of the credential that passes every other
check. -/
def Meets (s : Hub) (u : Loaded) : Outcome WebauthnError (Bytes × UInt32) → Prop
  | .ok (id,count) =>
    genuine libs u.req.response u.pending.challenge cfg.rpId cfg.origin
      (lookup u.pending u.store) = true →
    b64Encode id = idB64 → CounterOk idB64 s u count
  | _ => True

def StepOk (s : Hub) : Act → Prop
  | .authenticate u => Meets libs cfg idB64 s u (presented u.req.response)
  | _ => True

end Discipline

instance (idB64 : Bytes) (s : Hub) (a : Act) : Decidable (Persisted idB64 s a) :=
  match a with
  | .changeStore _ => inferInstanceAs (Decidable (_ = _))
  | .persist _ _ => inferInstanceAs (Decidable (_ → _))
  | .pass _ | .startLoad _ _ | .startInsert _ _ | .redeem _ | .load _ | .authenticate _
  | .mint _ _ | .storeToken _ | .validate _ _ | .logout _ => isTrue trivial

instance (idB64 : Bytes) (s : Hub) (u : Loaded) (count : UInt32) :
    Decidable (CounterOk idB64 s u count) :=
  inferInstanceAs (Decidable (_ ∧ ∀ r ∈ s.accepted, _ → _ → _))

instance (libs : Libs) (cfg : Config) (idB64 : Bytes) (s : Hub) (u : Loaded)
    (r : Outcome WebauthnError (Bytes × UInt32)) : Decidable (Meets libs cfg idB64 s u r) :=
  match r with
  | .ok (_,_) => inferInstanceAs (Decidable (_ → _ → CounterOk _ _ _ _))
  | .err _ | .panicked => isTrue trivial

instance (libs : Libs) (cfg : Config) (idB64 : Bytes) (s : Hub) (a : Act) :
    Decidable (StepOk libs cfg idB64 s a) :=
  match a with
  | .authenticate _ => inferInstanceAs (Decidable (Meets _ _ _ _ _ _))
  | .pass _ | .changeStore _ | .startLoad _ _ | .startInsert _ _ | .redeem _ | .load _
  | .persist _ _ | .mint _ _ | .storeToken _ | .validate _ _ | .logout _ => isTrue trivial

/-- An accepted counter exceeds the stored one, or both are zero; and once the
stored counter is not zero, accepted counters rise. -/
structure Rising (idB64 : Bytes) (accepted : List Acceptance) : Prop where
  beats : ∀ r ∈ accepted, b64Encode r.credentialId = idB64 →
    ∃ stored, r.stored = some stored ∧ (stored < r.signCount ∨ r.signCount = 0 ∧ stored = 0)
  increasing : (accepted.filter fun r => b64Encode r.credentialId = idB64 ∧
    r.stored ≠ some 0).Pairwise fun q r => q.signCount < r.signCount

structure CountersOk (idB64 : Bytes) (s : Hub) : Prop where
  rising : Rising idB64 s.accepted
  copies : ∀ u ∈ s.loaded, ∀ c, u.store.signCount idB64 = some c → storedCount idB64 s = some c ∨
    ∃ r ∈ s.accepted, b64Encode r.credentialId = idB64 ∧ storedCount idB64 s = some r.signCount
  logged : ∀ u ∈ s.persisting, b64Encode u.auth.credentialId = idB64 →
    ∃ r ∈ s.accepted, b64Encode r.credentialId = idB64 ∧ r.signCount = u.auth.newSignCount

section Steps
variable {libs : Libs} {cfg : Config} {idB64 : Bytes} {s t : Hub} {a : Act}

theorem rising_concat {l : List Acceptance} {r : Acceptance} (hl : Rising idB64 l)
    (hbeats : b64Encode r.credentialId = idB64 →
      ∃ stored, r.stored = some stored ∧ (stored < r.signCount ∨ r.signCount = 0 ∧ stored = 0))
    (habove : b64Encode r.credentialId = idB64 → r.stored ≠ some 0 →
      ∀ q ∈ l, b64Encode q.credentialId = idB64 → q.signCount < r.signCount) :
    Rising idB64 (l++[r]) where
  beats := forall_mem_concat hl.beats hbeats
  increasing := by
    rw [List.filter_append, List.pairwise_append]
    refine ⟨hl.increasing,?_,?_⟩
    · exact (List.pairwise_singleton _ r).sublist List.filter_sublist
    · intro q hq r' hr'
      obtain ⟨hmem,hq⟩ := List.mem_filter.mp hq
      obtain ⟨hr,hmatch⟩ := List.mem_filter.mp hr'
      rw [List.mem_singleton.mp hr] at hmatch ⊢
      obtain ⟨hid,hstored⟩ := of_decide_eq_true hmatch
      exact habove hid hstored q hmem (of_decide_eq_true hq).1

theorem accepted_copy {u : Loaded} {auth : AuthenticatedCredential}
    (h : authenticate libs cfg u.pending u.store u.req.response = .ok auth) :
    presented u.req.response = .ok (auth.credentialId,auth.newSignCount) ∧
    genuine libs u.req.response u.pending.challenge cfg.rpId cfg.origin
      (lookup u.pending u.store) = true ∧
    ∃ c, u.store.signCount (b64Encode auth.credentialId) = some c ∧
      (c < auth.newSignCount ∨ auth.newSignCount = 0) := by
  have hpassed := mapErr_eq_ok.mp h
  obtain ⟨hpresented,view,hview,-,hcount⟩ := finishAuthenticate_ok hpassed
  obtain ⟨-,c,hc,hsame⟩ := lookup_some hview
  refine ⟨hpresented,genuine_of_ok hpassed,c.signCount,?_,hsame ▸ hcount⟩
  rw [CredentialStore.signCount]
  exact Option.map_eq_some_iff.mpr ⟨c,hc,rfl⟩

/-- An assertion accepted under the condition is above every accepted one and
the stored counter, or it is zero and so is the stored one. -/
theorem accepted_above {u : Loaded} {auth : AuthenticatedCredential} (hs : CountersOk idB64 s)
    (hu : u ∈ s.loaded)
    (hauth : authenticate libs cfg u.pending u.store u.req.response = .ok auth)
    (hok : StepOk libs cfg idB64 s (.authenticate u))
    (hid : b64Encode auth.credentialId = idB64) :
    (auth.newSignCount = 0 ∧ storedCount idB64 s = some 0) ∨
    ((∃ stored, storedCount idB64 s = some stored ∧ stored < auth.newSignCount) ∧
      ∀ r ∈ s.accepted, b64Encode r.credentialId = idB64 → r.signCount < auth.newSignCount) := by
  obtain ⟨hpresented,hgenuine,c,hc,hcount⟩ := accepted_copy hauth
  rw [StepOk, hpresented] at hok
  obtain ⟨hzero,habove⟩ := hok hgenuine hid
  rw [hid] at hc
  rcases hcount with hlt | hz
  · have hall : ∀ r ∈ s.accepted, b64Encode r.credentialId = idB64 →
        r.signCount < auth.newSignCount := by
      intro r hr hrid
      by_contra hnot
      have hshows := habove r hr hrid (UInt32.not_lt.mp hnot)
      rw [shows, hc] at hshows
      exact UInt32.not_le.mpr hlt (of_decide_eq_true hshows)
    refine .inr ⟨?_,hall⟩
    rcases hs.copies u hu c hc with hsame | ⟨r,hr,hrid,hstored⟩
    · exact ⟨c,hsame,hlt⟩
    · exact ⟨r.signCount,hstored,hall r hr hrid⟩
  · exact .inl ⟨hz,hzero hz⟩

theorem rising_accept {u : Loaded} {auth : AuthenticatedCredential} (hs : CountersOk idB64 s)
    (hu : u ∈ s.loaded)
    (hauth : authenticate libs cfg u.pending u.store u.req.response = .ok auth)
    (hok : StepOk libs cfg idB64 s (.authenticate u)) :
    Rising idB64 (s.accepted++[acceptance s auth]) := by
  have hstored : b64Encode auth.credentialId = idB64 →
      (acceptance s auth).stored = storedCount idB64 s := by
    rintro rfl
    rfl
  refine rising_concat hs.rising ?_ ?_
  · intro hid
    rw [hstored hid]
    rcases accepted_above hs hu hauth hok hid with ⟨hz,hzero⟩ | ⟨⟨d,hd,hlt⟩,-⟩
    · exact ⟨0,hzero,.inr ⟨hz,rfl⟩⟩
    · exact ⟨d,hd,.inl hlt⟩
  · intro hid hne
    rw [hstored hid] at hne
    rcases accepted_above hs hu hauth hok hid with ⟨-,hzero⟩ | ⟨-,hall⟩
    · exact absurd hzero hne
    · exact hall

theorem logged_accept {u : Loaded} {auth : AuthenticatedCredential} (hs : CountersOk idB64 s) :
    ∀ v ∈ ({ u with auth := auth } : Accepted)::s.persisting,
      b64Encode v.auth.credentialId = idB64 → ∃ r ∈ s.accepted++[acceptance s auth],
        b64Encode r.credentialId = idB64 ∧ r.signCount = v.auth.newSignCount := by
  refine List.forall_mem_cons.mpr ⟨fun hid => ?_,fun v hv hid => ?_⟩
  · exact ⟨acceptance s auth,List.mem_append_right _ (List.mem_singleton.mpr rfl),hid,rfl⟩
  · obtain ⟨r,hr,hrest⟩ := hs.logged v hv hid
    exact ⟨r,List.mem_append_left _ hr,hrest⟩

theorem countersOk_persist {u : Accepted} {succeeds : Bool} (hs : CountersOk idB64 s)
    (hu : u ∈ s.persisting) : CountersOk idB64 (persist s u succeeds) := by
  refine ⟨hs.rising,?_,fun v hv => hs.logged v (List.mem_of_mem_erase hv)⟩
  have hdisk : storedCount idB64 (persist s u succeeds) = storedCount idB64 s ∨
      b64Encode u.auth.credentialId = idB64 ∧
        storedCount idB64 (persist s u succeeds) = some u.auth.newSignCount := by
    cases succeeds with
    | false => exact .inl rfl
    | true =>
      cases hdisk : s.disk with
      | none => exact .inl (by simp [storedCount, persist, hdisk])
      | some store =>
        have hcount := signCount_persist u.auth.credentialId idB64 u.auth.newSignCount store
        simpa [storedCount, persist, hdisk] using hcount
  intro v hv c hc
  rcases hdisk with hsame | ⟨hid,hnew⟩
  · rw [hsame]
    exact hs.copies v hv c hc
  · obtain ⟨r,hr,hrid,hcount⟩ := hs.logged u hu hid
    exact .inr ⟨r,hr,hrid,by rw [hnew, hcount]⟩

theorem countersOk_step (hs : CountersOk idB64 s)
    (hok : Persisted idB64 s a ∧ StepOk libs cfg idB64 s a) (h : step libs cfg s a = some t) :
    CountersOk idB64 t := by
  have hcopies : ∀ {b : Acceptance}, ∀ u ∈ s.loaded, ∀ c, u.store.signCount idB64 = some c →
      storedCount idB64 s = some c ∨ ∃ r ∈ s.accepted++[b],
        b64Encode r.credentialId = idB64 ∧ storedCount idB64 s = some r.signCount := by
    intro b u hu c hc
    rcases hs.copies u hu c hc with hsame | ⟨r,hr,hrest⟩
    · exact .inl hsame
    · exact .inr ⟨r,List.mem_append_left _ hr,hrest⟩
  cases effect_of_step h with
  | changeStore disk =>
    refine ⟨hs.rising,fun u hu c hc => ?_,hs.logged⟩
    rw [show storedCount idB64 { s with disk := disk } = storedCount idB64 s from hok.1]
    exact hs.copies u hu c hc
  | loaded u store hu hdisk =>
    refine ⟨hs.rising,List.forall_mem_cons.mpr ⟨fun c hc => .inl ?_,hs.copies⟩,hs.logged⟩
    change s.disk.bind _ = some c
    rw [hdisk]
    exact hc
  | refused u hu =>
    exact ⟨hs.rising,fun v hv => hs.copies v (List.mem_of_mem_erase hv),hs.logged⟩
  | advanced u auth hu hauth hadvanced =>
    exact ⟨rising_accept hs hu hauth hok.2,fun v hv => hcopies v (List.mem_of_mem_erase hv),
      logged_accept hs⟩
  | passed u auth hu hauth hadvanced =>
    refine ⟨rising_accept hs hu hauth hok.2,fun v hv => hcopies v (List.mem_of_mem_erase hv),
      fun v hv hid => ?_⟩
    obtain ⟨r,hr,hrest⟩ := hs.logged v hv hid
    exact ⟨r,List.mem_append_left _ hr,hrest⟩
  | persist u succeeds hu => exact countersOk_persist hs hu
  | _ => exact ⟨hs.rising,hs.copies,hs.logged⟩

end Steps

/-- In every run whose updates are persisted and whose assertions meet the
condition, the accepted counters of the credential rise. -/
theorem counters_rise (libs : Libs) (cfg : Config) (idB64 : Bytes) (now : ℕ)
    (disk : Option CredentialStore) (as : List Act) (s : Hub)
    (hpersisted : Along (step libs cfg) (Persisted idB64) (Hub.start now disk) as)
    (hok : Along (step libs cfg) (StepOk libs cfg idB64) (Hub.start now disk) as)
    (hrun : run (step libs cfg) (Hub.start now disk) as = some s) : Rising idB64 s.accepted := by
  have hstart : CountersOk idB64 (Hub.start now disk) := by
    refine ⟨⟨?_,?_⟩,?_,?_⟩ <;> simp [Hub.start]
  have hboth := along_and (step libs cfg) hpersisted hok
  exact (run_along (step libs cfg) (fun _ _ _ hs hok h => countersOk_step hs hok h) hstart hboth
    hrun).rising

section Sample

def inSequence : List Act :=
  begun 1 7++[.authenticate (loadedOf 1 7 3),.persist (acceptedOf 1 7 3) true]++
    begun 2 8++[.authenticate (loadedOf 2 8 7)]

theorem sequence_rises :
    ∃ s, run (step libs config) (Hub.start 0 (some (credentials 3))) inSequence = some s ∧
      s.accepted.map (·.signCount) = [7,8] ∧ Rising (b64Encode keyId) s.accepted := by
  have hpersisted : Along (step libs config) (Persisted (b64Encode keyId))
      (Hub.start 0 (some (credentials 3))) inSequence := by
    decide +kernel
  have hok : Along (step libs config) (StepOk libs config (b64Encode keyId))
      (Hub.start 0 (some (credentials 3))) inSequence := by
    decide +kernel
  have hfacts : ((run (step libs config) (Hub.start 0 (some (credentials 3))) inSequence).map
      fun s => s.accepted.map (·.signCount)) = some [7,8] := by
    decide +kernel
  obtain ⟨s,hrun,hcounts⟩ := Option.map_eq_some_iff.mp hfacts
  exact ⟨s,hrun,hcounts,counters_rise libs config (b64Encode keyId) 0 (some (credentials 3))
    inSequence s hpersisted hok hrun⟩

/-- Two logins that both load the store before the first is persisted. -/
def overlapping : List Act :=
  begun 1 7++begun 2 7++[.authenticate (loadedOf 1 7 3),.persist (acceptedOf 1 7 3) true,
    .authenticate (loadedOf 2 7 3),.persist (acceptedOf 2 7 3) true]

def reset : List Act := begun 1 0++[.authenticate (loadedOf 1 0 3)]

theorem repeated_and_zero_accepted :
    (∃ s, run (step libs config) (Hub.start 0 (some (credentials 3))) overlapping = some s ∧
      Along (step libs config) (Persisted (b64Encode keyId)) (Hub.start 0 (some (credentials 3)))
        overlapping ∧ ¬Rising (b64Encode keyId) s.accepted) ∧
    ∃ s, run (step libs config) (Hub.start 0 (some (credentials 3))) reset = some s ∧
      Along (step libs config) (Persisted (b64Encode keyId)) (Hub.start 0 (some (credentials 3)))
        reset ∧ ¬Rising (b64Encode keyId) s.accepted := by
  have hoverlap : ((run (step libs config) (Hub.start 0 (some (credentials 3))) overlapping).map
      (·.accepted)) = some [⟨keyId,7,some 3⟩,⟨keyId,7,some 7⟩] := by
    decide +kernel
  have hreset : ((run (step libs config) (Hub.start 0 (some (credentials 3))) reset).map
      (·.accepted)) = some [⟨keyId,0,some 3⟩] := by
    decide +kernel
  obtain ⟨s,hs,hsaccepted⟩ := Option.map_eq_some_iff.mp hoverlap
  obtain ⟨t,ht,htaccepted⟩ := Option.map_eq_some_iff.mp hreset
  refine ⟨⟨s,hs,by decide +kernel,fun h => ?_⟩,t,ht,by decide +kernel,fun h => ?_⟩
  · have hinc := h.increasing
    rw [hsaccepted] at hinc
    exact absurd hinc (by decide +kernel)
  · obtain ⟨d,hd,hcount⟩ := h.beats ⟨keyId,0,some 3⟩ (by rw [htaccepted]; simp) rfl
    cases hd
    exact absurd hcount (by decide)

end Sample

end Term.SignCounters
