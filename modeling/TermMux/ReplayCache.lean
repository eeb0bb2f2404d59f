import TermMux.AgentAuth
import TermMux.Machine

/-!
# The replay cache of agent assertions

Upgrade attempts, collection passes and the clock as one machine. An attempt is
checked at one time and reaches the cache at a later one, since the cache lock
is awaited in between; a pass computes its cutoff before it takes the lock. The
clock counts nanoseconds: its whole seconds are the wall clock, and `Instant`
reads it in full.

An accepted assertion must not be accepted again. Its entry protects it until a
pass removes the entry; from then on its timestamp must be out of the window
and no attempt that carries it may be waiting for the lock.
-/

set_option autoImplicit false

namespace Term.ReplayCache
open Term.ByteOrder Term.AsciiText Term.AgentAuth Term.Outcome Term.Machine

def nanosPerSec : ℕ := 1000000000
def wsReplayTtlSecs : ℕ := 2*wsAuthSkewSecs

structure Accepted where
  use : Checked
  insertedAt : ℕ
  deriving DecidableEq, Repr

structure Hub where
  /-- Nanoseconds since the Unix epoch. -/
  now : ℕ
  issuedCerts : List IssuedCertEntry
  wsReplay : Cache
  /-- Attempts past every other check, awaiting the cache lock. -/
  waiting : List Checked
  /-- Cutoffs of passes awaiting the cache lock. -/
  cutoffs : List ℕ
  /-- Every assertion accepted so far. -/
  accepted : List Accepted
  deriving DecidableEq, Repr

def Hub.start (now : ℕ) (issuedCerts : List IssuedCertEntry) : Hub :=
  ⟨now,issuedCerts,[],[],[],[]⟩

def unixSecs (now : ℕ) : ℕ := now/nanosPerSec

/-- `Instant::checked_sub`, which fails before the origin of `Instant`. -/
def checkedSub (origin now secs : ℕ) : Option ℕ :=
  if origin+secs*nanosPerSec ≤ now then some (now-secs*nanosPerSec) else none

inductive Act where
  | pass (nanos : ℕ)
  | reload (issuedCerts : List IssuedCertEntry)
  | present (h : Headers)
  | claim (c : Checked)
  | gcBegin
  | gcRetain (cutoff : ℕ)
  deriving DecidableEq, Repr

def present (pki : Pki) (s : Hub) (h : Headers) : Hub :=
  match checkUpgrade pki s.issuedCerts (unixSecs s.now) h with
  | .ok c => { s with waiting := c::s.waiting }
  | _ => s

/-- The block that holds the cache lock. -/
def claim (s : Hub) (c : Checked) : Option Hub :=
  if c ∉ s.waiting then none else
  match claimNonce s.wsReplay c s.now with
  | .ok cache =>
    some { s with
      waiting := s.waiting.erase c
      wsReplay := cache
      accepted := ⟨c,s.now⟩::s.accepted }
  | _ => some { s with waiting := s.waiting.erase c }

def gcBegin (origin : ℕ) (s : Hub) : Hub :=
  { s with cutoffs := (checkedSub origin s.now wsReplayTtlSecs).getD s.now::s.cutoffs }

def gcRetain (s : Hub) (cutoff : ℕ) : Option Hub :=
  if cutoff ∉ s.cutoffs then none else
  some { s with
    cutoffs := s.cutoffs.erase cutoff
    wsReplay := s.wsReplay.filter fun e => cutoff ≤ e.2 }

def step (pki : Pki) (origin : ℕ) (s : Hub) : Act → Option Hub
  | .pass nanos => some { s with now := s.now+nanos }
  | .reload issuedCerts => some { s with issuedCerts := issuedCerts }
  | .present h => some (present pki s h)
  | .claim c => claim s c
  | .gcBegin => some (gcBegin origin s)
  | .gcRetain cutoff => gcRetain s cutoff

def SameAssertion (c d : Checked) : Prop := c.certDer = d.certDer ∧ c.authHeader = d.authHeader

instance (c d : Checked) : Decidable (SameAssertion c d) := inferInstanceAs (Decidable (_ ∧ _))

def expiry (ts : UInt64) : ℕ := (ts.toNat+wsAuthSkewSecs+1)*nanosPerSec

/-- The condition on the steps of a run: a timestamp expires by the time its
entry can be collected, a pass too early for a cutoff finds every accepted
assertion expired, and a pass removes no entry of an assertion that an attempt
awaiting the lock carries again. -/
def StepOk (origin : ℕ) (s : Hub) : Act → Prop
  | .claim c => c.key ∉ s.wsReplay.map Prod.fst →
      expiry c.ts ≤ s.now+wsReplayTtlSecs*nanosPerSec+1
  | .gcBegin => checkedSub origin s.now wsReplayTtlSecs = none →
      ∀ a ∈ s.accepted, expiry a.use.ts ≤ s.now
  | .gcRetain cutoff => ∀ a ∈ s.accepted, a.insertedAt < cutoff →
      ∀ c ∈ s.waiting, ¬SameAssertion c a.use
  | _ => True

instance (origin : ℕ) (s : Hub) (a : Act) : Decidable (StepOk origin s a) :=
  match a with
  | .claim _ => inferInstanceAs (Decidable (_ → _))
  | .gcBegin => inferInstanceAs (Decidable (_ → ∀ a ∈ s.accepted, _))
  | .gcRetain _ => inferInstanceAs (Decidable (∀ a ∈ s.accepted, _ → ∀ c ∈ s.waiting, _))
  | .pass _ | .reload _ | .present _ => isTrue trivial

def Read (pki : Pki) (c : Checked) : Prop :=
  (∃ sig, parseWsAuthHeader c.authHeader = .ok (c.ts,c.nonce,sig)) ∧
    c.fp = certFingerprint pki c.certDer

structure CacheOk (pki : Pki) (s : Hub) : Prop where
  waitingRead : ∀ c ∈ s.waiting, Read pki c
  acceptedRead : ∀ a ∈ s.accepted, Read pki a.use
  expires : ∀ a ∈ s.accepted, expiry a.use.ts ≤ a.insertedAt+wsReplayTtlSecs*nanosPerSec+1
  cutoffPast : ∀ k ∈ s.cutoffs, k ≤ s.now
  cutoffExpired : ∀ k ∈ s.cutoffs, ∀ a ∈ s.accepted, a.insertedAt < k → expiry a.use.ts ≤ s.now
  covered : ∀ a ∈ s.accepted, (a.use.key,a.insertedAt) ∈ s.wsReplay ∨
    expiry a.use.ts ≤ s.now ∧ ∀ c ∈ s.waiting, ¬SameAssertion c a.use
  single : s.accepted.Pairwise fun a b => ¬SameAssertion a.use b.use

theorem sameAssertion_read {pki : Pki} {c d : Checked} (hc : Read pki c) (hd : Read pki d)
    (h : SameAssertion c d) : c.ts = d.ts ∧ c.key = d.key := by
  obtain ⟨⟨sig,hsig⟩,hfp⟩ := hc
  obtain ⟨⟨sig',hsig'⟩,hfp'⟩ := hd
  rw [h.2, hsig'] at hsig
  obtain ⟨hts,hn,-⟩ := by simpa only [ok.injEq, Prod.mk.injEq] using hsig
  rw [h.1] at hfp
  exact ⟨hts.symm,by rw [Checked.key, Checked.key, hfp, hfp', hn]⟩

theorem expiry_le_iff {ts : UInt64} {now : ℕ} :
    expiry ts ≤ now ↔ ts.toNat+wsAuthSkewSecs < unixSecs now := by
  rw [expiry, unixSecs, ← Nat.le_div_iff_mul_le (by simp [nanosPerSec])]
  rfl

theorem start_ok (pki : Pki) (now : ℕ) (issuedCerts : List IssuedCertEntry) :
    CacheOk pki (Hub.start now issuedCerts) := by
  constructor <;> simp [Hub.start]

theorem pass_ok {pki : Pki} {s : Hub} (hs : CacheOk pki s) (nanos : ℕ) :
    CacheOk pki { s with now := s.now+nanos } :=
  { hs with
    cutoffPast := fun k hk => le_trans (hs.cutoffPast k hk) (Nat.le_add_right _ _)
    cutoffExpired := fun k hk a ha hlt =>
      le_trans (hs.cutoffExpired k hk a ha hlt) (Nat.le_add_right _ _)
    covered := fun a ha => (hs.covered a ha).imp_right fun h =>
      ⟨le_trans h.1 (Nat.le_add_right _ _),h.2⟩ }

theorem present_ok {pki : Pki} {s : Hub} (hs : CacheOk pki s) (h : Headers) :
    CacheOk pki (present pki s h) := by
  unfold present
  split
  · rename_i c hc
    obtain ⟨hparse,hfp,hnow⟩ := checkUpgrade_ok hc
    have hread : Read pki c := ⟨hparse,hfp⟩
    refine { hs with waitingRead := ?_, covered := ?_ }
    · simpa only [List.forall_mem_cons] using ⟨hread,hs.waitingRead⟩
    · intro a ha
      refine (hs.covered a ha).imp_right fun hexp => ⟨hexp.1,?_⟩
      simp only [List.forall_mem_cons]
      refine ⟨fun hsame => ?_,hexp.2⟩
      have hlate := expiry_le_iff.mp hexp.1
      rw [← (sameAssertion_read hread (hs.acceptedRead a ha) hsame).1] at hlate
      omega
  · exact hs

/-- An accepted assertion that an attempt carries again is still in the cache. -/
theorem claim_ok {pki : Pki} {origin : ℕ} {s t : Hub} {c : Checked} (hs : CacheOk pki s)
    (hok : StepOk origin s (.claim c)) (h : claim s c = some t) : CacheOk pki t := by
  unfold claim at h
  split_ifs at h with hmem
  split at h
  · rename_i cache hcache
    obtain ⟨hkey,rfl⟩ := claimNonce_eq_ok.mp hcache
    cases h
    have hread := hs.waitingRead c hmem
    have hnew : ∀ a ∈ s.accepted, ¬SameAssertion c a.use := by
      intro a ha hsame
      rcases hs.covered a ha with hin | hexp
      · rw [← (sameAssertion_read hread (hs.acceptedRead a ha) hsame).2] at hin
        exact hkey (List.mem_map.mpr ⟨_,hin,rfl⟩)
      · exact hexp.2 c hmem hsame
    constructor
    · exact fun d hd => hs.waitingRead d (List.mem_of_mem_erase hd)
    · simpa only [List.forall_mem_cons] using ⟨hread,hs.acceptedRead⟩
    · simpa only [List.forall_mem_cons] using ⟨hok hkey,hs.expires⟩
    · exact hs.cutoffPast
    · intro k hk
      simp only [List.forall_mem_cons]
      have := hs.cutoffPast k hk
      exact ⟨fun hlt => by omega,hs.cutoffExpired k hk⟩
    · simp only [List.forall_mem_cons]
      refine ⟨Or.inl List.mem_cons_self,fun a ha => ?_⟩
      exact (hs.covered a ha).imp (List.mem_cons_of_mem _) fun hexp =>
        ⟨hexp.1,fun d hd => hexp.2 d (List.mem_of_mem_erase hd)⟩
    · exact List.pairwise_cons.mpr ⟨hnew,hs.single⟩
  · cases h
    refine { hs with waitingRead := ?_, covered := ?_ }
    · exact fun d hd => hs.waitingRead d (List.mem_of_mem_erase hd)
    · exact fun a ha => (hs.covered a ha).imp_right fun hexp =>
        ⟨hexp.1,fun d hd => hexp.2 d (List.mem_of_mem_erase hd)⟩

theorem checkedSub_eq_some {origin now secs k : ℕ} (h : checkedSub origin now secs = some k) :
    k+secs*nanosPerSec = now := by
  unfold checkedSub at h
  split_ifs at h with hle
  have hk := Option.some.inj h
  omega

/-- What lies before a cutoff has expired when the cutoff is computed. -/
theorem gcBegin_ok {pki : Pki} {origin : ℕ} {s : Hub} (hs : CacheOk pki s)
    (hok : StepOk origin s .gcBegin) : CacheOk pki (gcBegin origin s) := by
  unfold gcBegin
  refine { hs with cutoffPast := ?_, cutoffExpired := ?_ }
  · simp only [List.forall_mem_cons]
    refine ⟨?_,hs.cutoffPast⟩
    cases hsub : checkedSub origin s.now wsReplayTtlSecs with
    | none => exact le_refl _
    | some k =>
      have := checkedSub_eq_some hsub
      rw [Option.getD_some]
      omega
  · simp only [List.forall_mem_cons]
    refine ⟨fun a ha hlt => ?_,hs.cutoffExpired⟩
    cases hsub : checkedSub origin s.now wsReplayTtlSecs with
    | none => exact hok hsub a ha
    | some k =>
      have hexp := hs.expires a ha
      have hk := checkedSub_eq_some hsub
      rw [hsub, Option.getD_some] at hlt
      omega

theorem gcRetain_ok {pki : Pki} {origin : ℕ} {s t : Hub} {cutoff : ℕ} (hs : CacheOk pki s)
    (hok : StepOk origin s (.gcRetain cutoff)) (h : gcRetain s cutoff = some t) :
    CacheOk pki t := by
  unfold gcRetain at h
  split_ifs at h with hmem
  cases h
  refine { hs with cutoffPast := ?_, cutoffExpired := ?_, covered := ?_ }
  · exact fun k hk => hs.cutoffPast k (List.mem_of_mem_erase hk)
  · exact fun k hk => hs.cutoffExpired k (List.mem_of_mem_erase hk)
  · intro a ha
    by_cases hlt : a.insertedAt < cutoff
    · exact Or.inr ⟨hs.cutoffExpired cutoff hmem a ha hlt,hok a ha hlt⟩
    · refine (hs.covered a ha).imp_left fun hin => List.mem_filter.mpr ⟨hin,?_⟩
      simpa using hlt

theorem step_ok (pki : Pki) (origin : ℕ) (s : Hub) (a : Act) (t : Hub) (hs : CacheOk pki s)
    (hok : StepOk origin s a) (h : step pki origin s a = some t) : CacheOk pki t := by
  cases a with
  | pass nanos =>
    cases h
    exact pass_ok hs nanos
  | reload issuedCerts =>
    cases h
    exact { hs with }
  | present hd =>
    cases h
    exact present_ok hs hd
  | claim c => exact claim_ok hs hok h
  | gcBegin =>
    cases h
    exact gcBegin_ok hs hok
  | gcRetain cutoff => exact gcRetain_ok hs hok h

/-- In every run whose steps meet the condition no assertion is accepted twice,
and one whose entry is gone is rejected by its timestamp. -/
theorem assertions_single_use (pki : Pki) (origin now : ℕ) (issuedCerts : List IssuedCertEntry)
    (acts : List Act) (s : Hub) (hrun : run (step pki origin) (Hub.start now issuedCerts) acts = some s)
    (hok : Along (step pki origin) (StepOk origin) (Hub.start now issuedCerts) acts) :
    (s.accepted.Pairwise fun a b => ¬SameAssertion a.use b.use) ∧
      ∀ a ∈ s.accepted, a.use.key ∉ s.wsReplay.map Prod.fst →
        checkWsAuthTimestamp (unixSecs s.now) a.use.ts ≠ .ok () := by
  have hs := run_along _ (step_ok pki origin) (start_ok pki now issuedCerts) hok hrun
  refine ⟨hs.single,fun a ha hkey hts => ?_⟩
  rcases hs.covered a ha with hin | hexp
  · exact hkey (List.mem_map.mpr ⟨_,hin,rfl⟩)
  · have hlate := expiry_le_iff.mp hexp.1
    have hnow := (checkWsAuthTimestamp_eq_ok.mp hts).1
    omega

def alphaPki : Pki where
  verifyChain _ _ := .ok ()
  sha256 _ := List.replicate 32 0x07
  subjectUris _ := .ok [machineUrn++[0x61,0x6C,0x70,0x68,0x61]]
  verifySignature _ _ _ := .ok ()

def alphaUse (ts : UInt64) : Checked where
  machineId := [0x61,0x6C,0x70,0x68,0x61]
  certDer := [0x30,0x01,0x00]
  authHeader := decimal ts.toNat++dot::(b64Encode (List.replicate 16 0x01)++
    dot::b64Encode (List.replicate 64 0x02))
  fp := b64Encode (List.replicate 32 0x07)
  ts := ts
  nonce := List.replicate 16 0x01

def alphaHeaders (ts : UInt64) : Headers where
  cert := some (b64Encode [0x30,0x01,0x00])
  auth := some (alphaUse ts).authHeader
  host := some [0x68,0x75,0x62]

def alphaStore : List IssuedCertEntry := [⟨(alphaUse 0).machineId,(alphaUse 0).fp⟩]

def presentTwice (ts : UInt64) (gap cutoff : ℕ) : List Act :=
  [.present (alphaHeaders ts),.claim (alphaUse ts),.pass gap,.gcBegin,.gcRetain cutoff,
    .present (alphaHeaders ts)]

theorem assertions_single_use_alpha : ∃ s,
    run (step alphaPki 0) (Hub.start 1000000500000000 alphaStore)
      (presentTwice 1000299 600400000000 1000000900000000) = some s ∧
    s.accepted.length = 1 ∧ s.wsReplay = [] ∧
    (s.accepted.Pairwise fun a b => ¬SameAssertion a.use b.use) ∧
      ∀ a ∈ s.accepted, a.use.key ∉ s.wsReplay.map Prod.fst →
        checkWsAuthTimestamp (unixSecs s.now) a.use.ts ≠ .ok () := by
  refine ⟨⟨1000600900000000,alphaStore,[],[],[],[⟨alphaUse 1000299,1000000500000000⟩]⟩,
    by decide +kernel,rfl,rfl,?_⟩
  exact assertions_single_use alphaPki 0 1000000500000000 alphaStore
    (presentTwice 1000299 600400000000 1000000900000000) _ (by decide +kernel) (by decide +kernel)

/-- A timestamp 300 seconds ahead of the hub's clock: its entry is collected
600.4 seconds later, in the last second in which it is still in the window. -/
theorem assertion_accepted_twice : ∃ s,
    run (step alphaPki 0) (Hub.start 1000000500000000 alphaStore)
      (presentTwice 1000300 600400000000 1000000900000000++[.claim (alphaUse 1000300)]) = some s ∧
    ¬s.accepted.Pairwise fun a b => ¬SameAssertion a.use b.use := by
  refine ⟨⟨1000600900000000,alphaStore,[((alphaUse 1000300).key,1000600900000000)],[],[],
    [⟨alphaUse 1000300,1000600900000000⟩,⟨alphaUse 1000300,1000000500000000⟩]⟩,
    by decide +kernel,?_⟩
  simp [SameAssertion]

end Term.ReplayCache
