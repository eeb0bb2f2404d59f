import TermMux.IssuedCerts
import TermMux.SnapshotReader
import TermMux.TokenCache
import Mathlib.Data.List.TakeWhile

/-!
# Who is admitted while certificates are issued and revoked

The runs of `hub-admin` that rewrite `issued-certs.json` under its lock, and the
hub, which loads the file without the lock at its start and on every turn of
`spawn_issued_certs_reloader` and decides on agents by the copy it has. A load
that fails keeps the copy. Serialization and the certificate libraries are
parameters.
-/

set_option autoImplicit false

namespace Term.CertAdmission
open Term.ByteOrder Term.Utf8Text Term.Outcome Term.Machine Term.LockedFile Term.SnapshotReader
open Term.AgentAuth Term.ClientVerifier Term.IssuedCerts Term.TokenCache

structure Serde where
  toVecPretty : IssuedCertStore → String
  fromStr : String → Option IssuedCertStore

def parse (serde : Serde) (buf : Bytes) : Option IssuedCertStore :=
  (fromUtf8 buf).bind fun text =>
    if trimText text = "" then some default else serde.fromStr text

def codec (serde : Serde) : Codec IssuedCertStore :=
  ⟨fun s => asBytes (serde.toVecPretty s),parse serde,default⟩

/-- The text of the store is not blank and is read back. -/
def RoundTrips (serde : Serde) (s : IssuedCertStore) : Prop :=
  trimText (serde.toVecPretty s) ≠ "" ∧ serde.fromStr (serde.toVecPretty s) = some s

instance (serde : Serde) (s : IssuedCertStore) : Decidable (RoundTrips serde s) :=
  inferInstanceAs (Decidable (_ ∧ _))

abbrev Hub := System IssuedCertStore Op

def step (serde : Serde) : Hub → SnapshotReader.Act Op → Option Hub :=
  SnapshotReader.step (codec serde) Op.save

def start (file stale : Option Bytes) : Hub := System.start (Disk.ofContents file stale)

def load (serde : Serde) (s : Hub) : Option IssuedCertStore :=
  s.files.disk.load (codec serde) s.files.disk.file

def entries (s : IssuedCertStore) : List ClientVerifier.IssuedCert :=
  s.certs.map (·.toIssuedCert)

inductive Attempt where
  | handshake (now : ℕ) (endEntity : Bytes)
  | upgrade (now : ℕ) (h : Headers)
  deriving DecidableEq, Repr

def admits (pki : Pki) (s : IssuedCertStore) : Attempt → Option (Bytes × Bytes)
  | .handshake now endEntity =>
    match verifyClientCert pki (entries s) now endEntity, peerMachineId pki endEntity with
    | .ok (), .ok id => some (id,endEntity)
    | _, _ => none
  | .upgrade now h =>
    match checkUpgrade pki ((entries s).map (·.toIssuedCertEntry)) now h with
    | .ok c => some (c.machineId,c.certDer)
    | _ => none

section Entries
variable {pki : Pki} {s : IssuedCertStore} {now : ℕ} {cert : Bytes}
  {e : IssuedCerts.IssuedCertEntry}

theorem find_entries (fp : Bytes) : ClientVerifier.findByFingerprint (entries s) fp =
    (s.findByFingerprint fp).map (·.toIssuedCert) := by
  rw [ClientVerifier.findByFingerprint, entries, List.find?_map]
  rfl

theorem find_eq_some (hs : s.fingerprints.Nodup) {fp : Bytes} :
    s.findByFingerprint fp = some e ↔ e ∈ s.certs ∧ e.fingerprint = fp := by
  constructor
  · intro h
    exact ⟨List.mem_of_find?_eq_some h,by simpa using List.find?_some h⟩
  · rintro ⟨hmem,rfl⟩
    have hsome : (s.findByFingerprint e.fingerprint).isSome := by
      rw [IssuedCertStore.findByFingerprint, List.find?_isSome]
      exact ⟨e,hmem,by simp⟩
    obtain ⟨d,hd⟩ := Option.isSome_iff_exists.mp hsome
    have hfp : d.fingerprint = e.fingerprint := by simpa using List.find?_some hd
    rw [hd, List.inj_on_of_nodup_map hs (List.mem_of_find?_eq_some hd) hmem hfp]

/-- An entry of the store makes the certificate pass up to its expiry. -/
theorem exists_listed (hs : s.fingerprints.Nodup) {x : ClientVerifier.IssuedCert} :
    Listed pki (entries s) now cert x ↔ ∃ e ∈ s.certs, e.toIssuedCert = x ∧
      pki.verifyChain now cert = .ok () ∧ e.fingerprint = certFingerprint pki cert ∧
      extractMachineIdFromSan pki cert = .ok e.machineId := by
  rw [Listed, find_entries, Option.map_eq_some_iff]
  constructor
  · rintro ⟨hchain,⟨e,hfind,rfl⟩,hsan⟩
    obtain ⟨hmem,hfp⟩ := (find_eq_some hs).mp hfind
    exact ⟨e,hmem,rfl,hchain,hfp,hsan⟩
  · rintro ⟨e,hmem,rfl,hchain,hfp,hsan⟩
    exact ⟨hchain,⟨e,(find_eq_some hs).mpr ⟨hmem,hfp⟩,rfl⟩,hsan⟩

/-- What passes has an entry under its fingerprint that names its machine. -/
theorem entry_of_admits (hs : s.fingerprints.Nodup) {a : Attempt} {id : Bytes}
    (h : admits pki s a = some (id,cert)) :
    ∃ e ∈ s.certs, e.fingerprint = certFingerprint pki cert ∧ e.machineId = id ∧
      (∃ now, pki.verifyChain now cert = .ok ()) ∧ extractMachineIdFromSan pki cert = .ok id := by
  cases a with
  | handshake now endEntity =>
    simp only [admits] at h
    split at h
    · rename_i id' hok hid
      cases h
      obtain ⟨x,hx,-⟩ := verifyClientCert_eq_ok.mp hok
      obtain ⟨e,hmem,-,hchain,hfp,hsan⟩ := (exists_listed hs).mp hx
      rw [peerMachineId, hsan] at hid
      cases hid
      exact ⟨e,hmem,hfp,rfl,⟨now,hchain⟩,hsan⟩
    · cases h
  | upgrade now headers =>
    simp only [admits] at h
    split at h
    · rename_i c hok
      cases h
      rw [checkUpgrade_eq, bind_eq_ok] at hok
      obtain ⟨⟨der,auth⟩,-,hok⟩ := hok
      obtain ⟨id,hcert,hassert⟩ := bind_eq_ok.mp hok
      obtain ⟨x,hx,rfl⟩ := checkCertificate_eq_ok.mp hcert
      obtain ⟨e,hmem,rfl,hchain,hfp,hsan⟩ := (exists_listed hs).mp hx
      simp only [checkAssertion, bind_eq_ok, pure_eq_ok, Prod.exists] at hassert
      obtain ⟨_,_,_,-,_,-,_,-,_,-,rfl⟩ := hassert
      exact ⟨e,hmem,hfp,rfl,⟨now,hchain⟩,hsan⟩
    · cases h

theorem admits_handshake (hs : s.fingerprints.Nodup) {id : Bytes} :
    admits pki s (.handshake now cert) = some (id,cert) ↔ ∃ e ∈ s.certs,
      e.fingerprint = certFingerprint pki cert ∧ e.machineId = id ∧
      pki.verifyChain now cert = .ok () ∧ extractMachineIdFromSan pki cert = .ok id ∧
      ¬Expired now e.toIssuedCert := by
  have hboth : admits pki s (.handshake now cert) = some (id,cert) ↔
      verifyClientCert pki (entries s) now cert = .ok () ∧ peerMachineId pki cert = .ok id := by
    simp only [admits]
    split
    · rename_i id' hok hid
      rw [hok, hid]
      simp
    · rename_i hnot
      simp only [reduceCtorEq, false_iff, not_and]
      exact fun hok hid => hnot _ hok hid
  rw [hboth, verifyClientCert_eq_ok]
  constructor
  · rintro ⟨⟨x,hx,hlive⟩,hid⟩
    obtain ⟨e,hmem,rfl,hchain,hfp,hsan⟩ := (exists_listed hs).mp hx
    rw [peerMachineId, hsan] at hid
    cases hid
    exact ⟨e,hmem,hfp,rfl,hchain,hsan,hlive⟩
  · rintro ⟨e,hmem,hfp,rfl,hchain,hsan,hlive⟩
    exact ⟨⟨_,(exists_listed hs).mpr ⟨e,hmem,rfl,hchain,hfp,hsan⟩,hlive⟩,hsan⟩

end Entries

section Histories
variable {serde : Serde} {file stale : Option Bytes} {init : IssuedCertStore}
  {as : List (SnapshotReader.Act Op)} {s : Hub}

theorem decode_encode {x : IssuedCertStore} (h : RoundTrips serde x) :
    (codec serde).decode ((codec serde).encode x) = some x := by
  change parse serde (asBytes (serde.toVecPretty x)) = some x
  rw [parse, fromUtf8_asBytes, Option.bind_some, if_neg h.1, h.2]

theorem legible (hserde : ∀ x ∈ s.files.saves, RoundTrips serde x) : Legible (codec serde) s :=
  fun x hx => decode_encode (hserde x hx)

theorem copyOk_of_run (hinit : load serde (start file stale) = some init)
    (hrun : run (step serde) (start file stale) as = some s)
    (hserde : ∀ x ∈ s.files.saves, RoundTrips serde x) : CopyOk (codec serde) Op.save init s :=
  copyOk_run (copyOk_start hinit) (legible hserde) hrun

/-- An operation that two cuts of one list both show is the same, or one of the
two comes later. -/
theorem cut_twice {α : Type} {before later before' later' : List α} {x y : α}
    (h : before++x::later = before'++y::later') (hne : x ≠ y) : x ∈ later' ∨ y ∈ later := by
  rcases List.append_eq_append_iff.mp h with ⟨mid,rfl,hmid⟩ | ⟨mid,rfl,hmid⟩
  · cases mid with
    | nil => exact absurd (List.cons.inj hmid).1 hne
    | cons z mid =>
      obtain ⟨rfl,rfl⟩ := List.cons.inj hmid
      exact Or.inr (by simp)
  · cases mid with
    | nil => exact absurd (List.cons.inj hmid).1.symm hne
    | cons z mid =>
      obtain ⟨rfl,rfl⟩ := List.cons.inj hmid
      exact Or.inl (by simp)

/-- What stands after a revocation of its entry was issued behind it. -/
theorem stands_after_revoke {ops more : List Op} {before later : List Op} {target : Target}
    {e : IssuedCerts.IssuedCertEntry} (hstands : Stands init ops e)
    (hops : ops = before++.revokeCert target::later) (hselects : target.selects e = true)
    (hmore : ops <+: more) : ∃ op ∈ more.drop (before.length+1), op.adds = some e := by
  rcases hstands with ⟨-,hall⟩ | ⟨first,op,rest,hcut,hadds,-,hall⟩
  · have hkept : (Op.revokeCert target).removes e = false := hall _ (by simp [hops])
    exact absurd (hkept.symm.trans hselects) Bool.false_ne_true
  · have hne : op ≠ .revokeCert target := by
      rintro rfl
      cases hadds
    obtain ⟨tail,rfl⟩ := hmore
    rcases cut_twice (hcut.symm.trans hops) hne with hlater | hlater
    · refine ⟨op,?_,hadds⟩
      rw [hops, List.append_assoc, List.cons_append, List.drop_append, List.drop_eq_nil_of_le
        (Nat.le_succ _), List.nil_append, Nat.add_sub_cancel_left, List.drop_succ_cons,
        List.drop_zero]
      exact List.mem_append_left _ hlater
    · have hkept : (Op.revokeCert target).removes e = false := hall _ hlater
      exact absurd (hkept.symm.trans hselects) Bool.false_ne_true

/-- A copy shows the entries that stood when its load opened the file. -/
theorem mem_copy {c : Copy IssuedCertStore} {e : IssuedCerts.IssuedCertEntry}
    (hs : CopyOk (codec serde) Op.save init s) (hc : s.copy = some c) :
    e ∈ c.store.certs ↔ Stands init (s.files.completedOps.take c.after) e := by
  rw [hs.copy c hc]
  exact mem_inTurn

theorem copy_fingerprints_nodup {c : Copy IssuedCertStore} (hfps : init.fingerprints.Nodup)
    (hs : CopyOk (codec serde) Op.save init s) (hc : s.copy = some c) :
    c.store.fingerprints.Nodup := by
  rw [hs.copy c hc]
  exact inTurn_fingerprints_nodup hfps _

end Histories

/-- Whatever runs of `hub-admin` overlap and wherever one of them dies, the
file holds the entries that stand after the completed ones, one for each
fingerprint. -/
theorem registry_in_turn (serde : Serde) (file stale : Option Bytes) (init : IssuedCertStore)
    (as : List (SnapshotReader.Act Op)) (s : Hub)
    (hinit : load serde (start file stale) = some init) (hfps : init.fingerprints.Nodup)
    (hrun : run (step serde) (start file stale) as = some s)
    (hserde : ∀ x ∈ s.files.saves, RoundTrips serde x) :
    ∃ store, load serde s = some store ∧ store = inTurn init s.files.completedOps ∧
      store.fingerprints.Nodup ∧ ∀ e, e ∈ store.certs ↔ Stands init s.files.completedOps e := by
  have hok := copyOk_of_run hinit hrun hserde
  exact ⟨_,hok.files.onDisk,rfl,inTurn_fingerprints_nodup hfps _,fun e => mem_inTurn⟩

/-- The hub decides by the entries that stood when the load behind its copy
opened the file: the handshake admits exactly their unexpired certificates, and
an upgrade admits none but theirs. -/
theorem admitted_iff_stands (pki : Pki) (serde : Serde) (file stale : Option Bytes)
    (init : IssuedCertStore) (as : List (SnapshotReader.Act Op)) (s : Hub)
    (hinit : load serde (start file stale) = some init) (hfps : init.fingerprints.Nodup)
    (hrun : run (step serde) (start file stale) as = some s)
    (hserde : ∀ x ∈ s.files.saves, RoundTrips serde x) (c : Copy IssuedCertStore)
    (hcopy : s.copy = some c) :
    c.after ≤ s.files.completedOps.length ∧
    (∀ now cert id, admits pki c.store (.handshake now cert) = some (id,cert) ↔
      ∃ e, Stands init (s.files.completedOps.take c.after) e ∧
        e.fingerprint = certFingerprint pki cert ∧ e.machineId = id ∧
        pki.verifyChain now cert = .ok () ∧ extractMachineIdFromSan pki cert = .ok id ∧
        ¬Expired now e.toIssuedCert) ∧
    ∀ a cert id, admits pki c.store a = some (id,cert) →
      ∃ e, Stands init (s.files.completedOps.take c.after) e ∧
        e.fingerprint = certFingerprint pki cert ∧ e.machineId = id ∧
        (∃ now, pki.verifyChain now cert = .ok ()) ∧
        extractMachineIdFromSan pki cert = .ok id := by
  have hok := copyOk_of_run hinit hrun hserde
  have hnodup := copy_fingerprints_nodup hfps hok hcopy
  refine ⟨hok.bound c hcopy,?_,?_⟩
  · intro now cert id
    rw [admits_handshake hnodup]
    exact exists_congr fun e => and_congr_left' (mem_copy hok hcopy)
  · intro a cert id h
    obtain ⟨e,hmem,hrest⟩ := entry_of_admits hnodup h
    exact ⟨e,(mem_copy hok hcopy).mp hmem,hrest⟩

/-- Once a revocation has completed and the reloader has loaded the file after
it, no agent passes by an entry that it selects, unless that entry was issued
again behind it. -/
theorem revoked_refused (pki : Pki) (serde : Serde) (file stale : Option Bytes)
    (init : IssuedCertStore) (bs ds es : List (SnapshotReader.Act Op)) (u s : Hub)
    (hinit : load serde (start file stale) = some init) (hfps : init.fingerprints.Nodup)
    (hrun : run (step serde) (start file stale) (bs++.openFile::(ds++.readFile false::es)) = some s)
    (hserde : ∀ x ∈ s.files.saves, RoundTrips serde x) (hds : ∀ a ∈ ds, a.isFiles)
    (hu : run (step serde) (start file stale) bs = some u) (before later : List Op)
    (target : Target) (hrevoked : u.files.completedOps = before++.revokeCert target::later)
    (c : Copy IssuedCertStore) (hcopy : s.copy = some c) (a : Attempt) (id cert : Bytes)
    (hpass : admits pki c.store a = some (id,cert)) :
    ∃ e ∈ c.store.certs, e.fingerprint = certFingerprint pki cert ∧ e.machineId = id ∧
      (target.selects e = true →
        ∃ op ∈ s.files.completedOps.drop (before.length+1), op.adds = some e) := by
  have hok := copyOk_of_run hinit hrun hserde
  obtain ⟨hcovers,more,hmore⟩ := covers_reload (copyOk_start hinit) hrun (legible hserde) hds hu
  obtain ⟨e,hmem,hfp,hid,-⟩ := entry_of_admits (copy_fingerprints_nodup hfps hok hcopy) hpass
  refine ⟨e,hmem,hfp,hid,fun hselects => ?_⟩
  have hstands := (mem_copy hok hcopy).mp hmem
  have hlong : u.files.completedOps.length ≤ c.after := hcovers.copy c hcopy
  have hcut : s.files.completedOps.take c.after =
      before++.revokeCert target::(later++more.take (c.after-u.files.completedOps.length)) := by
    rw [← hmore, List.take_append, List.take_of_length_le hlong, hrevoked, List.append_assoc,
      List.cons_append]
  exact stands_after_revoke hstands hcut hselects (List.take_prefix _ _)

section Example

def issueAlpha : Op :=
  .issueCert (asBytes "alpha") ⟨certFingerprint alphaPki [7],asBytes "0a",0⟩ none
    (asBytes "2025-01-01T00:00:00Z")

def revokeAlpha : Op := .revokeCert ⟨none,some (asBytes "alpha")⟩

def withAlpha : IssuedCertStore := inTurn default [issueAlpha]

def alphaText : String :=
  "\x7b\n  \"certs\": [\n    \x7b\n      \"machine_id\": \"alpha\",\n" ++
  "      \"fingerprint\": \"Bw\",\n" ++
  "      \"serial_hex\": \"0a\",\n      \"issued_at\": \"2025-01-01T00:00:00Z\",\n" ++
  "      \"not_after_unix\": 0\n    \x7d\n  ]\n\x7d"

def emptyText : String := "\x7b\n  \"certs\": []\n\x7d"

def plainSerde : Serde where
  toVecPretty s := if s = withAlpha then alphaText else emptyText
  fromStr t :=
    if t = alphaText then some withAlpha else if t = emptyText then some default else none

def whole (i : ℕ) : List (SnapshotReader.Act Op) :=
  [.lock,.openFile,.readFile,.openTmp,.write 1000,.rename,.finish].map fun m => .files (.move i m)

/-- `alpha` is issued and then revoked, while the hub loads the file in between. -/
def beforeReload : List (SnapshotReader.Act Op) :=
  .files (.spawn issueAlpha)::.files (.spawn revokeAlpha)::(whole 0++[.openFile]++whole 1++
    [.readFile false])

def afterReload : List (SnapshotReader.Act Op) :=
  .files (.spawn issueAlpha)::(whole 2++[.openFile,.readFile false])

theorem trimText_ne_empty {s : String} {c : Char} (hc : c ∈ s.toList)
    (h : isWhitespace c = false) : trimText s ≠ "" := by
  intro htrim
  have hnil : (s.toList.dropWhile isWhitespace).reverse.dropWhile isWhitespace = [] := by
    simpa [trimText] using congrArg String.toList htrim
  have hdropped := List.dropWhile_eq_nil_iff.mp hnil
  rw [← List.takeWhile_append_dropWhile (p := isWhitespace) (l := s.toList)] at hc
  rcases List.mem_append.mp hc with htaken | hrest
  · rw [List.mem_takeWhile_imp htaken] at h
    cases h
  · rw [hdropped c (List.mem_reverse.mpr hrest)] at h
    cases h

theorem mem_toList_append {s : String} {c : Char} (hc : c ∈ s.toList) (t : String) :
    c ∈ (s++t).toList := by
  rw [String.toList_append]
  exact List.mem_append_left _ hc

theorem roundTrips_alpha : RoundTrips plainSerde withAlpha := by
  simp only [RoundTrips, plainSerde, if_true, and_true]
  have hopen : '\x7b' ∈ alphaText.toList := by
    unfold alphaText
    apply mem_toList_append
    apply mem_toList_append
    apply mem_toList_append
    decide +kernel
  exact trimText_ne_empty hopen rfl

theorem roundTrips_empty : RoundTrips plainSerde default := by
  decide +kernel

def plainCodec : Codec IssuedCertStore where
  encode := (codec plainSerde).encode
  decode buf :=
    if buf = asBytes alphaText then some withAlpha
    else if buf = asBytes emptyText then some default
    else parse plainSerde buf
  missing := default

theorem codec_plain : codec plainSerde = plainCodec := by
  have hdecode : (codec plainSerde).decode = plainCodec.decode := by
    funext buf
    simp only [plainCodec]
    split_ifs with halpha hempty
    · have htext : asBytes alphaText = (codec plainSerde).encode withAlpha := by
        simp only [codec, plainSerde, if_true]
      rw [halpha, htext]
      exact decode_encode roundTrips_alpha
    · have hne : (default : IssuedCertStore) ≠ withAlpha := by decide
      have htext : asBytes emptyText = (codec plainSerde).encode default := by
        simp only [codec, plainSerde, if_neg hne]
      rw [hempty, htext]
      exact decode_encode roundTrips_empty
    · rfl
  exact congrArg (fun decode => { codec plainSerde with decode := decode }) hdecode

theorem run_of_facts {as : List (SnapshotReader.Act Op)} {ops : List Op}
    {copy : Option (Copy IssuedCertStore)}
    (hfacts : ((run (SnapshotReader.step plainCodec Op.save) (start none none) as).map fun s =>
      (s.files.completedOps,s.copy,s.files.saves.all fun x => x = default ∨ x = withAlpha)) =
        some (ops,copy,true)) :
    ∃ s : Hub, run (step plainSerde) (start none none) as = some s ∧ s.files.completedOps = ops ∧
      s.copy = copy ∧ ∀ x ∈ s.files.saves, RoundTrips plainSerde x := by
  obtain ⟨s,hrun,hs⟩ := Option.map_eq_some_iff.mp hfacts
  simp only [Prod.mk.injEq, List.all_eq_true, decide_eq_true_eq] at hs
  obtain ⟨hops,hcopy,hsaves⟩ := hs
  refine ⟨s,?_,hops,hcopy,fun x hx => ?_⟩
  · rw [step, codec_plain]
    exact hrun
  · rcases hsaves x hx with rfl | rfl
    · exact roundTrips_empty
    · exact roundTrips_alpha

theorem run_beforeReload : ∃ u : Hub,
    run (step plainSerde) (start none none) beforeReload = some u ∧
    u.files.completedOps = [issueAlpha,revokeAlpha] ∧ u.copy = some ⟨withAlpha,1⟩ ∧
    ∀ x ∈ u.files.saves, RoundTrips plainSerde x :=
  run_of_facts (by decide +kernel)

theorem run_afterReload : ∃ s : Hub,
    run (step plainSerde) (start none none)
      (beforeReload++.openFile::([]++.readFile false::afterReload)) = some s ∧
    s.files.completedOps = [issueAlpha,revokeAlpha,issueAlpha] ∧
    s.copy = some ⟨withAlpha,3⟩ ∧ ∀ x ∈ s.files.saves, RoundTrips plainSerde x :=
  run_of_facts (by decide +kernel)

theorem alpha_passes : admits alphaPki withAlpha (.handshake 5 [7]) =
    some (asBytes "alpha",[7]) := by
  decide +kernel

theorem registry_in_turn_alpha : ∃ s : Hub,
    run (step plainSerde) (start none none) beforeReload = some s ∧
    ∃ store, load plainSerde s = some store ∧ store = inTurn default s.files.completedOps ∧
      store.fingerprints.Nodup ∧ ∀ e, e ∈ store.certs ↔ Stands default s.files.completedOps e := by
  obtain ⟨s,hrun,-,-,hserde⟩ := run_beforeReload
  exact ⟨s,hrun,registry_in_turn plainSerde none none default _ s rfl List.nodup_nil hrun hserde⟩

theorem admitted_iff_stands_alpha : ∃ e, Stands default [issueAlpha] e ∧
    e.fingerprint = certFingerprint alphaPki [7] ∧ e.machineId = asBytes "alpha" ∧
    ¬Expired 5 e.toIssuedCert := by
  obtain ⟨s,hrun,hops,hcopy,hserde⟩ := run_beforeReload
  obtain ⟨-,hshake,-⟩ := admitted_iff_stands alphaPki plainSerde none none default _ s rfl
    List.nodup_nil hrun hserde _ hcopy
  obtain ⟨e,hstands,hfp,hid,-,-,hlive⟩ := (hshake 5 [7] (asBytes "alpha")).mp alpha_passes
  rw [hops] at hstands
  exact ⟨e,hstands,hfp,hid,hlive⟩

theorem revoked_refused_alpha : ∃ e ∈ withAlpha.certs,
    e.fingerprint = certFingerprint alphaPki [7] ∧ e.machineId = asBytes "alpha" ∧
    (Target.selects ⟨none,some (asBytes "alpha")⟩ e = true →
      ∃ op ∈ [issueAlpha], op.adds = some e) := by
  obtain ⟨u,hu,huops,-,-⟩ := run_beforeReload
  obtain ⟨s,hrun,hops,hcopy,hserde⟩ := run_afterReload
  obtain ⟨e,hmem,hfp,hid,hagain⟩ := revoked_refused alphaPki plainSerde none none default
    beforeReload [] afterReload u s rfl List.nodup_nil hrun hserde nofun hu [issueAlpha] []
    ⟨none,some (asBytes "alpha")⟩ huops _ hcopy (.handshake 5 [7]) _ _ alpha_passes
  rw [hops] at hagain
  exact ⟨e,hmem,hfp,hid,hagain⟩

end Example

end Term.CertAdmission
