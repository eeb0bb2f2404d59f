import TermMux.AsciiText
import TermMux.CredStore
import TermMux.LockedFile
import TermMux.Utf8Text

/-!
# The credential file shared by the hub and its administrator

`persist_counter_update`, `cmd_add` and `cmd_remove` as parties of one locked
file, with the unlocked loads of the login handlers and of `cmd_list`. A party
takes the lock on `credentials.json.lock`, loads `credentials.json`, and where
its operation has something to save writes `credentials.json.tmp` and renames
it. Serialization is a parameter.
-/

set_option autoImplicit false

namespace Term.CredFile
open Term.ByteOrder Term.AsciiText Term.Utf8Text Term.Machine Term.CredStore Term.LockedFile

structure Serde where
  toVecPretty : CredentialStore → Bytes
  fromSlice : Bytes → Option CredentialStore

abbrev Files := World CredentialStore Op

def codec (serde : Serde) : Codec CredentialStore := ⟨serde.toVecPretty,serde.fromSlice,default⟩

def step (serde : Serde) : Files → Act Op → Option Files := LockedFile.step (codec serde) Op.save

def load (serde : Serde) (w : Files) : Option CredentialStore :=
  w.disk.load (codec serde) w.disk.file

def signCount (serde : Serde) (w : Files) (idB64 : Bytes) : Option UInt32 :=
  (load serde w).bind (·.signCount idB64)

def inTurn (init : CredentialStore) (ops : List Op) : CredentialStore := serial Op.save init ops

section Counters
variable {serde : Serde} {init : CredentialStore} {u w : Files} {idB64 : Bytes} {m : UInt32}

theorem inTurn_ids_nodup (h : init.ids.Nodup) (ops : List Op) : (inTurn init ops).ids.Nodup :=
  serial_induction (P := fun s => s.ids.Nodup) h (fun _ _ _ hs hsave => save_ids_nodup hs hsave) ops

theorem load_eq (h : FilesOk (codec serde) Op.save init w) :
    load serde w = some (inTurn init w.completedOps) :=
  h.onDisk

theorem signCount_eq (h : FilesOk (codec serde) Op.save init w) :
    signCount serde w idB64 = (inTurn init w.completedOps).signCount idB64 := by
  rw [signCount, load_eq h, Option.bind_some]

theorem exists_of_signCount {s : CredentialStore} (h : s.signCount idB64 = some m) :
    ∃ c ∈ s.credentials, c.credentialIdB64 = idB64 ∧ c.signCount = m := by
  obtain ⟨c,hfind,hm⟩ := Option.map_eq_some_iff.mp h
  exact ⟨c,List.mem_of_find?_eq_some hfind,by simpa using List.find?_some hfind,hm⟩

theorem signCount_step {a : Act Op} {n : UInt32} (hids : init.ids.Nodup) (hlock : LockOk u)
    (hu : FilesOk (codec serde) Op.save init u) (hw : FilesOk (codec serde) Op.save init w)
    (h : step serde u a = some w) (hm : signCount serde u idB64 = some m)
    (hn : signCount serde w idB64 = some n) : m ≤ n := by
  rw [signCount_eq hu] at hm
  rw [signCount_eq hw] at hn
  obtain ⟨c,hc,hcid,rfl⟩ := exists_of_signCount hm
  obtain ⟨d,hd,hdid,rfl⟩ := exists_of_signCount hn
  have hnodup := inTurn_ids_nodup hids u.completedOps
  have hid := hdid.trans hcid.symm
  have hturn : inTurn init w.completedOps = inTurn init u.completedOps ∨
      ∃ op : Op, op.save (inTurn init u.completedOps) = some (inTurn init w.completedOps) :=
    serial_step hlock h
  rcases hturn with hsame | ⟨op,hsave⟩
  · rw [hsame] at hd
    rw [eq_of_id hnodup hc hd hid]
    exact UInt32.le_refl _
  · exact save_signCount_le hnodup hsave hc hd hid

theorem signCount_run {as : List (Act Op)} (hids : init.ids.Nodup) (hlock : LockOk u)
    (hu : FilesOk (codec serde) Op.save init u) (hrun : run (step serde) u as = some w)
    (hserde : ∀ s ∈ w.saves, serde.fromSlice (serde.toVecPretty s) = some s)
    (hpresent : ∀ bs v, bs <+: as → run (step serde) u bs = some v →
      (signCount serde v idB64).isSome)
    (hm : signCount serde u idB64 = some m) : ∃ n, signCount serde w idB64 = some n ∧ m ≤ n := by
  induction as generalizing u m with
  | nil =>
    cases hrun
    exact ⟨m,hm,UInt32.le_refl m⟩
  | cons a as ih =>
    obtain ⟨v,hv,hrest⟩ := (run_cons _).mp hrun
    have hlock' := lockOk_step hlock hv
    have hsaves := run_saves hrest
    have hfiles := filesOk_step hlock hu (fun s hs => hserde s (hsaves s hs)) hv
    have hone : run (step serde) u [a] = some v := (run_cons _).mpr ⟨v,hv,rfl⟩
    obtain ⟨n,hn⟩ := Option.isSome_iff_exists.mp (hpresent [a] v ⟨as,rfl⟩ hone)
    have hle := signCount_step hids hlock hu hfiles hv hm hn
    have hlater : ∀ bs t, bs <+: as → run (step serde) v bs = some t →
        (signCount serde t idB64).isSome := by
      intro bs t hbs ht
      exact hpresent (a::bs) t ((List.cons_prefix_cons).mpr ⟨rfl,hbs⟩)
        ((run_cons _).mpr ⟨v,hv,ht⟩)
    obtain ⟨k,hk,hnk⟩ := ih hlock' hfiles hrest hlater hn
    exact ⟨k,hk,UInt32.le_trans hle hnk⟩

end Counters

/-- The file holds the outcome of the completed operations in the order of the
lock, ids stay unique, the counter of a credential does not fall while the
credential is there, and every load returns the first store or one that a save
put in place. -/
theorem no_lost_update (serde : Serde) (file stale : Option Bytes) (init : CredentialStore)
    (as : List (Act Op)) (w : Files)
    (hinit : load serde (World.start (Disk.ofContents file stale)) = some init)
    (hids : init.ids.Nodup)
    (hrun : run (step serde) (World.start (Disk.ofContents file stale)) as = some w)
    (hserde : ∀ s ∈ w.saves, serde.fromSlice (serde.toVecPretty s) = some s) :
    load serde w = some (inTurn init w.completedOps) ∧
    (inTurn init w.completedOps).ids.Nodup ∧
    (∀ bs cs u idB64 m, as = bs++cs →
      run (step serde) (World.start (Disk.ofContents file stale)) bs = some u →
      (∀ ds v, ds <+: cs → run (step serde) u ds = some v → (signCount serde v idB64).isSome) →
      signCount serde u idB64 = some m → ∃ n, signCount serde w idB64 = some n ∧ m ≤ n) ∧
    ∀ r ∈ w.loads, r = some init ∨ ∃ s ∈ w.saves, r = some s := by
  have hlock : LockOk (World.start (Disk.ofContents file stale) : Files) := lockOk_start _
  have hstart : FilesOk (codec serde) Op.save init
      (World.start (Disk.ofContents file stale)) := filesOk_start hinit
  have hfiles := filesOk_run hlock hstart hserde hrun
  refine ⟨load_eq hfiles.2,inTurn_ids_nodup hids _,?_,?_⟩
  · rintro bs cs u idB64 m rfl hbs hpresent hm
    obtain ⟨u',hu',hcs⟩ := (run_append _).mp hrun
    cases hu'.symm.trans hbs
    have hsaves := run_saves hcs
    have hu := filesOk_run hlock hstart (fun s hs => hserde s (hsaves s hs)) hbs
    exact signCount_run hids hu.1 hu.2 hcs hserde hpresent hm
  · intro r hr
    obtain ⟨s,rfl,hknown⟩ := hfiles.2.loaded r hr
    rcases hknown with rfl | hs
    · exact .inl rfl
    · exact .inr ⟨s,hs,rfl⟩

section Overlap

def renderCredential (c : StoredCredential) : Bytes :=
  asBytes "    \x7b\n      \"label\": \""++c.label++asBytes "\",\n      \"added_at\": \""++
    c.addedAt++asBytes "\",\n      \"credential_id_b64\": \""++c.credentialIdB64++
    asBytes "\",\n      \"credential_public_key_b64\": \""++c.credentialPublicKeyB64++
    asBytes "\",\n      \"sign_count\": "++decimal c.signCount.toNat++asBytes "\n    \x7d"

def renderStore (s : CredentialStore) : Bytes :=
  match s.credentials with
  | [] => asBytes "\x7b\n  \"credentials\": []\n\x7d"
  | c::cs => asBytes "\x7b\n  \"credentials\": [\n"++renderCredential c++
      cs.flatMap (fun d => asBytes ",\n"++renderCredential d)++asBytes "\n  ]\n\x7d"

def key : RegisteredCredential := ⟨[1,2],0x04::List.replicate 64 7,0⟩

def registered (signCount : UInt32) : CredentialStore :=
  ⟨[⟨asBytes "key",asBytes "2024-05-01T00:00:00Z",b64Encode key.credentialId,
    b64Encode key.credentialPublicKey,signCount⟩]⟩

def plainSerde : Serde where
  toVecPretty := renderStore
  fromSlice b := [default,registered 0,registered 5].find? fun s => renderStore s = b

def addKey : Op := .cmdAdd key (asBytes "key") (asBytes "2024-05-01T00:00:00Z")
def countFive : Op := .persistCounterUpdate key.credentialId 5

/-- A handler opens the file before the counter update and reads it while the
update is half written. -/
def overlapping : List (Act Op) :=
  [.spawn addKey,.spawn countFive,.move 0 .lock,.move 0 .openFile,.move 0 .readFile,
    .move 0 .openTmp,.move 0 (.write 1000),.move 0 .rename,.openFile,.move 0 .finish,.move 1 .lock,
    .move 1 .openFile,.move 1 .readFile,.move 1 .openTmp,.move 1 (.write 40),.readFile (some 0),
    .move 1 (.write 1000),.move 1 .rename,.move 1 .finish]

theorem overlap_in_turn :
    ∃ w, run (step plainSerde) (World.start (Disk.ofContents none (some [0x7B]))) overlapping =
      some w ∧ load plainSerde w = some (inTurn default [addKey,countFive]) ∧
      ∀ r ∈ w.loads, r = some default ∨ ∃ s ∈ [registered 5,registered 0], r = some s := by
  have hfacts : ((run (step plainSerde) (World.start (Disk.ofContents none (some [0x7B])))
      overlapping).map fun w => (w.completedOps,w.saves)) =
      some ([addKey,countFive],[registered 5,registered 0]) := by
    decide +kernel
  obtain ⟨w,hrun,hw⟩ := Option.map_eq_some_iff.mp hfacts
  obtain ⟨hops,hsaves⟩ := Prod.mk.inj hw
  have hserde : ∀ s ∈ w.saves, plainSerde.fromSlice (plainSerde.toVecPretty s) = some s := by
    rw [hsaves]
    decide +kernel
  obtain ⟨hload,-,-,hloads⟩ := no_lost_update plainSerde none (some [0x7B]) default overlapping w
    rfl List.nodup_nil hrun hserde
  exact ⟨w,hrun,hops ▸ hload,hsaves ▸ hloads⟩

end Overlap

end Term.CredFile
