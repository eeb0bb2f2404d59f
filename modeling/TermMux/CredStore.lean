import TermMux.Base64
import TermMux.Outcome

/-!
# The credential store and its three writers

The content of `credentials.json` and the read-modify-write operations on it:
the hub's counter update after a login, and the two `hub-admin` commands. Each
takes the store it loaded and says what to save. Text is its bytes. What an
operation does to the credentials is stated once, as the ways a credential of
the result can arise.
-/

set_option autoImplicit false

namespace Term.CredStore
open Term.ByteOrder Term.Outcome

def sec1UncompressedLen : ℕ := 65

structure StoredCredential where
  label : Bytes
  addedAt : Bytes
  credentialIdB64 : Bytes
  credentialPublicKeyB64 : Bytes
  signCount : UInt32
  deriving DecidableEq, Repr

structure CredentialStore where
  credentials : List StoredCredential
  deriving DecidableEq, Repr

instance : Inhabited CredentialStore := ⟨⟨[]⟩⟩

inductive StoreError where
  | base64
  | wrongPubkeyLen (len : ℕ)
  deriving DecidableEq, Repr

def b64Encode (b : Bytes) : Bytes := Base64.encode Base64.standard b
def b64Decode (t : Bytes) : Option Bytes := Base64.decode Base64.standard t

def StoredCredential.credentialId (c : StoredCredential) : Outcome StoreError Bytes :=
  orElse (b64Decode c.credentialIdB64) .base64

def StoredCredential.credentialPublicKey (c : StoredCredential) : Outcome StoreError Bytes := do
  let v ← orElse (b64Decode c.credentialPublicKeyB64) .base64
  rejectIf (v.length ≠ sec1UncompressedLen) (.wrongPubkeyLen v.length)
  return v

def CredentialStore.findById (s : CredentialStore) (id : Bytes) : Option StoredCredential :=
  s.credentials.find? fun c => c.credentialIdB64 = b64Encode id

structure RegisteredCredential where
  credentialId : Bytes
  credentialPublicKey : Bytes
  signCount : UInt32
  deriving DecidableEq, Repr

inductive AdminError where
  | alreadyRegistered (credIdB64 : Bytes)
  | ambiguous (target : Bytes) (matching : ℕ)
  | noMatch (target : Bytes)
  deriving DecidableEq, Repr

/-- `find_by_id_mut` and the update of what it found. -/
def bump (target : Bytes) (newSignCount : UInt32) :
    List StoredCredential → Option (List StoredCredential)
  | [] => none
  | c::cs =>
    if c.credentialIdB64 = target then
      if c.signCount < newSignCount then some ({ c with signCount := newSignCount }::cs) else none
    else (bump target newSignCount cs).map (c::·)

/-- The store to save, `none` when there is nothing to save. -/
def persistCounterUpdate (credId : Bytes) (newSignCount : UInt32) (s : CredentialStore) :
    Outcome AdminError (Option CredentialStore) :=
  .ok ((bump (b64Encode credId) newSignCount s.credentials).map CredentialStore.mk)

def cmdAdd (r : RegisteredCredential) (label addedAt : Bytes) (s : CredentialStore) :
    Outcome AdminError (Option CredentialStore) := do
  let credIdB64 := b64Encode r.credentialId
  let pubkeyB64 := b64Encode r.credentialPublicKey
  rejectIf (s.credentials.any fun c => c.credentialIdB64 = credIdB64) (.alreadyRegistered credIdB64)
  return some ⟨s.credentials++[⟨label,addedAt,credIdB64,pubkeyB64,r.signCount⟩]⟩

def exactMatch (target : Bytes) (c : StoredCredential) : Bool :=
  c.label = target ∨ c.credentialIdB64 = target

def idStarts (target : Bytes) (c : StoredCredential) : Bool := target.isPrefixOf c.credentialIdB64

def remaining (target : Bytes) (cs : List StoredCredential) :
    Outcome AdminError (List StoredCredential) :=
  if 0 < (cs.filter (exactMatch target)).length then .ok (cs.filter fun c => !exactMatch target c)
  else
    let prefixed := (cs.filter (idStarts target)).length
    if 1 < prefixed then .err (.ambiguous target prefixed)
    else .ok (cs.filter fun c => !idStarts target c)

def cmdRemove (target : Bytes) (s : CredentialStore) :
    Outcome AdminError (Option CredentialStore) := do
  let kept ← remaining target s.credentials
  let removed := s.credentials.length-kept.length
  rejectIf (removed = 0) (.noMatch target)
  return some ⟨kept⟩

inductive Op where
  | persistCounterUpdate (credId : Bytes) (newSignCount : UInt32)
  | cmdAdd (r : RegisteredCredential) (label addedAt : Bytes)
  | cmdRemove (target : Bytes)
  deriving DecidableEq, Repr

def Op.run : Op → CredentialStore → Outcome AdminError (Option CredentialStore)
  | .persistCounterUpdate credId n, s => CredStore.persistCounterUpdate credId n s
  | .cmdAdd r label addedAt, s => CredStore.cmdAdd r label addedAt s
  | .cmdRemove target, s => CredStore.cmdRemove target s

def Op.save (op : Op) (s : CredentialStore) : Option CredentialStore :=
  match op.run s with
  | .ok t => t
  | _ => none

def CredentialStore.ids (s : CredentialStore) : List Bytes :=
  s.credentials.map (·.credentialIdB64)

def CredentialStore.signCount (s : CredentialStore) (idB64 : Bytes) : Option UInt32 :=
  (s.credentials.find? fun c => c.credentialIdB64 = idB64).map (·.signCount)

section Operations
variable {s t : CredentialStore} {op : Op} {c c' : StoredCredential} {cs : List StoredCredential}
  {target : Bytes} {n : UInt32}

theorem bump_ids {ds : List StoredCredential} (h : bump target n cs = some ds) :
    ds.map (·.credentialIdB64) = cs.map (·.credentialIdB64) := by
  induction cs generalizing ds with
  | nil => cases h
  | cons c cs ih =>
    rw [bump] at h
    split_ifs at h with hid hlt
    · cases h
      rfl
    · obtain ⟨es,hes,rfl⟩ := Option.map_eq_some_iff.mp h
      rw [List.map_cons, List.map_cons, ih hes]

theorem mem_bump {ds : List StoredCredential} (h : bump target n cs = some ds) (hc : c ∈ ds) :
    c ∈ cs ∨ ∃ d ∈ cs, d.signCount < n ∧ c = { d with signCount := n } := by
  induction cs generalizing ds with
  | nil => cases h
  | cons d cs ih =>
    rw [bump] at h
    split_ifs at h with hid hlt
    · cases h
      rcases List.mem_cons.mp hc with rfl | hc
      · exact .inr ⟨d,List.mem_cons_self,hlt,rfl⟩
      · exact .inl (List.mem_cons_of_mem _ hc)
    · obtain ⟨es,hes,rfl⟩ := Option.map_eq_some_iff.mp h
      rcases List.mem_cons.mp hc with rfl | hc
      · exact .inl List.mem_cons_self
      · rcases ih hes hc with hold | ⟨e,he,hlt,rfl⟩
        · exact .inl (List.mem_cons_of_mem _ hold)
        · exact .inr ⟨e,List.mem_cons_of_mem _ he,hlt,rfl⟩

theorem remaining_sublist {ds : List StoredCredential} (h : remaining target cs = .ok ds) :
    ds.Sublist cs := by
  simp only [remaining] at h
  split_ifs at h <;> cases h <;> exact List.filter_sublist

/-- The three ways an operation changes the store: it raises one counter, adds
a credential under a new id, or removes some. -/
theorem run_cases (h : op.run s = .ok (some t)) :
    (∃ target n, bump target n s.credentials = some t.credentials) ∨
    (∃ d, d.credentialIdB64 ∉ s.ids ∧ t.credentials = s.credentials++[d]) ∨
    t.credentials.Sublist s.credentials := by
  cases op with
  | persistCounterUpdate credId n =>
    obtain ⟨ds,hds,rfl⟩ := Option.map_eq_some_iff.mp (Outcome.ok.inj h)
    exact .inl ⟨_,_,hds⟩
  | cmdAdd r label addedAt =>
    obtain ⟨u,hnew,ht⟩ := bind_eq_ok.mp h
    rw [rejectIf_eq_ok] at hnew
    rw [pure_eq_ok, Option.some.injEq] at ht
    subst ht
    refine .inr (.inl ⟨_,?_,rfl⟩)
    simpa [CredentialStore.ids] using hnew
  | cmdRemove target =>
    obtain ⟨kept,hkept,hrest⟩ := bind_eq_ok.mp h
    obtain ⟨-,-,ht⟩ := bind_eq_ok.mp hrest
    rw [pure_eq_ok, Option.some.injEq] at ht
    subst ht
    exact .inr (.inr (remaining_sublist hkept))

theorem save_eq_some : op.save s = some t ↔ op.run s = .ok (some t) := by
  rw [Op.save]
  cases op.run s <;> simp

theorem save_ids_nodup (h : s.ids.Nodup) (hsave : op.save s = some t) : t.ids.Nodup := by
  rcases run_cases (save_eq_some.mp hsave) with ⟨target,n,hbump⟩ | ⟨d,hnew,hpush⟩ | hsub
  · rwa [CredentialStore.ids, bump_ids hbump]
  · rw [CredentialStore.ids, hpush, List.map_append]
    refine List.nodup_append.mpr ⟨h,List.nodup_singleton _,fun a ha b hb hab => ?_⟩
    rw [hab, List.mem_singleton.mp hb] at ha
    exact hnew ha
  · exact h.sublist (hsub.map _)

theorem eq_of_id (h : s.ids.Nodup) (hc : c ∈ s.credentials) (hc' : c' ∈ s.credentials)
    (hid : c'.credentialIdB64 = c.credentialIdB64) : c' = c :=
  List.inj_on_of_nodup_map h hc' hc hid

/-- No operation lowers the counter of a credential it leaves in the store. -/
theorem save_signCount_le (h : s.ids.Nodup) (hsave : op.save s = some t) (hc : c ∈ s.credentials)
    (hc' : c' ∈ t.credentials) (hid : c'.credentialIdB64 = c.credentialIdB64) :
    c.signCount ≤ c'.signCount := by
  have hold : c' ∈ s.credentials → c.signCount ≤ c'.signCount := by
    intro hmem
    rw [eq_of_id h hc hmem hid]
    exact UInt32.le_refl _
  rcases run_cases (save_eq_some.mp hsave) with ⟨target,n,hbump⟩ | ⟨d,hnew,hpush⟩ | hsub
  · rcases mem_bump hbump hc' with hmem | ⟨d,hd,hlt,rfl⟩
    · exact hold hmem
    · rw [← eq_of_id h hc hd hid]
      exact UInt32.le_of_lt hlt
  · rw [hpush] at hc'
    rcases List.mem_append.mp hc' with hmem | hd
    · exact hold hmem
    · rw [List.mem_singleton.mp hd] at hid
      exact absurd (hid ▸ List.mem_map_of_mem hc) hnew
  · exact hold (hsub.subset hc')

theorem find_bump {ds : List StoredCredential} {k : Bytes} (h : bump target n cs = some ds) :
    (ds.find? fun c => c.credentialIdB64 = k).map (·.signCount) =
      (if target = k then some n else
        (cs.find? fun c => c.credentialIdB64 = k).map (·.signCount)) := by
  induction cs generalizing ds with
  | nil => cases h
  | cons d cs ih =>
    rw [bump] at h
    split_ifs at h with hid hlt
    · cases h
      subst hid
      by_cases hk : d.credentialIdB64 = k <;> simp [hk]
    · obtain ⟨es,hes,rfl⟩ := Option.map_eq_some_iff.mp h
      have htail := ih hes
      by_cases hk : d.credentialIdB64 = k
      · have hne : target ≠ k := fun heq => hid (hk.trans heq.symm)
        simp [hk, hne]
      · simpa [List.find?_cons, hk] using htail

theorem signCount_persist (credId k : Bytes) (n : UInt32) (s : CredentialStore) :
    let t := ((Op.persistCounterUpdate credId n).save s).getD s
    t.signCount k = s.signCount k ∨ b64Encode credId = k ∧ t.signCount k = some n := by
  simp only [Op.save, Op.run, CredStore.persistCounterUpdate]
  cases hbump : bump (b64Encode credId) n s.credentials with
  | none => exact .inl rfl
  | some ds =>
    have hfind := find_bump (k := k) hbump
    split_ifs at hfind with hk
    · exact .inr ⟨hk,hfind⟩
    · exact .inl hfind

/-- The credential is the old one, with a counter that may have been raised. -/
def Keeps (old new : StoredCredential) : Prop :=
  old.signCount ≤ new.signCount ∧ new = { old with signCount := new.signCount }

theorem keeps_refl (c : StoredCredential) : Keeps c c := ⟨UInt32.le_refl _,rfl⟩

theorem Keeps.trans {d : StoredCredential} (h : Keeps c d) (h' : Keeps d c') : Keeps c c' := by
  refine ⟨UInt32.le_trans h.1 h'.1,?_⟩
  rw [h'.2, h.2]

theorem bump_keeps {ds : List StoredCredential} (h : bump target n cs = some ds) (hc : c ∈ ds) :
    ∃ d ∈ cs, Keeps d c := by
  rcases mem_bump h hc with hc | ⟨d,hd,hlt,rfl⟩
  · exact ⟨c,hc,keeps_refl c⟩
  · exact ⟨d,hd,UInt32.le_of_lt hlt,rfl⟩

/-- A credential was there before, or is the one that `cmd_add` added. -/
theorem save_origin (hsave : op.save s = some t) (hc : c ∈ t.credentials) :
    (∃ d ∈ s.credentials, Keeps d c) ∨
    ∃ r label addedAt, op = .cmdAdd r label addedAt ∧
      c = ⟨label,addedAt,b64Encode r.credentialId,b64Encode r.credentialPublicKey,r.signCount⟩ := by
  rw [save_eq_some] at hsave
  cases op with
  | persistCounterUpdate credId n =>
    obtain ⟨ds,hds,rfl⟩ := Option.map_eq_some_iff.mp (Outcome.ok.inj hsave)
    exact .inl (bump_keeps hds hc)
  | cmdAdd r label addedAt =>
    obtain ⟨-,-,ht⟩ := bind_eq_ok.mp hsave
    rw [pure_eq_ok, Option.some.injEq] at ht
    subst ht
    rcases List.mem_append.mp hc with hc | hc
    · exact .inl ⟨c,hc,keeps_refl c⟩
    · exact .inr ⟨r,label,addedAt,rfl,List.mem_singleton.mp hc⟩
  | cmdRemove target =>
    obtain ⟨kept,hkept,hrest⟩ := bind_eq_ok.mp hsave
    obtain ⟨-,-,ht⟩ := bind_eq_ok.mp hrest
    rw [pure_eq_ok, Option.some.injEq] at ht
    subst ht
    exact .inl ⟨c,(remaining_sublist hkept).subset hc,keeps_refl c⟩

theorem b64Decode_b64Encode (b : Bytes) : b64Decode (b64Encode b) = some b :=
  Base64.decode_encode_standard b

theorem b64Encode_injective : Function.Injective b64Encode := by
  intro a b h
  have hdecode := congrArg b64Decode h
  rw [b64Decode_b64Encode, b64Decode_b64Encode] at hdecode
  exact Option.some.inj hdecode

end Operations

end Term.CredStore
