import TermMux.ClientVerifier
import TermMux.LockedFile

/-!
# The list of issued certificates and its two writers

The content of `issued-certs.json`, and what `hub-admin issue-cert` and
`hub-admin revoke-cert` do to it under the lock. Which entries a series of
these operations leaves is said by the series alone: an entry stands when it
was there or was issued, and nothing later selected it.
-/

set_option autoImplicit false

namespace Term.IssuedCerts
open Term.ByteOrder Term.Outcome Term.LockedFile

structure IssuedCertEntry extends ClientVerifier.IssuedCert where
  serialHex : Bytes
  issuedAt : Bytes
  label : Option Bytes
  deriving DecidableEq, Repr

structure IssuedCertStore where
  certs : List IssuedCertEntry
  deriving DecidableEq, Repr

instance : Inhabited IssuedCertStore := ⟨⟨[]⟩⟩

def IssuedCertStore.findByFingerprint (s : IssuedCertStore) (fp : Bytes) :
    Option IssuedCertEntry :=
  s.certs.find? fun c => c.fingerprint = fp

def IssuedCertStore.removeWhere (s : IssuedCertStore) (f : IssuedCertEntry → Bool) :
    IssuedCertStore × ℕ :=
  let kept := s.certs.filter fun c => !f c
  (⟨kept⟩,s.certs.length-kept.length)

/-- What the entry takes from the certificate that was minted. -/
structure IssuedCert where
  fingerprint : Bytes
  serialHex : Bytes
  notAfterUnix : UInt64
  deriving DecidableEq, Repr

inductive AdminError where
  | alreadyPresent (fingerprint : Bytes)
  | noMatch
  deriving DecidableEq, Repr

def entryOf (id : Bytes) (issued : IssuedCert) (label : Option Bytes) (issuedAt : Bytes) :
    IssuedCertEntry where
  machineId := id
  fingerprint := issued.fingerprint
  serialHex := issued.serialHex
  issuedAt := issuedAt
  notAfterUnix := issued.notAfterUnix
  label := label

def cmdIssueCert (id : Bytes) (issued : IssuedCert) (label : Option Bytes) (issuedAt : Bytes)
    (s : IssuedCertStore) : Outcome AdminError (Option IssuedCertStore) := do
  rejectIf (s.certs.any fun c => c.fingerprint = issued.fingerprint)
    (.alreadyPresent issued.fingerprint)
  return some ⟨s.certs++[entryOf id issued label issuedAt]⟩

structure Target where
  serial : Option Bytes
  id : Option Bytes
  deriving DecidableEq, Repr

def Target.selects (t : Target) (c : IssuedCertEntry) : Bool :=
  t.serial.any (fun s => c.serialHex = s) || t.id.any (fun m => c.machineId = m)

def cmdRevokeCert (t : Target) (s : IssuedCertStore) :
    Outcome AdminError (Option IssuedCertStore) := do
  let (kept,removed) := s.removeWhere t.selects
  rejectIf (removed = 0) .noMatch
  return some kept

inductive Op where
  | issueCert (id : Bytes) (issued : IssuedCert) (label : Option Bytes) (issuedAt : Bytes)
  | revokeCert (t : Target)
  deriving DecidableEq, Repr

def Op.run : Op → IssuedCertStore → Outcome AdminError (Option IssuedCertStore)
  | .issueCert id issued label issuedAt, s => cmdIssueCert id issued label issuedAt s
  | .revokeCert t, s => cmdRevokeCert t s

def Op.save (op : Op) (s : IssuedCertStore) : Option IssuedCertStore :=
  match op.run s with
  | .ok t => t
  | _ => none

def IssuedCertStore.fingerprints (s : IssuedCertStore) : List Bytes := s.certs.map (·.fingerprint)

def Op.adds : Op → Option IssuedCertEntry
  | .issueCert id issued label issuedAt => some (entryOf id issued label issuedAt)
  | .revokeCert _ => none

def Op.removes : Op → IssuedCertEntry → Bool
  | .issueCert _ _ _ _, _ => false
  | .revokeCert t, e => t.selects e

def inTurn (init : IssuedCertStore) (ops : List Op) : IssuedCertStore := serial Op.save init ops

/-- The entry was there from the start or was issued under a fingerprint that
was free then, and no later operation selected it. -/
def Stands (init : IssuedCertStore) (ops : List Op) (e : IssuedCertEntry) : Prop :=
  (e ∈ init.certs ∧ ∀ op ∈ ops, op.removes e = false) ∨
  ∃ before op later, ops = before++op::later ∧ op.adds = some e ∧
    e.fingerprint ∉ (inTurn init before).fingerprints ∧ ∀ o ∈ later, o.removes e = false

section Operations
variable {init s t : IssuedCertStore} {op : Op} {ops : List Op} {e : IssuedCertEntry}

theorem save_eq_some : op.save s = some t ↔ op.run s = .ok (some t) := by
  rw [Op.save]
  cases op.run s <;> simp

theorem issue_save_none {id issuedAt : Bytes} {issued : IssuedCert} {label : Option Bytes}
    (h : issued.fingerprint ∈ s.fingerprints) :
    (Op.issueCert id issued label issuedAt).save s = none := by
  have hany : (s.certs.any fun c => c.fingerprint = issued.fingerprint) = true := by
    simpa [IssuedCertStore.fingerprints] using h
  simp only [Op.save, Op.run, cmdIssueCert, rejectIf, if_pos hany]
  rfl

theorem issue_save_some {id issuedAt : Bytes} {issued : IssuedCert} {label : Option Bytes}
    (h : issued.fingerprint ∉ s.fingerprints) :
    (Op.issueCert id issued label issuedAt).save s =
      some ⟨s.certs++[entryOf id issued label issuedAt]⟩ := by
  have hany : ¬(s.certs.any fun c => c.fingerprint = issued.fingerprint) = true := by
    simpa [IssuedCertStore.fingerprints] using h
  simp only [Op.save, Op.run, cmdIssueCert, rejectIf, if_neg hany]
  rfl

theorem revoke_apply (target : Target) (s : IssuedCertStore) :
    (apply Op.save (.revokeCert target) s).certs = s.certs.filter fun c => !target.selects c := by
  have hrun : (Op.revokeCert target).run s =
      rejectIf (s.certs.length-(s.certs.filter fun c => !target.selects c).length = 0) .noMatch >>=
        fun _ => .ok (some ⟨s.certs.filter fun c => !target.selects c⟩) := rfl
  by_cases hremoved : s.certs.length-(s.certs.filter fun c => !target.selects c).length = 0
  · have hle : (s.certs.filter fun c => !target.selects c).length ≤ s.certs.length :=
      List.length_filter_le _ _
    have hall : (s.certs.filter fun c => !target.selects c).length = s.certs.length := by omega
    rw [apply, Op.save, hrun, rejectIf, if_pos hremoved,
      List.filter_eq_self.mpr (List.length_filter_eq_length_iff.mp hall)]
    rfl
  · rw [apply, Op.save, hrun, rejectIf_neg hremoved]
    rfl

theorem mem_apply : e ∈ (apply Op.save op s).certs ↔
    (e ∈ s.certs ∧ op.removes e = false) ∨
      (op.adds = some e ∧ e.fingerprint ∉ s.fingerprints) := by
  cases op with
  | issueCert id issued label issuedAt =>
    by_cases hfree : issued.fingerprint ∈ s.fingerprints
    · rw [apply, issue_save_none hfree]
      simp only [Option.getD_none, Op.removes, Op.adds, and_true, Option.some.injEq]
      constructor
      · exact Or.inl
      · rintro (h | ⟨rfl,hnew⟩)
        · exact h
        · exact absurd hfree hnew
    · rw [apply, issue_save_some hfree]
      simp only [Option.getD_some, List.mem_append, List.mem_singleton, Op.removes, Op.adds,
        and_true, Option.some.injEq]
      constructor
      · rintro (h | rfl)
        · exact Or.inl h
        · exact Or.inr ⟨rfl,hfree⟩
      · rintro (h | ⟨rfl,-⟩)
        · exact Or.inl h
        · exact Or.inr rfl
  | revokeCert target =>
    rw [revoke_apply]
    simp [Op.removes, Op.adds]

theorem apply_fingerprints_nodup (h : s.fingerprints.Nodup) :
    (apply Op.save op s).fingerprints.Nodup := by
  cases op with
  | issueCert id issued label issuedAt =>
    by_cases hfree : issued.fingerprint ∈ s.fingerprints
    · rw [apply, issue_save_none hfree]
      exact h
    · have hmore : (⟨s.certs++[entryOf id issued label issuedAt]⟩ : IssuedCertStore).fingerprints =
          s.fingerprints.concat issued.fingerprint := by
        simp [IssuedCertStore.fingerprints, entryOf]
      rw [apply, issue_save_some hfree, Option.getD_some, hmore]
      exact h.concat hfree
  | revokeCert target =>
    have hsub : (apply Op.save (.revokeCert target) s).certs.Sublist s.certs := by
      rw [revoke_apply]
      exact List.filter_sublist
    exact h.sublist (hsub.map _)

theorem inTurn_concat (init : IssuedCertStore) (ops : List Op) (op : Op) :
    inTurn init (ops++[op]) = apply Op.save op (inTurn init ops) :=
  serial_concat ..

theorem inTurn_fingerprints_nodup (h : init.fingerprints.Nodup) (ops : List Op) :
    (inTurn init ops).fingerprints.Nodup := by
  induction ops using List.reverseRecOn with
  | nil => exact h
  | append_singleton ops op ih =>
    rw [inTurn_concat]
    exact apply_fingerprints_nodup ih

theorem stands_concat : Stands init (ops++[op]) e ↔
    (Stands init ops e ∧ op.removes e = false) ∨
      (op.adds = some e ∧ e.fingerprint ∉ (inTurn init ops).fingerprints) := by
  constructor
  · rintro (⟨hinit,hall⟩ | ⟨before,o,later,heq,hadds,hfree,hall⟩)
    · have hlast := hall op (by simp)
      exact .inl ⟨.inl ⟨hinit,fun o ho => hall o (List.mem_append_left _ ho)⟩,hlast⟩
    · rcases List.eq_nil_or_concat later with rfl | ⟨rest,last,rfl⟩
      · obtain ⟨rfl,hop⟩ := List.append_inj' heq rfl
        cases hop
        exact .inr ⟨hadds,hfree⟩
      · rw [List.concat_eq_append, ← List.cons_append, ← List.append_assoc] at heq
        obtain ⟨rfl,hop⟩ := List.append_inj' heq rfl
        cases hop
        rw [List.concat_eq_append] at hall
        have hlast := hall op (by simp)
        exact .inl ⟨.inr ⟨before,o,rest,rfl,hadds,hfree,
          fun q hq => hall q (List.mem_append_left _ hq)⟩,hlast⟩
  · rintro (⟨hstands,hop⟩ | ⟨hadds,hfree⟩)
    · have hkeep : ∀ qs : List Op, (∀ q ∈ qs, q.removes e = false) →
          ∀ q ∈ qs++[op], q.removes e = false := by
        intro qs hqs q hq
        rcases List.mem_append.mp hq with hq | hq
        · exact hqs q hq
        · rw [List.mem_singleton.mp hq]
          exact hop
      rcases hstands with ⟨hinit,hall⟩ | ⟨before,o,later,rfl,hadds,hfree,hall⟩
      · exact .inl ⟨hinit,hkeep ops hall⟩
      · exact .inr ⟨before,o,later++[op],by simp,hadds,hfree,hkeep later hall⟩
    · exact .inr ⟨ops,op,[],rfl,hadds,hfree,nofun⟩

/-- The entries of the store are those that stand. -/
theorem mem_inTurn : e ∈ (inTurn init ops).certs ↔ Stands init ops e := by
  induction ops using List.reverseRecOn with
  | nil => simp [Stands, inTurn, serial]
  | append_singleton ops op ih => rw [inTurn_concat, mem_apply, ih, stands_concat]

end Operations

end Term.IssuedCerts
