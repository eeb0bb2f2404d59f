import TermMux.ByteOrder
import TermMux.Interrupted
import Mathlib.Logic.Function.Basic

/-!
# Creating the agent CA

`init_ca` puts a certificate and a key into the data directory, each through a
temporary file that is opened with `create_new` and renamed. A failed call
returns at once and removes nothing, as a crash does; so both are one fault.
Generating the key, its validity window and the certificate come from outside
and arrive as a pair of files.
-/

set_option autoImplicit false

namespace Term.CaInit
open Term.ByteOrder Term.Machine Term.Interrupted

inductive CaFile where
  | cert | key
  deriving DecidableEq, Repr

def CaFile.name : CaFile → String
  | .cert => "agent-ca.crt"
  | .key => "agent-ca.key"

def CaFile.tmpName (f : CaFile) : String := "." ++ f.name ++ ".tmp"

abbrev Dir := String → Option Bytes

structure CaPair where
  certPem : Bytes
  keyPem : Bytes
  deriving DecidableEq, Repr

inductive Call where
  | createDir
  | generate
  | createTmp (f : CaFile)
  | writeAll (f : CaFile) (contents : Bytes)
  | syncAll (f : CaFile)
  | rename (f : CaFile)
  deriving DecidableEq, Repr

def step (d : Dir) : Call → Option Dir
  | .createDir => some d
  | .generate => some d
  -- `create_new` fails on a file that is there, whatever it holds.
  | .createTmp f =>
    if (d f.tmpName).isSome then none else some (Function.update d f.tmpName (some []))
  | .writeAll f contents =>
    (d f.tmpName).map fun old => Function.update d f.tmpName (some (old++contents))
  | .syncAll _ => some d
  | .rename f =>
    (d f.tmpName).map fun bs => Function.update (Function.update d f.tmpName none) f.name (some bs)

/-- What a struck call leaves: a write may have come through in part. -/
def torn (k : ℕ) (d : Dir) : Call → Dir
  | .writeAll f contents =>
    Function.update d f.tmpName ((d f.tmpName).map fun old => old++contents.take k)
  | _ => d

def writeAtomic (f : CaFile) (contents : Bytes) : List Call :=
  [.createTmp f,.writeAll f contents,.syncAll f,.rename f]

inductive Answer where
  | created
  | alreadyExists (f : CaFile)
  | failed
  deriving DecidableEq, Repr

def calls (pair : CaPair) : List Call :=
  [.createDir,.generate] ++ (writeAtomic .cert pair.certPem ++ writeAtomic .key pair.keyPem)

def initCa (pair : CaPair) (fault : Option Fault) (d : Dir) : Dir × Answer :=
  if (d CaFile.cert.name).isSome then (d,.alreadyExists .cert)
  else if (d CaFile.key.name).isSome then (d,.alreadyExists .key)
  else
    let r := attempt step torn d (calls pair) fault
    (r.1,if r.2 then .created else .failed)

def Bare (d : Dir) : Prop := d CaFile.cert.name = none ∧ d CaFile.key.name = none

def Whole (pair : CaPair) (d : Dir) : Prop :=
  d CaFile.cert.name = some pair.certPem ∧ d CaFile.key.name = some pair.keyPem

/-- Both files or neither, and the next run refuses or succeeds accordingly. -/
def AllOrNothing (pair : CaPair) (d : Dir) : Prop :=
  (Whole pair d ∧ ∀ again, initCa again none d = (d,.alreadyExists .cert)) ∨
    (Bare d ∧ ∀ again, (initCa again none d).2 = .created)

/-- No temporary file of an earlier run. -/
def NoLeftover (d : Dir) : Prop :=
  d CaFile.cert.tmpName = none ∧ d CaFile.key.tmpName = none

/-- The calls up to the creation of the first temporary file, and those behind
the last rename. -/
def Harmless (fault : Option Fault) : Prop := ∀ f ∈ fault, f.call < 3 ∨ 10 ≤ f.call

section Names

@[simp] theorem name_ne_tmpName (f g : CaFile) : f.name ≠ g.tmpName := by
  cases f <;> cases g <;> decide

@[simp] theorem tmpName_ne_name (f g : CaFile) : f.tmpName ≠ g.name :=
  (name_ne_tmpName g f).symm

@[simp] theorem name_eq_iff (f g : CaFile) : f.name = g.name ↔ f = g := by
  cases f <;> cases g <;> decide

@[simp] theorem tmpName_eq_iff (f g : CaFile) : f.tmpName = g.tmpName ↔ f = g := by
  cases f <;> cases g <;> decide

end Names

section WriteAtomic

variable {d : Dir} {f : CaFile} {contents : Bytes} {fault : Option Fault}

theorem writeAtomic_blocked (h : d f.tmpName ≠ none) :
    attempt step torn d (writeAtomic f contents) fault = (d,false) := by
  rcases past_or_struck fault with hp | ⟨k,rfl⟩
  · have hs : step d (.createTmp f) = none := if_pos (Option.isSome_iff_ne_none.mpr h)
    rw [writeAtomic, attempt_cons hp, hs]
  · rfl

theorem writeAtomic_done (h : d f.tmpName = none) (hp : Past 4 fault) :
    attempt step torn d (writeAtomic f contents) fault =
      (Function.update d f.name (some contents),true) := by
  have hback : Function.update d f.tmpName none = d := by
    rw [← h, Function.update_eq_self]
  have hrun : run step d (writeAtomic f contents) =
      some (Function.update d f.name (some contents)) := by
    simp [writeAtomic, run, step, h, hback]
  exact attempt_run hp hrun

/-- A fault inside leaves the temporary file, except where it keeps it from
being created. -/
theorem writeAtomic_cut (contents : Bytes) (h : d f.tmpName = none) {n : ℕ} (k : ℕ) (hn : n < 4) :
    ∃ left, attempt step torn d (writeAtomic f contents) (some ⟨n,k⟩) =
        (Function.update d f.tmpName left,false) ∧ (left = none ↔ n = 0) := by
  have hback : Function.update d f.tmpName none = d := by
    rw [← h, Function.update_eq_self]
  interval_cases n
  · exact ⟨none,by rw [hback]; rfl,by simp⟩
  · exact ⟨some (contents.take k),by simp [writeAtomic, attempt, step, torn, h],by simp⟩
  · exact ⟨some contents,by simp [writeAtomic, attempt, step, torn, h],by simp⟩
  · exact ⟨some contents,by simp [writeAtomic, attempt, step, torn, h],by simp⟩

end WriteAtomic

section Runs

variable {pair : CaPair} {d : Dir} {fault : Option Fault}

theorem initCa_bare (h : Bare d) : initCa pair fault d =
    ((attempt step torn d (calls pair) fault).1,
      if (attempt step torn d (calls pair) fault).2 then .created else .failed) := by
  simp [initCa, h.1, h.2]

theorem calls_early {n : ℕ} (k : ℕ) (hn : n < 2) :
    attempt step torn d (calls pair) (some ⟨n,k⟩) = (d,false) := by
  interval_cases n <;> rfl

theorem calls_past (h : Past 2 fault) : attempt step torn d (calls pair) fault =
    attempt step torn d (writeAtomic .cert pair.certPem ++ writeAtomic .key pair.keyPem)
      (after 2 fault) := by
  have hrun : attempt step torn d [.createDir,.generate] fault = (d,true) := attempt_run h rfl
  exact attempt_append_done hrun

theorem update_cert_keyTmp (bs : Option Bytes) :
    Function.update d CaFile.cert.name bs CaFile.key.tmpName = d CaFile.key.tmpName :=
  Function.update_of_ne (tmpName_ne_name _ _) bs d

theorem not_whole (h : d CaFile.key.name = none) : ¬Whole pair d := by
  intro hw
  rw [hw.2] at h
  cases h

theorem calls_cert (ht : d CaFile.cert.tmpName = none) (h : Past 6 fault) :
    attempt step torn d (calls pair) fault =
      attempt step torn (Function.update d CaFile.cert.name (some pair.certPem))
        (writeAtomic .key pair.keyPem) (after 6 fault) := by
  have h2 : Past 2 fault := fun f hf => le_trans (by decide) (h f hf)
  rw [calls_past h2, attempt_append_done (writeAtomic_done ht (past_after h)), after_after]
  rfl

/-- A fault at the certificate leaves the directory as it was but for the
temporary file. -/
theorem calls_cert_cut (pair : CaPair) (ht : d CaFile.cert.tmpName = none) {n : ℕ} (k : ℕ)
    (hn : n < 4) :
    ∃ left, attempt step torn d (calls pair) (some ⟨n+2,k⟩) =
        (Function.update d CaFile.cert.tmpName left,false) ∧ (left = none ↔ n = 0) := by
  obtain ⟨left,hrun,hleft⟩ := writeAtomic_cut pair.certPem ht k hn
  have h2 : Past 2 (some ⟨n+2,k⟩) := fun f hf => by cases hf; exact Nat.le_add_left 2 n
  refine ⟨left,?_,hleft⟩
  rw [calls_past h2]
  exact attempt_append_stopped hrun

theorem initCa_complete (h : Bare d) (ht : NoLeftover d) (hp : Past 10 fault) :
    initCa pair fault d = (Function.update (Function.update d CaFile.cert.name (some pair.certPem))
      CaFile.key.name (some pair.keyPem),.created) := by
  have h6 : Past 6 fault := fun f hf => le_trans (by decide) (hp f hf)
  have hk := (update_cert_keyTmp (some pair.certPem)).trans ht.2
  rw [initCa_bare h, calls_cert ht.1 h6, writeAtomic_done hk (past_after hp)]
  rfl

/-- What an earlier run has left behind stops this one, before the key is
there. -/
theorem initCa_leftover (pair : CaPair) (fault : Option Fault) (h : Bare d) (ht : ¬NoLeftover d) :
    (initCa pair fault d).2 = .failed ∧ ¬NoLeftover (initCa pair fault d).1 ∧
      ¬Whole pair (initCa pair fault d).1 := by
  have same (hrun : attempt step torn d (calls pair) fault = (d,false)) :
      (initCa pair fault d).2 = .failed ∧ ¬NoLeftover (initCa pair fault d).1 ∧
        ¬Whole pair (initCa pair fault d).1 := by
    rw [initCa_bare h, hrun]
    exact ⟨rfl,ht,not_whole h.2⟩
  by_cases h2 : Past 2 fault
  · by_cases hc : d CaFile.cert.tmpName = none
    · have hk : d CaFile.key.tmpName ≠ none := fun hk => ht ⟨hc,hk⟩
      by_cases h6 : Past 6 fault
      · have hk' :
            Function.update d CaFile.cert.name (some pair.certPem) CaFile.key.tmpName ≠ none := by
          rwa [update_cert_keyTmp]
        rw [initCa_bare h, calls_cert hc h6, writeAtomic_blocked hk']
        exact ⟨rfl,fun hn => hk' hn.2,not_whole (by simp [h.2])⟩
      · obtain ⟨i,k,rfl,hi⟩ := exists_struck h6
        have hi2 : 2 ≤ i := h2 _ rfl
        obtain ⟨n,rfl⟩ : ∃ n, i = n+2 := ⟨i-2,by omega⟩
        obtain ⟨left,hrun,-⟩ := calls_cert_cut pair hc k (show n < 4 by omega)
        rw [initCa_bare h, hrun]
        refine ⟨rfl,fun hn => ?_,not_whole (by simp [h.2])⟩
        have hkey := hn.2
        simp [hk] at hkey
    · apply same
      rw [calls_past h2]
      exact attempt_append_stopped (writeAtomic_blocked hc)
  · obtain ⟨i,k,rfl,hi⟩ := exists_struck h2
    exact same (calls_early k hi)

/-- Whether a directory is in order: the next run tells. -/
theorem allOrNothing_iff : AllOrNothing pair d ↔ Whole pair d ∨ (Bare d ∧ NoLeftover d) := by
  constructor
  · rintro (⟨hw,-⟩ | ⟨hb,hnext⟩)
    · exact Or.inl hw
    · by_cases ht : NoLeftover d
      · exact Or.inr ⟨hb,ht⟩
      · have hfail := (initCa_leftover pair none hb ht).1
        rw [hnext pair] at hfail
        cases hfail
  · rintro (hw | ⟨hb,ht⟩)
    · exact Or.inl ⟨hw,fun again => by simp [initCa, hw.1]⟩
    · refine Or.inr ⟨hb,fun again => ?_⟩
      rw [initCa_complete hb ht (by simp [Past])]

theorem initCa_early (h : Bare d) (ht : NoLeftover d) {n : ℕ} (k : ℕ) (hn : n < 3) :
    (initCa pair (some ⟨n,k⟩) d).1 = d := by
  by_cases h2 : n < 2
  · rw [initCa_bare h, calls_early k h2]
  · have hn2 : n = 0+2 := by omega
    obtain ⟨left,hrun,hleft⟩ := calls_cert_cut pair ht.1 k (show 0 < 4 by decide)
    rw [initCa_bare h, hn2, hrun, hleft.mpr rfl, ← ht.1]
    exact Function.update_eq_self _ d

/-- A fault between the two ends leaves a temporary file of the certificate, or
the certificate without its key. -/
theorem initCa_struck (pair : CaPair) (h : Bare d) (ht : NoLeftover d) {n : ℕ} (k : ℕ)
    (hn : 3 ≤ n ∧ n < 10) :
    ¬Whole pair (initCa pair (some ⟨n,k⟩) d).1 ∧
      ¬(Bare (initCa pair (some ⟨n,k⟩) d).1 ∧ NoLeftover (initCa pair (some ⟨n,k⟩) d).1) := by
  by_cases h6 : n < 6
  · obtain ⟨m,rfl⟩ : ∃ m, n = m+2 := ⟨n-2,by omega⟩
    obtain ⟨left,hrun,hleft⟩ := calls_cert_cut pair ht.1 k (show m < 4 by omega)
    have hne : left ≠ none := fun hl => absurd (hleft.mp hl) (by omega)
    rw [initCa_bare h, hrun]
    constructor
    · exact not_whole (by simp [h.2])
    · intro hb
      have htmp : Function.update d CaFile.cert.tmpName left CaFile.cert.tmpName = none := hb.2.1
      rw [Function.update_self] at htmp
      exact hne htmp
  · obtain ⟨m,rfl⟩ : ∃ m, n = 6+m := ⟨n-6,by omega⟩
    have hp : Past 6 (some ⟨6+m,k⟩) := fun f hf => by cases hf; exact Nat.le_add_right 6 m
    have hk := (update_cert_keyTmp (some pair.certPem)).trans ht.2
    obtain ⟨left,hrun,-⟩ := writeAtomic_cut pair.keyPem hk k (show m < 4 by omega)
    have hafter : after 6 (some ⟨6+m,k⟩) = some ⟨m,k⟩ := by simp [after]
    rw [initCa_bare h, calls_cert ht.1 hp, hafter, hrun]
    constructor
    · exact not_whole (by simp [h.2])
    · intro hb
      have hcert := hb.1.1
      simp at hcert

end Runs

/-- With no CA in the directory, a run ends with everything or with nothing
exactly if it finds no temporary file and is not struck from the first write to
the last rename. -/
theorem initCa_allOrNothing_iff (pair : CaPair) (fault : Option Fault) (d : Dir) (h : Bare d) :
    AllOrNothing pair (initCa pair fault d).1 ↔ NoLeftover d ∧ Harmless fault := by
  rw [allOrNothing_iff]
  by_cases ht : NoLeftover d
  · by_cases hp : Past 10 fault
    · rw [initCa_complete h ht hp]
      exact iff_of_true (Or.inl ⟨by simp,by simp⟩) ⟨ht,fun f hf => Or.inr (hp f hf)⟩
    · obtain ⟨n,k,rfl,hn⟩ := exists_struck hp
      by_cases h3 : n < 3
      · rw [initCa_early h ht k h3]
        refine iff_of_true (Or.inr ⟨h,ht⟩) ⟨ht,fun f hf => ?_⟩
        cases hf
        exact Or.inl h3
      · obtain ⟨hw,hb⟩ := initCa_struck pair h ht k (show 3 ≤ n ∧ n < 10 by omega)
        refine iff_of_false (not_or.mpr ⟨hw,hb⟩) fun hgood => ?_
        have hf := hgood.2 _ rfl
        simp only at hf
        omega
  · obtain ⟨-,hleft,hw⟩ := initCa_leftover pair fault h ht
    exact iff_of_false (not_or.mpr ⟨hw,fun hb => hleft hb.2⟩) fun hgood => ht hgood.1

/-- A full disk at the first write leaves a file that blocks the next run. -/
theorem initCa_allOrNothing_iff_fullDisk :
    Bare (fun _ => none) ∧
      ¬AllOrNothing ⟨[1],[2]⟩ (initCa ⟨[1],[2]⟩ (some ⟨3,0⟩) fun _ => none).1 := by
  refine ⟨⟨rfl,rfl⟩,fun h => ?_⟩
  have hf := ((initCa_allOrNothing_iff _ _ _ ⟨rfl,rfl⟩).mp h).2 _ rfl
  exact absurd hf (by decide)

/-- The temporary file of the key cannot be created: the certificate stays
alone. -/
theorem cert_without_key : ¬∀ pair fault d, Bare d → AllOrNothing pair (initCa pair fault d).1 := by
  intro h
  rcases h ⟨[1],[2]⟩ (some ⟨6,0⟩) (fun _ => none) ⟨rfl,rfl⟩ with ⟨hw,-⟩ | ⟨hb,-⟩
  · exact absurd hw.2 (by decide)
  · exact absurd hb.1 (by decide)

end Term.CaInit
