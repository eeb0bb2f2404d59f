import TermMux.Machine
import TermMux.PasteUpload

/-!
# The effect of a paste frame

What each paste handler does to the pending pastes of a stream and to the finished
paths of a group, one constructor for each way through the handler, with the
condition on the registries under which it is taken.
-/

set_option autoImplicit false

namespace Term.PasteGroups
open Term.ByteOrder Term.FrameModel Term.Machine Term.PasteNames Term.PasteUpload

inductive PasteFrame where
  | pasteBegin (controller : Bool) (env : PasteEnv) (pasteId : UInt32) (totalSize : UInt64)
      (groupId groupSize : UInt32) (name : String)
  | pasteChunk (writeOk : Bool) (pasteId : UInt32) (bytes : Bytes)
  | pasteEnd (controller : Bool) (pasteId : UInt32) (status : UInt8)

/-- The paste arms of the inbound loop. -/
def handle (limits : Limits) (dir : Bytes) (p : Pending) : PasteFrame → Handled
  | .pasteBegin controller env pasteId totalSize groupId groupSize name =>
    if controller then
      handlePasteBegin limits env dir p pasteId totalSize groupId groupSize name
    else p.rejected pasteRejectNotController
  | .pasteChunk writeOk pasteId bytes => handlePasteChunk writeOk p pasteId bytes
  | .pasteEnd _ pasteId status => handlePasteEnd p pasteId status

def waiting (p : Pending) (groupId : UInt32) : Option (UInt32 × List Bytes) :=
  (p.groups.lookup groupId).map fun g => (g.groupSize,g.finished)

def groupFor (p : Pending) (groupId groupSize : UInt32) : PendingGroup :=
  (p.groups.lookup groupId).getD ⟨groupSize,[],0⟩

def PendingGroup.declare (g : PendingGroup) (totalSize : ℕ) : PendingGroup :=
  { g with totalDeclared := g.totalDeclared+totalSize }

def Refused (limits : Limits) (p : Pending) (pasteId : UInt32) (totalSize : UInt64)
    (groupId : UInt32) : Prop :=
  limits.maxPendingPastesPerStream ≤ p.pastes.entries.length ∨ pasteId ∈ p.pastes ∨
    p.groups.lookup groupId = none ∧
      (limits.maxPendingGroupsPerStream ≤ p.groups.entries.length ∨
        maxPasteTotalBytes < totalSize.toNat)

def Oversize (p : Pending) (totalSize : UInt64) (groupId : UInt32) : Prop :=
  ∃ g ∈ p.groups.lookup groupId, maxPasteTotalBytes < saturatingAdd g.totalDeclared totalSize.toNat

instance (limits : Limits) (p : Pending) (pasteId : UInt32) (totalSize : UInt64)
    (groupId : UInt32) : Decidable (Refused limits p pasteId totalSize groupId) :=
  inferInstanceAs (Decidable (_ ∨ _ ∨ _ ∧ _))

instance (p : Pending) (totalSize : UInt64) (groupId : UInt32) :
    Decidable (Oversize p totalSize groupId) :=
  inferInstanceAs (Decidable (∃ g ∈ p.groups.lookup groupId, _))

section Registries
variable {limits : Limits} {env : PasteEnv} {dir : Bytes} {p : Pending} {pasteId : UInt32}
  {totalSize : UInt64} {groupId groupSize : UInt32} {name : String}

theorem waiting_insert_self (p : Pending) (g : PendingGroup) :
    waiting ⟨p.pastes,p.groups.insert groupId g⟩ groupId = some (g.groupSize,g.finished) := by
  simp [waiting]

theorem waiting_insert_ne {g : PendingGroup} {other : UInt32} (h : other ≠ groupId) :
    waiting ⟨p.pastes,p.groups.insert groupId g⟩ other = waiting p other := by
  simp [waiting, AList.lookup_insert_ne h]

theorem waiting_erase_self (p : Pending) (groupId : UInt32) :
    waiting ⟨p.pastes,p.groups.erase groupId⟩ groupId = none := by
  simp [waiting]

theorem waiting_erase_ne {other : UInt32} (h : other ≠ groupId) :
    waiting ⟨p.pastes,p.groups.erase groupId⟩ other = waiting p other := by
  simp [waiting, AList.lookup_erase_ne h]

def Registers (p p' : Pending) (groupId groupSize : UInt32) : Prop :=
  waiting p' groupId = some ((waiting p groupId).getD (groupSize,[])) ∧
    ∀ other, other ≠ groupId → waiting p' other = waiting p other

def finishedOf (p : Pending) (groupId : UInt32) : List Bytes := (waiting p groupId).elim [] Prod.snd

inductive Opens (limits : Limits) (env : PasteEnv) (dir : Bytes) (p : Pending) (pasteId : UInt32)
    (totalSize : UInt64) (groupId groupSize : UInt32) (name : String) : Handled → Prop where
  | refused (reason : UInt8) (href : Refused limits p pasteId totalSize groupId) :
      Opens limits env dir p pasteId totalSize groupId groupSize name (p.rejected reason)
  | oversize (g : PendingGroup) (href : ¬Refused limits p pasteId totalSize groupId)
      (hg : p.groups.lookup groupId = some g) (hover : Oversize p totalSize groupId) :
      Opens limits env dir p pasteId totalSize groupId groupSize name
        ⟨⟨p.pastes,p.groups.erase groupId⟩,some pasteRejectGroupOversize,g.finished,none⟩
  | openFailed (e : PasteOpenError) (href : ¬Refused limits p pasteId totalSize groupId)
      (hover : ¬Oversize p totalSize groupId) (hopen : openPasteFile env dir name = .error e) :
      Opens limits env dir p pasteId totalSize groupId groupSize name
        ⟨⟨p.pastes,p.groups.insert groupId (groupFor p groupId groupSize)⟩,
          some pasteRejectOpenFailed,[],none⟩
  | opened (path : Bytes) (href : ¬Refused limits p pasteId totalSize groupId)
      (hover : ¬Oversize p totalSize groupId) (hopen : openPasteFile env dir name = .ok path) :
      Opens limits env dir p pasteId totalSize groupId groupSize name
        ⟨⟨p.pastes.insert pasteId ⟨path,totalSize.toNat,0,groupId⟩,
          p.groups.insert groupId
            (PendingGroup.declare (groupFor p groupId groupSize) totalSize.toNat)⟩,none,[],none⟩

theorem saturatingAdd_le {a b : ℕ} (h : ¬maxPasteTotalBytes < saturatingAdd a b) :
    saturatingAdd a b = a+b ∧ a+b ≤ maxPasteTotalBytes := by
  unfold saturatingAdd at h ⊢
  have hcap : maxPasteTotalBytes < 2^64-1 := by decide
  omega

theorem openPaste_opens {g : PendingGroup} (href : ¬Refused limits p pasteId totalSize groupId)
    (hover : ¬Oversize p totalSize groupId)
    (hg : g = PendingGroup.declare (groupFor p groupId groupSize) totalSize.toNat) :
    Opens limits env dir p pasteId totalSize groupId groupSize name
      (openPaste env dir ⟨p.pastes,p.groups.insert groupId g⟩ pasteId totalSize groupId name) := by
  subst hg
  unfold openPaste
  cases ho : openPasteFile env dir name with
  | ok path => exact .opened path href hover ho
  | error e =>
    simp only [AList.lookup_insert, AList.insert_insert, PendingGroup.declare, Nat.add_sub_cancel]
    exact .openFailed e href hover ho

theorem handlePasteBegin_opens (limits : Limits) (env : PasteEnv) (dir : Bytes) (p : Pending)
    (pasteId : UInt32) (totalSize : UInt64) (groupId groupSize : UInt32) (name : String) :
    Opens limits env dir p pasteId totalSize groupId groupSize name
      (handlePasteBegin limits env dir p pasteId totalSize groupId groupSize name) := by
  unfold handlePasteBegin
  by_cases hfull : limits.maxPendingPastesPerStream ≤ p.pastes.entries.length
  · rw [if_pos hfull]
    exact .refused _ (.inl hfull)
  rw [if_neg hfull]
  by_cases hdup : pasteId ∈ p.pastes
  · rw [if_pos hdup]
    exact .refused _ (.inr (.inl hdup))
  rw [if_neg hdup]
  cases hg : p.groups.lookup groupId with
  | some g =>
    have href : ¬Refused limits p pasteId totalSize groupId := by
      simp [Refused, hg, hdup, not_le.mp hfull]
    dsimp only
    by_cases hover : maxPasteTotalBytes < saturatingAdd g.totalDeclared totalSize.toNat
    · rw [if_pos hover]
      exact .oversize g href hg ⟨g,hg,hover⟩
    · rw [if_neg hover]
      refine openPaste_opens href ?_ ?_
      · simpa [Oversize, hg] using hover
      · rw [(saturatingAdd_le hover).1]
        simp [PendingGroup.declare, groupFor, hg]
  | none =>
    dsimp only
    by_cases hgroups : limits.maxPendingGroupsPerStream ≤ p.groups.entries.length
    · rw [if_pos hgroups]
      exact .refused _ (.inr (.inr ⟨hg,.inl hgroups⟩))
    rw [if_neg hgroups]
    by_cases hover : maxPasteTotalBytes < totalSize.toNat
    · rw [if_pos hover]
      exact .refused _ (.inr (.inr ⟨hg,.inr hover⟩))
    · rw [if_neg hover]
      refine openPaste_opens ?_ ?_ ?_
      · simp [Refused, hdup, not_le.mp hfull, not_le.mp hgroups, not_lt.mp hover]
      · simp [Oversize, hg]
      · simp [PendingGroup.declare, groupFor, hg]

theorem new_of_accepted (href : ¬Refused limits p pasteId totalSize groupId) :
    p.pastes.lookup pasteId = none := by
  rw [Refused, not_or, not_or] at href
  exact AList.lookup_eq_none.mpr href.2.1

theorem registers_insert (pastes : AList fun _ : UInt32 => PendingPaste) {g : PendingGroup}
    (hsize : g.groupSize = (groupFor p groupId groupSize).groupSize)
    (hfinished : g.finished = (groupFor p groupId groupSize).finished) :
    Registers p ⟨pastes,p.groups.insert groupId g⟩ groupId groupSize := by
  refine ⟨?_,fun other hne => by simp [waiting, AList.lookup_insert_ne hne]⟩
  cases hg : p.groups.lookup groupId with
  | none => simp [waiting, hg, hsize, hfinished, groupFor]
  | some old => simp [waiting, hg, hsize, hfinished, groupFor]

inductive Begins (limits : Limits) (env : PasteEnv) (dir : Bytes) (p : Pending) (pasteId : UInt32)
    (totalSize : UInt64) (groupId groupSize : UInt32) (name : String) : Handled → Prop where
  | refused (reason : UInt8) (href : Refused limits p pasteId totalSize groupId) :
      Begins limits env dir p pasteId totalSize groupId groupSize name (p.rejected reason)
  | oversize (href : ¬Refused limits p pasteId totalSize groupId)
      (hover : Oversize p totalSize groupId) :
      Begins limits env dir p pasteId totalSize groupId groupSize name
        ⟨⟨p.pastes,p.groups.erase groupId⟩,some pasteRejectGroupOversize,finishedOf p groupId,none⟩
  | openFailed (p' : Pending) (e : PasteOpenError)
      (href : ¬Refused limits p pasteId totalSize groupId) (hover : ¬Oversize p totalSize groupId)
      (hopen : openPasteFile env dir name = .error e) (hpastes : p'.pastes = p.pastes)
      (hreg : Registers p p' groupId groupSize) :
      Begins limits env dir p pasteId totalSize groupId groupSize name
        ⟨p',some pasteRejectOpenFailed,[],none⟩
  | opened (p' : Pending) (path : Bytes)
      (href : ¬Refused limits p pasteId totalSize groupId) (hover : ¬Oversize p totalSize groupId)
      (hopen : openPasteFile env dir name = .ok path)
      (hpastes : p'.pastes = p.pastes.insert pasteId ⟨path,totalSize.toNat,0,groupId⟩)
      (hreg : Registers p p' groupId groupSize) :
      Begins limits env dir p pasteId totalSize groupId groupSize name ⟨p',none,[],none⟩

theorem handlePasteBegin_begins (limits : Limits) (env : PasteEnv) (dir : Bytes) (p : Pending)
    (pasteId : UInt32) (totalSize : UInt64) (groupId groupSize : UInt32) (name : String) :
    Begins limits env dir p pasteId totalSize groupId groupSize name
      (handlePasteBegin limits env dir p pasteId totalSize groupId groupSize name) := by
  have ho := handlePasteBegin_opens limits env dir p pasteId totalSize groupId groupSize name
  generalize handlePasteBegin limits env dir p pasteId totalSize groupId groupSize name = out at ho ⊢
  cases ho with
  | refused reason href => exact .refused reason href
  | oversize g href hg hover =>
    have hfin : finishedOf p groupId = g.finished := by simp [finishedOf, waiting, hg]
    rw [← hfin]
    exact .oversize href hover
  | openFailed e href hover hopen =>
    exact .openFailed _ e href hover hopen rfl (registers_insert p.pastes rfl rfl)
  | opened path href hover hopen =>
    exact .opened _ path href hover hopen rfl (registers_insert _ rfl rfl)

inductive Chunks (writeOk : Bool) (p : Pending) (pasteId : UInt32) (bytes : Bytes) :
    Handled → Prop where
  | unknown (hp : p.pastes.lookup pasteId = none) : Chunks writeOk p pasteId bytes ⟨p,none,[],none⟩
  | failed (paste : PendingPaste) (reason : UInt8) (hp : p.pastes.lookup pasteId = some paste)
      (hfail : paste.totalSize < saturatingAdd paste.written bytes.length ∨ writeOk = false) :
      Chunks writeOk p pasteId bytes
        ⟨⟨p.pastes.erase pasteId,p.groups⟩,some reason,[paste.path],none⟩
  | written (paste : PendingPaste) (hp : p.pastes.lookup pasteId = some paste)
      (hfits : ¬paste.totalSize < saturatingAdd paste.written bytes.length)
      (hwrite : writeOk = true) :
      Chunks writeOk p pasteId bytes
        ⟨⟨p.pastes.insert pasteId { paste with written := paste.written+bytes.length },p.groups⟩,
          none,[],none⟩

theorem handlePasteChunk_chunks (writeOk : Bool) (p : Pending) (pasteId : UInt32) (bytes : Bytes) :
    Chunks writeOk p pasteId bytes (handlePasteChunk writeOk p pasteId bytes) := by
  unfold handlePasteChunk
  cases hp : p.pastes.lookup pasteId with
  | none => exact .unknown hp
  | some paste =>
    dsimp only
    by_cases hfits : paste.totalSize < saturatingAdd paste.written bytes.length
    · rw [if_pos hfits]
      exact .failed paste _ hp (.inl hfits)
    rw [if_neg hfits]
    cases writeOk with
    | false => exact .failed paste _ hp (.inr rfl)
    | true => exact .written paste hp hfits rfl

inductive Ends (p : Pending) (pasteId : UInt32) (status : UInt8) : Handled → Prop where
  | unknown (hp : p.pastes.lookup pasteId = none) : Ends p pasteId status ⟨p,none,[],none⟩
  | dropped (paste : PendingPaste) (reject : Option UInt8)
      (hp : p.pastes.lookup pasteId = some paste)
      (hbad : status = pasteStatusCancel ∨ paste.written ≠ paste.totalSize) :
      Ends p pasteId status ⟨⟨p.pastes.erase pasteId,p.groups.erase paste.groupId⟩,reject,
        paste.path::finishedOf p paste.groupId,none⟩
  | staged (paste : PendingPaste) (g : PendingGroup) (hp : p.pastes.lookup pasteId = some paste)
      (hok : ¬(status = pasteStatusCancel ∨ paste.written ≠ paste.totalSize))
      (hg : p.groups.lookup paste.groupId = some g)
      (hmore : ¬g.groupSize ≤ UInt32.ofNat (g.finished++[paste.path]).length) :
      Ends p pasteId status ⟨⟨p.pastes.erase pasteId,p.groups.insert paste.groupId
        { g with finished := g.finished++[paste.path] }⟩,none,[],none⟩
  | completed (paste : PendingPaste) (g : PendingGroup)
      (hp : p.pastes.lookup pasteId = some paste)
      (hok : ¬(status = pasteStatusCancel ∨ paste.written ≠ paste.totalSize))
      (hg : p.groups.lookup paste.groupId = some g)
      (hfull : g.groupSize ≤ UInt32.ofNat (g.finished++[paste.path]).length) :
      Ends p pasteId status ⟨⟨p.pastes.erase pasteId,p.groups.erase paste.groupId⟩,none,[],
        some (g.finished++[paste.path])⟩
  | alone (paste : PendingPaste) (hp : p.pastes.lookup pasteId = some paste)
      (hok : ¬(status = pasteStatusCancel ∨ paste.written ≠ paste.totalSize))
      (hg : p.groups.lookup paste.groupId = none) :
      Ends p pasteId status ⟨⟨p.pastes.erase pasteId,p.groups⟩,none,[],some [paste.path]⟩

theorem handlePasteEnd_ends (p : Pending) (pasteId : UInt32) (status : UInt8) :
    Ends p pasteId status (handlePasteEnd p pasteId status) := by
  have hfin : ∀ g q, finishedOf ⟨q,p.groups⟩ g = (p.groups.lookup g).elim [] PendingGroup.finished := by
    intro g q
    cases hg : p.groups.lookup g <;> simp [finishedOf, waiting, hg]
  unfold handlePasteEnd
  cases hp : p.pastes.lookup pasteId with
  | none => exact .unknown hp
  | some paste =>
    dsimp only [Pending.dropGroup]
    rw [← hfin paste.groupId p.pastes]
    by_cases hcancel : status = pasteStatusCancel
    · rw [if_pos hcancel]
      exact .dropped paste _ hp (.inl hcancel)
    rw [if_neg hcancel]
    by_cases hsize : paste.written ≠ paste.totalSize
    · rw [if_pos hsize]
      exact .dropped paste _ hp (.inr hsize)
    rw [if_neg hsize]
    have hok : ¬(status = pasteStatusCancel ∨ paste.written ≠ paste.totalSize) :=
      not_or.mpr ⟨hcancel,hsize⟩
    cases hg : p.groups.lookup paste.groupId with
    | none => exact .alone paste hp hok hg
    | some g =>
      dsimp only
      by_cases hfull : g.groupSize ≤ UInt32.ofNat (g.finished++[paste.path]).length
      · rw [if_pos hfull]
        exact .completed paste g hp hok hg hfull
      · rw [if_neg hfull]
        exact .staged paste g hp hok hg hfull

/-! `handle` calls the handler of its frame. -/

theorem handle_opens (limits : Limits) (dir : Bytes) (p : Pending) (env : PasteEnv)
    (pasteId : UInt32) (totalSize : UInt64) (groupId groupSize : UInt32) (name : String) :
    Opens limits env dir p pasteId totalSize groupId groupSize name
      (handle limits dir p (.pasteBegin true env pasteId totalSize groupId groupSize name)) :=
  handlePasteBegin_opens limits env dir p pasteId totalSize groupId groupSize name

theorem handle_begins (limits : Limits) (dir : Bytes) (p : Pending) (env : PasteEnv)
    (pasteId : UInt32) (totalSize : UInt64) (groupId groupSize : UInt32) (name : String) :
    Begins limits env dir p pasteId totalSize groupId groupSize name
      (handle limits dir p (.pasteBegin true env pasteId totalSize groupId groupSize name)) :=
  handlePasteBegin_begins limits env dir p pasteId totalSize groupId groupSize name

theorem handle_chunks (limits : Limits) (dir : Bytes) (p : Pending) (writeOk : Bool)
    (pasteId : UInt32) (bytes : Bytes) :
    Chunks writeOk p pasteId bytes (handle limits dir p (.pasteChunk writeOk pasteId bytes)) :=
  handlePasteChunk_chunks writeOk p pasteId bytes

theorem handle_ends (limits : Limits) (dir : Bytes) (p : Pending) (controller : Bool)
    (pasteId : UInt32) (status : UInt8) :
    Ends p pasteId status (handle limits dir p (.pasteEnd controller pasteId status)) :=
  handlePasteEnd_ends p pasteId status

theorem complete_iff {g : PendingGroup} {path : Bytes} (h : g.finished.length < g.groupSize.toNat) :
    g.groupSize ≤ UInt32.ofNat (g.finished++[path]).length ↔
      g.groupSize.toNat = (g.finished++[path]).length := by
  have hsize := g.groupSize.toNat_lt
  rw [UInt32.le_iff_toNat_le, UInt32.toNat_ofNat', List.length_append, List.length_singleton,
    Nat.mod_eq_of_lt (by omega)]
  omega

end Registries

end Term.PasteGroups
