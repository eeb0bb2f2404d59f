import TermMux.FrameCodec
import TermMux.PasteContent

/-!
# Limits of the paste registries

The counters of the registries stay within the limits for all frames that the wire lets
through, and none of the sums on them saturates. The cap on the bytes of a group is kept by
its record, and the record may go while pastes of the group are pending: a new record
under the same id does not know of them.
-/

set_option autoImplicit false

namespace Term.PasteLimits
open Term.ByteOrder Term.FrameModel Term.FrameCodec Term.KeyedMap Term.Machine Term.PasteContent
open Term.PasteDisk Term.PasteGroups Term.PasteNames Term.PasteUpload
open Term.PasteRegistry (accepted_le
  Uploading commits groupWeight groupWeight_erase_le groupWeight_replace groupWeight_of_idle
  groupWeight_of_lookup groupWeight_new)

/-! ## Counters -/

def body : PasteFrame → Body
  | .pasteBegin _ _ pasteId totalSize groupId groupSize name =>
    .pasteBegin pasteId totalSize groupId groupSize name
  | .pasteChunk _ pasteId bytes => .pasteChunk pasteId bytes
  | .pasteEnd _ pasteId status => .pasteEnd pasteId status

/-- The frame is one that the decoder lets through. -/
def Wired (f : PasteFrame) : Prop := BodyOk (body f)

def reserved (p : Pending) (groupId : UInt32) (totalSize : ℕ) : ℕ :=
  (p.groups.lookup groupId).elim totalSize fun g => saturatingAdd g.totalDeclared totalSize

def Exact (p : Pending) : PasteFrame → Prop
  | .pasteBegin _ _ _ totalSize groupId _ _ =>
    (∀ g ∈ p.groups.lookup groupId, g.totalDeclared+totalSize.toNat < 2^64) ∧
      totalSize.toNat ≤ reserved p groupId totalSize.toNat
  | .pasteChunk _ pasteId bytes =>
    ∀ paste ∈ p.pastes.lookup pasteId, paste.written+bytes.length < 2^64
  | .pasteEnd _ pasteId _ =>
    ∀ paste ∈ p.pastes.lookup pasteId, ∀ g ∈ p.groups.lookup paste.groupId,
      g.finished.length+1 < 2^32

def GroupWithin (g : PendingGroup) : Prop :=
  g.totalDeclared ≤ maxPasteTotalBytes ∧ g.finished.length < g.groupSize.toNat

structure Within (limits : Limits) (s : Disk) : Prop where
  pastes : s.pending.pastes.entries.length ≤ limits.maxPendingPastesPerStream
  groups : s.pending.groups.entries.length ≤ limits.maxPendingGroupsPerStream
  written : ∀ id paste, s.pending.pastes.lookup id = some paste →
    paste.written ≤ paste.totalSize ∧ ∃ file, s.files[s.handle id]? = some file ∧
      paste.written = (file.payloads.map List.length).sum
  group : ∀ id g, s.pending.groups.lookup id = some g → GroupWithin g

structure Counted (limits : Limits) (p : Pending) : Prop where
  pastes : p.pastes.entries.length ≤ limits.maxPendingPastesPerStream
  groups : p.groups.entries.length ≤ limits.maxPendingGroupsPerStream
  group : ∀ id g, p.groups.lookup id = some g → GroupWithin g

section Counters
variable {limits : Limits} {dir : Bytes} {p : Pending}

theorem length_replace {β : Type} {m : AList fun _ : UInt32 => β} {k : UInt32} {v : β}
    (h : m.lookup k = some v) (x : β) : (m.insert k x).entries.length = m.entries.length := by
  rw [entries_insert, (entries_perm h).length_eq]
  rfl

theorem length_new {β : Type} {m : AList fun _ : UInt32 => β} {k : UInt32}
    (h : m.lookup k = none) (x : β) : (m.insert k x).entries.length = m.entries.length+1 := by
  rw [entries_insert, erase_of_none h]
  rfl

/-- The record of an accepted begin takes a slot that is free, or the one it has. -/
theorem counted_reserve {pasteId groupId : UInt32} {totalSize : UInt64} {g : PendingGroup}
    (h : Counted limits p) (href : ¬Refused limits p pasteId totalSize groupId)
    (hg : GroupWithin g) :
    (p.groups.insert groupId g).entries.length ≤ limits.maxPendingGroupsPerStream ∧
      ∀ id g', (p.groups.insert groupId g).lookup id = some g' → GroupWithin g' := by
  refine ⟨?_,forall_insert (P := fun _ => GroupWithin) h.group hg⟩
  cases hl : p.groups.lookup groupId with
  | none =>
    simp only [Refused, hl, not_or, not_and_or, not_true_eq_false, false_or, not_le] at href
    rw [length_new hl]
    omega
  | some old =>
    rw [length_replace hl]
    exact h.groups

theorem groupFor_within {groupId groupSize : UInt32} (h : Counted limits p) (hsize : groupSize ≠ 0) :
    GroupWithin (groupFor p groupId groupSize) := by
  cases hl : p.groups.lookup groupId with
  | none =>
    simp only [groupFor, hl, Option.getD_none]
    refine ⟨Nat.zero_le _,?_⟩
    have hne : groupSize.toNat ≠ 0 := fun h0 => hsize (UInt32.toNat_inj.mp h0)
    exact Nat.pos_of_ne_zero hne
  | some g =>
    simp only [groupFor, hl, Option.getD_some]
    exact h.group groupId g hl

theorem begin_counted {controller : Bool} {env : PasteEnv} {pasteId : UInt32} {totalSize : UInt64}
    {groupId groupSize : UInt32} {name : String} (h : Counted limits p) (hsize : groupSize ≠ 0) :
    Counted limits (handle limits dir p
      (.pasteBegin controller env pasteId totalSize groupId groupSize name)).pending := by
  cases controller with
  | false => exact h
  | true =>
    have ho := handle_opens limits dir p env pasteId totalSize groupId groupSize name
    generalize handle limits dir p _ = out at ho ⊢
    have hfor : GroupWithin (groupFor p groupId groupSize) := groupFor_within h hsize
    cases ho with
    | refused reason href => exact h
    | oversize g href hg hover =>
      exact ⟨h.pastes,(length_erase_le _ _).trans h.groups,forall_erase h.group⟩
    | openFailed e href hover hopen =>
      obtain ⟨hgroups,hgroup⟩ := counted_reserve h href hfor
      exact ⟨h.pastes,hgroups,hgroup⟩
    | opened path href hover hopen =>
      have hdeclare : GroupWithin
          (PendingGroup.declare (groupFor p groupId groupSize) totalSize.toNat) :=
        ⟨accepted_le groupSize href hover,hfor.2⟩
      obtain ⟨hgroups,hgroup⟩ := counted_reserve h href hdeclare
      refine ⟨?_,hgroups,hgroup⟩
      change (p.pastes.insert _ _).entries.length ≤ _
      rw [length_new (new_of_accepted href)]
      simp only [Refused, not_or, not_le] at href
      omega

theorem chunk_counted {writeOk : Bool} {pasteId : UInt32} {bytes : Bytes} (h : Counted limits p) :
    Counted limits (handlePasteChunk writeOk p pasteId bytes).pending := by
  have hc := handlePasteChunk_chunks writeOk p pasteId bytes
  generalize handlePasteChunk writeOk p pasteId bytes = out at hc
  cases hc with
  | unknown hp => exact h
  | failed paste reason hp hbad => exact ⟨(length_erase_le _ _).trans h.pastes,h.groups,h.group⟩
  | written paste hp hfits hwrite =>
    refine ⟨?_,h.groups,h.group⟩
    rw [length_replace hp]
    exact h.pastes

theorem finished_lt {g : PendingGroup} {path : Bytes} (h : GroupWithin g)
    (hmore : ¬g.groupSize ≤ UInt32.ofNat (g.finished++[path]).length) :
    (g.finished++[path]).length < g.groupSize.toNat := by
  rw [complete_iff h.2] at hmore
  have hlen := h.2
  rw [List.length_append, List.length_singleton] at hmore ⊢
  omega

theorem end_counted {pasteId : UInt32} {status : UInt8} (h : Counted limits p) :
    Counted limits (handlePasteEnd p pasteId status).pending := by
  have he := handlePasteEnd_ends p pasteId status
  generalize handlePasteEnd p pasteId status = out at he
  have hpastes : (p.pastes.erase pasteId).entries.length ≤ limits.maxPendingPastesPerStream :=
    (length_erase_le _ _).trans h.pastes
  cases he with
  | unknown hp => exact h
  | dropped paste reject hp hbad =>
    exact ⟨hpastes,(length_erase_le _ _).trans h.groups,forall_erase h.group⟩
  | staged paste g hp hok hg hmore =>
    refine ⟨hpastes,?_,forall_insert (P := fun _ => GroupWithin) h.group ?_⟩
    · rw [length_replace hg]
      exact h.groups
    · exact ⟨(h.group _ g hg).1,finished_lt (h.group _ g hg) hmore⟩
  | completed paste g hp hok hg hfull =>
    exact ⟨hpastes,(length_erase_le _ _).trans h.groups,forall_erase h.group⟩
  | alone paste hp hok hg => exact ⟨hpastes,h.groups,h.group⟩

theorem handle_counted {f : PasteFrame} (h : Counted limits p) (hf : Wired f) :
    Counted limits (handle limits dir p f).pending := by
  cases f with
  | pasteBegin controller env pasteId totalSize groupId groupSize name =>
    exact begin_counted h hf.2.1
  | pasteChunk writeOk pasteId bytes => exact chunk_counted h
  | pasteEnd controller pasteId status => exact end_counted h

/-- Nothing saturates, wraps or is cut off while the counters are within their limits. -/
theorem exact_of_within {s : Disk} {f : PasteFrame} (h : Counted limits s.pending) (hu : Uploads s)
    (hf : Wired f) : Exact s.pending f := by
  have hcap : maxPasteTotalBytes < 2^32 := by decide
  cases f with
  | pasteBegin controller env pasteId totalSize groupId groupSize name =>
    have htotal : totalSize.toNat ≤ maxPasteTotalBytes := hf.1
    constructor
    · intro g hg
      have hdeclared := (h.group groupId g hg).1
      omega
    · unfold reserved
      cases hl : s.pending.groups.lookup groupId with
      | none => exact Nat.le_refl _
      | some g =>
        simp only [Option.elim_some, saturatingAdd]
        omega
  | pasteChunk writeOk pasteId bytes =>
    intro paste hp
    obtain ⟨file,-,htaking⟩ := hu pasteId paste hp
    have hlen : bytes.length ≤ maxPasteChunkBytes := hf
    have hchunk : maxPasteChunkBytes < 2^32 := by decide
    have hfits := htaking.fits
    have hcapped := htaking.capped
    omega
  | pasteEnd controller pasteId status =>
    intro paste hp g hg
    have hlt := (h.group paste.groupId g hg).2
    have hsize := g.groupSize.toNat_lt
    omega

end Counters

theorem wired_meets {s : Disk} {f : PasteFrame} (h : Wired f) : Wired (s.meets f) := by
  cases f <;> exact h

/-- Whatever frames the wire lets through, the registries of a stream stay within their limits
and count what was written, and the next frame overflows none of the counters. -/
theorem registries_within (limits : Limits) (dir : Bytes) (es : List Event)
    (hwired : ∀ e ∈ es, Wired e.frame) (s : Disk)
    (hrun : run (step limits dir) Disk.new es = some s) :
    Within limits s ∧ ∀ f, Wired f → Exact s.pending f := by
  obtain ⟨-,hu⟩ := run_uploads hrun
  have hcounted : Counted limits s.pending := by
    refine run_along (step limits dir) (I := fun s => Counted limits s.pending)
      ?_ ?_ (along_of_forall _ hwired) hrun
    · intro u e v h he hstep
      cases hstep
      rw [pending_handled]
      exact handle_counted h (wired_meets he)
    · refine ⟨Nat.zero_le _,Nat.zero_le _,?_⟩
      intro id g hg
      cases hg
  refine ⟨⟨hcounted.pastes,hcounted.groups,?_,hcounted.group⟩,fun f => exact_of_within hcounted hu⟩
  intro id paste hp
  obtain ⟨file,hfile,htaking⟩ := hu id paste hp
  exact ⟨htaking.fits,file,hfile,htaking.written.symm⟩

theorem registries_within_byte : ∃ s,
    run (step Limits.default []) Disk.new ((oneByte true).take 2) = some s ∧
    s.pending.pastes.entries.length = 1 ∧ Within Limits.default s := by
  have hfacts : ((run (step Limits.default []) Disk.new ((oneByte true).take 2)).map fun s =>
      s.pending.pastes.entries.length) = some 1 := by
    decide +kernel
  obtain ⟨s,hs,hlen⟩ := Option.map_eq_some_iff.mp hfacts
  have hwired : ∀ e ∈ (oneByte true).take 2, Wired e.frame := by
    intro e he
    rcases List.mem_cons.mp he with rfl | he
    · exact ⟨by decide,by decide,by decide⟩
    · rw [List.mem_singleton.mp he]
      change [(0x41 : UInt8)].length ≤ maxPasteChunkBytes
      decide
  exact ⟨s,hs,hlen,(registries_within Limits.default [] _ hwired s hs).1⟩

/-! ## The bytes of a group -/

def pendingTotal : (AList fun _ : UInt32 => PendingPaste) → UInt32 → ℕ :=
  groupWeight PendingPaste.totalSize

def sizeAt (s : Disk) (path : Bytes) : ℕ := (s.files[s.fileAt path]?).elim 0 PasteFile.size

def occupied (s : Disk) (groupId : UInt32) : ℕ :=
  pendingTotal s.pending.pastes groupId+((finishedOf s.pending groupId).map (sizeAt s)).sum

def allowance (p : Pending) (groupId : UInt32) : ℕ :=
  (p.groups.lookup groupId).elim maxPasteTotalBytes PendingGroup.totalDeclared

structure Capped (s : Disk) : Prop where
  occupied : ∀ groupId, occupied s groupId ≤ allowance s.pending groupId
  declared : ∀ groupId g, s.pending.groups.lookup groupId = some g →
    g.totalDeclared ≤ maxPasteTotalBytes

/-- A begin that creates a record finds no pending paste of its group. -/
def Fresh (limits : Limits) (s : Disk) (e : Event) : Prop :=
  match e.frame with
  | .pasteBegin controller _ pasteId totalSize groupId _ _ =>
    controller = true → ¬Refused limits s.pending pasteId totalSize groupId →
      s.pending.groups.lookup groupId = none → ¬Uploading s.pending.pastes groupId
  | _ => True

instance (limits : Limits) (s : Disk) (e : Event) : Decidable (Fresh limits s e) := by
  unfold Fresh
  split <;> infer_instance

section Bytes
variable {limits : Limits} {dir : Bytes} {s : Disk}

theorem finishedOf_subset (p : Pending) (groupId : UInt32) :
    finishedOf p groupId ⊆ finishedPaths p.groups := by
  intro path hpath
  exact (finishedPaths_erase p groupId).symm.subset (List.mem_append_left _ hpath)

theorem sizeAt_handled (h : Held s) (e : Event) {path : Bytes}
    (hpath : path ∈ finishedPaths s.pending.groups) :
    sizeAt (s.handled limits dir e) path = sizeAt s path := by
  have hat : (s.handled limits dir e).fileAt path = s.fileAt path :=
    fileAt_handled h e (List.mem_append_right _ hpath)
  have hmem : path ∈ s.paths := h.created path (List.mem_append_right _ hpath)
  have hlt : s.fileAt path < s.files.length := by
    have hget := getElem?_latest hmem
    rw [Disk.paths, List.getElem?_map] at hget
    obtain ⟨file,hfile,-⟩ := Option.map_eq_some_iff.mp hget
    exact (List.getElem?_eq_some_iff.mp hfile).1
  unfold sizeAt
  rw [hat]
  cases ho : openedBy (s.meets e.frame) (outcome limits dir s e) with
  | none =>
    rw [handled_kept ho]
    exact congrArg (fun o => Option.elim o 0 PasteFile.size)
      (written_elsewhere h (.inl (List.mem_map_of_mem hpath)) _ _ _)
  | some opened =>
    rw [handled_opened ho]
    exact congrArg (fun o => Option.elim o 0 PasteFile.size) (List.getElem?_append_left hlt)

theorem finishedOf_congr {p q : Pending} {groupId : UInt32}
    (h : q.groups.lookup groupId = p.groups.lookup groupId) :
    finishedOf q groupId = finishedOf p groupId := by
  unfold finishedOf waiting
  rw [h]

theorem finished_sum_congr {s' : Disk} (groupId : UInt32)
    (hsize : ∀ path ∈ finishedPaths s.pending.groups, sizeAt s' path = sizeAt s path) :
    ((finishedOf s.pending groupId).map (sizeAt s')).sum =
      ((finishedOf s.pending groupId).map (sizeAt s)).sum :=
  congrArg List.sum (List.map_congr_left fun path hpath =>
    hsize path (finishedOf_subset s.pending groupId hpath))

theorem allowance_le (h : Capped s) (groupId : UInt32) :
    allowance s.pending groupId ≤ maxPasteTotalBytes := by
  unfold allowance
  cases hg : s.pending.groups.lookup groupId with
  | none => exact Nat.le_refl _
  | some g => exact h.declared groupId g hg

/-- A group that keeps its record, or is left without one, while its pending pastes take no
more than before. -/
theorem occupied_of_kept {s' : Disk} {groupId : UInt32} (h : Capped s)
    (hsize : ∀ path ∈ finishedPaths s.pending.groups, sizeAt s' path = sizeAt s path)
    (hpending : pendingTotal s'.pending.pastes groupId ≤ pendingTotal s.pending.pastes groupId)
    (hgroup : s'.pending.groups.lookup groupId = s.pending.groups.lookup groupId ∨
      s'.pending.groups.lookup groupId = none) :
    occupied s' groupId ≤ allowance s'.pending groupId := by
  have hocc := h.occupied groupId
  rcases hgroup with hsame | hnone
  · have hsum := finished_sum_congr groupId hsize
    have hallow : allowance s'.pending groupId = allowance s.pending groupId := by
      rw [allowance, allowance, hsame]
    unfold occupied at hocc ⊢
    rw [finishedOf_congr hsame, hsum, hallow]
    omega
  · have hallow := allowance_le h groupId
    have hempty : finishedOf s'.pending groupId = [] := by simp [finishedOf, waiting, hnone]
    have hcap : allowance s'.pending groupId = maxPasteTotalBytes := by simp [allowance, hnone]
    unfold occupied at hocc ⊢
    rw [hempty, hcap]
    simp only [List.map_nil, List.sum_nil]
    omega

theorem capped_of_kept {s' : Disk} (h : Capped s)
    (hsize : ∀ path ∈ finishedPaths s.pending.groups, sizeAt s' path = sizeAt s path)
    (hpending : ∀ groupId,
      pendingTotal s'.pending.pastes groupId ≤ pendingTotal s.pending.pastes groupId)
    (hgroup : ∀ groupId, s'.pending.groups.lookup groupId = s.pending.groups.lookup groupId ∨
      s'.pending.groups.lookup groupId = none) : Capped s' := by
  refine ⟨fun groupId => occupied_of_kept h hsize (hpending groupId) (hgroup groupId),?_⟩
  intro groupId g hg
  rcases hgroup groupId with hsame | hnone
  · exact h.declared groupId g (hsame.symm.trans hg)
  · cases hnone.symm.trans hg

theorem capped_of_erase {s' : Disk} {pasteId : UInt32} (h : Capped s)
    (hsize : ∀ path ∈ finishedPaths s.pending.groups, sizeAt s' path = sizeAt s path)
    (hpastes : s'.pending.pastes = s.pending.pastes.erase pasteId)
    (hgroup : ∀ groupId, s'.pending.groups.lookup groupId = s.pending.groups.lookup groupId ∨
      s'.pending.groups.lookup groupId = none) : Capped s' := by
  refine capped_of_kept h hsize (fun g => ?_) hgroup
  rw [hpastes]
  exact groupWeight_erase_le _ _ _ _

theorem lookup_erase_or {p : Pending} (erased groupId : UInt32) :
    (p.groups.erase erased).lookup groupId = p.groups.lookup groupId ∨
      (p.groups.erase erased).lookup groupId = none := by
  by_cases heq : groupId = erased
  · subst heq
    exact .inr (AList.lookup_erase _ _)
  · exact .inl (AList.lookup_erase_ne heq)

theorem capped_of_reserve {s' : Disk} {groupId groupSize : UInt32} {g : PendingGroup} (more : ℕ)
    (h : Capped s) (hfresh : s.pending.groups.lookup groupId = none →
      ¬Uploading s.pending.pastes groupId)
    (hsize : ∀ path ∈ finishedPaths s.pending.groups, sizeAt s' path = sizeAt s path)
    (hgroups : s'.pending.groups = s.pending.groups.insert groupId g)
    (hfinished : g.finished = (groupFor s.pending groupId groupSize).finished)
    (hdeclared : g.totalDeclared = (groupFor s.pending groupId groupSize).totalDeclared+more)
    (hcap : g.totalDeclared ≤ maxPasteTotalBytes)
    (hself : pendingTotal s'.pending.pastes groupId = pendingTotal s.pending.pastes groupId+more)
    (hother : ∀ other, other ≠ groupId →
      pendingTotal s'.pending.pastes other = pendingTotal s.pending.pastes other) : Capped s' := by
  constructor
  · intro other
    by_cases heq : other = groupId
    · subst heq
      have hnew : finishedOf s'.pending other = finishedOf s.pending other := by
        have hl : s'.pending.groups.lookup other = some g := by rw [hgroups, AList.lookup_insert]
        rw [finishedOf_some hl, hfinished]
        cases hold : s.pending.groups.lookup other with
        | none => simp [groupFor, hold, finishedOf, waiting]
        | some old => simp [groupFor, hold, finishedOf, waiting]
      have hallow : allowance s'.pending other = g.totalDeclared := by
        rw [allowance, hgroups, AList.lookup_insert]
        rfl
      have hocc := h.occupied other
      have hsum := finished_sum_congr other hsize
      rw [hallow, hdeclared]
      unfold occupied at hocc ⊢
      rw [hnew, hsum, hself]
      cases hold : s.pending.groups.lookup other with
      | none =>
        have hidle : pendingTotal s.pending.pastes other = 0 := groupWeight_of_idle _ (hfresh hold)
        have hempty : finishedOf s.pending other = [] := by simp [finishedOf, waiting, hold]
        rw [hidle, hempty]
        simp
      | some old =>
        simp only [allowance, groupFor, hold, Option.elim_some, Option.getD_some] at hocc ⊢
        omega
    · refine occupied_of_kept h hsize (hother other heq).le (.inl ?_)
      rw [hgroups, AList.lookup_insert_ne heq]
  · intro other g' hg'
    rw [hgroups] at hg'
    rcases lookup_of_insert hg' with ⟨-,rfl⟩ | ⟨-,hold⟩
    · exact hcap
    · exact h.declared other g' hold

theorem capped_of_same {s' : Disk} (h : Capped s)
    (hsize : ∀ path ∈ finishedPaths s.pending.groups, sizeAt s' path = sizeAt s path)
    (hs' : s'.pending = s.pending) : Capped s' := by
  refine capped_of_kept h hsize (fun g => ?_) fun g => .inl ?_
  · rw [hs']
  · rw [hs']

theorem begin_capped {controller : Bool} {env : PasteEnv} {pasteId : UInt32}
    {totalSize : UInt64} {groupId groupSize : UInt32} {name : String} {s' : Disk} (h : Capped s)
    (hfresh : controller = true → ¬Refused limits s.pending pasteId totalSize groupId →
      s.pending.groups.lookup groupId = none → ¬Uploading s.pending.pastes groupId)
    (hsize : ∀ path ∈ finishedPaths s.pending.groups, sizeAt s' path = sizeAt s path)
    (hs' : s'.pending = (handle limits dir s.pending
      (.pasteBegin controller env pasteId totalSize groupId groupSize name)).pending) :
    Capped s' := by
  cases controller with
  | false => exact capped_of_same h hsize hs'
  | true =>
    have ho := handle_opens limits dir s.pending env pasteId totalSize groupId groupSize name
    generalize handle limits dir s.pending _ = out at hs' ho
    cases ho with
    | refused reason href => exact capped_of_same h hsize hs'
    | oversize g href hg hover =>
      refine capped_of_kept h hsize (fun other => ?_) fun other => ?_
      · rw [hs']
      · rw [hs']
        exact lookup_erase_or groupId other
    | openFailed err href hover hopen =>
      refine capped_of_reserve 0 h (hfresh rfl href) hsize (congrArg Pending.groups hs') rfl rfl
        ?_ ?_ fun other _ => ?_
      · have hle := accepted_le groupSize href hover
        omega
      · rw [hs']
        rfl
      · rw [hs']
    | opened path href hover hopen =>
      have hpastes : ∀ other, pendingTotal s'.pending.pastes other =
          (if groupId = other then totalSize.toNat else 0)+pendingTotal s.pending.pastes other := by
        intro other
        rw [hs']
        exact groupWeight_new _ (new_of_accepted href) _ other
      refine capped_of_reserve totalSize.toNat h (hfresh rfl href) hsize (congrArg Pending.groups hs')
        rfl rfl (accepted_le groupSize href hover) ?_ fun other hne => ?_
      · rw [hpastes, if_pos rfl, Nat.add_comm]
      · rw [hpastes, if_neg (Ne.symm hne), Nat.zero_add]

theorem chunk_capped {writeOk : Bool} {pasteId : UInt32} {bytes : Bytes} {s' : Disk}
    (h : Capped s)
    (hsize : ∀ path ∈ finishedPaths s.pending.groups, sizeAt s' path = sizeAt s path)
    (hs' : s'.pending = (handle limits dir s.pending (.pasteChunk writeOk pasteId bytes)).pending) :
    Capped s' := by
  have hc := handle_chunks limits dir s.pending writeOk pasteId bytes
  generalize handle limits dir s.pending _ = out at hs' hc
  cases hc with
  | unknown hp => exact capped_of_same h hsize hs'
  | failed paste reason hp hbad =>
    refine capped_of_erase h hsize (congrArg Pending.pastes hs') fun g => .inl ?_
    rw [hs']
  | written paste hp hfits hwrite =>
    refine capped_of_kept h hsize (fun g => ?_) fun g => .inl ?_
    · rw [hs']
      exact (groupWeight_replace (w := PendingPaste.totalSize) hp rfl rfl g).le
    · rw [hs']

theorem sizeAt_committed (h : Held s) (hu : Uploads s) {e : Event} {id : UInt32}
    {paste : PendingPaste} (hc : commits s.pending (s.meets e.frame) = some (id,paste)) :
    sizeAt (s.handled limits dir e) paste.path = paste.totalSize := by
  obtain ⟨hmem,hsize,file,htaking,hfile⟩ := flushed_of_commits h hu hc
  unfold sizeAt
  rw [fileAt_handled h e hmem, hfile]
  exact htaking.written.trans hsize

theorem capped_of_finish {s' : Disk} {pasteId : UInt32} {paste : PendingPaste} {grp : PendingGroup}
    (h : Capped s) (hp : s.pending.pastes.lookup pasteId = some paste)
    (hg : s.pending.groups.lookup paste.groupId = some grp)
    (hsize : ∀ path ∈ finishedPaths s.pending.groups, sizeAt s' path = sizeAt s path)
    (hpath : sizeAt s' paste.path = paste.totalSize)
    (hs' : s'.pending = ⟨s.pending.pastes.erase pasteId,s.pending.groups.insert paste.groupId
      { grp with finished := grp.finished++[paste.path] }⟩) : Capped s' := by
  constructor
  · intro g
    by_cases heq : g = paste.groupId
    · subst heq
      have hocc := h.occupied paste.groupId
      have hold := finishedOf_some hg
      have hsum := finished_sum_congr paste.groupId hsize
      have hnew : finishedOf s'.pending paste.groupId = grp.finished++[paste.path] := by
        have hlookup : s'.pending.groups.lookup paste.groupId =
            some { grp with finished := grp.finished++[paste.path] } := by
          rw [hs', AList.lookup_insert]
        exact finishedOf_some hlookup
      have hpending : pendingTotal s.pending.pastes paste.groupId =
          paste.totalSize+pendingTotal (s.pending.pastes.erase pasteId) paste.groupId :=
        groupWeight_of_lookup _ hp
      have hrest : pendingTotal s'.pending.pastes paste.groupId =
          pendingTotal (s.pending.pastes.erase pasteId) paste.groupId := by rw [hs']
      have hallow : allowance s'.pending paste.groupId = allowance s.pending paste.groupId := by
        rw [hs']
        simp only [allowance, AList.lookup_insert, hg, Option.elim_some]
      rw [hold] at hsum
      unfold occupied at hocc ⊢
      rw [hallow, hnew, List.map_append, List.sum_append, hsum, List.map_singleton,
        List.sum_singleton, hpath]
      rw [hold] at hocc
      omega
    · refine occupied_of_kept h hsize ?_ (.inl ?_)
      · rw [hs']
        exact groupWeight_erase_le _ _ _ _
      · rw [hs']
        exact AList.lookup_insert_ne heq
  · intro g g' hg'
    rw [hs'] at hg'
    rcases lookup_of_insert hg' with ⟨-,rfl⟩ | ⟨-,hold⟩
    · exact h.declared _ grp hg
    · exact h.declared g g' hold

theorem end_capped {controller : Bool} {pasteId : UInt32} {status : UInt8} {s' : Disk}
    (h : Capped s)
    (hsize : ∀ path ∈ finishedPaths s.pending.groups, sizeAt s' path = sizeAt s path)
    (hcommit : ∀ paste,
      commits s.pending (.pasteEnd controller pasteId status) = some (pasteId,paste) →
      sizeAt s' paste.path = paste.totalSize)
    (hs' : s'.pending = (handle limits dir s.pending (.pasteEnd controller pasteId status)).pending) :
    Capped s' := by
  have he := handle_ends limits dir s.pending controller pasteId status
  generalize handle limits dir s.pending _ = out at hs' he
  cases he with
  | unknown hp => exact capped_of_same h hsize hs'
  | dropped paste reject hp hbad =>
    refine capped_of_erase h hsize (congrArg Pending.pastes hs') fun g => ?_
    rw [hs']
    exact lookup_erase_or _ g
  | staged paste grp hp hok hg hmore =>
    refine capped_of_finish h hp hg hsize (hcommit paste ?_) hs'
    simp only [commits, hp]
    exact if_neg hok
  | completed paste grp hp hok hg hfull =>
    refine capped_of_erase h hsize (congrArg Pending.pastes hs') fun g => ?_
    rw [hs']
    exact lookup_erase_or _ g
  | alone paste hp hok hg =>
    refine capped_of_erase h hsize (congrArg Pending.pastes hs') fun g => .inl ?_
    rw [hs']

theorem handled_capped (hheld : Held s) (hu : Uploads s) (h : Capped s) {e : Event}
    (hfresh : Fresh limits s e) : Capped (s.handled limits dir e) := by
  have hsize : ∀ path ∈ finishedPaths s.pending.groups,
      sizeAt (s.handled limits dir e) path = sizeAt s path := fun path => sizeAt_handled hheld e
  have hs' : (s.handled limits dir e).pending = (outcome limits dir s e).pending := pending_handled e
  obtain ⟨f,drained,flushed⟩ := e
  cases f with
  | pasteBegin controller env pasteId totalSize groupId groupSize name =>
    exact begin_capped h hfresh hsize hs'
  | pasteChunk writeOk pasteId bytes => exact chunk_capped h hsize hs'
  | pasteEnd controller pasteId status =>
    exact end_capped h hsize (fun _ hc => sizeAt_committed hheld hu hc) hs'

end Bytes

/-- Where every record is created for a group with no pending paste, a group never occupies more
than the cap. -/
theorem group_within_cap (limits : Limits) (dir : Bytes) (es : List Event)
    (hok : Along (step limits dir) (Fresh limits) Disk.new es) (bs : List Event) (s : Disk)
    (hbs : bs <+: es) (hrun : run (step limits dir) Disk.new bs = some s) (groupId : UInt32) :
    occupied s groupId ≤ maxPasteTotalBytes := by
  obtain ⟨cs,rfl⟩ := hbs
  have hall : Held s ∧ Uploads s ∧ Capped s := by
    refine run_along (step limits dir) (I := fun s => Held s ∧ Uploads s ∧ Capped s)
      ?_ ?_ (along_append _ hok) hrun
    · rintro u e v ⟨h,hu,hc⟩ hfresh hstep
      cases hstep
      exact ⟨handled_held h e,handled_uploads h hu e,handled_capped h hu hc hfresh⟩
    · refine ⟨new_held,?_,?_,?_⟩
      · intro id paste hp
        cases hp
      · intro g
        exact Nat.zero_le _
      · intro id g hg
        cases hg
  exact (hall.2.2.occupied groupId).trans (allowance_le hall.2.2 groupId)

def beginOf (pasteId : UInt32) (totalSize : UInt64) : Event :=
  ⟨.pasteBegin true anyFile pasteId totalSize 7 2 "a",0,true⟩

def oneAtATime : List Event :=
  [beginOf 1 4294967295,⟨.pasteEnd true 1 pasteStatusCancel,0,true⟩,beginOf 2 4294967295]

theorem group_within_cap_full : ∃ s, run (step Limits.default []) Disk.new oneAtATime = some s ∧
    occupied s 7 = maxPasteTotalBytes ∧ occupied s 7 ≤ maxPasteTotalBytes := by
  have hfacts : ((run (step Limits.default []) Disk.new oneAtATime).map fun s => occupied s 7) =
      some maxPasteTotalBytes := by
    decide +kernel
  obtain ⟨s,hs,hocc⟩ := Option.map_eq_some_iff.mp hfacts
  have hok : Along (step Limits.default []) (Fresh Limits.default) Disk.new oneAtATime := by
    decide +kernel
  exact ⟨s,hs,hocc,group_within_cap Limits.default [] _ hok _ s (List.prefix_refl _) hs 7⟩

/-- The record of a group goes with its second, empty file while the first, of the largest
size, is pending; a third file gets a new record. -/
def recordRenewed : List Event :=
  [beginOf 1 4294967295,beginOf 2 0,⟨.pasteEnd true 2 pasteStatusCancel,0,true⟩,
    beginOf 3 4294967295]

theorem cap_doubled : ∃ s, run (step Limits.default []) Disk.new recordRenewed = some s ∧
    occupied s 7 = 2*maxPasteTotalBytes ∧ ¬occupied s 7 ≤ maxPasteTotalBytes := by
  have hfacts : ((run (step Limits.default []) Disk.new recordRenewed).map fun s => occupied s 7) =
      some (2*maxPasteTotalBytes) := by
    decide +kernel
  obtain ⟨s,hs,hocc⟩ := Option.map_eq_some_iff.mp hfacts
  refine ⟨s,hs,hocc,?_⟩
  rw [hocc]
  decide

end Term.PasteLimits
