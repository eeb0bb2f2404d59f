import TermMux.PasteRegistry

/-!
# What becomes of a group

The uses of each group id on a stream, from a `PasteBegin` that finds neither a record nor
a pending paste of the id: the sizes that its begins carry, the paths of the pastes
that ended well, those typed into the shell, and whether a paste of it was
rejected. A use all of whose pastes ended well is typed or rejected, unless the end of its
last paste finds the control gone or the shell.
-/

set_option autoImplicit false

namespace Term.PasteFate
open Term.ByteOrder Term.FrameModel Term.KeyedMap Term.Machine Term.PasteGroups Term.PasteNames
open Term.PasteUpload
open Term.PasteRegistry (Uploading commits
  groupWeight groupWeight_new groupWeight_split groupWeight_of_lookup groupWeight_erase_ne
  groupWeight_replace groupWeight_of_idle)

structure Use where
  sizes : List UInt32
  ended : List Bytes
  typed : List Bytes
  rejected : Bool
  deriving DecidableEq, Repr

def Use.new : Use := ⟨[],[],[],false⟩

structure Ledger where
  pending : Pending
  uses : UInt32 → Use

def Ledger.new : Ledger := ⟨Pending.empty,fun _ => Use.new⟩

/-- A paste frame, and whether `write_internal` would take the paths. -/
structure Event where
  frame : PasteFrame
  taken : Bool

def groupOf (p : Pending) : PasteFrame → Option UInt32
  | .pasteBegin _ _ _ _ groupId _ _ => some groupId
  | .pasteChunk _ pasteId _ => (p.pastes.lookup pasteId).map PendingPaste.groupId
  | .pasteEnd _ pasteId _ => (p.pastes.lookup pasteId).map PendingPaste.groupId

def sizeOf : PasteFrame → Option UInt32
  | .pasteBegin _ _ _ _ _ groupSize _ => some groupSize
  | _ => none

def lands (e : Event) : Bool :=
  match e.frame with
  | .pasteEnd controller _ _ => controller && e.taken
  | _ => false

def Idle (p : Pending) (groupId : UInt32) : Prop :=
  p.groups.lookup groupId = none ∧ ¬Uploading p.pastes groupId

instance (p : Pending) (groupId : UInt32) : Decidable (Idle p groupId) :=
  inferInstanceAs (Decidable (_ ∧ _))

def Ledger.current (s : Ledger) (f : PasteFrame) (groupId : UInt32) : Use :=
  if (sizeOf f).isSome = true ∧ Idle s.pending groupId then Use.new else s.uses groupId

def Use.record (u : Use) (p : Pending) (e : Event) (h : Handled) : Use :=
  ⟨u.sizes++(sizeOf e.frame).toList,
    u.ended++((commits p e.frame).map fun c => c.2.path).toList,
    u.typed++(if lands e then h.inject.getD [] else []),
    u.rejected || h.reject.isSome⟩

def Ledger.handled (limits : Limits) (dir : Bytes) (s : Ledger) (e : Event) : Ledger :=
  let h := handle limits dir s.pending e.frame
  match groupOf s.pending e.frame with
  | none => { s with pending := h.pending }
  | some g =>
    ⟨h.pending,Function.update s.uses g ((s.current e.frame g).record s.pending e h)⟩

def step (limits : Limits) (dir : Bytes) (s : Ledger) (e : Event) : Option Ledger :=
  some (s.handled limits dir e)

def Whole (u : Use) : Prop :=
  ∃ k, u.sizes.head? = some k ∧ u.sizes.length = k.toNat ∧ u.ended.length = k.toNat

/-- The last paste of a group ends with the control still there and the shell running. -/
def Lands (s : Ledger) (e : Event) : Prop :=
  ∀ c ∈ commits s.pending e.frame, ∀ g ∈ s.pending.groups.lookup c.2.groupId,
    g.groupSize ≤ UInt32.ofNat (g.finished.length+1) → lands e = true

instance (s : Ledger) (e : Event) : Decidable (Lands s e) :=
  inferInstanceAs (Decidable (∀ c ∈ commits s.pending e.frame, _))

def pendingCount : (AList fun _ : UInt32 => PendingPaste) → UInt32 → ℕ := groupWeight fun _ => 1

def Over (u : Use) : Prop := ∃ k, u.sizes.head? = some k ∧ k.toNat < u.sizes.length

def Excused (p : Pending) (u : Use) (groupId : UInt32) : Prop :=
  u.rejected = true ∨ u.ended.length+pendingCount p.pastes groupId < u.sizes.length ∨ Over u

def Waits (p : Pending) (u : Use) (groupId : UInt32) : Prop :=
  ∃ g, p.groups.lookup groupId = some g ∧ u.sizes.head? = some g.groupSize ∧
    g.finished = u.ended ∧ u.ended.length < g.groupSize.toNat ∧ u.typed = []

def Done (p : Pending) (u : Use) (groupId : UInt32) : Prop :=
  Idle p groupId ∧ u.typed = u.ended

structure Story (p : Pending) (u : Use) (groupId : UInt32) : Prop where
  count : u.ended.length+pendingCount p.pastes groupId ≤ u.sizes.length
  fate : Excused p u groupId ∨ Waits p u groupId ∨ Done p u groupId

section Story
variable {p q : Pending} {u : Use} {g : UInt32}

theorem story_new (h : Idle p g) : Story p Use.new g := by
  refine ⟨?_,.inr (.inr ⟨h,rfl⟩)⟩
  have hidle : pendingCount p.pastes g = 0 := groupWeight_of_idle _ h.2
  simp [Use.new, hidle]

theorem uploading_iff (p : Pending) (g : UInt32) :
    Uploading p.pastes g ↔ 0 < pendingCount p.pastes g := by
  constructor
  · rintro ⟨e,he,hg⟩
    have hp : p.pastes.lookup e.1 = some e.2 := AList.mem_lookup_iff.mpr he
    have hsplit := groupWeight_split (fun _ => 1) hp g
    rw [if_pos hg] at hsplit
    unfold pendingCount
    omega
  · intro hpos
    by_contra hidle
    have hzero : pendingCount p.pastes g = 0 := groupWeight_of_idle _ hidle
    omega

theorem story_congr (h : Story p u g) (hgroup : q.groups.lookup g = p.groups.lookup g)
    (hcount : pendingCount q.pastes g = pendingCount p.pastes g) : Story q u g := by
  refine ⟨by rw [hcount]; exact h.count,?_⟩
  rcases h.fate with hex | ⟨grp,hg,hrest⟩ | ⟨⟨hg,hu⟩,htyped⟩
  · refine .inl ?_
    unfold Excused at hex ⊢
    rwa [hcount]
  · exact .inr (.inl ⟨grp,hgroup.trans hg,hrest⟩)
  · refine .inr (.inr ⟨⟨hgroup.trans hg,?_⟩,htyped⟩)
    rwa [uploading_iff, hcount, ← uploading_iff]

theorem typed_of_story (h : Story p u g) (hw : Whole u) : u.typed = u.ended ∨ u.rejected = true := by
  obtain ⟨k,hk,hsizes,hended⟩ := hw
  rcases h.fate with (hrej | hstuck | ⟨k',hk',hover⟩) | ⟨grp,-,hsize,-,hlt,-⟩ | hdone
  · exact .inr hrej
  · omega
  · cases hk.symm.trans hk'
    omega
  · cases hk.symm.trans hsize
    omega
  · exact .inl hdone.2

end Story

section Step
variable {limits : Limits} {dir : Bytes} {p : Pending} {u : Use}

theorem story_reject {q : Pending} {e : Event} {h : Handled} {g : UInt32} {reason : UInt8}
    (hs : Story p u g) (hcommits : commits p e.frame = none)
    (hcount : pendingCount q.pastes g ≤ pendingCount p.pastes g) (hr : h.reject = some reason) :
    Story q (u.record p e h) g := by
  have hended : (u.record p e h).ended = u.ended := by
    simp [Use.record, hcommits]
  refine ⟨?_,.inl (.inl ?_)⟩
  · have hold := hs.count
    rw [hended]
    simp only [Use.record, List.length_append]
    omega
  · simp [Use.record, hr]

theorem head?_append_of_some {l : List UInt32} {k : UInt32} (h : l.head? = some k)
    (more : List UInt32) : (l++more).head? = some k := by
  rw [List.head?_append, h]
  rfl

theorem begin_opened {e : Event} {h : Handled} {pasteId groupId groupSize : UInt32}
    {paste : PendingPaste} {totalSize : ℕ} (hs : Story p u groupId)
    (hidle : Idle p groupId → u = Use.new) (hsize : sizeOf e.frame = some groupSize)
    (hcommits : commits p e.frame = none) (hl : lands e = false) (hr : h.reject = none)
    (hfresh : p.pastes.lookup pasteId = none) (hg : paste.groupId = groupId) :
    Story ⟨p.pastes.insert pasteId paste,p.groups.insert groupId
      (PendingGroup.declare (groupFor p groupId groupSize) totalSize)⟩ (u.record p e h) groupId := by
  have hcount : pendingCount (p.pastes.insert pasteId paste) groupId =
      pendingCount p.pastes groupId+1 := by
    unfold pendingCount
    rw [groupWeight_new _ hfresh, if_pos hg, Nat.add_comm]
  have hrecord : u.record p e h = ⟨u.sizes++[groupSize],u.ended,u.typed,u.rejected⟩ := by
    simp [Use.record, hsize, hcommits, hl, hr]
  rw [hrecord]
  have hold := hs.count
  refine ⟨?_,?_⟩
  · simp only [List.length_append, List.length_singleton, hcount]
    omega
  rcases hs.fate with (hrej | hstuck | ⟨k,hk,hover⟩) | ⟨grp,hgrp,hhead,hfin,hlt,htyped⟩ | ⟨hid,-⟩
  · exact .inl (.inl hrej)
  · refine .inl (.inr (.inl ?_))
    simp only [List.length_append, List.length_singleton, hcount]
    omega
  · refine .inl (.inr (.inr ⟨k,head?_append_of_some hk _,?_⟩))
    rw [List.length_append]
    omega
  · refine .inr (.inl ⟨_,AList.lookup_insert _,?_,?_,?_,htyped⟩)
    · simp only [PendingGroup.declare, groupFor, hgrp, Option.getD_some]
      exact head?_append_of_some hhead _
    · simpa [PendingGroup.declare, groupFor, hgrp] using hfin
    · simpa [PendingGroup.declare, groupFor, hgrp] using hlt
  · -- The first begin of a use: a size of zero asks for fewer pastes than there are.
    rw [hidle hid]
    by_cases hzero : groupSize.toNat = 0
    · refine .inl (.inr (.inr ⟨groupSize,rfl,?_⟩))
      simp [Use.new, hzero]
    · refine .inr (.inl ⟨_,AList.lookup_insert _,?_,?_,?_,rfl⟩)
      · simp [PendingGroup.declare, groupFor, hid.1, Use.new]
      · simp [PendingGroup.declare, groupFor, hid.1, Use.new]
      · simp only [PendingGroup.declare, groupFor, hid.1, Option.getD_none, Use.new, List.length_nil]
        omega

theorem begin_story {controller taken : Bool} {env : PasteEnv} {pasteId : UInt32}
    {totalSize : UInt64} {groupId groupSize : UInt32} {name : String} (hs : Story p u groupId)
    (hidle : Idle p groupId → u = Use.new) :
    let f := PasteFrame.pasteBegin controller env pasteId totalSize groupId groupSize name
    Story (handle limits dir p f).pending (u.record p ⟨f,taken⟩ (handle limits dir p f)) groupId := by
  intro f
  cases controller with
  | false => exact story_reject hs rfl (Nat.le_refl _) rfl
  | true =>
    have ho := handle_opens limits dir p env pasteId totalSize groupId groupSize name
    generalize handle limits dir p f = out at ho ⊢
    cases ho with
    | refused reason href => exact story_reject hs rfl (Nat.le_refl _) rfl
    | oversize g href hg hover => exact story_reject hs rfl (Nat.le_refl _) rfl
    | openFailed err href hover hopen => exact story_reject hs rfl (Nat.le_refl _) rfl
    | opened path href hover hopen =>
      exact begin_opened hs hidle rfl rfl rfl rfl (new_of_accepted href) rfl

theorem chunk_story {writeOk taken : Bool} {pasteId : UInt32} {bytes : Bytes} {g : UInt32}
    (hs : Story p u g) :
    let f := PasteFrame.pasteChunk writeOk pasteId bytes
    Story (handle limits dir p f).pending (u.record p ⟨f,taken⟩ (handle limits dir p f)) g := by
  intro f
  have hc := handle_chunks limits dir p writeOk pasteId bytes
  generalize handle limits dir p f = out at hc ⊢
  have hquiet : ∀ h : Handled, h.reject = none → u.record p ⟨f,taken⟩ h = u := by
    intro h hr
    simp [Use.record, f, sizeOf, commits, lands, hr]
  cases hc with
  | unknown hp =>
    rw [hquiet _ rfl]
    exact hs
  | failed paste reason hp hbad =>
    refine story_reject hs rfl ?_ rfl
    unfold pendingCount
    rw [groupWeight_split _ hp]
    exact Nat.le_add_left _ _
  | written paste hp hfits hwrite =>
    rw [hquiet _ rfl]
    exact story_congr hs rfl (groupWeight_replace (w := fun _ => 1) hp rfl rfl g)

theorem record_end {controller taken : Bool} {pasteId : UInt32} {status : UInt8}
    {paste : PendingPaste} {h : Handled} (hp : p.pastes.lookup pasteId = some paste) :
    u.record p ⟨.pasteEnd controller pasteId status,taken⟩ h = ⟨u.sizes,
      u.ended++(if status = pasteStatusCancel ∨ paste.written ≠ paste.totalSize then []
        else [paste.path]),
      u.typed++(if lands ⟨.pasteEnd controller pasteId status,taken⟩ then h.inject.getD [] else []),
      u.rejected || h.reject.isSome⟩ := by
  unfold Use.record
  congr 1
  · exact List.append_nil _
  · simp only [commits, hp]
    split_ifs <;> rfl

/-- Fewer pastes ended well or are pending than were begun. -/
theorem story_of_lt {q : Pending} {v : Use} {g : UInt32}
    (h : v.ended.length+pendingCount q.pastes g < v.sizes.length) : Story q v g :=
  ⟨h.le,.inl (.inr (.inl h))⟩

theorem story_commit {q : Pending} {g : UInt32} {path : Bytes} {typed : List Bytes} {r : Bool}
    (hs : Story p u g) (hcount : pendingCount p.pastes g = 1+pendingCount q.pastes g)
    (hnot : ¬Done p u g)
    (hwaits : Waits p u g → Excused q ⟨u.sizes,u.ended++[path],typed,u.rejected || r⟩ g ∨
      Waits q ⟨u.sizes,u.ended++[path],typed,u.rejected || r⟩ g ∨
      Done q ⟨u.sizes,u.ended++[path],typed,u.rejected || r⟩ g) :
    Story q ⟨u.sizes,u.ended++[path],typed,u.rejected || r⟩ g := by
  have hold := hs.count
  refine ⟨?_,?_⟩
  · simp only [List.length_append, List.length_singleton]
    omega
  rcases hs.fate with (hrej | hstuck | hover) | hw | hdone
  · exact .inl (.inl (by simp [hrej]))
  · refine .inl (.inr (.inl ?_))
    simp only [List.length_append, List.length_singleton]
    omega
  · exact .inl (.inr (.inr hover))
  · exact hwaits hw
  · exact absurd hdone hnot

theorem not_done_of_lookup {pasteId : UInt32} {paste : PendingPaste}
    (hp : p.pastes.lookup pasteId = some paste) : ¬Done p u paste.groupId :=
  fun hdone => hdone.1.2 ⟨_,AList.mem_lookup_iff.mp hp,rfl⟩

theorem story_staged {pasteId : UInt32} {paste : PendingPaste} {grp : PendingGroup} {r : Bool}
    (hp : p.pastes.lookup pasteId = some paste) (hg : p.groups.lookup paste.groupId = some grp)
    (hmore : ¬grp.groupSize ≤ UInt32.ofNat (grp.finished++[paste.path]).length)
    (hs : Story p u paste.groupId) :
    Story ⟨p.pastes.erase pasteId,p.groups.insert paste.groupId
      { grp with finished := grp.finished++[paste.path] }⟩
      ⟨u.sizes,u.ended++[paste.path],u.typed,u.rejected || r⟩ paste.groupId := by
  refine story_commit hs (groupWeight_of_lookup (fun _ => 1) hp) (not_done_of_lookup hp) ?_
  rintro ⟨grp',hgrp,hhead,hfin,hlt,htyped⟩
  cases hg.symm.trans hgrp
  have hlen : grp.finished.length = u.ended.length := congrArg List.length hfin
  refine .inr (.inl ⟨_,AList.lookup_insert _,hhead,?_,?_,htyped⟩)
  · change grp.finished++[paste.path] = u.ended++[paste.path]
    rw [hfin]
  · rw [complete_iff (by omega)] at hmore
    change (u.ended++[paste.path]).length < grp.groupSize.toNat
    rw [List.length_append, List.length_singleton] at hmore ⊢
    omega

theorem story_completed {pasteId : UInt32} {paste : PendingPaste} {grp : PendingGroup} {r : Bool}
    (hp : p.pastes.lookup pasteId = some paste) (hg : p.groups.lookup paste.groupId = some grp)
    (hfull : grp.groupSize ≤ UInt32.ofNat (grp.finished++[paste.path]).length)
    (hs : Story p u paste.groupId) :
    Story ⟨p.pastes.erase pasteId,p.groups.erase paste.groupId⟩
      ⟨u.sizes,u.ended++[paste.path],u.typed++(grp.finished++[paste.path]),u.rejected || r⟩
      paste.groupId := by
  have hcount : pendingCount p.pastes paste.groupId =
      1+pendingCount (p.pastes.erase pasteId) paste.groupId :=
    groupWeight_of_lookup (fun _ => 1) hp
  refine story_commit hs hcount (not_done_of_lookup hp) ?_
  rintro ⟨grp',hgrp,hhead,hfin,hlt,htyped⟩
  cases hg.symm.trans hgrp
  have hlen : grp.finished.length = u.ended.length := congrArg List.length hfin
  -- Either these were all the begins there are, or there were more than the group asked for.
  by_cases hidle : pendingCount (p.pastes.erase pasteId) paste.groupId = 0
  · refine .inr (.inr ⟨⟨AList.lookup_erase _ _,?_⟩,?_⟩)
    · rw [uploading_iff]
      change ¬0 < pendingCount (p.pastes.erase pasteId) paste.groupId
      omega
    · change u.typed++(grp.finished++[paste.path]) = u.ended++[paste.path]
      rw [htyped, hfin, List.nil_append]
  · refine .inl (.inr (.inr ⟨grp.groupSize,hhead,?_⟩))
    have hold := hs.count
    rw [complete_iff (by omega), List.length_append, List.length_singleton] at hfull
    change grp.groupSize.toNat < u.sizes.length
    omega

theorem end_story {controller taken : Bool} {pasteId : UInt32} {status : UInt8}
    {paste : PendingPaste} (hp : p.pastes.lookup pasteId = some paste) (hs : Story p u paste.groupId)
    (hland : ∀ c ∈ commits p (.pasteEnd controller pasteId status),
      ∀ g ∈ p.groups.lookup c.2.groupId, g.groupSize ≤ UInt32.ofNat (g.finished.length+1) →
      lands ⟨.pasteEnd controller pasteId status,taken⟩ = true) :
    let f := PasteFrame.pasteEnd controller pasteId status
    Story (handle limits dir p f).pending (u.record p ⟨f,taken⟩ (handle limits dir p f))
      paste.groupId := by
  intro f
  have he := handle_ends limits dir p controller pasteId status
  generalize handle limits dir p f = out at he ⊢
  rw [record_end hp]
  have hcount : pendingCount p.pastes paste.groupId =
      1+pendingCount (p.pastes.erase pasteId) paste.groupId :=
    groupWeight_of_lookup (fun _ => 1) hp
  cases he with
  | unknown hnone => cases hnone.symm.trans hp
  | dropped paste' reject hp' hbad =>
    cases hp.symm.trans hp'
    rw [if_pos hbad, List.append_nil]
    apply story_of_lt
    have hold := hs.count
    change u.ended.length+pendingCount (p.pastes.erase pasteId) paste.groupId < u.sizes.length
    omega
  | staged paste' g hp' hok hg hmore =>
    cases hp.symm.trans hp'
    rw [if_neg hok, Option.getD_none, ite_self, List.append_nil]
    exact story_staged hp hg hmore hs
  | completed paste' g hp' hok hg hfull =>
    cases hp.symm.trans hp'
    have hlands : lands ⟨.pasteEnd controller pasteId status,taken⟩ = true := by
      refine hland (pasteId,paste) ?_ g hg ?_
      · simp only [commits, hp]
        exact if_neg hok
      · simpa using hfull
    rw [if_neg hok, if_pos hlands]
    exact story_completed hp hg hfull hs
  | alone paste' hp' hok hg =>
    cases hp.symm.trans hp'
    rw [if_neg hok]
    refine story_commit hs hcount (not_done_of_lookup hp) ?_
    rintro ⟨grp,hgrp,-⟩
    cases hg.symm.trans hgrp

theorem handle_other {f : PasteFrame} {g other : UInt32} (hg : groupOf p f = some g)
    (hne : other ≠ g) :
    (handle limits dir p f).pending.groups.lookup other = p.groups.lookup other ∧
      pendingCount (handle limits dir p f).pending.pastes other = pendingCount p.pastes other := by
  cases f with
  | pasteBegin controller env pasteId totalSize groupId groupSize name =>
    cases hg
    cases controller with
    | false => exact ⟨rfl,rfl⟩
    | true =>
      have ho := handle_opens limits dir p env pasteId totalSize g groupSize name
      generalize handle limits dir p _ = out at ho ⊢
      cases ho with
      | refused reason href => exact ⟨rfl,rfl⟩
      | oversize grp href hgrp hover => exact ⟨AList.lookup_erase_ne hne,rfl⟩
      | openFailed err href hover hopen => exact ⟨AList.lookup_insert_ne hne,rfl⟩
      | opened path href hover hopen =>
        refine ⟨AList.lookup_insert_ne hne,?_⟩
        unfold pendingCount
        rw [groupWeight_new _ (new_of_accepted href), if_neg (Ne.symm hne), Nat.zero_add]
  | pasteChunk writeOk pasteId bytes =>
    obtain ⟨paste,hp,rfl⟩ := Option.map_eq_some_iff.mp hg
    have hc := handle_chunks limits dir p writeOk pasteId bytes
    generalize handle limits dir p _ = out at hc ⊢
    cases hc with
    | unknown hnone => exact ⟨rfl,rfl⟩
    | failed paste' reason hp' hbad =>
      cases hp.symm.trans hp'
      exact ⟨rfl,groupWeight_erase_ne _ hp (Ne.symm hne)⟩
    | written paste' hp' hfits hwrite =>
      exact ⟨rfl,groupWeight_replace (w := fun _ => 1) hp' rfl rfl other⟩
  | pasteEnd controller pasteId status =>
    obtain ⟨paste,hp,rfl⟩ := Option.map_eq_some_iff.mp hg
    have hcount : pendingCount (p.pastes.erase pasteId) other = pendingCount p.pastes other :=
      groupWeight_erase_ne _ hp (Ne.symm hne)
    have he := handle_ends limits dir p controller pasteId status
    generalize handle limits dir p _ = out at he ⊢
    cases he with
    | unknown hnone => exact ⟨rfl,rfl⟩
    | dropped paste' reject hp' hbad =>
      cases hp.symm.trans hp'
      exact ⟨AList.lookup_erase_ne hne,hcount⟩
    | staged paste' grp hp' hok hgrp hmore =>
      cases hp.symm.trans hp'
      exact ⟨AList.lookup_insert_ne hne,hcount⟩
    | completed paste' grp hp' hok hgrp hfull =>
      cases hp.symm.trans hp'
      exact ⟨AList.lookup_erase_ne hne,hcount⟩
    | alone paste' hp' hok hgrp => exact ⟨rfl,hcount⟩

theorem handle_unknown {f : PasteFrame} (hg : groupOf p f = none) :
    (handle limits dir p f).pending = p := by
  cases f with
  | pasteBegin controller env pasteId totalSize groupId groupSize name => cases hg
  | pasteChunk writeOk pasteId bytes =>
    have hp := Option.map_eq_none_iff.mp hg
    simp only [handle, handlePasteChunk, hp]
  | pasteEnd controller pasteId status =>
    have hp := Option.map_eq_none_iff.mp hg
    simp only [handle, handlePasteEnd, hp]

theorem own_story {s : Ledger} {e : Event} {g : UInt32} (hg : groupOf s.pending e.frame = some g)
    (hs : Story s.pending (s.uses g) g) (hland : Lands s e) :
    Story (handle limits dir s.pending e.frame).pending
      ((s.current e.frame g).record s.pending e (handle limits dir s.pending e.frame)) g := by
  obtain ⟨f,taken⟩ := e
  cases f with
  | pasteBegin controller env pasteId totalSize groupId groupSize name =>
    cases hg
    apply begin_story
    · unfold Ledger.current
      split_ifs with hc
      · exact story_new hc.2
      · exact hs
    · intro hidle
      exact if_pos ⟨rfl,hidle⟩
  | pasteChunk writeOk pasteId bytes => exact chunk_story hs
  | pasteEnd controller pasteId status =>
    obtain ⟨paste,hp,rfl⟩ := Option.map_eq_some_iff.mp hg
    exact end_story hp hs hland

theorem handled_story {s : Ledger} {e : Event}
    (hs : ∀ g, Story s.pending (s.uses g) g) (hland : Lands s e) :
    ∀ g, Story (s.handled limits dir e).pending ((s.handled limits dir e).uses g) g := by
  intro g
  unfold Ledger.handled
  cases hg : groupOf s.pending e.frame with
  | none =>
    dsimp only
    rw [handle_unknown hg]
    exact hs g
  | some own =>
    dsimp only
    by_cases heq : g = own
    · subst heq
      rw [Function.update_self]
      exact own_story hg (hs g) hland
    · rw [Function.update_of_ne heq]
      obtain ⟨hgroup,hcount⟩ := handle_other hg heq
      exact story_congr (hs g) hgroup hcount

end Step

/-- Where the last paste of every group ends with the control still there and the shell running,
a use of a group id all of whose pastes ended well has been typed, in the order in which they
ended, or some paste of it was rejected. -/
theorem no_silent_loss (limits : Limits) (dir : Bytes) (es : List Event)
    (hok : Along (step limits dir) Lands Ledger.new es) (bs : List Event) (s : Ledger)
    (hbs : bs <+: es) (hrun : run (step limits dir) Ledger.new bs = some s) (g : UInt32)
    (hw : Whole (s.uses g)) :
    (s.uses g).typed = (s.uses g).ended ∨ (s.uses g).rejected = true := by
  obtain ⟨cs,rfl⟩ := hbs
  have hall : ∀ g, Story s.pending (s.uses g) g := by
    refine run_along (step limits dir) (I := fun s => ∀ g, Story s.pending (s.uses g) g)
      ?_ ?_ (along_append _ hok) hrun
    · intro u e v hu hland hstep
      cases hstep
      exact handled_story hu hland
    · intro g
      refine story_new ⟨rfl,?_⟩
      rintro ⟨e,he,-⟩
      cases he
  exact typed_of_story (hall g) hw

def oneFile (controller taken : Bool) : List Event :=
  [⟨.pasteBegin true ⟨true,0,0,fun _ => .created⟩ 1 0 7 1 "a",true⟩,
    ⟨.pasteEnd controller 1 pasteStatusOk,taken⟩]

theorem no_silent_loss_one : ∃ s,
    run (step Limits.default []) Ledger.new (oneFile true true) = some s ∧ Whole (s.uses 7) ∧
    ((s.uses 7).typed = (s.uses 7).ended ∨ (s.uses 7).rejected = true) := by
  have hfacts : ((run (step Limits.default []) Ledger.new (oneFile true true)).map fun s =>
      ((s.uses 7).sizes,(s.uses 7).ended.length)) = some ([1],1) := by
    decide +kernel
  obtain ⟨s,hs,heq⟩ := Option.map_eq_some_iff.mp hfacts
  obtain ⟨hsizes,hended⟩ := Prod.mk.inj heq
  have hw : Whole (s.uses 7) := ⟨1,by rw [hsizes]; rfl,by rw [hsizes]; rfl,hended⟩
  have hok : Along (step Limits.default []) Lands Ledger.new (oneFile true true) := by
    decide +kernel
  exact ⟨s,hs,hw,no_silent_loss Limits.default [] _ hok _ s (List.prefix_refl _) hs 7 hw⟩

/-- The file is gone without a word where the control went elsewhere before its end, and
where the shell did not take the path. -/
theorem lost_silently (controller taken : Bool) (h : (controller && taken) = false) : ∃ s,
    run (step Limits.default []) Ledger.new (oneFile controller taken) = some s ∧
    Whole (s.uses 7) ∧ (s.uses 7).typed ≠ (s.uses 7).ended ∧ (s.uses 7).rejected = false := by
  have hfacts : ((run (step Limits.default []) Ledger.new (oneFile controller taken)).map fun s =>
      ((s.uses 7).sizes,(s.uses 7).ended.length,(s.uses 7).typed,(s.uses 7).rejected)) =
      some ([1],1,[],false) := by
    cases controller with
    | false => cases taken <;> decide +kernel
    | true =>
      cases taken with
      | false => decide +kernel
      | true => cases h
  obtain ⟨s,hs,heq⟩ := Option.map_eq_some_iff.mp hfacts
  simp only [Prod.mk.injEq] at heq
  obtain ⟨hsizes,hended,htyped,hrejected⟩ := heq
  refine ⟨s,hs,⟨1,by rw [hsizes]; rfl,by rw [hsizes]; rfl,hended⟩,?_,hrejected⟩
  rw [htyped]
  intro hnil
  rw [← hnil] at hended
  cases hended

theorem lost_silently_both :
    (∃ s, run (step Limits.default []) Ledger.new (oneFile false true) = some s ∧
      Whole (s.uses 7) ∧ (s.uses 7).typed ≠ (s.uses 7).ended ∧ (s.uses 7).rejected = false) ∧
    ∃ s, run (step Limits.default []) Ledger.new (oneFile true false) = some s ∧
      Whole (s.uses 7) ∧ (s.uses 7).typed ≠ (s.uses 7).ended ∧ (s.uses 7).rejected = false :=
  ⟨lost_silently false true rfl,lost_silently true false rfl⟩

end Term.PasteFate
