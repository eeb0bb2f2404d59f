import TermMux.PasteGroups

/-!
# Slots of the paste registries

What a `PasteBegin` does to the whole record of its group, with the bytes that are declared,
and which frames leave a group behind that has neither a pending paste nor a
finished path. Such a group holds its slot for the rest of the stream.
-/

set_option autoImplicit false

namespace Term.PasteRegistry
open Term.ByteOrder Term.FrameModel Term.KeyedMap Term.Machine Term.PasteGroups Term.PasteNames
open Term.PasteUpload

section Begin
variable {limits : Limits} {env : PasteEnv} {dir : Bytes} {p : Pending} {pasteId : UInt32}
  {totalSize : UInt64} {groupId groupSize : UInt32} {name : String}

/-- What an accepted begin declares keeps its group under the cap. -/
theorem accepted_le (groupSize : UInt32) (href : ¬Refused limits p pasteId totalSize groupId)
    (hover : ¬Oversize p totalSize groupId) :
    (groupFor p groupId groupSize).totalDeclared+totalSize.toNat ≤ maxPasteTotalBytes := by
  cases hg : p.groups.lookup groupId with
  | none =>
    simp only [Refused, hg, not_or, not_and_or, not_true_eq_false, false_or, not_lt] at href
    simp only [groupFor, hg, Option.getD_none]
    omega
  | some g =>
    have hsat : ¬maxPasteTotalBytes < saturatingAdd g.totalDeclared totalSize.toNat := by
      simpa [Oversize, hg] using hover
    simp only [groupFor, hg, Option.getD_some]
    exact (saturatingAdd_le hsat).2

end Begin

def commits (p : Pending) : PasteFrame → Option (UInt32 × PendingPaste)
  | .pasteEnd _ pasteId status =>
    match p.pastes.lookup pasteId with
    | none => none
    | some paste =>
      if status = pasteStatusCancel ∨ paste.written ≠ paste.totalSize then none
      else some (pasteId,paste)
  | _ => none

def step (limits : Limits) (dir : Bytes) (p : Pending) (f : PasteFrame) : Option Pending :=
  some (handle limits dir p f).pending

def Uploading (pastes : AList fun _ : UInt32 => PendingPaste) (groupId : UInt32) : Prop :=
  ∃ e ∈ pastes.entries, e.2.groupId = groupId

instance (pastes : AList fun _ : UInt32 => PendingPaste) (groupId : UInt32) :
    Decidable (Uploading pastes groupId) :=
  inferInstanceAs (Decidable (∃ e ∈ pastes.entries, _))

def groupWeight (w : PendingPaste → ℕ) (pastes : AList fun _ : UInt32 => PendingPaste)
    (groupId : UInt32) : ℕ :=
  weigh (fun _ paste => if paste.groupId = groupId then w paste else 0) pastes

section Weight
variable {pastes : AList fun _ : UInt32 => PendingPaste} {pasteId groupId : UInt32}
  {paste old : PendingPaste} {w : PendingPaste → ℕ}

theorem groupWeight_new (w : PendingPaste → ℕ) (hp : pastes.lookup pasteId = none)
    (paste : PendingPaste) (groupId : UInt32) :
    groupWeight w (pastes.insert pasteId paste) groupId =
      (if paste.groupId = groupId then w paste else 0)+groupWeight w pastes groupId :=
  weigh_new _ hp paste

theorem groupWeight_split (w : PendingPaste → ℕ) (hp : pastes.lookup pasteId = some paste)
    (groupId : UInt32) :
    groupWeight w pastes groupId =
      (if paste.groupId = groupId then w paste else 0)+groupWeight w (pastes.erase pasteId) groupId :=
  weigh_of_lookup _ hp

theorem groupWeight_of_lookup (w : PendingPaste → ℕ) (hp : pastes.lookup pasteId = some paste) :
    groupWeight w pastes paste.groupId =
      w paste+groupWeight w (pastes.erase pasteId) paste.groupId := by
  rw [groupWeight_split w hp, if_pos rfl]

theorem groupWeight_erase_ne (w : PendingPaste → ℕ) (hp : pastes.lookup pasteId = some paste)
    (hne : paste.groupId ≠ groupId) :
    groupWeight w (pastes.erase pasteId) groupId = groupWeight w pastes groupId := by
  rw [groupWeight_split w hp, if_neg hne, Nat.zero_add]

theorem groupWeight_erase_le (w : PendingPaste → ℕ) (pastes : AList fun _ : UInt32 => PendingPaste)
    (pasteId groupId : UInt32) :
    groupWeight w (pastes.erase pasteId) groupId ≤ groupWeight w pastes groupId := by
  cases hp : pastes.lookup pasteId with
  | none => rw [erase_of_none hp]
  | some paste =>
    rw [groupWeight_split w hp]
    exact Nat.le_add_left _ _

theorem groupWeight_replace (hp : pastes.lookup pasteId = some old) (hw : w paste = w old)
    (hg : paste.groupId = old.groupId) (groupId : UInt32) :
    groupWeight w (pastes.insert pasteId paste) groupId = groupWeight w pastes groupId := by
  rw [groupWeight_split w hp, groupWeight, weigh_insert, hw, hg]
  rfl

theorem groupWeight_of_idle (w : PendingPaste → ℕ) (h : ¬Uploading pastes groupId) :
    groupWeight w pastes groupId = 0 := by
  apply List.sum_eq_zero
  intro n hn
  obtain ⟨e,he,rfl⟩ := List.mem_map.mp hn
  exact if_neg fun heq => h ⟨e,he,heq⟩

end Weight

def Alive (p : Pending) (groupId : UInt32) (g : PendingGroup) : Prop :=
  Uploading p.pastes groupId ∨ g.finished ≠ []

def NoDeadGroup (p : Pending) : Prop :=
  ∀ groupId g, p.groups.lookup groupId = some g → Alive p groupId g

/-- A begin does not fail to open the first file of a group, unless a paste of that group
is pending from before, and a chunk does not fail the only paste of a group that has nothing
finished. -/
def Spares (limits : Limits) (dir : Bytes) (p : Pending) : PasteFrame → Prop
  | .pasteBegin controller env pasteId totalSize groupId _ name =>
    controller = true → ¬Refused limits p pasteId totalSize groupId →
      (p.groups.lookup groupId).isSome = true ∨ (openPasteFile env dir name).isOk = true ∨
        Uploading p.pastes groupId
  | .pasteChunk writeOk pasteId bytes =>
    ∀ paste ∈ p.pastes.lookup pasteId,
      paste.totalSize < saturatingAdd paste.written bytes.length ∨ writeOk = false →
      ∀ g ∈ p.groups.lookup paste.groupId,
        Uploading (p.pastes.erase pasteId) paste.groupId ∨ g.finished ≠ []
  | .pasteEnd _ _ _ => True

section Alive
variable {p : Pending} {pastes : AList fun _ : UInt32 => PendingPaste} {pasteId groupId : UInt32}
  {paste : PendingPaste} {g : PendingGroup}

theorem uploading_insert (pastes : AList fun _ : UInt32 => PendingPaste) (pasteId : UInt32)
    (paste : PendingPaste) : Uploading (pastes.insert pasteId paste) paste.groupId :=
  ⟨_,List.mem_cons_self,rfl⟩

theorem uploading_erase (hp : pastes.lookup pasteId = some paste) (h : Uploading pastes groupId)
    (hne : paste.groupId ≠ groupId) : Uploading (pastes.erase pasteId) groupId := by
  obtain ⟨e,he,hg⟩ := h
  rcases List.mem_cons.mp ((entries_perm hp).mem_iff.mp he) with rfl | hrest
  · exact absurd hg hne
  · exact ⟨e,hrest,hg⟩

theorem uploading_insert_of {other : PendingPaste} (h : Uploading pastes groupId)
    (hp : ∀ old, pastes.lookup pasteId = some old → old.groupId = other.groupId) :
    Uploading (pastes.insert pasteId other) groupId := by
  by_cases hself : other.groupId = groupId
  · rw [← hself]
    exact uploading_insert pastes pasteId other
  have herase : Uploading (pastes.erase pasteId) groupId := by
    cases hl : pastes.lookup pasteId with
    | none =>
      rw [erase_of_none hl]
      exact h
    | some old =>
      refine uploading_erase hl h ?_
      rw [hp old hl]
      exact hself
  obtain ⟨e,he,hg⟩ := herase
  exact ⟨e,List.mem_cons_of_mem _ he,hg⟩

theorem alive_mono {q : Pending} (h : NoDeadGroup p)
    (hup : ∀ groupId, Uploading p.pastes groupId → Uploading q.pastes groupId)
    (hgroups : ∀ groupId g, q.groups.lookup groupId = some g →
      Alive q groupId g ∨ ∃ old, p.groups.lookup groupId = some old ∧
        (old.finished ≠ [] → g.finished ≠ [])) : NoDeadGroup q := by
  intro groupId g hg
  rcases hgroups groupId g hg with halive | ⟨old,hold,hfin⟩
  · exact halive
  · rcases h groupId old hold with hu | hf
    · exact .inl (hup groupId hu)
    · exact .inr (hfin hf)

theorem alive_drop (h : NoDeadGroup p) (hp : p.pastes.lookup pasteId = some paste) :
    NoDeadGroup ⟨p.pastes.erase pasteId,p.groups.erase paste.groupId⟩ := by
  intro groupId g hg
  obtain ⟨hne,hold⟩ := lookup_of_erase hg
  rcases h groupId g hold with hu | hf
  · exact .inl (uploading_erase hp hu (Ne.symm hne))
  · exact .inr hf

theorem alive_fail (h : NoDeadGroup p) (hp : p.pastes.lookup pasteId = some paste) :
    NoDeadGroup ⟨p.pastes.erase pasteId,p.groups⟩ ↔ ∀ g ∈ p.groups.lookup paste.groupId,
      Uploading (p.pastes.erase pasteId) paste.groupId ∨ g.finished ≠ [] := by
  constructor
  · intro hq g hg
    exact hq paste.groupId g hg
  · intro hself groupId g hg
    by_cases heq : paste.groupId = groupId
    · subst heq
      exact hself g hg
    · rcases h groupId g hg with hu | hf
      · exact .inl (uploading_erase hp hu heq)
      · exact .inr hf

end Alive

section Step
variable {limits : Limits} {dir : Bytes} {p : Pending}

theorem begin_spares (h : NoDeadGroup p) (controller : Bool) (env : PasteEnv) (pasteId : UInt32)
    (totalSize : UInt64) (groupId groupSize : UInt32) (name : String) :
    NoDeadGroup (handle limits dir p
      (.pasteBegin controller env pasteId totalSize groupId groupSize name)).pending ↔
    Spares limits dir p (.pasteBegin controller env pasteId totalSize groupId groupSize name) := by
  cases controller with
  | false =>
    refine iff_of_true h ?_
    intro hfalse
    cases hfalse
  | true =>
    have ho := handle_opens limits dir p env pasteId totalSize groupId groupSize name
    generalize handle limits dir p _ = out at ho ⊢
    cases ho with
    | refused reason href => exact iff_of_true h fun _ hn => absurd href hn
    | oversize g href hg hover =>
      refine iff_of_true ?_ fun _ _ => .inl (by rw [hg]; rfl)
      exact alive_mono h (fun _ hu => hu) fun other g' hg' =>
        .inr ⟨g',(lookup_of_erase hg').2,id⟩
    | openFailed e href hover hopen =>
      have hiff : Spares limits dir p (.pasteBegin true env pasteId totalSize groupId groupSize name) ↔
          (p.groups.lookup groupId).isSome = true ∨ Uploading p.pastes groupId := by
        simp [Spares, href, hopen, Except.isOk, Except.toBool]
      rw [hiff]
      constructor
      · intro hq
        rcases hq groupId _ (AList.lookup_insert _) with hu | hfin
        · exact .inr hu
        · left
          rw [groupFor] at hfin
          cases hg : p.groups.lookup groupId with
          | none => simp [hg] at hfin
          | some g => rfl
      · intro hspare
        refine alive_mono h (fun _ hu => hu) fun other g' hg' => ?_
        rcases lookup_of_insert hg' with ⟨rfl,rfl⟩ | ⟨-,hold⟩
        · rcases hspare with hg | hu
          · obtain ⟨g,hg⟩ := Option.isSome_iff_exists.mp hg
            exact .inr ⟨g,hg,by simp [groupFor, hg]⟩
          · exact .inl (.inl hu)
        · exact .inr ⟨g',hold,id⟩
    | opened path href hover hopen =>
      refine iff_of_true ?_ fun _ _ => .inr (.inl (by rw [hopen]; rfl))
      refine alive_mono h (fun g hu => uploading_insert_of hu ?_) fun other g' hg' => ?_
      · intro old hold
        cases (new_of_accepted href).symm.trans hold
      rcases lookup_of_insert hg' with ⟨rfl,-⟩ | ⟨-,hold⟩
      · exact .inl (.inl (uploading_insert p.pastes pasteId _))
      · exact .inr ⟨g',hold,id⟩

theorem chunk_spares (h : NoDeadGroup p) (writeOk : Bool) (pasteId : UInt32) (bytes : Bytes) :
    NoDeadGroup (handle limits dir p (.pasteChunk writeOk pasteId bytes)).pending ↔
    Spares limits dir p (.pasteChunk writeOk pasteId bytes) := by
  have hc := handle_chunks limits dir p writeOk pasteId bytes
  generalize handle limits dir p _ = out at hc ⊢
  cases hc with
  | unknown hp => exact iff_of_true h (by simp [Spares, hp])
  | failed paste reason hp hbad =>
    have hiff : Spares limits dir p (.pasteChunk writeOk pasteId bytes) ↔
        ∀ g ∈ p.groups.lookup paste.groupId,
          Uploading (p.pastes.erase pasteId) paste.groupId ∨ g.finished ≠ [] := by
      simp only [Spares, hp, Option.mem_def, Option.some.injEq, forall_eq']
      exact ⟨fun hs => hs hbad,fun hs _ => hs⟩
    rw [hiff]
    exact alive_fail h hp
  | written paste hp hfits hwrite =>
    refine iff_of_true ?_ (by simp [Spares, hp, hfits, hwrite])
    refine alive_mono h (fun g hu => uploading_insert_of hu ?_) fun other g' hg' => .inr ⟨g',hg',id⟩
    intro old hold
    cases hp.symm.trans hold
    rfl

theorem end_spares (h : NoDeadGroup p) (controller : Bool) (pasteId : UInt32) (status : UInt8) :
    NoDeadGroup (handle limits dir p (.pasteEnd controller pasteId status)).pending := by
  have he := handle_ends limits dir p controller pasteId status
  generalize handle limits dir p _ = out at he ⊢
  cases he with
  | unknown hp => exact h
  | dropped paste reject hp hbad => exact alive_drop h hp
  | staged paste g hp hok hg hmore =>
    intro other g' hg'
    rcases lookup_of_insert hg' with ⟨-,rfl⟩ | ⟨hne,hold⟩
    · exact .inr (by simp)
    · rcases h other g' hold with hu | hf
      · exact .inl (uploading_erase hp hu (Ne.symm hne))
      · exact .inr hf
  | completed paste g hp hok hg hfull => exact alive_drop h hp
  | alone paste hp hok hg =>
    apply (alive_fail h hp).mpr
    intro g hg'
    cases hg.symm.trans hg'

theorem handle_spares (h : NoDeadGroup p) (f : PasteFrame) :
    NoDeadGroup (handle limits dir p f).pending ↔ Spares limits dir p f := by
  cases f with
  | pasteBegin controller env pasteId totalSize groupId groupSize name =>
    exact begin_spares h controller env pasteId totalSize groupId groupSize name
  | pasteChunk writeOk pasteId bytes => exact chunk_spares h writeOk pasteId bytes
  | pasteEnd controller pasteId status => exact iff_of_true (end_spares h controller pasteId status) trivial

end Step

theorem noDeadGroup_empty : NoDeadGroup Pending.empty := by
  intro groupId g hg
  cases hg

/-- A sequence of paste frames leaves no dead group behind, after any of them, exactly if
each of the frames spares the last of its group. -/
theorem no_dead_group_iff (limits : Limits) (dir : Bytes) (fs : List PasteFrame) :
    (∀ bs p, bs <+: fs → run (step limits dir) Pending.empty bs = some p → NoDeadGroup p) ↔
      Along (step limits dir) (Spares limits dir) Pending.empty fs := by
  constructor
  · intro hall
    rw [along_iff]
    rintro bs f cs p rfl hbs
    have hp : NoDeadGroup p := hall bs p (List.prefix_append bs _) hbs
    have hnext := hall (bs++[f]) (handle limits dir p f).pending ⟨cs,by simp⟩
      ((run_append _).mpr ⟨p,hbs,(run_cons _).mpr ⟨_,rfl,rfl⟩⟩)
    exact (handle_spares hp f).mp hnext
  · rintro hok bs p ⟨cs,rfl⟩ hrun
    refine run_along (step limits dir) ?_ noDeadGroup_empty (along_append _ hok) hrun
    intro s f t hs hf hstep
    cases hstep
    exact (handle_spares hs f).mpr hf

def noDir : PasteEnv := ⟨false,0,0,fun _ => .failed⟩

/-- Thirty-two groups of one file each, none of which opens, take every slot of the stream. -/
theorem failed_uploads_lock_out : ∃ fs p,
    run (step Limits.default []) Pending.empty fs = some p ∧ ¬NoDeadGroup p ∧
      p.pastes.entries = [] ∧ Refused Limits.default p 0 0 32 := by
  let fs := (List.range 32).map fun n => PasteFrame.pasteBegin true noDir 0 0 (UInt32.ofNat n) 1 "a"
  have hfacts : ((run (step Limits.default []) Pending.empty fs).map fun p =>
      (p.pastes.entries.isEmpty,(p.groups.lookup 0).map PendingGroup.finished,
        decide (Refused Limits.default p 0 0 32))) = some (true,some [],true) := by
    decide +kernel
  obtain ⟨p,hp,heq⟩ := Option.map_eq_some_iff.mp hfacts
  obtain ⟨hempty,hrest⟩ := Prod.mk.inj heq
  obtain ⟨hg,href⟩ := Prod.mk.inj hrest
  have hnone : p.pastes.entries = [] := List.isEmpty_iff.mp hempty
  refine ⟨fs,p,hp,?_,hnone,of_decide_eq_true href⟩
  intro hall
  obtain ⟨g,hlookup,hfin⟩ := Option.map_eq_some_iff.mp hg
  rcases hall 0 g hlookup with ⟨e,he,-⟩ | hne
  · rw [hnone] at he
    cases he
  · exact hne hfin

end Term.PasteRegistry
