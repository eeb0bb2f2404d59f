import TermMux.FrameModel
import TermMux.KeyedMap
import TermMux.PasteNames

/-!
# Paste uploads of one stream

`handle_paste_begin`, `handle_paste_chunk` and `handle_paste_end` on the pending
pastes and groups of a stream, and the text `inject_paste_paths` types for a
finished group. Each handler returns the rejections it sends, the files it
removes and, when a group is complete, the paths to inject.
-/

set_option autoImplicit false

namespace Term.PasteUpload
open Term.ByteOrder Term.FrameModel Term.KeyedMap Term.PasteNames

structure Limits where
  maxPendingPastesPerStream : ℕ
  maxPendingGroupsPerStream : ℕ
  deriving DecidableEq, Repr

def Limits.default : Limits := ⟨32,32⟩

structure PendingPaste where
  path : Bytes
  totalSize : ℕ
  written : ℕ
  groupId : UInt32
  deriving DecidableEq, Repr

structure PendingGroup where
  groupSize : UInt32
  finished : List Bytes
  totalDeclared : ℕ
  deriving DecidableEq, Repr

structure Pending where
  pastes : AList fun _ : UInt32 => PendingPaste
  groups : AList fun _ : UInt32 => PendingGroup

def Pending.empty : Pending := ⟨∅,∅⟩

structure Handled where
  pending : Pending
  reject : Option UInt8
  removed : List Bytes
  inject : Option (List Bytes)

def saturatingAdd (a b : ℕ) : ℕ := min (a+b) (2^64-1)

def Pending.rejected (p : Pending) (reason : UInt8) : Handled := ⟨p,some reason,[],none⟩

def openPaste (env : PasteEnv) (dir : Bytes) (p : Pending)
    (pasteId : UInt32) (totalSize : UInt64) (groupId : UInt32) (name : String) : Handled :=
  match openPasteFile env dir name with
  | .ok path =>
    ⟨⟨p.pastes.insert pasteId ⟨path,totalSize.toNat,0,groupId⟩,p.groups⟩,none,[],none⟩
  | .error _ =>
    let groups := match p.groups.lookup groupId with
      | some g => p.groups.insert groupId { g with totalDeclared := g.totalDeclared-totalSize.toNat }
      | none => p.groups
    ⟨⟨p.pastes,groups⟩,some pasteRejectOpenFailed,[],none⟩

def handlePasteBegin (limits : Limits) (env : PasteEnv) (dir : Bytes) (p : Pending)
    (pasteId : UInt32) (totalSize : UInt64) (groupId groupSize : UInt32) (name : String) :
    Handled :=
  if limits.maxPendingPastesPerStream ≤ p.pastes.entries.length then
    p.rejected pasteRejectRegistryFull
  else if pasteId ∈ p.pastes then p.rejected pasteRejectDuplicatePaste
  else
    match p.groups.lookup groupId with
    | some g =>
      let declared := saturatingAdd g.totalDeclared totalSize.toNat
      if maxPasteTotalBytes < declared then
        ⟨⟨p.pastes,p.groups.erase groupId⟩,some pasteRejectGroupOversize,g.finished,none⟩
      else
        openPaste env dir ⟨p.pastes,p.groups.insert groupId { g with totalDeclared := declared }⟩
          pasteId totalSize groupId name
    | none =>
      if limits.maxPendingGroupsPerStream ≤ p.groups.entries.length then
        p.rejected pasteRejectRegistryFull
      else if maxPasteTotalBytes < totalSize.toNat then p.rejected pasteRejectGroupOversize
      else
        openPaste env dir ⟨p.pastes,p.groups.insert groupId ⟨groupSize,[],totalSize.toNat⟩⟩
          pasteId totalSize groupId name

def handlePasteChunk (writeOk : Bool) (p : Pending) (pasteId : UInt32) (bytes : Bytes) : Handled :=
  match p.pastes.lookup pasteId with
  | none => ⟨p,none,[],none⟩
  | some paste =>
    if paste.totalSize < saturatingAdd paste.written bytes.length then
      ⟨⟨p.pastes.erase pasteId,p.groups⟩,some pasteRejectSizeMismatch,[paste.path],none⟩
    else if writeOk = false then
      ⟨⟨p.pastes.erase pasteId,p.groups⟩,some pasteRejectWriteFailed,[paste.path],none⟩
    else
      ⟨⟨p.pastes.insert pasteId { paste with written := paste.written+bytes.length },p.groups⟩,
        none,[],none⟩

/-- A group that will not be injected, with the files it had finished. -/
def Pending.dropGroup (p : Pending) (groupId : UInt32) (paste : PendingPaste)
    (reject : Option UInt8) : Handled :=
  ⟨⟨p.pastes,p.groups.erase groupId⟩,reject,
    paste.path::(p.groups.lookup groupId).elim [] PendingGroup.finished,none⟩

def handlePasteEnd (p : Pending) (pasteId : UInt32) (status : UInt8) : Handled :=
  match p.pastes.lookup pasteId with
  | none => ⟨p,none,[],none⟩
  | some paste =>
    let rest : Pending := ⟨p.pastes.erase pasteId,p.groups⟩
    if status = pasteStatusCancel then rest.dropGroup paste.groupId paste none
    else if paste.written ≠ paste.totalSize then
      rest.dropGroup paste.groupId paste (some pasteRejectSizeMismatch)
    else
      match p.groups.lookup paste.groupId with
      | some g =>
        let finished := g.finished++[paste.path]
        if g.groupSize ≤ UInt32.ofNat finished.length then
          ⟨⟨rest.pastes,p.groups.erase paste.groupId⟩,none,[],some finished⟩
        else
          ⟨⟨rest.pastes,p.groups.insert paste.groupId { g with finished := finished }⟩,none,[],none⟩
      | none => ⟨rest,none,[],some [paste.path]⟩

inductive PasteStyle where
  | bracketed | plain
  deriving DecidableEq, Repr

/-- `ESC [ 200 ~` and ` ESC [ 201 ~`. -/
def pasteStart : Bytes := [0x1B,0x5B,0x32,0x30,0x30,0x7E]
def pasteStop : Bytes := [0x20,0x1B,0x5B,0x32,0x30,0x31,0x7E]

def quoted (path : Bytes) : Bytes :=
  if path.any fun b => b == 0x20 || b == 0x09 then 0x22::path++[0x22] else path

/-- The bytes `inject_paste_paths` types. -/
def pasteSequence (style : PasteStyle) (paths : List Bytes) : Bytes :=
  match style with
  | .bracketed => pasteStart++List.intercalate [0x20] paths++pasteStop
  | .plain => List.intercalate [0x20] (paths.map quoted)++[0x20]

def CleanPaste (paste : PendingPaste) : Prop := NoEnter paste.path
def CleanGroup (g : PendingGroup) : Prop := ∀ path ∈ g.finished, NoEnter path

structure Clean (p : Pending) : Prop where
  pastes : ∀ id paste, p.pastes.lookup id = some paste → CleanPaste paste
  groups : ∀ id g, p.groups.lookup id = some g → CleanGroup g

theorem clean_empty : Clean Pending.empty := by
  constructor
  · intro id paste h
    cases h
  · intro id g h
    cases h

structure HandledClean (h : Handled) : Prop where
  pending : Clean h.pending
  inject : ∀ paths, h.inject = some paths → ∀ path ∈ paths, NoEnter path

theorem handledClean_of_none {h : Handled} (hp : Clean h.pending) (hi : h.inject = none) :
    HandledClean h := by
  refine ⟨hp,?_⟩
  intro paths hpaths
  rw [hi] at hpaths
  cases hpaths

theorem openPaste_clean {env : PasteEnv} {dir : Bytes} {p : Pending} (hdir : NoEnter dir)
    (h : Clean p) (pasteId : UInt32) (totalSize : UInt64) (groupId : UInt32) (name : String) :
    HandledClean (openPaste env dir p pasteId totalSize groupId name) := by
  unfold openPaste
  cases ho : openPasteFile env dir name with
  | ok path =>
    refine handledClean_of_none ⟨?_,h.groups⟩ rfl
    exact forall_insert (P := fun _ => CleanPaste) h.pastes (openPasteFile_noEnter hdir ho)
  | error e =>
    refine handledClean_of_none ⟨h.pastes,?_⟩ rfl
    cases hg : p.groups.lookup groupId with
    | none =>
      simp only
      exact h.groups
    | some g =>
      simp only
      exact forall_insert (P := fun _ => CleanGroup) h.groups
        (h.groups groupId g hg)

theorem handlePasteBegin_clean {limits : Limits} {env : PasteEnv} {dir : Bytes} {p : Pending}
    (hdir : NoEnter dir) (h : Clean p) (pasteId : UInt32) (totalSize : UInt64)
    (groupId groupSize : UInt32) (name : String) :
    HandledClean (handlePasteBegin limits env dir p pasteId totalSize groupId groupSize name) := by
  have hreject : ∀ reason, HandledClean (p.rejected reason) :=
    fun reason => handledClean_of_none h rfl
  unfold handlePasteBegin
  by_cases hfull : limits.maxPendingPastesPerStream ≤ p.pastes.entries.length
  · rw [if_pos hfull]
    exact hreject _
  rw [if_neg hfull]
  by_cases hdup : pasteId ∈ p.pastes
  · rw [if_pos hdup]
    exact hreject _
  rw [if_neg hdup]
  cases hg : p.groups.lookup groupId with
  | some g =>
    dsimp only
    by_cases hover : maxPasteTotalBytes < saturatingAdd g.totalDeclared totalSize.toNat
    · rw [if_pos hover]
      exact handledClean_of_none ⟨h.pastes,forall_erase h.groups⟩ rfl
    · rw [if_neg hover]
      apply openPaste_clean hdir
      exact ⟨h.pastes,forall_insert (P := fun _ => CleanGroup) h.groups
        (h.groups groupId g hg)⟩
  | none =>
    dsimp only
    by_cases hgroups : limits.maxPendingGroupsPerStream ≤ p.groups.entries.length
    · rw [if_pos hgroups]
      exact hreject _
    rw [if_neg hgroups]
    by_cases hover : maxPasteTotalBytes < totalSize.toNat
    · rw [if_pos hover]
      exact hreject _
    · rw [if_neg hover]
      apply openPaste_clean hdir
      refine ⟨h.pastes,forall_insert (P := fun _ => CleanGroup) h.groups ?_⟩
      intro path hpath
      cases hpath

theorem handlePasteChunk_clean {p : Pending} (h : Clean p) (writeOk : Bool) (pasteId : UInt32)
    (bytes : Bytes) : HandledClean (handlePasteChunk writeOk p pasteId bytes) := by
  unfold handlePasteChunk
  cases hp : p.pastes.lookup pasteId with
  | none => exact handledClean_of_none h rfl
  | some paste =>
    dsimp only
    split_ifs
    · exact handledClean_of_none ⟨forall_erase h.pastes,h.groups⟩ rfl
    · exact handledClean_of_none ⟨forall_erase h.pastes,h.groups⟩ rfl
    · refine handledClean_of_none ⟨?_,h.groups⟩ rfl
      exact forall_insert (P := fun _ => CleanPaste) h.pastes (h.pastes pasteId paste hp)

theorem handlePasteEnd_clean {p : Pending} (h : Clean p) (pasteId : UInt32) (status : UInt8) :
    HandledClean (handlePasteEnd p pasteId status) := by
  unfold handlePasteEnd
  cases hp : p.pastes.lookup pasteId with
  | none => exact handledClean_of_none h rfl
  | some paste =>
    have hpath := h.pastes pasteId paste hp
    have hrest : Clean ⟨p.pastes.erase pasteId,p.groups⟩ := ⟨forall_erase h.pastes,h.groups⟩
    dsimp only
    split_ifs
    · exact handledClean_of_none ⟨hrest.pastes,forall_erase h.groups⟩ rfl
    · exact handledClean_of_none ⟨hrest.pastes,forall_erase h.groups⟩ rfl
    · cases hg : p.groups.lookup paste.groupId with
      | none =>
        refine ⟨hrest,?_⟩
        intro paths heq path hmem
        cases heq
        rw [List.mem_singleton.mp hmem]
        exact hpath
      | some g =>
        have hfinished : ∀ path ∈ g.finished++[paste.path], NoEnter path := by
          intro path hmem
          rcases List.mem_append.mp hmem with hold | hnew
          · exact h.groups paste.groupId g hg path hold
          · rw [List.mem_singleton.mp hnew]
            exact hpath
        dsimp only
        split_ifs
        · refine ⟨⟨hrest.pastes,forall_erase h.groups⟩,?_⟩
          intro paths heq
          cases heq
          exact hfinished
        · refine handledClean_of_none ⟨hrest.pastes,?_⟩ rfl
          exact forall_insert (P := fun _ => CleanGroup) h.groups hfinished

theorem noEnter_quoted {path : Bytes} (h : NoEnter path) : NoEnter (quoted path) := by
  unfold quoted
  split_ifs
  · exact NoEnter.cons (by decide) (h.append (by decide +kernel))
  · exact h

theorem noEnter_intercalate {paths : List Bytes} (h : ∀ path ∈ paths, NoEnter path) :
    NoEnter (List.intercalate [0x20] paths) := by
  induction paths with
  | nil => exact nofun
  | cons path rest ih =>
    have hpath := h path List.mem_cons_self
    have hrest := ih fun p hp => h p (List.mem_cons_of_mem _ hp)
    cases rest with
    | nil => simpa [List.intercalate] using hpath
    | cons next rest =>
      have hcons : List.intercalate [0x20] (path::next::rest) =
          path++0x20::List.intercalate [0x20] (next::rest) := by
        simp [List.intercalate]
      rw [hcons]
      exact hpath.append (NoEnter.cons (by decide) hrest)

/-- Injecting clean paths does not press Enter, in either style. -/
theorem noEnter_pasteSequence (style : PasteStyle) {paths : List Bytes}
    (h : ∀ path ∈ paths, NoEnter path) : NoEnter (pasteSequence style paths) := by
  cases style with
  | bracketed =>
    exact (NoEnter.append (by decide +kernel) (noEnter_intercalate h)).append (by decide +kernel)
  | plain =>
    refine NoEnter.append (noEnter_intercalate ?_) (by decide +kernel)
    intro path hpath
    obtain ⟨raw,hraw,rfl⟩ := List.mem_map.mp hpath
    exact noEnter_quoted (h raw hraw)

end Term.PasteUpload
