import Mathlib.Data.List.Perm.Subperm
import TermMux.PasteRegistry

/-!
# The files of a stream's pastes

The registries of a stream next to the files that it creates. A file is numbered in the
order of creation and opened exclusively, so a path names the file created last
under it; a paste writes through the handle it opened. The handle may keep what it
accepts in a buffer and report a failure only at a later write or at the flush. A file
is held by a pending paste or a finished path until it is removed or handed over.
-/

set_option autoImplicit false

namespace Term.PasteDisk
open Term.ByteOrder Term.FrameModel Term.KeyedMap Term.Machine Term.PasteGroups Term.PasteNames
open Term.PasteRegistry Term.PasteUpload

/-- `content` is on the disk and `buffered` in the handle; `payloads` are the chunks that were
written. `sound` is whether every write and flush so far reported success. -/
structure PasteFile where
  path : Bytes
  totalSize : ℕ
  content : Bytes
  buffered : Bytes
  payloads : List Bytes
  sound : Bool
  deriving DecidableEq, Repr

namespace PasteFile

def create (path : Bytes) (totalSize : ℕ) : PasteFile := ⟨path,totalSize,[],[],[],true⟩

/-- `write_all`: the first `drained` bytes of what the handle has accepted reach the disk. -/
def write (f : PasteFile) (bytes : Bytes) (drained : ℕ) (ok : Bool) : PasteFile :=
  { f with
    content := f.content++(f.buffered++bytes).take drained
    buffered := (f.buffered++bytes).drop drained
    payloads := f.payloads++[bytes]
    sound := f.sound && ok }

/-- `flush` and the drop of the handle: a success means that all of it is on the disk. -/
def flush (f : PasteFile) (drained : ℕ) (ok : Bool) : PasteFile :=
  { f with
    content := f.content++(if ok then f.buffered else f.buffered.take drained)
    buffered := []
    sound := f.sound && ok }

def size (f : PasteFile) : ℕ := (f.payloads.map List.length).sum

end PasteFile

def latest (paths : List Bytes) (path : Bytes) : ℕ := paths.length-1-paths.reverse.idxOf path

/-- `handle` is the file that a pending paste writes; `removed` and `handed` are the files of
every call of `remove_file` and of every path given to `write_internal`. -/
structure Disk where
  pending : Pending
  files : List PasteFile
  handle : UInt32 → ℕ
  removed : List ℕ
  handed : List ℕ

namespace Disk

def new : Disk := ⟨Pending.empty,[],fun _ => 0,[],[]⟩

def paths (s : Disk) : List Bytes := s.files.map PasteFile.path

def fileAt (s : Disk) (path : Bytes) : ℕ := latest s.paths path

def Exists (s : Disk) (path : Bytes) : Prop := path ∈ s.paths ∧ s.fileAt path ∉ s.removed

instance (s : Disk) (path : Bytes) : Decidable (s.Exists path) :=
  inferInstanceAs (Decidable (_ ∧ _))

/-- `create_new`: nothing is created where a file is. -/
def exclusive (s : Disk) (env : PasteEnv) : PasteEnv :=
  { env with
    opened := fun path =>
      if s.Exists path ∧ env.opened path = .created then .alreadyExists else env.opened path }

def meets (s : Disk) : PasteFrame → PasteFrame
  | .pasteBegin controller env pasteId totalSize groupId groupSize name =>
    .pasteBegin controller (s.exclusive env) pasteId totalSize groupId groupSize name
  | f => f

end Disk

/-- A paste frame with what the file handle does: how much of its buffer reaches the disk, and
whether the flush of a committed paste succeeds. -/
structure Event where
  frame : PasteFrame
  drained : ℕ
  flushed : Bool

def inControl : PasteFrame → Bool
  | .pasteEnd controller _ _ => controller
  | _ => true

def removals (f : PasteFrame) (h : Handled) : List Bytes :=
  h.removed++(if inControl f then [] else h.inject.getD [])

def injections (f : PasteFrame) (h : Handled) : List Bytes :=
  if inControl f then h.inject.getD [] else []

def openedBy (f : PasteFrame) (h : Handled) : Option (UInt32 × PendingPaste) :=
  match f with
  | .pasteBegin _ _ pasteId _ _ _ _ =>
    match h.reject with
    | none => (h.pending.pastes.lookup pasteId).map fun paste => (pasteId,paste)
    | some _ => none
  | _ => none

namespace Disk

def written (s : Disk) (f : PasteFrame) (drained : ℕ) (flushed : Bool) : List PasteFile :=
  match f with
  | .pasteBegin _ _ _ _ _ _ _ => s.files
  | .pasteChunk writeOk pasteId bytes =>
    match s.pending.pastes.lookup pasteId with
    | none => s.files
    | some paste =>
      if paste.totalSize < saturatingAdd paste.written bytes.length then s.files
      else s.files.modify (s.handle pasteId) fun file => file.write bytes drained writeOk
  | .pasteEnd _ pasteId status =>
    match s.pending.pastes.lookup pasteId with
    | none => s.files
    | some paste =>
      if status = pasteStatusCancel ∨ paste.written ≠ paste.totalSize then s.files
      else s.files.modify (s.handle pasteId) fun file => file.flush drained flushed

def handled (limits : Limits) (dir : Bytes) (s : Disk) (e : Event) : Disk :=
  let f := s.meets e.frame
  let h := PasteGroups.handle limits dir s.pending f
  let removed := s.removed++(removals f h).map s.fileAt
  let handed := s.handed++(injections f h).map s.fileAt
  match openedBy f h with
  | some (pasteId,paste) =>
    ⟨h.pending,s.files++[PasteFile.create paste.path paste.totalSize],
      Function.update s.handle pasteId s.files.length,removed,handed⟩
  | none => ⟨h.pending,s.written f e.drained e.flushed,s.handle,removed,handed⟩

end Disk

def step (limits : Limits) (dir : Bytes) (s : Disk) (e : Event) : Option Disk :=
  some (s.handled limits dir e)

def pendingPaths (pastes : AList fun _ : UInt32 => PendingPaste) : List Bytes :=
  gather (fun paste => [paste.path]) pastes

def finishedPaths (groups : AList fun _ : UInt32 => PendingGroup) : List Bytes :=
  gather PendingGroup.finished groups

def owned (p : Pending) : List Bytes := pendingPaths p.pastes++finishedPaths p.groups

namespace Disk

def places (s : Disk) : List ℕ :=
  (pendingPaths s.pending.pastes).map s.fileAt++(finishedPaths s.pending.groups).map s.fileAt++
    (s.removed++s.handed)

/-- The end of `run_session_stream`. -/
def cleanup (s : Disk) : Disk :=
  { s with
    pending := Pending.empty
    removed := s.removed++(owned s.pending).map s.fileAt }

end Disk

/-! ## Paths and files -/

section Latest
variable {paths : List Bytes} {path other : Bytes}

theorem latest_concat_self (paths : List Bytes) (path : Bytes) :
    latest (paths++[path]) path = paths.length := by
  simp [latest]

theorem latest_concat_ne (h : other ≠ path) : latest (paths++[path]) other = latest paths other := by
  have hidx : (path::paths.reverse).idxOf other = paths.reverse.idxOf other+1 :=
    List.idxOf_cons_ne _ (Ne.symm h)
  simp only [latest, List.reverse_append, List.reverse_singleton, List.singleton_append,
    List.length_append, List.length_singleton, hidx]
  omega

theorem getElem?_latest (h : path ∈ paths) : paths[latest paths path]? = some path := by
  induction paths using List.reverseRecOn with
  | nil => cases h
  | append_singleton paths last ih =>
    by_cases heq : path = last
    · rw [heq, latest_concat_self, List.getElem?_concat_length]
    · rw [latest_concat_ne heq]
      have hmem : path ∈ paths := by simpa [heq] using h
      have hget := ih hmem
      rwa [List.getElem?_append_left (List.getElem?_eq_some_iff.mp hget).1]

end Latest

/-! ## What a handler does with the paths -/

section Conserve
variable {limits : Limits} {dir : Bytes} {p : Pending}

theorem removals_injections (f : PasteFrame) (h : Handled) :
    removals f h++injections f h = h.removed++h.inject.getD [] := by
  cases hc : inControl f <;> simp [removals, injections, hc]

theorem finishedPaths_reserve {groupId groupSize : UInt32} {g : PendingGroup}
    (hg : g.finished = (groupFor p groupId groupSize).finished) :
    (finishedPaths (p.groups.insert groupId g)).Perm (finishedPaths p.groups) := by
  cases hl : p.groups.lookup groupId with
  | none =>
    have hnil : g.finished = [] := by simpa [groupFor, hl] using hg
    rw [finishedPaths, gather_new _ hl, hnil]
    exact List.Perm.refl _
  | some old =>
    apply gather_replace hl
    simpa [groupFor, hl] using hg

theorem finishedOf_some {groupId : UInt32} {g : PendingGroup}
    (hg : p.groups.lookup groupId = some g) : finishedOf p groupId = g.finished := by
  simp [finishedOf, waiting, hg]

theorem finishedPaths_erase (p : Pending) (groupId : UInt32) :
    (finishedPaths p.groups).Perm (finishedOf p groupId++finishedPaths (p.groups.erase groupId)) := by
  cases hg : p.groups.lookup groupId with
  | none =>
    have hnil : finishedOf p groupId = [] := by simp [finishedOf, waiting, hg]
    rw [hnil, erase_of_none hg]
    exact List.Perm.refl _
  | some g =>
    rw [finishedOf_some hg]
    exact gather_of_lookup hg

theorem pendingPaths_erase {pasteId : UInt32} {paste : PendingPaste}
    (hp : p.pastes.lookup pasteId = some paste) :
    (pendingPaths p.pastes).Perm (paste.path::pendingPaths (p.pastes.erase pasteId)) :=
  gather_of_lookup (f := fun paste : PendingPaste => [paste.path]) hp

theorem begin_conserves (controller : Bool) (env : PasteEnv) (pasteId : UInt32)
    (totalSize : UInt64) (groupId groupSize : UInt32) (name : String) :
    let f := PasteFrame.pasteBegin controller env pasteId totalSize groupId groupSize name
    let h := handle limits dir p f
    (owned h.pending++(h.removed++h.inject.getD [])).Perm
      (owned p++((openedBy f h).map fun e => e.2.path).toList) := by
  intro f h
  cases controller with
  | false => exact List.Perm.refl _
  | true =>
    have ho : Opens limits env dir p pasteId totalSize groupId groupSize name h :=
      handle_opens limits dir p env pasteId totalSize groupId groupSize name
    generalize h = out at ho
    cases ho with
    | refused reason href => exact List.Perm.refl _
    | oversize g href hg hover =>
      simp only [f, openedBy, Option.map_none, Option.toList_none, List.append_nil,
        Option.getD_none, owned, List.append_assoc]
      refine List.Perm.append_left _ ?_
      rw [← finishedOf_some hg]
      exact List.perm_append_comm.trans (finishedPaths_erase p groupId).symm
    | openFailed e href hover hopen =>
      simp only [f, openedBy, Option.map_none, Option.toList_none, List.append_nil,
        Option.getD_none, owned]
      exact List.Perm.append_left _ (finishedPaths_reserve rfl)
    | opened path href hover hopen =>
      simp only [f, openedBy, AList.lookup_insert, Option.map_some, Option.toList_some,
        List.append_nil, Option.getD_none, owned]
      rw [pendingPaths, gather_new _ (new_of_accepted href)]
      refine List.Perm.trans ?_ (List.perm_append_singleton path _).symm
      exact (List.Perm.append_left (pendingPaths p.pastes) (finishedPaths_reserve rfl)).cons path

theorem chunk_conserves (writeOk : Bool) (pasteId : UInt32) (bytes : Bytes) :
    let h := handlePasteChunk writeOk p pasteId bytes
    (owned h.pending++(h.removed++h.inject.getD [])).Perm (owned p) := by
  intro h
  have hc := handlePasteChunk_chunks writeOk p pasteId bytes
  change Chunks writeOk p pasteId bytes h at hc
  generalize h = out at hc
  cases hc with
  | unknown hp => simp [List.Perm.refl]
  | failed paste reason hp hbad =>
    simp only [Option.getD_none, List.append_nil, owned]
    refine List.perm_append_comm.trans ?_
    exact (pendingPaths_erase hp).symm.append_right _
  | written paste hp hfits hwrite =>
    have hkept : (pendingPaths (p.pastes.insert pasteId
        { paste with written := paste.written+bytes.length })).Perm (pendingPaths p.pastes) :=
      gather_replace hp rfl
    simp only [Option.getD_none, List.append_nil, owned]
    exact hkept.append_right _

theorem end_conserves (pasteId : UInt32) (status : UInt8) :
    let h := handlePasteEnd p pasteId status
    (owned h.pending++(h.removed++h.inject.getD [])).Perm (owned p) := by
  intro h
  have he := handlePasteEnd_ends p pasteId status
  change Ends p pasteId status h at he
  generalize h = out at he
  cases he with
  | unknown hp => simp [List.Perm.refl]
  | dropped paste reject hp hbad =>
    rw [List.perm_iff_count]
    intro path
    have hpending := (pendingPaths_erase hp).count_eq path
    have hfinished := (finishedPaths_erase p paste.groupId).count_eq path
    simp only [owned, Option.getD_none, List.append_nil, List.count_append, List.count_cons] at *
    omega
  | staged paste g hp hok hg hmore =>
    rw [List.perm_iff_count]
    intro path
    have hpending := (pendingPaths_erase hp).count_eq path
    have hfinished := (finishedPaths_erase p paste.groupId).count_eq path
    have hstaged : finishedPaths (p.groups.insert paste.groupId
        { g with finished := g.finished++[paste.path] }) =
        (g.finished++[paste.path])++finishedPaths (p.groups.erase paste.groupId) := gather_insert _ _ _ _
    rw [finishedOf_some hg] at hfinished
    simp only [owned, hstaged, Option.getD_none, List.append_nil, List.count_append, List.count_cons,
      List.count_nil] at *
    omega
  | completed paste g hp hok hg hfull =>
    rw [List.perm_iff_count]
    intro path
    have hpending := (pendingPaths_erase hp).count_eq path
    have hfinished := (finishedPaths_erase p paste.groupId).count_eq path
    rw [finishedOf_some hg] at hfinished
    simp only [owned, Option.getD_some, List.nil_append, List.count_append, List.count_cons,
      List.count_nil] at *
    omega
  | alone paste hp hok hg =>
    simp only [owned, Option.getD_some, List.nil_append]
    refine List.perm_append_comm.trans ?_
    exact (pendingPaths_erase hp).symm.append_right _

/-- Every path that a frame finds in the registries, or puts there, is still there, removed
or handed over, and in one place. -/
theorem handle_conserves (limits : Limits) (dir : Bytes) (p : Pending) (f : PasteFrame) :
    let h := handle limits dir p f
    (owned h.pending++(removals f h++injections f h)).Perm
      (owned p++((openedBy f h).map fun e => e.2.path).toList) := by
  intro h
  rw [removals_injections]
  cases f with
  | pasteBegin controller env pasteId totalSize groupId groupSize name =>
    exact begin_conserves controller env pasteId totalSize groupId groupSize name
  | pasteChunk writeOk pasteId bytes =>
    exact (chunk_conserves writeOk pasteId bytes).trans (List.Perm.of_eq (List.append_nil _).symm)
  | pasteEnd controller pasteId status =>
    exact (end_conserves pasteId status).trans (List.Perm.of_eq (List.append_nil _).symm)

/-- A frame that opens a file: a `PasteBegin` from the controller, and nothing else happens. -/
theorem openedBy_eq_some {f : PasteFrame} {id : UInt32} {paste : PendingPaste}
    (ho : openedBy f (handle limits dir p f) = some (id,paste)) :
    ∃ env totalSize groupId groupSize name,
      f = .pasteBegin true env id totalSize groupId groupSize name ∧
      openPasteFile env dir name = .ok paste.path ∧ p.pastes.lookup id = none ∧
      paste = ⟨paste.path,totalSize.toNat,0,groupId⟩ ∧
      ¬Refused limits p id totalSize groupId ∧ ¬Oversize p totalSize groupId ∧
      handle limits dir p f = ⟨⟨p.pastes.insert id paste,p.groups.insert groupId
        (PendingGroup.declare (groupFor p groupId groupSize) totalSize.toNat)⟩,none,[],none⟩ := by
  cases f with
  | pasteChunk writeOk pasteId bytes => cases ho
  | pasteEnd controller pasteId status => cases ho
  | pasteBegin controller env pasteId totalSize groupId groupSize name =>
    cases controller with
    | false => cases ho
    | true =>
      have hcases := handle_opens limits dir p env pasteId totalSize groupId groupSize name
      generalize handle limits dir p _ = out at ho hcases ⊢
      cases hcases with
      | refused reason href => cases ho
      | oversize g href hg hover => cases ho
      | openFailed e href hover hopen => cases ho
      | opened path href hover hopen =>
        have hnew := new_of_accepted href
        simp only [openedBy, AList.lookup_insert, Option.map_some, Option.some.injEq,
          Prod.mk.injEq] at ho
        obtain ⟨rfl,rfl⟩ := ho
        exact ⟨env,totalSize,groupId,groupSize,name,rfl,hopen,hnew,rfl,href,hover,rfl⟩

theorem opened_quiet {f : PasteFrame} {id : UInt32} {paste : PendingPaste}
    (ho : openedBy f (handle limits dir p f) = some (id,paste)) :
    removals f (handle limits dir p f) = [] ∧ injections f (handle limits dir p f) = [] := by
  obtain ⟨env,totalSize,groupId,groupSize,name,hf,-,-,-,-,-,hh⟩ := openedBy_eq_some ho
  have hcontrol : inControl f = true := by
    rw [hf]
    rfl
  rw [hh]
  simp [removals, injections, hcontrol]

def about : PasteFrame → Option UInt32
  | .pasteBegin _ _ _ _ _ _ _ => none
  | .pasteChunk _ pasteId _ => some pasteId
  | .pasteEnd _ pasteId _ => some pasteId

theorem begin_pastes {controller : Bool} {env : PasteEnv} {pasteId : UInt32} {totalSize : UInt64}
    {groupId groupSize : UInt32} {name : String}
    (ho : openedBy (.pasteBegin controller env pasteId totalSize groupId groupSize name)
      (handle limits dir p (.pasteBegin controller env pasteId totalSize groupId groupSize name)) =
      none) :
    (handle limits dir p
      (.pasteBegin controller env pasteId totalSize groupId groupSize name)).pending.pastes =
      p.pastes := by
  cases controller with
  | false => rfl
  | true =>
    have hcases := handle_opens limits dir p env pasteId totalSize groupId groupSize name
    generalize handle limits dir p _ = out at ho hcases ⊢
    cases hcases with
    | refused reason href => rfl
    | oversize g href hg hover => rfl
    | openFailed e href hover hopen => rfl
    | opened path href hover hopen => simp [openedBy] at ho

theorem pending_of_kept {f : PasteFrame} {p : Pending} {id : UInt32} {paste : PendingPaste}
    (ho : openedBy f (handle limits dir p f) = none)
    (hp : (handle limits dir p f).pending.pastes.lookup id = some paste) :
    (p.pastes.lookup id = some paste ∧ about f ≠ some id) ∨
    ∃ bytes old, f = .pasteChunk true id bytes ∧ p.pastes.lookup id = some old ∧
      ¬old.totalSize < saturatingAdd old.written bytes.length ∧
      paste = { old with written := old.written+bytes.length } := by
  cases f with
  | pasteBegin controller env pasteId totalSize groupId groupSize name =>
    rw [begin_pastes ho] at hp
    exact .inl ⟨hp,Option.some_ne_none id ∘ Eq.symm⟩
  | pasteChunk writeOk pasteId bytes =>
    have hc := handle_chunks limits dir p writeOk pasteId bytes
    generalize handle limits dir p _ = out at hp hc
    cases hc with
    | unknown hnone =>
      refine .inl ⟨hp,?_⟩
      rintro ⟨⟩
      cases hnone.symm.trans hp
    | failed old reason hold hbad =>
      obtain ⟨hne,hother⟩ := lookup_of_erase hp
      refine .inl ⟨hother,?_⟩
      rintro ⟨⟩
      exact hne rfl
    | written old hold hfits hwrite =>
      subst hwrite
      rcases lookup_of_insert hp with ⟨rfl,rfl⟩ | ⟨hne,hother⟩
      · exact .inr ⟨bytes,old,rfl,hold,hfits,rfl⟩
      · refine .inl ⟨hother,?_⟩
        rintro ⟨⟩
        exact hne rfl
  | pasteEnd controller pasteId status =>
    left
    have hrest : ∀ {groups : AList fun _ : UInt32 => PendingGroup},
        (Pending.mk (p.pastes.erase pasteId) groups).pastes.lookup id = some paste →
        p.pastes.lookup id = some paste ∧ about (.pasteEnd controller pasteId status) ≠ some id := by
      intro groups herased
      obtain ⟨hne,hother⟩ := lookup_of_erase herased
      refine ⟨hother,?_⟩
      rintro ⟨⟩
      exact hne rfl
    have he := handle_ends limits dir p controller pasteId status
    generalize handle limits dir p _ = out at hp he
    cases he with
    | unknown hnone =>
      refine ⟨hp,?_⟩
      rintro ⟨⟩
      cases hnone.symm.trans hp
    | dropped old reject hold hbad => exact hrest hp
    | staged old g hold hok hg hmore => exact hrest hp
    | completed old g hold hok hg hfull => exact hrest hp
    | alone old hold hok hg => exact hrest hp

def SameUpload (old paste : PendingPaste) : Prop :=
  paste.path = old.path ∧ paste.totalSize = old.totalSize ∧ paste.groupId = old.groupId

theorem pending_of_handle {f : PasteFrame} {id : UInt32} {paste : PendingPaste}
    (hp : (handle limits dir p f).pending.pastes.lookup id = some paste) :
    openedBy f (handle limits dir p f) = some (id,paste) ∨
      ∃ old, p.pastes.lookup id = some old ∧ SameUpload old paste := by
  cases ho : openedBy f (handle limits dir p f) with
  | none =>
    right
    rcases pending_of_kept ho hp with ⟨hold,-⟩ | ⟨bytes,old,-,hold,-,rfl⟩
    · exact ⟨paste,hold,rfl,rfl,rfl⟩
    · exact ⟨old,hold,rfl,rfl,rfl⟩
  | some opened =>
    obtain ⟨env,totalSize,groupId,groupSize,name,-,-,-,-,-,-,hh⟩ := openedBy_eq_some ho
    rw [hh] at hp
    rcases lookup_of_insert hp with ⟨rfl,rfl⟩ | ⟨-,hold⟩
    · exact .inl rfl
    · exact .inr ⟨paste,hold,rfl,rfl,rfl⟩

end Conserve

/-! ## One owner for each file -/

structure Held (s : Disk) : Prop where
  places : s.places.Perm (List.range s.files.length)
  created : ∀ path ∈ owned s.pending, path ∈ s.paths
  handle : ∀ id paste, s.pending.pastes.lookup id = some paste → s.handle id = s.fileAt paste.path

theorem new_held : Held Disk.new := by
  refine ⟨List.Perm.refl _,?_,?_⟩
  · intro path h
    cases h
  · intro id paste h
    cases h

section Held
variable {limits : Limits} {dir : Bytes} {s : Disk}

theorem places_eq (s : Disk) :
    s.places = (owned s.pending).map s.fileAt++(s.removed++s.handed) := by
  rw [Disk.places, owned, List.map_append]

/-- A frame changes at most the file of its own paste, and never a path. -/
theorem written_cases (s : Disk) (f : PasteFrame) (drained : ℕ) (flushed : Bool) :
    s.written f drained flushed = s.files ∨
      ∃ id paste g, about f = some id ∧ s.pending.pastes.lookup id = some paste ∧
        (∀ file : PasteFile, (g file).path = file.path) ∧
        s.written f drained flushed = s.files.modify (s.handle id) g := by
  cases f with
  | pasteBegin controller env pasteId totalSize groupId groupSize name => exact .inl rfl
  | pasteChunk writeOk pasteId bytes =>
    simp only [Disk.written]
    split
    · exact .inl rfl
    · next paste hp =>
      split_ifs
      · exact .inl rfl
      · refine .inr ⟨pasteId,paste,_,rfl,hp,?_,rfl⟩
        exact fun _ => rfl
  | pasteEnd controller pasteId status =>
    simp only [Disk.written]
    split
    · exact .inl rfl
    · next paste hp =>
      split_ifs
      · exact .inl rfl
      · refine .inr ⟨pasteId,paste,_,rfl,hp,?_,rfl⟩
        exact fun _ => rfl

theorem written_paths (s : Disk) (f : PasteFrame) (drained : ℕ) (flushed : Bool) :
    (s.written f drained flushed).map PasteFile.path = s.paths := by
  rcases written_cases s f drained flushed with heq | ⟨id,paste,g,-,-,hg,heq⟩
  · rw [heq]
    rfl
  · rw [heq]
    apply List.ext_getElem?
    intro j
    by_cases hj : s.handle id = j <;> cases hf : s.files[j]? <;>
      simp [Disk.paths, hj, hf, hg]

theorem exists_of_owned (h : Held s) {path : Bytes} (hpath : path ∈ owned s.pending) :
    s.Exists path := by
  refine ⟨h.created path hpath,fun hremoved => ?_⟩
  have hnodup : s.places.Nodup := h.places.nodup_iff.mpr List.nodup_range
  rw [places_eq] at hnodup
  have hdisjoint := (List.nodup_append.mp hnodup).2.2
  exact hdisjoint _ (List.mem_map_of_mem hpath) _ (List.mem_append_left _ hremoved) rfl

theorem handle_notMem (h : Held s) {id : UInt32} {paste : PendingPaste}
    (hp : s.pending.pastes.lookup id = some paste) :
    s.handle id ∉ (pendingPaths (s.pending.pastes.erase id)).map s.fileAt ∧
      s.handle id ∉ (finishedPaths s.pending.groups).map s.fileAt ∧ s.handle id ∉ s.handed := by
  have hnodup : s.places.Nodup := h.places.nodup_iff.mpr List.nodup_range
  have hpath := (pendingPaths_erase hp).map s.fileAt
  rw [List.map_cons, ← h.handle id paste hp] at hpath
  have hsplit : s.places.Perm (s.handle id::((pendingPaths (s.pending.pastes.erase id)).map s.fileAt++
      (finishedPaths s.pending.groups).map s.fileAt++(s.removed++s.handed))) :=
    (hpath.append_right _).append_right _
  have hnot := (List.nodup_cons.mp (hsplit.nodup_iff.mp hnodup)).1
  simp only [List.mem_append, not_or] at hnot
  exact ⟨hnot.1.1,hnot.1.2,hnot.2.2⟩

theorem handle_ne (h : Held s) {id other : UInt32} {paste paste' : PendingPaste}
    (hp : s.pending.pastes.lookup id = some paste)
    (hother : s.pending.pastes.lookup other = some paste') (hne : other ≠ id) :
    s.handle id ≠ s.handle other := by
  intro heq
  apply (handle_notMem h hp).1
  rw [heq, h.handle other paste' hother]
  apply List.mem_map_of_mem
  refine mem_gather.mpr ⟨other,paste',?_,List.mem_singleton_self _⟩
  rwa [AList.lookup_erase_ne hne]

theorem not_exists_of_opened {env : PasteEnv} {name : String} {path : Bytes}
    (h : openPasteFile (s.exclusive env) dir name = .ok path) : ¬s.Exists path := by
  intro hex
  have hcreated := (openPasteFile_eq_ok h).1
  simp only [Disk.exclusive, hex, true_and] at hcreated
  split_ifs at hcreated with hc
  exact hc hcreated

abbrev outcome (limits : Limits) (dir : Bytes) (s : Disk) (e : Event) : Handled :=
  handle limits dir s.pending (s.meets e.frame)

theorem handled_opened {e : Event} {id : UInt32} {paste : PendingPaste}
    (ho : openedBy (s.meets e.frame) (outcome limits dir s e) = some (id,paste)) :
    s.handled limits dir e = ⟨(outcome limits dir s e).pending,
      s.files++[PasteFile.create paste.path paste.totalSize],
      Function.update s.handle id s.files.length,s.removed,s.handed⟩ := by
  obtain ⟨hremovals,hinjections⟩ := opened_quiet ho
  simp only [Disk.handled, ho, hremovals, hinjections, List.map_nil, List.append_nil]

theorem handled_kept {e : Event}
    (ho : openedBy (s.meets e.frame) (outcome limits dir s e) = none) :
    s.handled limits dir e = ⟨(outcome limits dir s e).pending,
      s.written (s.meets e.frame) e.drained e.flushed,s.handle,
      s.removed++(removals (s.meets e.frame) (outcome limits dir s e)).map s.fileAt,
      s.handed++(injections (s.meets e.frame) (outcome limits dir s e)).map s.fileAt⟩ := by
  simp only [Disk.handled, ho]

theorem pending_handled (e : Event) :
    (s.handled limits dir e).pending = (outcome limits dir s e).pending := by
  cases ho : openedBy (s.meets e.frame) (outcome limits dir s e) with
  | none => rw [handled_kept ho]
  | some opened => rw [handled_opened ho]

theorem opened_new {e : Event} {id : UInt32} {paste : PendingPaste}
    (ho : openedBy (s.meets e.frame) (outcome limits dir s e) = some (id,paste)) :
    ¬s.Exists paste.path := by
  obtain ⟨env,totalSize,groupId,groupSize,name,hf,hopen,-⟩ := openedBy_eq_some ho
  cases hframe : e.frame with
  | pasteBegin controller env' pasteId' totalSize' groupId' groupSize' name' =>
    rw [hframe] at hf
    simp only [Disk.meets, PasteFrame.pasteBegin.injEq] at hf
    obtain ⟨-,rfl,-⟩ := hf
    exact not_exists_of_opened hopen
  | pasteChunk writeOk pasteId bytes =>
    rw [hframe] at hf
    cases hf
  | pasteEnd controller pasteId status =>
    rw [hframe] at hf
    cases hf

theorem paths_create (s : Disk) (path : Bytes) (totalSize : ℕ) :
    (s.files++[PasteFile.create path totalSize]).map PasteFile.path = s.paths++[path] := by
  rw [List.map_append]
  rfl

theorem fileAt_handled (h : Held s) (e : Event) {path : Bytes} (hpath : path ∈ owned s.pending) :
    (s.handled limits dir e).fileAt path = s.fileAt path := by
  cases ho : openedBy (s.meets e.frame) (outcome limits dir s e) with
  | none =>
    rw [handled_kept ho, Disk.fileAt, Disk.paths, written_paths, Disk.fileAt]
  | some opened =>
    rw [handled_opened ho, Disk.fileAt, Disk.paths, paths_create]
    apply latest_concat_ne
    rintro rfl
    exact opened_new ho (exists_of_owned h hpath)

theorem held_opened {e : Event} {id : UInt32} {paste : PendingPaste} (h : Held s)
    (ho : openedBy (s.meets e.frame) (outcome limits dir s e) = some (id,paste)) :
    Held (s.handled limits dir e) := by
  have hconserve := handle_conserves limits dir s.pending (s.meets e.frame)
  have hkeep : ∀ path ∈ owned s.pending,
      latest (s.paths++[paste.path]) path = s.fileAt path := by
    intro path hpath
    have hfile : (s.handled limits dir e).fileAt path = s.fileAt path := fileAt_handled h e hpath
    rw [handled_opened ho, Disk.fileAt, Disk.paths, paths_create] at hfile
    exact hfile
  rw [handled_opened ho]
  obtain ⟨hremovals,hinjections⟩ := opened_quiet ho
  obtain ⟨env,totalSize,groupId,groupSize,name,-,-,-,-,-,-,hh⟩ := openedBy_eq_some ho
  have hpaths := paths_create s paste.path paste.totalSize
  have hlen : s.paths.length = s.files.length := List.length_map _
  have howned : (owned (outcome limits dir s e).pending).Perm (owned s.pending++[paste.path]) := by
    simpa only [ho, hremovals, hinjections, List.append_nil, Option.map_some,
      Option.toList_some] using hconserve
  have hat : ∀ path, Disk.fileAt ⟨(outcome limits dir s e).pending,
      s.files++[PasteFile.create paste.path paste.totalSize],
      Function.update s.handle id s.files.length,s.removed,s.handed⟩ path =
      latest (s.paths++[paste.path]) path := by
    intro path
    rw [Disk.fileAt, Disk.paths, hpaths]
  refine ⟨?_,?_,?_⟩
  · rw [places_eq]
    have hfiles : ((owned (outcome limits dir s e).pending).map
        (latest (s.paths++[paste.path]))).Perm
        ((owned s.pending).map s.fileAt++[s.files.length]) := by
      refine (howned.map _).trans (List.Perm.of_eq ?_)
      rw [List.map_append, List.map_congr_left hkeep, List.map_singleton, latest_concat_self, hlen]
    have hold := h.places
    rw [places_eq, List.perm_iff_count] at hold
    rw [List.map_congr_left fun path _ => hat path, List.perm_iff_count]
    intro n
    have hn := hold n
    have hf := hfiles.count_eq n
    simp only [List.count_append, List.length_append, List.length_singleton, List.range_succ] at *
    omega
  · intro path hpath
    rw [Disk.paths, hpaths]
    rcases List.mem_append.mp (howned.subset hpath) with hold | hself
    · exact List.mem_append_left _ (h.created path hold)
    · exact List.mem_append_right _ hself
  · intro id' paste' hp
    rw [hat]
    change Function.update s.handle id s.files.length id' = _
    change (outcome limits dir s e).pending.pastes.lookup id' = some paste' at hp
    rw [outcome, hh] at hp
    rcases lookup_of_insert hp with ⟨rfl,rfl⟩ | ⟨hne,hold⟩
    · rw [Function.update_self, latest_concat_self, hlen]
    · rw [Function.update_of_ne hne, h.handle id' paste' hold]
      refine (hkeep _ ?_).symm
      exact List.mem_append_left _ (mem_gather.mpr ⟨id',paste',hold,List.mem_singleton_self _⟩)

theorem held_kept {e : Event} (h : Held s)
    (ho : openedBy (s.meets e.frame) (outcome limits dir s e) = none) :
    Held (s.handled limits dir e) := by
  have hconserve := handle_conserves limits dir s.pending (s.meets e.frame)
  simp only [ho, Option.map_none, Option.toList_none, List.append_nil] at hconserve
  rw [handled_kept ho]
  have hpaths := written_paths s (s.meets e.frame) e.drained e.flushed
  have hlen : (s.written (s.meets e.frame) e.drained e.flushed).length = s.files.length := by
    simpa [Disk.paths] using congrArg List.length hpaths
  have hat : ∀ removed handed path, Disk.fileAt ⟨(outcome limits dir s e).pending,
      s.written (s.meets e.frame) e.drained e.flushed,s.handle,removed,handed⟩ path =
      s.fileAt path := by
    intro removed handed path
    rw [Disk.fileAt, Disk.paths, hpaths, Disk.fileAt]
  refine ⟨?_,?_,?_⟩
  · rw [places_eq, List.map_congr_left fun path _ => hat _ _ path, hlen, List.perm_iff_count]
    intro n
    have hn := h.places.count_eq n
    have hc := (hconserve.map s.fileAt).count_eq n
    rw [places_eq] at hn
    simp only [outcome, List.map_append, List.count_append] at *
    omega
  · intro path hpath
    rw [Disk.paths, hpaths]
    exact h.created path (hconserve.subset (List.mem_append_left _ hpath))
  · intro id paste hp
    rw [hat]
    rcases pending_of_handle hp with hopened | ⟨old,hold,hpath,-⟩
    · cases ho.symm.trans hopened
    · rw [hpath]
      exact h.handle id old hold

theorem handled_held (h : Held s) (e : Event) : Held (s.handled limits dir e) := by
  cases ho : openedBy (s.meets e.frame) (outcome limits dir s e) with
  | none => exact held_kept h ho
  | some opened => exact held_opened h ho

theorem cleanup_places (h : Held s) :
    s.cleanup.places.Perm (List.range s.files.length) := by
  refine List.Perm.trans ?_ h.places
  rw [places_eq, places_eq]
  change (s.removed++(owned s.pending).map s.fileAt++s.handed).Perm _
  rw [List.append_assoc]
  exact List.perm_append_comm_assoc _ _ _

end Held

theorem run_held {limits : Limits} {dir : Bytes} {es : List Event} {s : Disk}
    (hrun : run (step limits dir) Disk.new es = some s) : Held s := by
  refine run_invariant (step limits dir) ?_ new_held hrun
  intro u e v hu hstep
  cases hstep
  exact handled_held hu e

/-- Every file that a stream creates is in exactly one place after each frame: pending, finished,
removed by one call, or handed over. The clean-up removes all that is left but the last. -/
theorem one_owner (limits : Limits) (dir : Bytes) (es : List Event) (s : Disk)
    (hrun : run (step limits dir) Disk.new es = some s) :
    s.places.Perm (List.range s.files.length) ∧
    (∀ path ∈ owned s.pending, (s.files[s.fileAt path]?).map PasteFile.path = some path) ∧
    (s.cleanup.removed++s.handed).Perm (List.range s.files.length) := by
  have h := run_held hrun
  refine ⟨h.places,?_,?_⟩
  · intro path hpath
    have hget := getElem?_latest (h.created path hpath)
    rwa [Disk.paths, List.getElem?_map] at hget
  · exact cleanup_places h

/-- Two files of one name; the first is cancelled before the second is begun, which is typed. -/
def twoFiles : List Event :=
  [⟨.pasteBegin true ⟨true,0,0,fun _ => .created⟩ 1 0 7 1 "a",0,true⟩,
    ⟨.pasteEnd true 1 pasteStatusCancel,0,true⟩,
    ⟨.pasteBegin true ⟨true,0,0,fun _ => .created⟩ 1 0 8 1 "a",0,true⟩,
    ⟨.pasteEnd true 1 pasteStatusOk,0,true⟩]

theorem one_owner_two : ∃ s, run (step Limits.default []) Disk.new twoFiles = some s ∧
    s.removed = [0] ∧ s.handed = [1] ∧ s.places.Perm (List.range s.files.length) := by
  have hfacts : ((run (step Limits.default []) Disk.new twoFiles).map fun s =>
      (s.removed,s.handed)) = some ([0],[1]) := by
    decide +kernel
  obtain ⟨s,hs,heq⟩ := Option.map_eq_some_iff.mp hfacts
  obtain ⟨hremoved,hhanded⟩ := Prod.mk.inj heq
  exact ⟨s,hs,hremoved,hhanded,(one_owner Limits.default [] twoFiles s hs).1⟩

end Term.PasteDisk
