import TermMux.PasteDisk

/-!
# What is in a pasted file

While a paste is pending, its file and the buffer of its handle hold the chunks
that were written, in order, and no more of them than was declared. Once its flush
succeeds the file is complete, and it stays as it is until its path is typed.
-/

set_option autoImplicit false

namespace Term.PasteContent
open Term.ByteOrder Term.FrameModel Term.KeyedMap Term.Machine Term.PasteDisk Term.PasteGroups
open Term.PasteNames Term.PasteUpload Term.Utf8Text
open Term.PasteRegistry (accepted_le commits)

structure Taking (paste : PendingPaste) (file : PasteFile) : Prop where
  sound : file.sound = true
  bytes : file.content++file.buffered = file.payloads.flatten
  written : file.size = paste.written
  fits : paste.written ≤ paste.totalSize
  capped : paste.totalSize ≤ maxPasteTotalBytes
  total : file.totalSize = paste.totalSize

def Complete (file : PasteFile) : Prop :=
  file.content = file.payloads.flatten ∧ file.content.length = file.totalSize ∧ file.sound = true

def Uploads (s : Disk) : Prop :=
  ∀ id paste, s.pending.pastes.lookup id = some paste →
    ∃ file, s.files[s.handle id]? = some file ∧ Taking paste file

theorem taking_create {path : Bytes} {totalSize : ℕ} {groupId : UInt32}
    (h : totalSize ≤ maxPasteTotalBytes) :
    Taking ⟨path,totalSize,0,groupId⟩ (PasteFile.create path totalSize) :=
  ⟨rfl,rfl,rfl,Nat.zero_le _,h,rfl⟩

theorem taking_write {paste : PendingPaste} {file : PasteFile} (h : Taking paste file)
    {bytes : Bytes} (hfits : ¬paste.totalSize < saturatingAdd paste.written bytes.length)
    (drained : ℕ) :
    Taking { paste with written := paste.written+bytes.length } (file.write bytes drained true) := by
  refine ⟨?_,?_,?_,?_,h.capped,h.total⟩
  · simp [PasteFile.write, h.sound]
  · simp only [PasteFile.write, List.append_assoc, List.take_append_drop, List.flatten_append,
      List.flatten_singleton]
    rw [← List.append_assoc, h.bytes]
  · have hsize := h.written
    simp only [PasteFile.size, PasteFile.write, List.map_append, List.sum_append, List.map_singleton,
      List.sum_singleton] at hsize ⊢
    omega
  · have hcapped := h.capped
    have hmax : maxPasteTotalBytes < 2^64-1 := by decide
    unfold saturatingAdd at hfits
    change paste.written+bytes.length ≤ paste.totalSize
    omega

theorem complete_flush {paste : PendingPaste} {file : PasteFile} (h : Taking paste file)
    (hsize : paste.written = paste.totalSize) (drained : ℕ) :
    Complete (file.flush drained true) := by
  have hcontent : (file.flush drained true).content = file.payloads.flatten := h.bytes
  refine ⟨hcontent,?_,?_⟩
  · rw [hcontent, List.length_flatten]
    have hwritten := h.written
    have htotal := h.total
    change (file.payloads.map List.length).sum = file.totalSize
    unfold PasteFile.size at hwritten
    omega
  · simp [PasteFile.flush, h.sound]

section Step
variable {limits : Limits} {dir : Bytes} {s : Disk}

theorem written_getElem?_ne {f : PasteFrame} {n : ℕ}
    (h : ∀ id paste, about f = some id → s.pending.pastes.lookup id = some paste → s.handle id ≠ n)
    (drained : ℕ) (flushed : Bool) : (s.written f drained flushed)[n]? = s.files[n]? := by
  rcases written_cases s f drained flushed with heq | ⟨id,paste,g,hf,hp,-,heq⟩
  · rw [heq]
  · rw [heq]
    exact List.getElem?_modify_ne _ _ (h id paste hf hp)

theorem written_elsewhere (h : Held s) {n : ℕ}
    (hn : n ∈ (finishedPaths s.pending.groups).map s.fileAt ∨ n ∈ s.handed) (f : PasteFrame) (drained : ℕ) (flushed : Bool) :
    (s.written f drained flushed)[n]? = s.files[n]? := by
  apply written_getElem?_ne
  rintro id paste - hp rfl
  obtain ⟨-,hfinished,hhanded⟩ := handle_notMem h hp
  exact hn.elim hfinished hhanded

theorem commits_eq_some {f : PasteFrame} {id : UInt32} {paste : PendingPaste}
    (h : commits s.pending f = some (id,paste)) :
    (∃ controller status, f = .pasteEnd controller id status) ∧
      s.pending.pastes.lookup id = some paste ∧ paste.written = paste.totalSize ∧
      ∀ drained flushed, s.written f drained flushed =
        s.files.modify (s.handle id) fun file => file.flush drained flushed := by
  cases f with
  | pasteBegin controller env pasteId totalSize groupId groupSize name => cases h
  | pasteChunk writeOk pasteId bytes => cases h
  | pasteEnd controller pasteId status =>
    simp only [commits] at h
    cases hp : s.pending.pastes.lookup pasteId with
    | none => simp [hp] at h
    | some old =>
      simp only [hp] at h
      split_ifs at h with hbad
      cases h
      refine ⟨⟨controller,status,rfl⟩,hp,?_,?_⟩
      · exact not_not.mp (not_or.mp hbad).2
      · intro drained flushed
        simp only [Disk.written, hp, if_neg hbad]

theorem uploads_opened {e : Event} {id : UInt32} {paste : PendingPaste} (hu : Uploads s)
    (ho : openedBy (s.meets e.frame) (outcome limits dir s e) = some (id,paste)) :
    Uploads (s.handled limits dir e) := by
  rw [handled_opened ho]
  obtain ⟨env,totalSize,groupId,groupSize,name,-,-,-,hpaste,href,hover,hh⟩ := openedBy_eq_some ho
  intro other paste' hp
  change (outcome limits dir s e).pending.pastes.lookup other = some paste' at hp
  rw [outcome, hh] at hp
  change ∃ file, (s.files++_)[Function.update s.handle id s.files.length other]? = some file ∧ _
  rcases lookup_of_insert hp with ⟨rfl,rfl⟩ | ⟨hne,hold⟩
  · rw [Function.update_self, List.getElem?_concat_length]
    refine ⟨_,rfl,?_⟩
    have htotal : totalSize.toNat ≤ maxPasteTotalBytes := by
      have hle := accepted_le groupSize href hover
      omega
    rw [hpaste]
    exact taking_create htotal
  · rw [Function.update_of_ne hne]
    obtain ⟨file,hfile,htaking⟩ := hu other paste' hold
    refine ⟨file,?_,htaking⟩
    rwa [List.getElem?_append_left (List.getElem?_eq_some_iff.mp hfile).1]

theorem uploads_kept {e : Event} (h : Held s) (hu : Uploads s)
    (ho : openedBy (s.meets e.frame) (outcome limits dir s e) = none) :
    Uploads (s.handled limits dir e) := by
  rw [handled_kept ho]
  intro id paste hp
  change ∃ file, (s.written _ _ _)[s.handle id]? = some file ∧ _
  rcases pending_of_kept ho hp with ⟨hold,habout⟩ | ⟨bytes,old,hf,hold,hfits,rfl⟩
  · obtain ⟨file,hfile,htaking⟩ := hu id paste hold
    refine ⟨file,?_,htaking⟩
    rw [written_getElem?_ne, hfile]
    intro other paste' hother hp'
    refine handle_ne h hp' hold ?_
    rintro rfl
    exact habout hother
  · obtain ⟨file,hfile,htaking⟩ := hu id old hold
    rw [hf]
    simp only [Disk.written, hold, if_neg hfits, List.getElem?_modify_eq, hfile]
    exact ⟨_,rfl,taking_write htaking hfits e.drained⟩

theorem handled_uploads (h : Held s) (hu : Uploads s) (e : Event) :
    Uploads (s.handled limits dir e) := by
  cases ho : openedBy (s.meets e.frame) (outcome limits dir s e) with
  | none => exact uploads_kept h hu ho
  | some opened => exact uploads_opened hu ho

theorem begin_finished (limits : Limits) (dir : Bytes) (p : Pending) (controller : Bool)
    (env : PasteEnv) (pasteId : UInt32) (totalSize : UInt64) (groupId groupSize : UInt32)
    (name : String) :
    let h := handle limits dir p
      (.pasteBegin controller env pasteId totalSize groupId groupSize name)
    finishedPaths h.pending.groups ⊆ finishedPaths p.groups ∧ h.inject = none := by
  intro h
  cases controller with
  | false => exact ⟨List.Subset.refl _,rfl⟩
  | true =>
    have ho : Opens limits env dir p pasteId totalSize groupId groupSize name h :=
      handle_opens limits dir p env pasteId totalSize groupId groupSize name
    generalize h = out at ho
    cases ho with
    | refused reason href => exact ⟨List.Subset.refl _,rfl⟩
    | oversize g href hg hover =>
      exact ⟨fun path hpath => (finishedPaths_erase p groupId).symm.subset
        (List.mem_append_right _ hpath),rfl⟩
    | openFailed e href hover hopen => exact ⟨(finishedPaths_reserve rfl).subset,rfl⟩
    | opened path href hover hopen => exact ⟨(finishedPaths_reserve rfl).subset,rfl⟩

/-- A path that is finished or handed over after a frame was finished before it, or is that of
the paste which the frame commits. -/
theorem finished_of_handle {f : PasteFrame} {p : Pending} {path : Bytes}
    (hpath : path ∈ finishedPaths (handle limits dir p f).pending.groups ∨
      path ∈ (handle limits dir p f).inject.getD []) :
    path ∈ finishedPaths p.groups ∨ ∃ id paste, commits p f = some (id,paste) ∧ paste.path = path := by
  cases f with
  | pasteBegin controller env pasteId totalSize groupId groupSize name =>
    obtain ⟨hsub,hnone⟩ :=
      begin_finished limits dir p controller env pasteId totalSize groupId groupSize name
    rw [hnone] at hpath
    exact .inl (hpath.elim (fun h => hsub h) fun hnil => absurd hnil List.not_mem_nil)
  | pasteChunk writeOk pasteId bytes =>
    left
    have hc := handle_chunks limits dir p writeOk pasteId bytes
    generalize handle limits dir p _ = out at hpath hc
    cases hc <;> exact hpath.elim id fun hnil => absurd hnil List.not_mem_nil
  | pasteEnd controller pasteId status =>
    have he := handle_ends limits dir p controller pasteId status
    generalize handle limits dir p _ = out at hpath he
    have herase : ∀ {groupId : UInt32} {q : Bytes},
        q ∈ finishedOf p groupId ∨ q ∈ finishedPaths (p.groups.erase groupId) →
        q ∈ finishedPaths p.groups :=
      fun hq => (finishedPaths_erase p _).symm.subset (List.mem_append.mpr hq)
    have hcommits : ∀ {paste : PendingPaste}, p.pastes.lookup pasteId = some paste →
        ¬(status = pasteStatusCancel ∨ paste.written ≠ paste.totalSize) →
        commits p (.pasteEnd controller pasteId status) = some (pasteId,paste) := by
      intro paste hp hok
      simp only [commits, hp]
      exact if_neg hok
    cases he with
    | unknown hnone => exact .inl (hpath.elim id fun hnil => absurd hnil List.not_mem_nil)
    | dropped paste reject hp hbad =>
      exact .inl (hpath.elim (fun h => herase (.inr h)) fun hnil => absurd hnil List.not_mem_nil)
    | staged paste g hp hok hg hmore =>
      rw [finishedPaths, gather_insert, List.mem_append, List.mem_append] at hpath
      rcases hpath with ((hold | hself) | hrest) | hnil
      · exact .inl (mem_gather.mpr ⟨_,g,hg,hold⟩)
      · exact .inr ⟨pasteId,paste,hcommits hp hok,(List.mem_singleton.mp hself).symm⟩
      · exact .inl (herase (.inr hrest))
      · cases hnil
    | completed paste g hp hok hg hfull =>
      rw [Option.getD_some, List.mem_append] at hpath
      rcases hpath with hrest | hold | hself
      · exact .inl (herase (.inr hrest))
      · exact .inl (mem_gather.mpr ⟨_,g,hg,hold⟩)
      · exact .inr ⟨pasteId,paste,hcommits hp hok,(List.mem_singleton.mp hself).symm⟩
    | alone paste hp hok hg =>
      rcases hpath with hrest | hself
      · exact .inl hrest
      · exact .inr ⟨pasteId,paste,hcommits hp hok,(List.mem_singleton.mp hself).symm⟩

def Whole (s : Disk) (n : ℕ) : Prop := ∃ file, s.files[n]? = some file ∧ Complete file

instance (s : Disk) (n : ℕ) : Decidable (Whole s n) :=
  match h : s.files[n]? with
  | none => isFalse (by simp [Whole, h])
  | some file => decidable_of_iff (file.content = file.payloads.flatten ∧
      file.content.length = file.totalSize ∧ file.sound = true) (by simp [Whole, Complete, h])

structure Sealed (s : Disk) : Prop where
  finished : ∀ path ∈ finishedPaths s.pending.groups, Whole s (s.fileAt path)
  handed : ∀ n ∈ s.handed, Whole s n

/-- The flush of a paste that is committed succeeds. -/
def Flushes (s : Disk) (e : Event) : Prop := commits s.pending e.frame ≠ none → e.flushed = true

instance (s : Disk) (e : Event) : Decidable (Flushes s e) :=
  inferInstanceAs (Decidable (_ → _))

theorem commits_meets (s : Disk) (f : PasteFrame) :
    commits s.pending (s.meets f) = commits s.pending f := by
  cases f <;> rfl

theorem whole_handled (h : Held s) (e : Event) {n : ℕ}
    (hn : n ∈ (finishedPaths s.pending.groups).map s.fileAt ∨ n ∈ s.handed) (hwhole : Whole s n) :
    Whole (s.handled limits dir e) n := by
  obtain ⟨file,hfile,hcomplete⟩ := hwhole
  refine ⟨file,?_,hcomplete⟩
  cases ho : openedBy (s.meets e.frame) (outcome limits dir s e) with
  | none =>
    rw [handled_kept ho]
    exact (written_elsewhere h hn _ _ _).trans hfile
  | some opened =>
    rw [handled_opened ho]
    exact (List.getElem?_append_left (List.getElem?_eq_some_iff.mp hfile).1).trans hfile

theorem flushed_of_commits (h : Held s) (hu : Uploads s) {e : Event} {id : UInt32}
    {paste : PendingPaste} (hc : commits s.pending (s.meets e.frame) = some (id,paste)) :
    paste.path ∈ owned s.pending ∧ paste.written = paste.totalSize ∧ ∃ file, Taking paste file ∧
      (s.handled limits dir e).files[s.fileAt paste.path]? =
        some (file.flush e.drained e.flushed) := by
  obtain ⟨⟨controller,status,hf⟩,hp,hsize,hwritten⟩ := commits_eq_some hc
  have ho : openedBy (s.meets e.frame) (outcome limits dir s e) = none := by
    rw [hf]
    rfl
  obtain ⟨file,hfile,htaking⟩ := hu id paste hp
  refine ⟨List.mem_append_left _ (mem_gather.mpr ⟨id,paste,hp,List.mem_singleton_self _⟩),hsize,
    file,htaking,?_⟩
  rw [handled_kept ho, hwritten, ← h.handle id paste hp]
  change (s.files.modify _ _)[s.handle id]? = _
  rw [List.getElem?_modify_eq, hfile]
  rfl

theorem whole_of_commits (h : Held s) (hu : Uploads s) {e : Event} {id : UInt32}
    {paste : PendingPaste} (hc : commits s.pending (s.meets e.frame) = some (id,paste))
    (hflush : e.flushed = true) :
    paste.path ∈ owned s.pending ∧ Whole (s.handled limits dir e) (s.fileAt paste.path) := by
  obtain ⟨hmem,hsize,file,htaking,hfile⟩ := flushed_of_commits h hu hc
  rw [hflush] at hfile
  exact ⟨hmem,_,hfile,complete_flush htaking hsize e.drained⟩

theorem handled_sealed (h : Held s) (hu : Uploads s) (hs : Sealed s) {e : Event}
    (hok : Flushes s e) : Sealed (s.handled limits dir e) := by
  have hnow : ∀ path, path ∈ finishedPaths s.pending.groups ∨
      (∃ id paste, commits s.pending (s.meets e.frame) = some (id,paste) ∧ paste.path = path) →
      path ∈ owned s.pending ∧ Whole (s.handled limits dir e) (s.fileAt path) := by
    rintro path (hold | ⟨id,paste,hc,rfl⟩)
    · exact ⟨List.mem_append_right _ hold,
        whole_handled h e (.inl (List.mem_map_of_mem hold)) (hs.finished path hold)⟩
    · refine whole_of_commits h hu hc (hok ?_)
      rw [← commits_meets, hc]
      exact Option.some_ne_none _
  constructor
  · intro path hpath
    rw [pending_handled] at hpath
    obtain ⟨howned,hwhole⟩ := hnow path (finished_of_handle (.inl hpath))
    rw [fileAt_handled h e howned]
    exact hwhole
  · intro n hn
    have hsplit : n ∈ s.handed ∨
        n ∈ (injections (s.meets e.frame) (outcome limits dir s e)).map s.fileAt := by
      cases ho : openedBy (s.meets e.frame) (outcome limits dir s e) with
      | none =>
        rw [handled_kept ho] at hn
        exact List.mem_append.mp hn
      | some opened =>
        rw [handled_opened ho] at hn
        exact .inl hn
    rcases hsplit with hold | hnew
    · exact whole_handled h e (.inr hold) (hs.handed n hold)
    · obtain ⟨path,hpath,rfl⟩ := List.mem_map.mp hnew
      have hinject : path ∈ (outcome limits dir s e).inject.getD [] := by
        unfold injections at hpath
        split_ifs at hpath
        · exact hpath
        · cases hpath
      exact (hnow path (finished_of_handle (.inr hinject))).2

end Step

theorem run_uploads {limits : Limits} {dir : Bytes} {es : List Event} {s : Disk}
    (hrun : run (step limits dir) Disk.new es = some s) : Held s ∧ Uploads s := by
  refine run_invariant (step limits dir) (I := fun s => Held s ∧ Uploads s) ?_ ?_ hrun
  · rintro u e v ⟨h,hu⟩ hstep
    cases hstep
    exact ⟨handled_held h e,handled_uploads h hu e⟩
  · refine ⟨new_held,?_⟩
    intro id paste hp
    cases hp

/-- Where every flush of a committed paste succeeds, a file whose path has been typed is
complete, from the moment it is typed. -/
theorem typed_complete (limits : Limits) (dir : Bytes) (es : List Event)
    (hok : Along (step limits dir) Flushes Disk.new es) (bs : List Event) (s : Disk)
    (hbs : bs <+: es) (hrun : run (step limits dir) Disk.new bs = some s) :
    ∀ n ∈ s.handed, Whole s n := by
  obtain ⟨cs,rfl⟩ := hbs
  have hall : Held s ∧ Uploads s ∧ Sealed s := by
    refine run_along (step limits dir) (I := fun s => Held s ∧ Uploads s ∧ Sealed s)
      ?_ ?_ (along_append _ hok) hrun
    · rintro u e v ⟨h,hu,hs⟩ hflush hstep
      cases hstep
      exact ⟨handled_held h e,handled_uploads h hu e,handled_sealed h hu hs hflush⟩
    · refine ⟨new_held,?_,?_,?_⟩
      · intro id paste hp
        cases hp
      · intro path hpath
        cases hpath
      · intro n hn
        cases hn
  exact hall.2.2.handed

def anyFile : PasteEnv := ⟨true,0,0,fun _ => .created⟩

/-- A file of one byte, which the handle keeps in its buffer until the flush. -/
def oneByte (flushed : Bool) : List Event :=
  [⟨.pasteBegin true anyFile 1 1 7 1 "a",0,true⟩,⟨.pasteChunk true 1 [0x41],0,true⟩,
    ⟨.pasteEnd true 1 pasteStatusOk,0,flushed⟩]

theorem typed_complete_byte : ∃ s, run (step Limits.default []) Disk.new (oneByte true) = some s ∧
    s.handed = [0] ∧ ∀ n ∈ s.handed, Whole s n := by
  have hfacts : ((run (step Limits.default []) Disk.new (oneByte true)).map fun s => s.handed) =
      some [0] := by
    decide +kernel
  obtain ⟨s,hs,hhanded⟩ := Option.map_eq_some_iff.mp hfacts
  have hok : Along (step Limits.default []) Flushes Disk.new (oneByte true) := by
    decide +kernel
  exact ⟨s,hs,hhanded,typed_complete Limits.default [] _ hok _ s (List.prefix_refl _) hs⟩

/-- The path of an empty file is typed after its flush has failed. -/
theorem lost_byte_typed : ∃ s, run (step Limits.default []) Disk.new (oneByte false) = some s ∧
    0 ∈ s.handed ∧ s.files = [⟨asBytes "a",1,[],[],[[0x41]],false⟩] ∧ ¬Whole s 0 := by
  have hfacts : ((run (step Limits.default []) Disk.new (oneByte false)).map fun s =>
      (s.handed,s.files)) = some ([0],[⟨asBytes "a",1,[],[],[[0x41]],false⟩]) := by
    decide +kernel
  obtain ⟨s,hs,heq⟩ := Option.map_eq_some_iff.mp hfacts
  obtain ⟨hhanded,hfiles⟩ := Prod.mk.inj heq
  refine ⟨s,hs,by rw [hhanded]; exact List.mem_cons_self,hfiles,?_⟩
  rintro ⟨file,hfile,hcontent,-⟩
  rw [hfiles] at hfile
  cases hfile
  cases hcontent

end Term.PasteContent
