import TermMux.PasteGroups

/-!
# All or nothing

The history of the uploads of one stream: a `PasteBegin` that opens a file gets the
next serial number, so that a path is followed from the paste it belongs to
and not by its text. Once a paste of a group fails, nothing of the group that was begun
before is typed, as long as no failure finds another paste of its group under way, or
finished paths in a group that the failure leaves in the registry.
-/

set_option autoImplicit false

namespace Term.PasteHistory
open Term.ByteOrder Term.FrameModel Term.KeyedMap Term.Machine Term.PasteGroups Term.PasteNames
open Term.PasteUpload

/-- `begun` has the group and the path of every file opened. `serial` is the file a pending
paste writes, `staged` are the files a group has finished, `failed` those begun before a
failure of their group. -/
structure History where
  pending : Pending
  begun : List (UInt32 × Bytes)
  serial : UInt32 → ℕ
  staged : UInt32 → List ℕ
  failed : List ℕ

def History.new : History := ⟨Pending.empty,[],fun _ => 0,fun _ => [],[]⟩

def failing (limits : Limits) (dir : Bytes) (p : Pending) : PasteFrame → Option UInt32
  | .pasteBegin controller env pasteId totalSize groupId _ name =>
    if controller = false ∨ Refused limits p pasteId totalSize groupId ∨
        Oversize p totalSize groupId ∨ (openPasteFile env dir name).isOk = false then some groupId
    else none
  | .pasteChunk writeOk pasteId bytes =>
    match p.pastes.lookup pasteId with
    | none => none
    | some paste =>
      if paste.totalSize < saturatingAdd paste.written bytes.length ∨ writeOk = false then
        some paste.groupId
      else none
  | .pasteEnd _ pasteId status =>
    match p.pastes.lookup pasteId with
    | none => none
    | some paste =>
      if status = pasteStatusCancel ∨ paste.written ≠ paste.totalSize then some paste.groupId
      else none

namespace History

def serialsOf (s : History) (groupId : UInt32) : List ℕ :=
  (List.range s.begun.length).filter fun n => (s.begun[n]?).any fun b => b.1 = groupId

def typed (s : History) : PasteFrame → List ℕ
  | .pasteEnd true pasteId status =>
    match s.pending.pastes.lookup pasteId, (handlePasteEnd s.pending pasteId status).inject with
    | some paste, some _ =>
      (waiting s.pending paste.groupId).elim [] (fun _ => s.staged paste.groupId)++[s.serial pasteId]
    | _, _ => []
  | _ => []

def record (s : History) (h : Handled) : PasteFrame → History
  | .pasteBegin _ _ pasteId _ groupId _ _ =>
    let staged := if waiting s.pending groupId = none then Function.update s.staged groupId []
      else s.staged
    match h.reject, h.pending.pastes.lookup pasteId with
    | none, some paste =>
      { s with
        begun := s.begun++[(groupId,paste.path)]
        serial := Function.update s.serial pasteId s.begun.length
        staged := staged }
    | _, _ => { s with staged := staged }
  | .pasteChunk _ _ _ => s
  | .pasteEnd _ pasteId status =>
    match s.pending.pastes.lookup pasteId with
    | none => s
    | some paste =>
      if status = pasteStatusCancel ∨ paste.written ≠ paste.totalSize then s
      else { s with
        staged := Function.update s.staged paste.groupId
          (s.staged paste.groupId++[s.serial pasteId]) }

end History

def handled (limits : Limits) (dir : Bytes) (s : History) (f : PasteFrame) : History :=
  let h := handle limits dir s.pending f
  let lost := (failing limits dir s.pending f).elim [] s.serialsOf
  { s.record h f with pending := h.pending, failed := s.failed++lost }

def step (limits : Limits) (dir : Bytes) (s : History) (f : PasteFrame) : Option History :=
  some (handled limits dir s f)

def Untyped (s : History) (f : PasteFrame) : Prop := ∀ n ∈ s.typed f, n ∉ s.failed

def continues (pasteId : UInt32) : PasteFrame → Bool
  | .pasteBegin _ _ _ _ _ _ _ => false
  | .pasteChunk _ id _ => id = pasteId
  | .pasteEnd _ id _ => id = pasteId

def dropsGroup (limits : Limits) (p : Pending) : PasteFrame → Prop
  | .pasteBegin controller _ pasteId totalSize groupId _ _ =>
    controller = true ∧ ¬Refused limits p pasteId totalSize groupId ∧ Oversize p totalSize groupId
  | .pasteChunk _ _ _ => False
  | .pasteEnd _ _ _ => True

instance (limits : Limits) (p : Pending) (f : PasteFrame) : Decidable (dropsGroup limits p f) := by
  cases f <;> unfold dropsGroup <;> infer_instance

/-- A failure finds no other paste of its group pending, and no finished path of a group
that it leaves in the registry. -/
def Settled (limits : Limits) (dir : Bytes) (s : History) (f : PasteFrame) : Prop :=
  ∀ g ∈ failing limits dir s.pending f,
    (∀ e ∈ s.pending.pastes.entries, e.2.groupId = g → continues e.1 f = true) ∧
    (¬dropsGroup limits s.pending f → finishedOf s.pending g = [])

instance (limits : Limits) (dir : Bytes) (s : History) (f : PasteFrame) :
    Decidable (Settled limits dir s f) :=
  match h : failing limits dir s.pending f with
  | none => isTrue (by simp [Settled, h])
  | some g =>
    decidable_of_iff ((∀ e ∈ s.pending.pastes.entries, e.2.groupId = g → continues e.1 f = true) ∧
      (¬dropsGroup limits s.pending f → finishedOf s.pending g = [])) (by simp [Settled, h])

def Live (s : History) (groupId : UInt32) (n : ℕ) (path : Bytes) : Prop :=
  s.begun[n]? = some (groupId,path) ∧ n ∉ s.failed

structure Traced (s : History) : Prop where
  known : ∀ n ∈ s.failed, n < s.begun.length
  pending : ∀ id paste, s.pending.pastes.lookup id = some paste →
    Live s paste.groupId (s.serial id) paste.path
  staged : ∀ g w, waiting s.pending g = some w → List.Forall₂ (Live s g) (s.staged g) w.2

theorem new_traced : Traced History.new := by
  refine ⟨nofun,?_,?_⟩
  · intro id paste h
    cases h
  · intro g w h
    cases h

section Step
variable {limits : Limits} {dir : Bytes} {s : History}

theorem mem_serialsOf {g : UInt32} {n : ℕ} (h : n ∈ s.serialsOf g) :
    n < s.begun.length ∧ ∃ path, s.begun[n]? = some (g,path) := by
  simp only [History.serialsOf, List.mem_filter, List.mem_range, Option.any_eq_true,
    decide_eq_true_eq] at h
  obtain ⟨hlt,⟨g',path⟩,hn,rfl⟩ := h
  exact ⟨hlt,path,hn⟩

theorem lost_lt {o : Option UInt32} {n : ℕ} (h : n ∈ o.elim [] s.serialsOf) :
    n < s.begun.length := by
  cases o with
  | none => cases h
  | some g => exact (mem_serialsOf h).1

theorem Live.keep {s' : History} {o : Option UInt32} {more : List (UInt32 × Bytes)} {g : UInt32}
    {n : ℕ} {path : Bytes} (h : Live s g n path) (hother : ∀ g' ∈ o, g ≠ g')
    (hbegun : s'.begun = s.begun++more) (hfailed : s'.failed = s.failed++o.elim [] s.serialsOf) :
    Live s' g n path := by
  constructor
  · rw [hbegun, List.getElem?_append_left (List.getElem?_eq_some_iff.mp h.1).1]
    exact h.1
  · rw [hfailed, List.mem_append, not_or]
    refine ⟨h.2,?_⟩
    cases o with
    | none => exact List.not_mem_nil
    | some g' =>
      intro hlost
      obtain ⟨-,path',hn⟩ := mem_serialsOf hlost
      cases hn.symm.trans h.1
      exact hother g rfl rfl

theorem known_append {s' : History} {o : Option UInt32} {more : List (UInt32 × Bytes)}
    (h : Traced s) (hbegun : s'.begun = s.begun++more)
    (hfailed : s'.failed = s.failed++o.elim [] s.serialsOf) :
    ∀ n ∈ s'.failed, n < s'.begun.length := by
  intro n hn
  rw [hfailed, List.mem_append] at hn
  have hlt : n < s.begun.length := hn.elim (h.known n) lost_lt
  rw [hbegun, List.length_append]
  omega

/-- The finished paths of a group are empty only if no file is staged in it. -/
theorem staged_nil {g : UInt32} {w : UInt32 × List Bytes} (h : Traced s)
    (hw : waiting s.pending g = some w) (hnone : finishedOf s.pending g = []) :
    s.staged g = [] ∧ w.2 = [] := by
  have hw2 : w.2 = [] := by simpa [finishedOf, hw] using hnone
  have hall := h.staged g w hw
  rw [hw2] at hall
  exact ⟨List.forall₂_nil_right_iff.mp hall,hw2⟩

/-- No failure spares the group of a paste that is still pending after it. -/
theorem other_of_settled {f : PasteFrame} (hok : Settled limits dir s f) {id : UInt32}
    {paste : PendingPaste} (hp : s.pending.pastes.lookup id = some paste)
    (hf : continues id f = false) : ∀ g ∈ failing limits dir s.pending f, paste.groupId ≠ g := by
  intro g hg heq
  have hcont := (hok g hg).1 ⟨id,paste⟩ (AList.mem_lookup_iff.mp hp) heq
  rw [hf] at hcont
  cases hcont

/-- Groups other than the failing one, and groups that had nothing finished, stay staged. -/
theorem staged_keep {s' : History} {o : Option UInt32} {more : List (UInt32 × Bytes)} {g : UInt32}
    {l : List ℕ} {paths : List Bytes} (h : List.Forall₂ (Live s g) l paths)
    (hother : (∀ g' ∈ o, g ≠ g') ∨ l = []) (hbegun : s'.begun = s.begun++more)
    (hfailed : s'.failed = s.failed++o.elim [] s.serialsOf) :
    List.Forall₂ (Live s' g) l paths := by
  rcases hother with hne | rfl
  · exact h.imp fun n path hlive => hlive.keep hne hbegun hfailed
  · cases h
    exact .nil

section Begin
variable {controller : Bool} {env : PasteEnv} {pasteId : UInt32} {totalSize : UInt64}
  {groupId groupSize : UInt32} {name : String}

def stagedFor (s : History) (groupId : UInt32) : UInt32 → List ℕ :=
  if waiting s.pending groupId = none then Function.update s.staged groupId [] else s.staged

theorem stagedFor_ne {g : UInt32} (h : g ≠ groupId) : stagedFor s groupId g = s.staged g := by
  unfold stagedFor
  split
  · exact Function.update_of_ne h _ _
  · rfl

theorem stagedFor_none (h : waiting s.pending groupId = none) : stagedFor s groupId groupId = [] := by
  rw [stagedFor, if_pos h, Function.update_self]

theorem stagedFor_some {w : UInt32 × List Bytes} (h : waiting s.pending groupId = some w) :
    stagedFor s groupId = s.staged := by
  rw [stagedFor, if_neg (by rw [h]; exact Option.some_ne_none w)]

theorem refuse_traced {s' : History} (h : Traced s)
    (hok : Settled limits dir s (.pasteBegin controller env pasteId totalSize groupId groupSize name))
    (hfail : failing limits dir s.pending
      (.pasteBegin controller env pasteId totalSize groupId groupSize name) = some groupId)
    (hsame : s'.pending.pastes = s.pending.pastes) (hbegun : s'.begun = s.begun)
    (hserial : s'.serial = s.serial) (hstaged : s'.staged = stagedFor s groupId)
    (hfailed : s'.failed = s.failed++(some groupId).elim [] s.serialsOf)
    (hwait : ∀ g, g ≠ groupId → waiting s'.pending g = waiting s.pending g)
    (hself : ∀ w, waiting s'.pending groupId = some w →
      w.2 = [] ∧ stagedFor s groupId groupId = []) : Traced s' := by
  have hb : s'.begun = s.begun++[] := by rw [hbegun, List.append_nil]
  refine ⟨known_append h hb hfailed,?_,?_⟩
  · intro id paste hp
    rw [hsame] at hp
    rw [hserial]
    refine (h.pending id paste hp).keep ?_ hb hfailed
    rintro g ⟨⟩
    exact other_of_settled hok hp rfl groupId hfail
  · intro g w hw
    rw [hstaged]
    by_cases hg : g = groupId
    · subst hg
      obtain ⟨hw2,hnil⟩ := hself w hw
      rw [hw2, hnil]
      exact .nil
    · rw [hwait g hg] at hw
      rw [stagedFor_ne hg]
      refine staged_keep (h.staged g w hw) (.inl ?_) hb hfailed
      rintro g' ⟨⟩
      exact hg

theorem open_traced {s' : History} {path : Bytes} (h : Traced s)
    (hpastes : s'.pending.pastes =
      s.pending.pastes.insert pasteId ⟨path,totalSize.toNat,0,groupId⟩)
    (hreg : Registers s.pending s'.pending groupId groupSize)
    (hbegun : s'.begun = s.begun++[(groupId,path)])
    (hserial : s'.serial = Function.update s.serial pasteId s.begun.length)
    (hstaged : s'.staged = stagedFor s groupId)
    (hfailed : s'.failed = s.failed++(none : Option UInt32).elim [] s.serialsOf) : Traced s' := by
  refine ⟨known_append h hbegun hfailed,?_,?_⟩
  · intro id paste hp
    rw [hpastes] at hp
    rcases lookup_of_insert hp with ⟨rfl,rfl⟩ | ⟨hid,hold⟩
    · rw [hserial, Function.update_self]
      constructor
      · rw [hbegun, List.getElem?_concat_length]
      · rw [hfailed]
        simp only [Option.elim_none, List.append_nil]
        exact fun hn => lt_irrefl _ (h.known _ hn)
    · rw [hserial, Function.update_of_ne hid]
      exact (h.pending id paste hold).keep (by simp) hbegun hfailed
  · intro g w hw
    rw [hstaged]
    by_cases hg : g = groupId
    · subst hg
      rw [hreg.1, Option.some.injEq] at hw
      cases hold : waiting s.pending g with
      | none =>
        rw [hold] at hw
        subst hw
        rw [stagedFor_none hold]
        exact .nil
      | some w' =>
        rw [hold] at hw
        subst hw
        rw [stagedFor_some hold]
        exact staged_keep (h.staged g w' hold) (.inl (by simp)) hbegun hfailed
    · rw [hreg.2 g hg] at hw
      rw [stagedFor_ne hg]
      exact staged_keep (h.staged g w hw) (.inl (by simp)) hbegun hfailed

/-- Nothing is staged in the group of a begin that fails and leaves the group. -/
theorem kept_empty (h : Traced s)
    (hok : Settled limits dir s (.pasteBegin controller env pasteId totalSize groupId groupSize name))
    (hfail : failing limits dir s.pending
      (.pasteBegin controller env pasteId totalSize groupId groupSize name) = some groupId)
    (hkeep : ¬dropsGroup limits s.pending
      (.pasteBegin controller env pasteId totalSize groupId groupSize name)) {w : UInt32 × List Bytes}
    (hw : waiting s.pending groupId = some w) : w.2 = [] ∧ stagedFor s groupId groupId = [] := by
  obtain ⟨hnil,hw2⟩ := staged_nil h hw ((hok groupId hfail).2 hkeep)
  rw [stagedFor_some hw]
  exact ⟨hw2,hnil⟩

theorem begin_traced (h : Traced s)
    (hok : Settled limits dir s
      (.pasteBegin controller env pasteId totalSize groupId groupSize name)) :
    Traced (handled limits dir s
      (.pasteBegin controller env pasteId totalSize groupId groupSize name)) := by
  cases controller with
  | false =>
    have hfail : failing limits dir s.pending
        (.pasteBegin false env pasteId totalSize groupId groupSize name) = some groupId := by
      simp [failing]
    refine refuse_traced h hok hfail rfl rfl rfl rfl (by simp [handled, hfail])
      (fun _ _ => rfl) ?_
    intro w hw
    exact kept_empty h hok hfail (by simp [dropsGroup]) hw
  | true =>
    have hb := handle_begins limits dir s.pending env pasteId totalSize groupId groupSize name
    unfold handled
    generalize handle limits dir s.pending _ = out at hb ⊢
    cases hb with
    | refused reason href =>
      have hfail : failing limits dir s.pending
          (.pasteBegin true env pasteId totalSize groupId groupSize name) = some groupId := by
        simp [failing, href]
      rw [hfail]
      refine refuse_traced h hok hfail rfl rfl rfl rfl rfl (fun _ _ => rfl) ?_
      intro w hw
      exact kept_empty h hok hfail (by simp [dropsGroup, href]) hw
    | oversize href hover =>
      have hfail : failing limits dir s.pending
          (.pasteBegin true env pasteId totalSize groupId groupSize name) = some groupId := by
        simp [failing, hover]
      rw [hfail]
      refine refuse_traced h hok hfail rfl rfl rfl rfl rfl (fun g hg => waiting_erase_ne hg) ?_
      intro w hw
      cases (waiting_erase_self s.pending groupId).symm.trans hw
    | openFailed p' e href hover hopen hpastes hreg =>
      have hfail : failing limits dir s.pending
          (.pasteBegin true env pasteId totalSize groupId groupSize name) = some groupId := by
        simp [failing, hopen, Except.isOk, Except.toBool]
      rw [hfail]
      refine refuse_traced h hok hfail hpastes rfl rfl rfl rfl (fun g hg => hreg.2 g hg) ?_
      intro w hw
      have hw' := hreg.1.symm.trans hw
      cases hold : waiting s.pending groupId with
      | none =>
        rw [hold] at hw'
        cases hw'
        exact ⟨rfl,stagedFor_none hold⟩
      | some w' =>
        rw [hold] at hw'
        cases hw'
        exact kept_empty h hok hfail (by simp [dropsGroup, hover]) hold
    | opened p' path href hover hopen hpastes hreg =>
      have hfail : failing limits dir s.pending
          (.pasteBegin true env pasteId totalSize groupId groupSize name) = none := by
        simp [failing, hopen, href, hover, Except.isOk, Except.toBool]
      rw [hfail]
      have hl : p'.pastes.lookup pasteId = some ⟨path,totalSize.toNat,0,groupId⟩ := by
        rw [hpastes, AList.lookup_insert]
      refine open_traced h hpastes hreg ?_ ?_ ?_ ?_ <;> simp [History.record, hl, stagedFor]

end Begin

theorem quiet_traced {s' : History} (h : Traced s) (hbegun : s'.begun = s.begun)
    (hserial : s'.serial = s.serial) (hfailed : s'.failed = s.failed)
    (hpastes : ∀ id other, s'.pending.pastes.lookup id = some other →
      ∃ paste, s.pending.pastes.lookup id = some paste ∧ other.groupId = paste.groupId ∧
        other.path = paste.path)
    (hstaged : ∀ g w, waiting s'.pending g = some w →
      List.Forall₂ (Live s g) (s'.staged g) w.2) : Traced s' := by
  have hlive : ∀ {g n path}, Live s g n path → Live s' g n path := by
    rintro g n path ⟨hn,hok⟩
    exact ⟨hbegun ▸ hn,hfailed ▸ hok⟩
  refine ⟨?_,?_,?_⟩
  · rw [hbegun, hfailed]
    exact h.known
  · intro id other hid
    obtain ⟨paste,hp,hg,hpath⟩ := hpastes id other hid
    rw [hserial, hg, hpath]
    exact hlive (h.pending id paste hp)
  · intro g w hw
    exact (hstaged g w hw).imp fun _ _ => hlive

theorem fail_traced {f : PasteFrame} {s' : History} {pasteId : UInt32} {paste : PendingPaste}
    (h : Traced s) (hok : Settled limits dir s f)
    (hfail : failing limits dir s.pending f = some paste.groupId)
    (hf : ∀ id, id ≠ pasteId → continues id f = false) (hbegun : s'.begun = s.begun)
    (hserial : s'.serial = s.serial) (hstaged : s'.staged = s.staged)
    (hfailed : s'.failed = s.failed++(some paste.groupId).elim [] s.serialsOf)
    (hpastes : s'.pending.pastes = s.pending.pastes.erase pasteId)
    (hwait : ∀ g w, waiting s'.pending g = some w → waiting s.pending g = some w ∧
      (g ≠ paste.groupId ∨ s.staged g = [])) : Traced s' := by
  have hb : s'.begun = s.begun++[] := by rw [hbegun, List.append_nil]
  refine ⟨known_append h hb hfailed,?_,?_⟩
  · intro id other hid
    rw [hpastes] at hid
    obtain ⟨hne,hold⟩ := lookup_of_erase hid
    rw [hserial]
    refine (h.pending id other hold).keep ?_ hb hfailed
    rw [← hfail]
    exact other_of_settled hok hold (hf id hne)
  · intro g w hw
    obtain ⟨hold,hg⟩ := hwait g w hw
    rw [hstaged]
    refine staged_keep (h.staged g w hold) (hg.imp_left fun hne => ?_) hb hfailed
    rintro g' ⟨⟩
    exact hne

theorem finish_traced {s' : History} {pasteId : UInt32} {paste : PendingPaste} (h : Traced s)
    (hp : s.pending.pastes.lookup pasteId = some paste) (hbegun : s'.begun = s.begun)
    (hserial : s'.serial = s.serial) (hfailed : s'.failed = s.failed)
    (hstaged : s'.staged = Function.update s.staged paste.groupId
      (s.staged paste.groupId++[s.serial pasteId]))
    (hpastes : s'.pending.pastes = s.pending.pastes.erase pasteId)
    (hwait : ∀ g, g ≠ paste.groupId → waiting s'.pending g = waiting s.pending g)
    (hself : ∀ w, waiting s'.pending paste.groupId = some w →
      ∃ old, waiting s.pending paste.groupId = some old ∧ w.2 = old.2++[paste.path]) :
    Traced s' := by
  refine quiet_traced h hbegun hserial hfailed ?_ ?_
  · intro id other hid
    rw [hpastes] at hid
    exact ⟨other,(lookup_of_erase hid).2,rfl,rfl⟩
  · intro g w hw
    rw [hstaged]
    by_cases hg : g = paste.groupId
    · subst hg
      obtain ⟨old,hold,heq⟩ := hself w hw
      rw [Function.update_self, heq]
      exact List.rel_append (h.staged _ old hold) (.cons (h.pending pasteId paste hp) .nil)
    · rw [Function.update_of_ne hg]
      exact h.staged g w ((hwait g hg).symm.trans hw)

theorem chunk_traced {writeOk : Bool} {pasteId : UInt32} {bytes : Bytes} (h : Traced s)
    (hok : Settled limits dir s (.pasteChunk writeOk pasteId bytes)) :
    Traced (handled limits dir s (.pasteChunk writeOk pasteId bytes)) := by
  have hc := handle_chunks limits dir s.pending writeOk pasteId bytes
  unfold handled
  generalize handle limits dir s.pending _ = out at hc ⊢
  cases hc with
  | unknown hp =>
    have hfail : failing limits dir s.pending (.pasteChunk writeOk pasteId bytes) = none := by
      simp [failing, hp]
    rw [hfail]
    exact quiet_traced h rfl rfl (List.append_nil _) (fun id paste hid => ⟨paste,hid,rfl,rfl⟩)
      fun g w hw => h.staged g w hw
  | failed paste reason hp hbad =>
    have hfail : failing limits dir s.pending (.pasteChunk writeOk pasteId bytes) =
        some paste.groupId := by
      simp only [failing, hp]
      exact if_pos hbad
    rw [hfail]
    refine fail_traced h hok hfail ?_ rfl rfl rfl rfl rfl ?_
    · intro id hne
      simp [continues, Ne.symm hne]
    · intro g w hw
      refine ⟨hw,?_⟩
      by_cases hg : g = paste.groupId
      · subst hg
        exact .inr (staged_nil h hw ((hok _ hfail).2 (by simp [dropsGroup]))).1
      · exact .inl hg
  | written paste hp hfits hwrite =>
    have hfail : failing limits dir s.pending (.pasteChunk writeOk pasteId bytes) = none := by
      simp only [failing, hp]
      exact if_neg (by simp [hfits, hwrite])
    rw [hfail]
    refine quiet_traced h rfl rfl (List.append_nil _) ?_ fun g w hw => h.staged g w hw
    intro id other hid
    rcases lookup_of_insert hid with ⟨rfl,rfl⟩ | ⟨-,hold⟩
    · exact ⟨paste,hp,rfl,rfl⟩
    · exact ⟨other,hold,rfl,rfl⟩

theorem end_traced {controller : Bool} {pasteId : UInt32} {status : UInt8} (h : Traced s)
    (hok : Settled limits dir s (.pasteEnd controller pasteId status)) :
    Traced (handled limits dir s (.pasteEnd controller pasteId status)) := by
  have he := handle_ends limits dir s.pending controller pasteId status
  have hwhole : ∀ {paste : PendingPaste}, s.pending.pastes.lookup pasteId = some paste →
      ¬(status = pasteStatusCancel ∨ paste.written ≠ paste.totalSize) →
      failing limits dir s.pending (.pasteEnd controller pasteId status) = none := by
    intro paste hp hgood
    simp only [failing, hp]
    exact if_neg hgood
  unfold handled
  generalize handle limits dir s.pending _ = out at he ⊢
  cases he with
  | unknown hp =>
    have hfail : failing limits dir s.pending (.pasteEnd controller pasteId status) = none := by
      simp [failing, hp]
    rw [hfail]
    simp only [History.record, hp]
    exact quiet_traced h rfl rfl (List.append_nil _) (fun id paste hid => ⟨paste,hid,rfl,rfl⟩)
      fun g w hw => h.staged g w hw
  | dropped paste reject hp hbad =>
    have hfail : failing limits dir s.pending (.pasteEnd controller pasteId status) =
        some paste.groupId := by
      simp only [failing, hp]
      exact if_pos hbad
    rw [hfail]
    simp only [History.record, hp, if_pos hbad]
    refine fail_traced h hok hfail ?_ rfl rfl rfl rfl rfl ?_
    · intro id hne
      simp [continues, Ne.symm hne]
    · intro g w hw
      have hg : g ≠ paste.groupId := by
        rintro rfl
        cases (waiting_erase_self s.pending paste.groupId).symm.trans hw
      exact ⟨(waiting_erase_ne hg).symm.trans hw,.inl hg⟩
  | staged paste grp hp hgood hgrp hmore =>
    have hold : waiting s.pending paste.groupId = some (grp.groupSize,grp.finished) := by
      simp [waiting, hgrp]
    rw [hwhole hp hgood]
    simp only [History.record, hp, if_neg hgood]
    refine finish_traced h hp rfl rfl (List.append_nil _) rfl rfl
      (fun g hg => waiting_insert_ne hg) ?_
    intro w hw
    cases (waiting_insert_self s.pending _).symm.trans hw
    exact ⟨_,hold,rfl⟩
  | completed paste grp hp hgood hgrp hfull =>
    rw [hwhole hp hgood]
    simp only [History.record, hp, if_neg hgood]
    refine finish_traced h hp rfl rfl (List.append_nil _) rfl rfl
      (fun g hg => waiting_erase_ne hg) ?_
    intro w hw
    cases (waiting_erase_self s.pending paste.groupId).symm.trans hw
  | alone paste hp hgood hgrp =>
    rw [hwhole hp hgood]
    simp only [History.record, hp, if_neg hgood]
    refine finish_traced h hp rfl rfl (List.append_nil _) rfl rfl (fun _ _ => rfl) ?_
    intro w hw
    simp [waiting, hgrp] at hw

theorem handled_traced {f : PasteFrame} (h : Traced s) (hok : Settled limits dir s f) :
    Traced (handled limits dir s f) := by
  cases f with
  | pasteBegin controller env pasteId totalSize groupId groupSize name => exact begin_traced h hok
  | pasteChunk writeOk pasteId bytes => exact chunk_traced h hok
  | pasteEnd controller pasteId status => exact end_traced h hok

theorem forall₂_left {R : ℕ → Bytes → Prop} {l : List ℕ} {paths : List Bytes}
    (h : List.Forall₂ R l paths) {n : ℕ} (hn : n ∈ l) : ∃ path, R n path := by
  induction h with
  | nil => cases hn
  | cons hr _ ih =>
    rcases List.mem_cons.mp hn with rfl | hrest
    · exact ⟨_,hr⟩
    · exact ih hrest

/-- The paths that a `PasteEnd` injects are those of the files it types, all of them live. -/
theorem typed_paths (h : Traced s) (pasteId : UInt32) (status : UInt8) :
    List.Forall₂ (fun n path => ∃ g, Live s g n path) (s.typed (.pasteEnd true pasteId status))
      ((handlePasteEnd s.pending pasteId status).inject.getD []) := by
  have he := handlePasteEnd_ends s.pending pasteId status
  simp only [History.typed]
  generalize handlePasteEnd s.pending pasteId status = out at he
  cases he with
  | unknown hp =>
    simp only [hp]
    exact .nil
  | dropped paste reject hp hbad =>
    simp only [hp]
    exact .nil
  | staged paste g hp hok hg hmore =>
    simp only [hp]
    exact .nil
  | completed paste g hp hok hg hfull =>
    have hw : waiting s.pending paste.groupId = some (g.groupSize,g.finished) := by
      simp [waiting, hg]
    simp only [hp, hw, Option.elim_some, Option.getD_some]
    refine List.rel_append ?_ (.cons ⟨_,h.pending pasteId paste hp⟩ .nil)
    exact (h.staged _ _ hw).imp fun _ _ hlive => ⟨_,hlive⟩
  | alone paste hp hok hg =>
    have hw : waiting s.pending paste.groupId = none := by
      simp [waiting, hg]
    simp only [hp, hw, Option.elim_none, Option.getD_some]
    exact .cons ⟨_,h.pending pasteId paste hp⟩ .nil

theorem traced_untyped {f : PasteFrame} (h : Traced s) : Untyped s f := by
  intro n hn
  match f with
  | .pasteEnd true pasteId status =>
    obtain ⟨path,g,hlive⟩ := forall₂_left (typed_paths h pasteId status) hn
    exact hlive.2
  | .pasteEnd false _ _ | .pasteBegin _ _ _ _ _ _ _ | .pasteChunk _ _ _ => cases hn

end Step

/-- In every sequence of paste frames in which no failure finds its group under way, nothing
of a group that was begun before a failure is typed. -/
theorem group_all_or_nothing (limits : Limits) (dir : Bytes) (fs : List PasteFrame)
    (hok : Along (step limits dir) (Settled limits dir) History.new fs) :
    Along (step limits dir) Untyped History.new fs := by
  have hstep : ∀ s f t, Traced s → Settled limits dir s f → step limits dir s f = some t →
      Traced t := by
    intro s f t h hok hstep
    cases hstep
    exact handled_traced h hok
  have hgood : ∀ s f, Traced s → Settled limits dir s f → Untyped s f :=
    fun _ _ h _ => traced_untyped h
  exact along_imp (step limits dir) hstep hgood new_traced hok

def anyFile : PasteEnv := ⟨true,0,0,fun _ => .created⟩

/-- Two files of one group under way; the first is cancelled, the second ends well. -/
def halfGroup : List PasteFrame :=
  [.pasteBegin true anyFile 1 0 7 2 "a",.pasteBegin true anyFile 2 0 7 2 "b",
    .pasteEnd true 1 pasteStatusCancel]

/-- The second file is typed on its own, after the cancel of its group. -/
theorem cancelled_group_typed : ∃ s, run (step Limits.default []) History.new halfGroup = some s ∧
    ¬Untyped s (.pasteEnd true 2 pasteStatusOk) := by
  have hfacts : ((run (step Limits.default []) History.new halfGroup).map fun s =>
      (s.typed (.pasteEnd true 2 pasteStatusOk),s.failed)) = some ([1],[0,1]) := by
    decide +kernel
  obtain ⟨s,hs,heq⟩ := Option.map_eq_some_iff.mp hfacts
  obtain ⟨htyped,hfailed⟩ := Prod.mk.inj heq
  refine ⟨s,hs,fun h => ?_⟩
  have hn := h 1 (by rw [htyped]; exact List.mem_cons_self)
  rw [hfailed] at hn
  exact hn (by decide)

def inTurn : List PasteFrame :=
  [.pasteBegin true anyFile 1 0 7 1 "a",.pasteEnd true 1 pasteStatusCancel,
    .pasteBegin true anyFile 2 0 7 1 "b"]

theorem group_in_turn : ∃ s, run (step Limits.default []) History.new inTurn = some s ∧
    s.typed (.pasteEnd true 2 pasteStatusOk) = [1] ∧ Untyped s (.pasteEnd true 2 pasteStatusOk) := by
  have hfacts : ((run (step Limits.default []) History.new inTurn).map fun s =>
      s.typed (.pasteEnd true 2 pasteStatusOk)) = some [1] := by
    decide +kernel
  obtain ⟨s,hs,htyped⟩ := Option.map_eq_some_iff.mp hfacts
  refine ⟨s,hs,htyped,?_⟩
  have hok : Along (step Limits.default []) (Settled Limits.default []) History.new
      (inTurn++[.pasteEnd true 2 pasteStatusOk]) := by
    decide +kernel
  exact (along_iff (step Limits.default [])).mp (group_all_or_nothing Limits.default [] _ hok)
    inTurn (.pasteEnd true 2 pasteStatusOk) [] s rfl hs

end Term.PasteHistory
