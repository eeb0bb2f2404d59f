import TermMux.Machine
import TermMux.PasteClient

/-!
# Browser and agent on the fate of a paste action

The agent handles the files of an action one after the other, so the entry of the group is a
count over what became of the files so far: a file that is lost keeps the entry, a
cancel removes it, and the next file makes a new one that waits for all of them. The
two sides agree in the end if and only if all files are finished or the last
registered one took the group with it.
-/

set_option autoImplicit false

namespace Term.PasteAgreement
open Term.ByteOrder Term.FrameModel Term.KeyedMap Term.Machine Term.PasteClient Term.PasteGroups
open Term.PasteNames Term.PasteUpload

def count (n : ℕ) (c : Option ℕ) : Verdict → Option ℕ
  | .refused => c
  | .stuck => some (c.getD 0)
  | .dropped => none
  | .staged => if n ≤ c.getD 0+1 then none else some (c.getD 0+1)

def tally (n : ℕ) (verdicts : List Verdict) : Option ℕ := verdicts.foldl (count n) none

theorem tally_concat (n : ℕ) (vs : List Verdict) (v : Verdict) :
    tally n (vs++[v]) = count n (tally n vs) v := by
  simp [tally, List.foldl_append]

theorem tally_lt {n : ℕ} (hn : 0 < n) (vs : List Verdict) : (tally n vs).getD 0 < n := by
  induction vs using List.reverseRecOn with
  | nil => exact hn
  | append_singleton vs v ih =>
    rw [tally_concat]
    cases v with
    | refused => exact ih
    | stuck => exact ih
    | dropped => exact hn
    | staged =>
      simp only [count]
      split
      · exact hn
      · next h => exact not_le.mp h

theorem tally_le (n : ℕ) (vs : List Verdict) :
    (tally n vs).getD 0 ≤ vs.length ∧
      ((tally n vs).getD 0 = vs.length → vs = List.replicate vs.length .staged) := by
  induction vs using List.reverseRecOn with
  | nil => exact ⟨Nat.le_refl 0,fun _ => rfl⟩
  | append_singleton vs v ih =>
    rw [tally_concat, List.length_append, List.length_singleton]
    cases v with
    | refused => exact ⟨Nat.le_succ_of_le ih.1,fun h => by simp only [count] at h; omega⟩
    | stuck =>
      refine ⟨Nat.le_succ_of_le ih.1,fun h => ?_⟩
      simp only [count, Option.getD_some] at h
      omega
    | dropped => exact ⟨Nat.zero_le _,fun h => by simp [count] at h⟩
    | staged =>
      simp only [count]
      split
      · exact ⟨Nat.zero_le _,fun h => by simp at h⟩
      · simp only [Option.getD_some]
        refine ⟨Nat.succ_le_succ ih.1,fun h => ?_⟩
        rw [List.replicate_succ', ← ih.2 (Nat.succ.inj h)]

theorem tally_replicate {n k : ℕ} (h : k < n) :
    (tally n (List.replicate k .staged)).getD 0 = k := by
  induction k with
  | zero => rfl
  | succ k ih =>
    rw [List.replicate_succ', tally_concat, count, ih (by omega), if_neg (by omega)]
    rfl

/-- After at most `n` files the group has no entry if and only if the action is settled. -/
theorem tally_eq_none_iff {n : ℕ} {vs : List Verdict} (hlen : vs.length ≤ n) :
    tally n vs = none ↔ Settles n vs := by
  induction vs using List.reverseRecOn with
  | nil =>
    refine ⟨fun _ => .inr ?_,fun _ => rfl⟩
    simp
  | append_singleton vs v ih =>
    rw [List.length_append, List.length_singleton] at hlen
    have hlast : ∀ w, v ≠ w → vs++[v] ≠ List.replicate n w := by
      intro w hvw heq
      have hmem : v ∈ List.replicate n w := by
        rw [← heq]
        exact List.mem_append_right _ List.mem_cons_self
      exact hvw (List.eq_of_mem_replicate hmem)
    rw [tally_concat]
    cases v with
    | refused =>
      have hshort : vs ≠ List.replicate n .staged := by
        intro heq
        rw [heq, List.length_replicate] at hlen
        omega
      change tally n vs = none ↔ _
      rw [ih (by omega)]
      simp [Settles, hlast, hshort, List.filter_append]
    | stuck => simp [count, Settles, hlast, List.filter_append]
    | dropped => simp [count, Settles, List.filter_append]
    | staged =>
      have hcount : count n (tally n vs) .staged = none ↔ n ≤ (tally n vs).getD 0+1 := by
        simp only [count]
        split <;> simp [*]
      have hset : Settles n (vs++[.staged]) ↔ vs++[.staged] = List.replicate n .staged := by
        simp [Settles, List.filter_append]
      rw [hcount, hset]
      obtain ⟨hle,hall⟩ := tally_le n vs
      constructor
      · intro hn
        rw [hall (by omega), ← List.replicate_succ']
        congr 1
        omega
      · intro heq
        have hl := congrArg List.length heq
        rw [List.length_append, List.length_singleton, List.length_replicate] at hl
        have hvs : vs = List.replicate vs.length .staged := by
          rw [← hl, List.replicate_succ'] at heq
          exact (List.append_inj_left heq (by simp))
        rw [hvs, tally_replicate (by omega)]
        omega

def entry (cfg : Config) (p : Pending) : Option (UInt32 × ℕ) :=
  (waiting p cfg.groupId).map fun w => (w.1,w.2.length)

/-- A block was typed only if every file is finished, and has all of them. -/
def Typed (cfg : Config) (a : Agent) : Prop :=
  ∀ paths ∈ a.blocks, paths.length = cfg.files.length ∧
    a.verdicts = List.replicate cfg.files.length .staged

structure Rest (cfg : Config) (a : Agent) (k : ℕ) : Prop where
  idle : ∀ id paste, a.pending.pastes.lookup id = some paste → paste.groupId ≠ cfg.groupId
  group : entry cfg a.pending = (tally cfg.files.length a.verdicts).map (Prod.mk cfg.groupSize)
  temp : a.temp = (finishedOf a.pending cfg.groupId : Multiset Bytes)
  length : a.verdicts.length = k
  typed : Typed cfg a

structure Busy (cfg : Config) (a : Agent) (id : UInt32) (paste : PendingPaste) (k : ℕ) : Prop where
  pending : a.pending.pastes.lookup id = some paste
  group_eq : paste.groupId = cfg.groupId
  only : ∀ id' paste', a.pending.pastes.lookup id' = some paste' →
    paste'.groupId = cfg.groupId → id' = id
  group : entry cfg a.pending =
    some (cfg.groupSize,(tally cfg.files.length a.verdicts).getD 0)
  temp : a.temp = paste.path::ₘ(finishedOf a.pending cfg.groupId : Multiset Bytes)
  length : a.verdicts.length = k
  typed : Typed cfg a

section Agent
variable {cfg : Config} {a : Agent} {id : UInt32} {k : ℕ} {found : Found}

theorem blocks_nil (h : Typed cfg a) (hlen : a.verdicts.length < cfg.files.length) :
    a.blocks = [] := by
  cases hb : a.blocks with
  | nil => rfl
  | cons paths rest =>
    have hall := (h paths (by rw [hb]; exact List.mem_cons_self)).2
    rw [hall, List.length_replicate] at hlen
    exact absurd hlen (lt_irrefl _)

theorem typed_of_nil {a' : Agent} (h : a'.blocks = []) : Typed cfg a' := by
  intro paths hpaths
  rw [h] at hpaths
  cases hpaths

theorem entry_registers {p p' : Pending} (h : Registers p p' cfg.groupId cfg.groupSize)
    {c : Option ℕ} (hp : entry cfg p = c.map (Prod.mk cfg.groupSize)) :
    entry cfg p' = some (cfg.groupSize,c.getD 0) ∧
      finishedOf p' cfg.groupId = finishedOf p cfg.groupId := by
  unfold entry at hp ⊢
  unfold finishedOf
  rw [h.1]
  cases hw : waiting p cfg.groupId with
  | none =>
    rw [hw] at hp
    cases c with
    | none => exact ⟨rfl,rfl⟩
    | some n => cases hp
  | some w =>
    rw [hw] at hp
    cases c with
    | none => cases hp
    | some n =>
      refine ⟨?_,rfl⟩
      simpa using hp

/-- A frame that completes no group types nothing. -/
theorem handled_of_no_inject {f : Sent} {out : Handled}
    (hh : handle cfg.limits cfg.dir a.pending (cfg.frame found f) = out) (hnone : out.inject = none) :
    a.handled cfg found f =
      (⟨out.pending,a.temp+opened out f-(out.removed : Multiset Bytes),a.blocks,
        a.verdicts++(verdict cfg.limits cfg.dir a.pending (cfg.frame found f)).toList⟩,
        out.reject.map fun _ => f.pasteId) := by
  simp [Agent.handled, hh, hnone]

theorem rest_of_verdict {a' : Agent} {v : Verdict} (hlen : a.verdicts.length = k)
    (hverdicts : a'.verdicts = a.verdicts++[v]) (hblocks : a'.blocks = [])
    (hidle : ∀ id paste, a'.pending.pastes.lookup id = some paste → paste.groupId ≠ cfg.groupId)
    (hgroup : entry cfg a'.pending =
      (count cfg.files.length (tally cfg.files.length a.verdicts) v).map (Prod.mk cfg.groupSize))
    (htemp : a'.temp = (finishedOf a'.pending cfg.groupId : Multiset Bytes)) :
    Rest cfg a' (k+1) := by
  refine ⟨hidle,?_,htemp,?_,typed_of_nil hblocks⟩
  · rw [hverdicts, tally_concat]
    exact hgroup
  · rw [hverdicts, List.length_append, hlen, List.length_singleton]

theorem begin_uncontrolled (size : ℕ) (name : String) (h : Rest cfg a k)
    (hk : k < cfg.files.length) (hc : found.controller = false) :
    Rest cfg (a.handled cfg found (.pasteBegin id size name)).1 (k+1) ∧
      (a.handled cfg found (.pasteBegin id size name)).1.pending = a.pending ∧
      (a.handled cfg found (.pasteBegin id size name)).2 = some id := by
  have hnil := blocks_nil h.typed (by rw [h.length]; exact hk)
  have hv : verdict cfg.limits cfg.dir a.pending (cfg.frame found (.pasteBegin id size name)) =
      some .refused := by
    simp [verdict, Config.frame, hc]
  have hh : handle cfg.limits cfg.dir a.pending (cfg.frame found (.pasteBegin id size name)) =
      a.pending.rejected pasteRejectNotController := by
    simp [handle, Config.frame, hc]
  rw [handled_of_no_inject hh rfl, hv]
  refine ⟨rest_of_verdict h.length rfl hnil h.idle h.group ?_,rfl,rfl⟩
  simpa [Pending.rejected, opened] using h.temp

theorem begin_rest {size : ℕ} {name : String} (h : Rest cfg a k) (hk : k < cfg.files.length)
    (hnew : a.pending.pastes.lookup id = none) :
    (Rest cfg (a.handled cfg found (.pasteBegin id size name)).1 (k+1) ∧
      (a.handled cfg found (.pasteBegin id size name)).1.pending.pastes.lookup id = none ∧
      (a.handled cfg found (.pasteBegin id size name)).2 = some id) ∨
    ((∃ paste, Busy cfg (a.handled cfg found (.pasteBegin id size name)).1 id paste k) ∧
      (a.handled cfg found (.pasteBegin id size name)).2 = none) := by
  have hnil := blocks_nil h.typed (by rw [h.length]; exact hk)
  cases hc : found.controller with
  | false =>
    left
    obtain ⟨hrest,hpending,hreject⟩ := begin_uncontrolled size name h hk hc
    rw [hpending]
    exact ⟨hrest,hnew,hreject⟩
  | true =>
    have hb := handlePasteBegin_begins cfg.limits found.env cfg.dir a.pending id
      (UInt64.ofNat size) cfg.groupId cfg.groupSize name
    have hh : handle cfg.limits cfg.dir a.pending (cfg.frame found (.pasteBegin id size name)) =
        handlePasteBegin cfg.limits found.env cfg.dir a.pending id (UInt64.ofNat size) cfg.groupId
          cfg.groupSize name := by
      simp [handle, Config.frame, hc]
    have hv : verdict cfg.limits cfg.dir a.pending (cfg.frame found (.pasteBegin id size name)) =
        if Refused cfg.limits a.pending id (UInt64.ofNat size) cfg.groupId then some .refused
        else if Oversize a.pending (UInt64.ofNat size) cfg.groupId then some .dropped
        else if (openPasteFile found.env cfg.dir name).isOk = false then some .stuck
        else none := by
      simp [verdict, Config.frame, hc]
    generalize handlePasteBegin cfg.limits found.env cfg.dir a.pending id (UInt64.ofNat size)
      cfg.groupId cfg.groupSize name = out at hb hh
    cases hb with
    | refused reason href =>
      left
      rw [handled_of_no_inject hh rfl, hv, if_pos href]
      refine ⟨rest_of_verdict h.length rfl hnil h.idle h.group ?_,hnew,rfl⟩
      simpa [Pending.rejected, opened] using h.temp
    | oversize href hover =>
      left
      rw [handled_of_no_inject hh rfl, hv, if_neg href, if_pos hover]
      refine ⟨rest_of_verdict h.length rfl hnil h.idle ?_ ?_,hnew,rfl⟩
      · simp [count, entry, waiting_erase_self]
      · simp [opened, h.temp, finishedOf, waiting_erase_self]
    | openFailed p' e href hover hopen hpastes hreg =>
      left
      have hfail : (openPasteFile found.env cfg.dir name).isOk = false := by
        simp [hopen, Except.isOk, Except.toBool]
      obtain ⟨hgroup,hfin⟩ := entry_registers hreg h.group
      rw [handled_of_no_inject hh rfl, hv, if_neg href, if_neg hover, if_pos hfail]
      refine ⟨rest_of_verdict h.length rfl hnil ?_ hgroup ?_,?_,rfl⟩
      · rw [hpastes]
        exact h.idle
      · simpa [opened, hfin] using h.temp
      · rw [hpastes]
        exact hnew
    | opened p' path href hover hopen hpastes hreg =>
      right
      have hok : ¬(openPasteFile found.env cfg.dir name).isOk = false := by
        simp [hopen, Except.isOk, Except.toBool]
      have hself : p'.pastes.lookup id = some ⟨path,(UInt64.ofNat size).toNat,0,cfg.groupId⟩ := by
        rw [hpastes, AList.lookup_insert]
      obtain ⟨hgroup,hfin⟩ := entry_registers hreg h.group
      rw [handled_of_no_inject hh rfl, hv, if_neg href, if_neg hover, if_neg hok]
      refine ⟨⟨_,hself,rfl,?_,?_,?_,?_,typed_of_nil hnil⟩,rfl⟩
      · intro id' paste' hid' hg'
        by_contra hne
        rw [hpastes, AList.lookup_insert_ne hne] at hid'
        exact h.idle id' paste' hid' hg'
      · simpa using hgroup
      · simp [opened, hself, h.temp, hfin, add_comm]
      · simpa using h.length

theorem Busy.idle_erase {paste : PendingPaste} (h : Busy cfg a id paste k) :
    ∀ id' other, (a.pending.pastes.erase id).lookup id' = some other →
      other.groupId ≠ cfg.groupId := by
  intro id' other hid' hg'
  obtain ⟨hne,hold⟩ := lookup_of_erase hid'
  exact hne (h.only id' other hold hg')

theorem chunk_busy {paste : PendingPaste} {bytes : Bytes} (h : Busy cfg a id paste k)
    (hk : k < cfg.files.length) :
    ((∃ paste', Busy cfg (a.handled cfg found (.pasteChunk id bytes)).1 id paste' k) ∧
      (a.handled cfg found (.pasteChunk id bytes)).2 = none) ∨
    (Rest cfg (a.handled cfg found (.pasteChunk id bytes)).1 (k+1) ∧
      (a.handled cfg found (.pasteChunk id bytes)).1.pending.pastes.lookup id = none ∧
      (a.handled cfg found (.pasteChunk id bytes)).2 = some id) := by
  have hnil := blocks_nil h.typed (by rw [h.length]; exact hk)
  have hc := handlePasteChunk_chunks found.writeOk a.pending id bytes
  have hh : handle cfg.limits cfg.dir a.pending (cfg.frame found (.pasteChunk id bytes)) =
      handlePasteChunk found.writeOk a.pending id bytes := rfl
  have hv : verdict cfg.limits cfg.dir a.pending (cfg.frame found (.pasteChunk id bytes)) =
      if paste.totalSize < saturatingAdd paste.written bytes.length ∨ found.writeOk = false then
        some .stuck
      else none := by
    simp [verdict, Config.frame, h.pending]
  generalize handlePasteChunk found.writeOk a.pending id bytes = out at hc hh
  cases hc with
  | unknown hp => cases hp.symm.trans h.pending
  | failed paste' reason hp hfail =>
    cases hp.symm.trans h.pending
    right
    rw [handled_of_no_inject hh rfl, hv, if_pos hfail]
    refine ⟨rest_of_verdict h.length rfl hnil h.idle_erase h.group ?_,AList.lookup_erase _ _,rfl⟩
    change _ = (finishedOf a.pending cfg.groupId : Multiset Bytes)
    simp [opened, h.temp]
  | written paste' hp hfits hwrite =>
    cases hp.symm.trans h.pending
    left
    have hgood : ¬(paste.totalSize < saturatingAdd paste.written bytes.length ∨
        found.writeOk = false) := by
      simp [hfits, hwrite]
    rw [handled_of_no_inject hh rfl, hv, if_neg hgood]
    refine ⟨⟨_,AList.lookup_insert _,h.group_eq,?_,?_,?_,?_,typed_of_nil hnil⟩,rfl⟩
    · intro id' other hid' hg'
      by_contra hne
      exact hne (h.only id' other ((AList.lookup_insert_ne hne).symm.trans hid') hg')
    · simpa [entry, waiting] using h.group
    · change _ = paste.path::ₘ(finishedOf a.pending cfg.groupId : Multiset Bytes)
      simp [opened, h.temp]
    · simpa using h.length

theorem group_busy {paste : PendingPaste} {g : PendingGroup} (h : Busy cfg a id paste k)
    (hg : a.pending.groups.lookup cfg.groupId = some g) :
    g.groupSize = cfg.groupSize ∧
      g.finished.length = (tally cfg.files.length a.verdicts).getD 0 ∧
      a.temp = ((g.finished++[paste.path] : List Bytes) : Multiset Bytes) := by
  have hgroup := h.group
  simp only [entry, waiting, hg, Option.map_some, Option.some.injEq, Prod.mk.injEq] at hgroup
  refine ⟨hgroup.1,hgroup.2,?_⟩
  have hfin : finishedOf a.pending cfg.groupId = g.finished := by simp [finishedOf, waiting, hg]
  rw [h.temp, hfin, Multiset.cons_coe]
  exact Multiset.coe_eq_coe.mpr (List.perm_append_singleton _ _).symm

theorem full_busy {paste : PendingPaste} {g : PendingGroup} (h : Busy cfg a id paste k)
    (hk : k < cfg.files.length) (hlen : cfg.files.length < 2^32)
    (hg : a.pending.groups.lookup cfg.groupId = some g) :
    g.groupSize ≤ UInt32.ofNat (g.finished++[paste.path]).length ↔
      cfg.files.length ≤ (tally cfg.files.length a.verdicts).getD 0+1 := by
  obtain ⟨hsize,hfin,-⟩ := group_busy h hg
  have hlt := tally_lt (Nat.zero_lt_of_lt hk) a.verdicts
  have hl : (g.finished++[paste.path]).length =
      (tally cfg.files.length a.verdicts).getD 0+1 := by
    rw [List.length_append, hfin, List.length_singleton]
  rw [hsize, hl, UInt32.le_iff_toNat_le, Config.groupSize, UInt32.toNat_ofNat_of_lt' hlen,
    UInt32.toNat_ofNat_of_lt' (show _ < 2^32 by omega)]

/-- The last file completes the group only if every file before it is finished, and what is
typed then has all of them. -/
theorem typed_completed {a' : Agent} {paste : PendingPaste} {g : PendingGroup}
    (h : Busy cfg a id paste k) (hk : k < cfg.files.length)
    (hg : a.pending.groups.lookup cfg.groupId = some g)
    (hall : cfg.files.length ≤ (tally cfg.files.length a.verdicts).getD 0+1)
    (hverdicts : a'.verdicts = a.verdicts++[.staged])
    (hblocks : ∀ paths ∈ a'.blocks, paths = g.finished++[paste.path]) : Typed cfg a' := by
  obtain ⟨-,hfin,-⟩ := group_busy h hg
  obtain ⟨hle,hstaged⟩ := tally_le cfg.files.length a.verdicts
  have hl := h.length
  have hklen : a.verdicts.length+1 = cfg.files.length := by omega
  intro paths hpaths
  constructor
  · rw [hblocks paths hpaths, List.length_append, hfin, List.length_singleton]
    omega
  · rw [hverdicts, ← hklen, List.replicate_succ', ← hstaged (by omega)]

/-- The end of a file gives it its verdict. -/
theorem end_busy {paste : PendingPaste} {status : UInt8} (h : Busy cfg a id paste k)
    (hk : k < cfg.files.length) (hlen : cfg.files.length < 2^32) :
    Rest cfg (a.handled cfg found (.pasteEnd id status)).1 (k+1) ∧
      (a.handled cfg found (.pasteEnd id status)).1.pending.pastes.lookup id = none := by
  have hnil := blocks_nil h.typed (by rw [h.length]; exact hk)
  have he := handlePasteEnd_ends a.pending id status
  have hh : handle cfg.limits cfg.dir a.pending (cfg.frame found (.pasteEnd id status)) =
      handlePasteEnd a.pending id status := rfl
  have hv : verdict cfg.limits cfg.dir a.pending (cfg.frame found (.pasteEnd id status)) =
      if status = pasteStatusCancel ∨ paste.written ≠ paste.totalSize then some .dropped
      else some .staged := by
    simp [verdict, Config.frame, h.pending]
  generalize handlePasteEnd a.pending id status = out at he hh
  cases he with
  | unknown hp => cases hp.symm.trans h.pending
  | dropped paste' reject hp hbad =>
    cases hp.symm.trans h.pending
    rw [handled_of_no_inject hh rfl, hv, if_pos hbad, h.group_eq]
    refine ⟨rest_of_verdict h.length rfl hnil h.idle_erase ?_ ?_,AList.lookup_erase _ _⟩
    · simp [count, entry, waiting]
    · simp [opened, h.temp, finishedOf, waiting]
  | staged paste' g hp hok hg hmore =>
    cases hp.symm.trans h.pending
    rw [h.group_eq] at hg
    obtain ⟨hsize,hfin,htemp⟩ := group_busy h hg
    have hmiss := mt (full_busy h hk hlen hg).mpr hmore
    rw [handled_of_no_inject hh rfl, hv, if_neg hok, h.group_eq]
    refine ⟨rest_of_verdict h.length rfl hnil h.idle_erase ?_ ?_,AList.lookup_erase _ _⟩
    · simp [count, entry, waiting, hmiss, hsize, hfin]
    · simp [opened, htemp, finishedOf, waiting]
  | completed paste' g hp hok hg hdone =>
    cases hp.symm.trans h.pending
    rw [h.group_eq] at hg
    have hall := (full_busy h hk hlen hg).mp hdone
    obtain ⟨-,-,htemp⟩ := group_busy h hg
    simp only [Agent.handled, hh, hv, if_neg hok, h.group_eq]
    refine ⟨⟨h.idle_erase,?_,?_,?_,?_⟩,AList.lookup_erase _ _⟩
    · simp [tally_concat, count, entry, waiting, hall]
    · rw [htemp]
      simp [opened, finishedOf, waiting]
    · rw [List.length_append, h.length]
      rfl
    · refine typed_completed h hk hg hall rfl fun paths hpaths => ?_
      rw [hnil] at hpaths
      split at hpaths
      · exact List.mem_singleton.mp hpaths
      · cases hpaths
  | alone paste' hp hok hg =>
    cases hp.symm.trans h.pending
    rw [h.group_eq] at hg
    have hgroup := h.group
    simp [entry, waiting, hg] at hgroup

theorem handled_unknown {f : Sent} (hf : ∀ size name, f ≠ .pasteBegin f.pasteId size name)
    (hnone : a.pending.pastes.lookup f.pasteId = none) : a.handled cfg found f = (a,none) := by
  cases f with
  | pasteBegin id size name => exact absurd rfl (hf size name)
  | pasteChunk id bytes =>
    have hnone' : a.pending.pastes.lookup id = none := hnone
    simp [Agent.handled, handle, Config.frame, handlePasteChunk, verdict, opened, hnone']
  | pasteEnd id status =>
    have hnone' : a.pending.pastes.lookup id = none := hnone
    simp [Agent.handled, handle, Config.frame, handlePasteEnd, verdict, opened, hnone']

theorem handled_lookup_ne {f : Sent} {q : UInt32} (hq : q ≠ f.pasteId) :
    (a.handled cfg found f).1.pending.pastes.lookup q = a.pending.pastes.lookup q := by
  change (handle cfg.limits cfg.dir a.pending (cfg.frame found f)).pending.pastes.lookup q = _
  cases f with
  | pasteBegin id size name =>
    cases hc : found.controller with
    | false => simp [handle, Config.frame, hc, Pending.rejected]
    | true =>
      have hb := handlePasteBegin_begins cfg.limits found.env cfg.dir a.pending id
        (UInt64.ofNat size) cfg.groupId cfg.groupSize name
      have hh : handle cfg.limits cfg.dir a.pending
          (cfg.frame found (.pasteBegin id size name)) =
          handlePasteBegin cfg.limits found.env cfg.dir a.pending id (UInt64.ofNat size)
            cfg.groupId cfg.groupSize name := by
        simp [handle, Config.frame, hc]
      rw [hh]
      generalize handlePasteBegin cfg.limits found.env cfg.dir a.pending id (UInt64.ofNat size)
        cfg.groupId cfg.groupSize name = out at hb
      cases hb with
      | refused reason href => rfl
      | oversize href hover => rfl
      | openFailed p' e href hover hopen hpastes hreg => exact congrArg (AList.lookup q) hpastes
      | opened p' path href hover hopen hpastes hreg =>
        exact (congrArg (AList.lookup q) hpastes).trans (AList.lookup_insert_ne hq)
  | pasteChunk id bytes =>
    have hc := handlePasteChunk_chunks found.writeOk a.pending id bytes
    change (handlePasteChunk found.writeOk a.pending id bytes).pending.pastes.lookup q = _
    generalize handlePasteChunk found.writeOk a.pending id bytes = out at hc
    cases hc with
    | unknown hp => rfl
    | failed paste reason hp hfail => exact AList.lookup_erase_ne hq
    | written paste hp hfits hwrite => exact AList.lookup_insert_ne hq
  | pasteEnd id status =>
    have he := handlePasteEnd_ends a.pending id status
    change (handlePasteEnd a.pending id status).pending.pastes.lookup q = _
    generalize handlePasteEnd a.pending id status = out at he
    cases he with
    | unknown hp => rfl
    | dropped paste reject hp hbad => exact AList.lookup_erase_ne hq
    | staged paste g hp hok hg hmore => exact AList.lookup_erase_ne hq
    | completed paste g hp hok hg hdone => exact AList.lookup_erase_ne hq
    | alone paste hp hok hg => exact AList.lookup_erase_ne hq

/-- Other uploads of the stream leave the action as it is. -/
theorem rest_rely {p : Pending} (h : Rest cfg a k) (hr : Rely cfg a.pending p) :
    Rest cfg { a with pending := p } k := by
  have hw : waiting p cfg.groupId = waiting a.pending cfg.groupId := by
    unfold waiting
    rw [hr.1]
  refine ⟨?_,?_,?_,h.length,h.typed⟩
  · intro id paste hid hg
    have hmem := hr.2.2 ⟨id,paste⟩ (AList.mem_lookup_iff.mp hid) hg
    exact h.idle id paste (AList.mem_lookup_iff.mpr hmem) hg
  · simpa [entry, hw] using h.group
  · simpa [finishedOf, hw] using h.temp

theorem busy_rely {p : Pending} {paste : PendingPaste} {j : ℕ} (hj : j < cfg.files.length)
    (h : Busy cfg a (cfg.pasteId j) paste k) (hr : Rely cfg a.pending p) :
    Busy cfg { a with pending := p } (cfg.pasteId j) paste k := by
  have hw : waiting p cfg.groupId = waiting a.pending cfg.groupId := by
    unfold waiting
    rw [hr.1]
  refine ⟨(hr.2.1 j hj).trans h.pending,h.group_eq,?_,?_,?_,h.length,h.typed⟩
  · intro id' paste' hid hg
    have hmem := hr.2.2 ⟨id',paste'⟩ (AList.mem_lookup_iff.mp hid) hg
    exact h.only id' paste' (AList.mem_lookup_iff.mpr hmem) hg
  · simpa [entry, hw] using h.group
  · simpa [finishedOf, hw] using h.temp

end Agent

inductive Place where
  | idle (j : ℕ)
  | file (j : ℕ)

namespace Place

def begun : Place → ℕ
  | .idle j => j
  | .file j => j+1

def rank : Place → ℕ
  | .idle j => 2*j
  | .file j => 2*j+1

end Place

def next (cfg : Config) : Place → Sent → Option Place
  | .idle j, .pasteBegin id _ _ =>
    if id = cfg.pasteId j ∧ j < cfg.files.length then some (.file j) else none
  | .file j, .pasteChunk id _ => if id = cfg.pasteId j then some (.file j) else none
  | .file j, .pasteEnd id _ => if id = cfg.pasteId j then some (.idle (j+1)) else none
  | _, _ => none

section Order
variable {cfg : Config}

/-- What a frame can be at its place. -/
theorem next_cases {w w' : Place} {f : Sent} (h : next cfg w f = some w') :
    (∃ j size name, w = .idle j ∧ w' = .file j ∧ j < cfg.files.length ∧
      f = .pasteBegin (cfg.pasteId j) size name) ∨
    (∃ j bytes, w = .file j ∧ w' = .file j ∧ f = .pasteChunk (cfg.pasteId j) bytes) ∨
    ∃ j status, w = .file j ∧ w' = .idle (j+1) ∧ f = .pasteEnd (cfg.pasteId j) status := by
  cases w with
  | idle j =>
    cases f with
    | pasteBegin id size name =>
      simp only [next, Option.ite_none_right_eq_some, Option.some.injEq] at h
      obtain ⟨⟨rfl,hj⟩,rfl⟩ := h
      exact .inl ⟨j,size,name,rfl,rfl,hj,rfl⟩
    | pasteChunk id bytes => cases h
    | pasteEnd id status => cases h
  | file j =>
    cases f with
    | pasteBegin id size name => cases h
    | pasteChunk id bytes =>
      simp only [next, Option.ite_none_right_eq_some, Option.some.injEq] at h
      obtain ⟨rfl,rfl⟩ := h
      exact .inr (.inl ⟨j,bytes,rfl,rfl,rfl⟩)
    | pasteEnd id status =>
      simp only [next, Option.ite_none_right_eq_some, Option.some.injEq] at h
      obtain ⟨rfl,rfl⟩ := h
      exact .inr (.inr ⟨j,status,rfl,rfl,rfl⟩)

theorem run_rank {w w' : Place} {fs : List Sent} (h : run (next cfg) w fs = some w') :
    w.rank ≤ w'.rank := by
  induction fs generalizing w with
  | nil =>
    cases h
    exact Nat.le_refl _
  | cons f fs ih =>
    obtain ⟨u,hu,hrest⟩ := (run_cons (next cfg)).mp h
    refine Nat.le_trans ?_ (ih hrest)
    rcases next_cases hu with ⟨j,_,_,rfl,rfl,-,-⟩ | ⟨j,_,rfl,rfl,-⟩ | ⟨j,_,rfl,rfl,-⟩ <;>
      simp only [Place.rank] <;> omega

theorem run_one {w w' : Place} {f : Sent} (h : next cfg w f = some w') :
    run (next cfg) w [f] = some w' := (run_cons (next cfg)).mpr ⟨w',h,rfl⟩

theorem begun_le_of_rank {w w' : Place} (h : w.rank ≤ w'.rank) : w.begun ≤ w'.begun := by
  cases w <;> cases w' <;> simp only [Place.rank, Place.begun] at h ⊢ <;> omega

theorem dispatch_run {c : Client} {files : List BlobFile} {m : ℕ}
    (hlast : c.lastPasteId = nextPasteId^[m] cfg.lastPasteId)
    (hfit : m+files.length ≤ cfg.files.length) :
    ∃ w, run (next cfg) (.idle m) (dispatch c files).2 = some w ∧
      (dispatch c files).1.lastPasteId = nextPasteId^[w.begun] cfg.lastPasteId ∧
      w.begun+(dispatch c files).1.files.length ≤ cfg.files.length ∧
      (dispatch c files).1.abortedPastes = c.abortedPastes ∧
      ((dispatch c files).1.current = none ∧ (∃ j, w = .idle j) ∨
        ∃ r j, (dispatch c files).1.current = some r ∧ w = .file j ∧ r.pasteId = cfg.pasteId j ∧
          m ≤ j) := by
  induction files generalizing c m with
  | nil => exact ⟨.idle m,rfl,hlast,hfit,rfl,.inl ⟨rfl,m,rfl⟩⟩
  | cons f rest ih =>
    rw [List.length_cons] at hfit
    unfold dispatch
    by_cases habort : c.groupAborted = true
    · rw [if_pos habort]
      exact ⟨.idle m,rfl,hlast,by simp only [Place.begun, List.length_nil]; omega,rfl,
        .inl ⟨rfl,m,rfl⟩⟩
    rw [if_neg habort]
    by_cases hlarge : maxPasteTotalBytes < f.size
    · rw [if_pos hlarge]
      exact ih hlast (by omega)
    rw [if_neg hlarge]
    have hid : nextPasteId c.lastPasteId = cfg.pasteId m := by
      rw [hlast]
      exact (Function.iterate_succ_apply' nextPasteId m cfg.lastPasteId).symm
    have hbegin : next cfg (.idle m) (.pasteBegin (cfg.pasteId m) f.size f.name) =
        some (.file m) := if_pos ⟨rfl,by omega⟩
    dsimp only
    rw [hid]
    by_cases hempty : f.size = 0
    · rw [if_pos hempty]
      obtain ⟨w,hw,hl,hf,hab,hcur⟩ := ih (c := { c with lastPasteId := cfg.pasteId m })
        (m := m+1) rfl (by omega)
      refine ⟨w,?_,hl,hf,hab,?_⟩
      · refine (run_cons (next cfg)).mpr ⟨.file m,hbegin,(run_cons (next cfg)).mpr ?_⟩
        exact ⟨.idle (m+1),if_pos rfl,hw⟩
      · rcases hcur with hdone | ⟨r,j,hr,hwj,hrid,hle⟩
        · exact .inl hdone
        · exact .inr ⟨r,j,hr,hwj,hrid,by omega⟩
    · rw [if_neg hempty]
      refine ⟨.file m,?_,rfl,by simp only [Place.begun]; omega,rfl,
        .inr ⟨_,m,rfl,rfl,rfl,Nat.le_refl m⟩⟩
      exact (run_cons (next cfg)).mpr ⟨.file m,hbegin,rfl⟩

theorem dispatch_aborted {c : Client} (h : c.groupAborted = true) (files : List BlobFile) :
    dispatch c files = ({ c with files := [], current := none },[]) := by
  cases files with
  | nil => rfl
  | cons f rest => simp [dispatch, h]

end Order

/-- The agent is at a place of the action; inside a file that was rejected there is nothing
left to do. -/
def AgentAt (cfg : Config) (a : Agent) : Place → Prop
  | .idle j => Rest cfg a j
  | .file j => j < cfg.files.length ∧
    (Rest cfg a (j+1) ∧ a.pending.pastes.lookup (cfg.pasteId j) = none ∨
      ∃ paste, Busy cfg a (cfg.pasteId j) paste j)

def Gone (cfg : Config) (a : Agent) (w : Place) (id : UInt32) : Prop :=
  a.pending.pastes.lookup id = none ∧
    ∃ i < w.begun, i < cfg.files.length ∧ id = cfg.pasteId i

def Unknown (cfg : Config) (a : Agent) (w : Place) : Prop :=
  ∀ i, w.begun ≤ i → i < cfg.files.length → a.pending.pastes.lookup (cfg.pasteId i) = none

section Handling
variable {cfg : Config} {a : Agent} {w w' : Place} {f : Sent} {found : Found}

theorem gone_handled (hlen : cfg.files.length < 2^32) (hf : next cfg w f = some w') {id : UInt32}
    (h : Gone cfg a w id) : Gone cfg (a.handled cfg found f).1 w' id := by
  obtain ⟨hnone,i,hi,hiN,hid⟩ := h
  have hle : w.begun ≤ w'.begun := begun_le_of_rank (run_rank (run_one hf))
  refine ⟨?_,i,Nat.lt_of_lt_of_le hi hle,hiN,hid⟩
  by_cases hq : id = f.pasteId
  · rcases next_cases hf with ⟨j,size,name,rfl,rfl,hj,rfl⟩ | ⟨j,bytes,rfl,rfl,rfl⟩ |
      ⟨j,status,rfl,rfl,rfl⟩
    · have hij := pasteId_inj hlen hiN hj (hid.symm.trans hq)
      exact absurd hi (by simp [hij, Place.begun])
    · rw [handled_unknown (by simp) (hq ▸ hnone)]
      exact hnone
    · rw [handled_unknown (by simp) (hq ▸ hnone)]
      exact hnone
  · rw [handled_lookup_ne hq]
    exact hnone

theorem agentAt_handled (found : Found) (hlen : cfg.files.length < 2^32)
    (hf : next cfg w f = some w') (h : AgentAt cfg a w) (hnew : Unknown cfg a w) :
    AgentAt cfg (a.handled cfg found f).1 w' ∧
      ∀ id ∈ (a.handled cfg found f).2, Gone cfg (a.handled cfg found f).1 w' id := by
  rcases next_cases hf with ⟨j,size,name,rfl,rfl,hj,rfl⟩ | ⟨j,bytes,rfl,rfl,rfl⟩ |
    ⟨j,status,rfl,rfl,rfl⟩
  · rcases begin_rest h hj (hnew j (Nat.le_refl j) hj) with ⟨hrest,hnone,hid⟩ | ⟨hbusy,hid⟩
    · refine ⟨⟨hj,.inl ⟨hrest,hnone⟩⟩,fun id h => ?_⟩
      cases hid.symm.trans h
      exact ⟨hnone,j,Nat.lt_succ_self j,hj,rfl⟩
    · refine ⟨⟨hj,.inr hbusy⟩,fun id h => ?_⟩
      cases hid.symm.trans h
  · obtain ⟨hj,⟨hrest,hnone⟩ | ⟨paste,hbusy⟩⟩ := h
    · rw [handled_unknown (f := .pasteChunk (cfg.pasteId j) bytes) (by simp) hnone]
      exact ⟨⟨hj,.inl ⟨hrest,hnone⟩⟩,by simp⟩
    · rcases chunk_busy hbusy hj with ⟨hbusy',hid⟩ | ⟨hrest,hnone,hid⟩
      · refine ⟨⟨hj,.inr hbusy'⟩,fun id h => ?_⟩
        cases hid.symm.trans h
      · refine ⟨⟨hj,.inl ⟨hrest,hnone⟩⟩,fun id h => ?_⟩
        cases hid.symm.trans h
        exact ⟨hnone,j,Nat.lt_succ_self j,hj,rfl⟩
  · obtain ⟨hj,⟨hrest,hnone⟩ | ⟨paste,hbusy⟩⟩ := h
    · rw [handled_unknown (f := .pasteEnd (cfg.pasteId j) status) (by simp) hnone]
      exact ⟨hrest,by simp⟩
    · obtain ⟨hrest,hnone⟩ := end_busy hbusy hj hlen
      refine ⟨hrest,fun id h => ?_⟩
      obtain ⟨r,-,rfl⟩ := Option.map_eq_some_iff.mp h
      exact ⟨hnone,j,Nat.lt_succ_self j,hj,rfl⟩

theorem unknown_handled (hlen : cfg.files.length < 2^32) (hf : next cfg w f = some w')
    (h : AgentAt cfg a w) (hnew : Unknown cfg a w) : Unknown cfg (a.handled cfg found f).1 w' := by
  have hself : ∃ j < w'.begun, j < cfg.files.length ∧ f.pasteId = cfg.pasteId j := by
    rcases next_cases hf with ⟨j,size,name,rfl,rfl,hj,rfl⟩ | ⟨j,bytes,rfl,rfl,rfl⟩ |
      ⟨j,status,rfl,rfl,rfl⟩
    · exact ⟨j,Nat.lt_succ_self j,hj,rfl⟩
    · exact ⟨j,Nat.lt_succ_self j,h.1,rfl⟩
    · exact ⟨j,Nat.lt_succ_self j,h.1,rfl⟩
  obtain ⟨j,hj,hjN,hid⟩ := hself
  have hle : w.begun ≤ w'.begun := begun_le_of_rank (run_rank (run_one hf))
  intro i hi hiN
  have hne : cfg.pasteId i ≠ f.pasteId := by
    intro heq
    have hij := pasteId_inj hlen hiN hjN (heq.trans hid)
    omega
  rw [handled_lookup_ne hne]
  exact hnew i (Nat.le_trans hle hi) hiN

theorem agentAt_rely {p : Pending} (h : AgentAt cfg a w) (hr : Rely cfg a.pending p) :
    AgentAt cfg { a with pending := p } w := by
  cases w with
  | idle j => exact rest_rely h hr
  | file j =>
    obtain ⟨hj,⟨hrest,hnone⟩ | ⟨paste,hbusy⟩⟩ := h
    · exact ⟨hj,.inl ⟨rest_rely hrest hr,(hr.2.1 j hj).trans hnone⟩⟩
    · exact ⟨hj,.inr ⟨paste,busy_rely hj hbusy hr⟩⟩

theorem gone_rely {p : Pending} {id : UInt32} (h : Gone cfg a w id) (hr : Rely cfg a.pending p) :
    Gone cfg { a with pending := p } w id := by
  obtain ⟨hnone,i,hi,hiN,rfl⟩ := h
  exact ⟨(hr.2.1 i hiN).trans hnone,i,hi,hiN,rfl⟩

end Handling

/-- The two sides of an action: the frames on the wire lead from the place of the agent to that
of the client. A client that has returned inside a file was rejected there. -/
structure Inv (cfg : Config) (s : Exchange) (w v : Place) : Prop where
  agent : AgentAt cfg s.agent w
  unknown : Unknown cfg s.agent w
  wire : run (next cfg) w s.wire = some v
  rejected : ∀ id ∈ s.rejects, Gone cfg s.agent w id
  aborted : ∀ id ∈ s.client.abortedPastes, Gone cfg s.agent w id
  last : s.client.lastPasteId = nextPasteId^[v.begun] cfg.lastPasteId
  fit : v.begun+s.client.files.length ≤ cfg.files.length
  reading : ∀ r, s.client.current = some r → ∃ j, v = .file j ∧ r.pasteId = cfg.pasteId j ∧
    (r.pasteId ∈ s.client.abortedPastes → s.client.groupAborted = true)
  returned : s.client.current = none → (∃ j, v = .idle j) ∨
    ∃ j, w = .file j ∧ v = .file j ∧ s.agent.pending.pastes.lookup (cfg.pasteId j) = none

section Sides
variable {cfg : Config} {s : Exchange} {w v : Place}

theorem inv_handle (found : Found) (hlen : cfg.files.length < 2^32) (h : Inv cfg s w v) {f : Sent}
    {rest : List Sent} (hw : s.wire = f::rest) :
    ∃ w', Inv cfg { s with
      wire := rest
      rejects := s.rejects++(s.agent.handled cfg found f).2.toList
      agent := (s.agent.handled cfg found f).1 } w' v := by
  have hrun := h.wire
  rw [hw] at hrun
  obtain ⟨w',hf,hrest⟩ := (run_cons (next cfg)).mp hrun
  obtain ⟨hagent,hreject⟩ := agentAt_handled found hlen hf h.agent h.unknown
  refine ⟨w',hagent,unknown_handled hlen hf h.agent h.unknown,hrest,?_,?_,h.last,h.fit,h.reading,?_⟩
  · intro id hid
    rcases List.mem_append.mp hid with hold | hnew
    · exact gone_handled hlen hf (h.rejected id hold)
    · exact hreject id (Option.mem_toList.mp hnew)
  · intro id hid
    exact gone_handled hlen hf (h.aborted id hid)
  · intro hcur
    rcases h.returned hcur with hidle | ⟨j,rfl,rfl,hnone⟩
    · exact .inl hidle
    · have hrank := run_rank hrest
      rcases next_cases hf with ⟨_,_,_,hfile,_⟩ | ⟨i,bytes,hi,rfl,rfl⟩ | ⟨i,status,hi,rfl,rfl⟩
      · cases hfile
      · cases hi
        refine .inr ⟨j,rfl,rfl,?_⟩
        rw [handled_unknown (f := .pasteChunk (cfg.pasteId j) bytes) (by simp) hnone]
        exact hnone
      · cases hi
        simp only [Place.rank] at hrank
        omega

theorem inv_other {p : Pending} (h : Inv cfg s w v) (hr : Rely cfg s.agent.pending p) :
    Inv cfg { s with agent := { s.agent with pending := p } } w v := by
  refine ⟨agentAt_rely h.agent hr,?_,h.wire,fun id hid => gone_rely (h.rejected id hid) hr,
    fun id hid => gone_rely (h.aborted id hid) hr,h.last,h.fit,h.reading,?_⟩
  · intro i hi hiN
    exact (hr.2.1 i hiN).trans (h.unknown i hi hiN)
  · intro hcur
    rcases h.returned hcur with hidle | ⟨j,rfl,rfl,hnone⟩
    · exact .inl hidle
    · exact .inr ⟨j,rfl,rfl,(hr.2.1 j h.agent.1).trans hnone⟩

theorem inv_hear (h : Inv cfg s w v) {id : UInt32} {rest : List UInt32}
    (hid : s.rejects = id::rest) :
    Inv cfg { s with client := hear s.client id, rejects := rest } w v := by
  have hall := h.rejected
  rw [hid] at hall
  refine ⟨h.agent,h.unknown,h.wire,fun q hq => hall q (List.mem_cons_of_mem _ hq),?_,h.last,h.fit,
    ?_,h.returned⟩
  · intro q hq
    rcases List.mem_cons.mp hq with rfl | hold
    · exact hall q List.mem_cons_self
    · exact h.aborted q hold
  · intro r hr
    obtain ⟨j,hv,hrid,habort⟩ := h.reading r hr
    refine ⟨j,hv,hrid,fun hmem => ?_⟩
    have hcur : s.client.current = some r := hr
    simp only [hear, hcur, Option.any_some, Bool.or_eq_true, decide_eq_true_eq]
    rcases List.mem_cons.mp hmem with heq | hold
    · exact .inr heq
    · exact .inl (habort hold)

theorem inv_dispatch (hlen : cfg.files.length < 2^32) (h : Inv cfg s w v) {c : Client}
    {files : List BlobFile} {sent : List Sent} {m : ℕ}
    (hsent : run (next cfg) v sent = some (.idle m))
    (hlast : c.lastPasteId = nextPasteId^[m] cfg.lastPasteId)
    (hfit : m+files.length ≤ cfg.files.length)
    (hgone : ∀ id ∈ c.abortedPastes, Gone cfg s.agent w id) :
    ∃ v', Inv cfg { s with
      client := (dispatch c files).1
      wire := s.wire++(sent++(dispatch c files).2) } w v' := by
  obtain ⟨v',hv',hlast',hfit',haborted,hcur⟩ := dispatch_run hlast hfit
  have hto : run (next cfg) w (s.wire++sent) = some (.idle m) :=
    (run_append (next cfg)).mpr ⟨v,h.wire,hsent⟩
  refine ⟨v',h.agent,h.unknown,?_,h.rejected,?_,hlast',hfit',?_,?_⟩
  · rw [← List.append_assoc]
    exact (run_append (next cfg)).mpr ⟨.idle m,hto,hv'⟩
  · intro id hid
    rw [haborted] at hid
    exact hgone id hid
  · intro r hr
    rcases hcur with ⟨hnone,-⟩ | ⟨r',j,hr',hvj,hrid,hmj⟩
    · cases hnone.symm.trans hr
    cases hr'.symm.trans hr
    refine ⟨j,hvj,hrid,fun hmem => ?_⟩
    -- The file is new, and what was rejected is not.
    rw [haborted] at hmem
    obtain ⟨-,i,hi,hiN,hid⟩ := hgone _ hmem
    have hj : j < cfg.files.length := by
      rw [hvj] at hfit'
      simp only [Place.begun] at hfit'
      omega
    have hij := pasteId_inj hlen hj hiN (hrid.symm.trans hid)
    have hle : w.begun ≤ m := begun_le_of_rank (run_rank hto)
    omega
  · intro hnone
    rcases hcur with ⟨-,hidle⟩ | ⟨r,j,hr,-⟩
    · exact .inl hidle
    · cases hnone.symm.trans hr

/-- The client is rejected while it reads a file: the agent is in that file and has dropped it. -/
theorem aborted_at (hlen : cfg.files.length < 2^32) (h : Inv cfg s w v) {r : Reading}
    (hr : s.client.current = some r) (hmem : r.pasteId ∈ s.client.abortedPastes) :
    ∃ j, w = .file j ∧ v = .file j ∧ s.agent.pending.pastes.lookup (cfg.pasteId j) = none := by
  obtain ⟨j,rfl,hid,-⟩ := h.reading r hr
  obtain ⟨hnone,i,hi,hiN,hri⟩ := h.aborted _ hmem
  have hj : j < cfg.files.length := by
    have hfit := h.fit
    simp only [Place.begun] at hfit
    omega
  obtain rfl := pasteId_inj hlen hj hiN (hid.symm.trans hri)
  have hrank := run_rank h.wire
  refine ⟨j,?_,rfl,hri ▸ hnone⟩
  cases w with
  | idle l =>
    simp only [Place.begun, Place.rank] at hi hrank
    omega
  | file l =>
    simp only [Place.begun, Place.rank] at hi hrank
    rw [show l = j by omega]

theorem inv_rejected (hlen : cfg.files.length < 2^32) (h : Inv cfg s w v) {r : Reading}
    (hr : s.client.current = some r) (hmem : r.pasteId ∈ s.client.abortedPastes) :
    (finish s.client r.pasteId).2 = [] ∧
      Inv cfg { s with client := (finish s.client r.pasteId).1 } w v := by
  have hat := aborted_at hlen h hr hmem
  obtain ⟨j,-,-,habort⟩ := h.reading r hr
  have hdone := dispatch_aborted
    (c := { s.client with abortedPastes := s.client.abortedPastes.filter (· ≠ r.pasteId) })
    (habort hmem) s.client.files
  rw [finish, hdone]
  refine ⟨rfl,h.agent,h.unknown,h.wire,h.rejected,?_,h.last,?_,?_,fun _ => .inr hat⟩
  · intro id hid
    exact h.aborted id (List.mem_of_mem_filter hid)
  · exact Nat.le_trans (Nat.le_add_right _ _) h.fit
  · intro r' hr'
    cases hr'

theorem inv_resume (hlen : cfg.files.length < 2^32) (h : Inv cfg s w v) {read : Option Bytes}
    {c : Client} {sent : List Sent} (hc : resume s.client read = some (c,sent)) :
    ∃ v', Inv cfg { s with client := c, wire := s.wire++sent } w v' := by
  cases hr : s.client.current with
  | none => simp [resume, hr] at hc
  | some r =>
    obtain ⟨j,hv,hid,habort⟩ := h.reading r hr
    have hlast := h.last
    have hfit := h.fit
    rw [hv] at hlast hfit
    -- A last frame for the file, and the next files.
    have hgo : ∀ fs, run (next cfg) v fs = some (.idle (j+1)) →
        ∃ v', Inv cfg { s with
          client := (finish s.client r.pasteId).1
          wire := s.wire++(fs++(finish s.client r.pasteId).2) } w v' := by
      intro fs hfs
      refine inv_dispatch hlen h hfs hlast hfit ?_
      intro id hmem
      exact h.aborted id (List.mem_of_mem_filter hmem)
    have hend : ∀ status, next cfg v (.pasteEnd r.pasteId status) = some (.idle (j+1)) := by
      intro status
      rw [hv, hid]
      exact if_pos rfl
    have hchunk : ∀ bytes, next cfg v (.pasteChunk r.pasteId bytes) = some v := by
      intro bytes
      rw [hv, hid]
      exact if_pos rfl
    cases read with
    | none =>
      simp only [resume, hr, Option.some.injEq, Prod.mk.injEq] at hc
      obtain ⟨rfl,rfl⟩ := hc
      exact hgo [.pasteEnd r.pasteId pasteStatusCancel] (run_one (hend _))
    | some buf =>
      simp only [resume, hr] at hc
      split at hc
      · next hmem =>
        have hrejected := inv_rejected hlen h hr hmem
        rw [Option.some.inj hc] at hrejected
        obtain ⟨rfl : sent = [],hinv⟩ := hrejected
        refine ⟨v,?_⟩
        rw [List.append_nil]
        exact hinv
      · next hmem =>
        split at hc
        · cases hc
          refine ⟨v,h.agent,h.unknown,?_,h.rejected,h.aborted,h.last,h.fit,?_,?_⟩
          · exact (run_append (next cfg)).mpr ⟨v,h.wire,run_one (hchunk buf)⟩
          · intro r' hr'
            cases hr'
            exact ⟨j,hv,hid,habort⟩
          · intro hnone
            cases hnone
        · cases hc
          refine hgo [.pasteChunk r.pasteId buf,.pasteEnd r.pasteId pasteStatusOk] ?_
          exact (run_cons (next cfg)).mpr ⟨v,hchunk buf,run_one (hend _)⟩

theorem step_inv (hlen : cfg.files.length < 2^32) (h : Inv cfg s w v) {act : Action}
    {s' : Exchange} (hs : step cfg s act = some s') : ∃ w' v', Inv cfg s' w' v' := by
  cases act with
  | resume read =>
    simp only [step, Option.map_eq_some_iff, Prod.exists] at hs
    obtain ⟨c,sent,hc,rfl⟩ := hs
    exact ⟨w,inv_resume hlen h hc⟩
  | hear =>
    simp only [step] at hs
    split at hs
    · cases hs
    · next id rest hid =>
      cases hs
      exact ⟨w,v,inv_hear h hid⟩
  | handle found =>
    simp only [step] at hs
    split at hs
    · cases hs
    · next f rest hw =>
      cases hs
      obtain ⟨w',hinv⟩ := inv_handle found hlen h hw
      exact ⟨w',v,hinv⟩
  | other p =>
    simp only [step, Option.ite_none_right_eq_some, Option.some.injEq] at hs
    obtain ⟨hr,rfl⟩ := hs
    exact ⟨w,v,inv_other h hr⟩

theorem start_inv (hlen : cfg.files.length < 2^32) {p : Pending} (hfresh : Fresh cfg p)
    (controllerStatus : UInt8) :
    ∃ w v, Inv cfg (Exchange.start cfg controllerStatus p) w v := by
  obtain ⟨hgroup,hids,hpastes⟩ := hfresh
  have hnone : waiting p cfg.groupId = none := by simp [waiting, hgroup]
  have hrest : Rest cfg ⟨p,0,[],[]⟩ 0 := by
    refine ⟨?_,?_,?_,rfl,typed_of_nil rfl⟩
    · intro id paste hid
      exact hpastes ⟨id,paste⟩ (AList.mem_lookup_iff.mp hid)
    · simp [entry, hnone, tally]
    · simp [finishedOf, hnone]
  have hbase : Inv cfg ⟨⟨[],cfg.lastPasteId,none,[],false⟩,[],[],⟨p,0,[],[]⟩⟩ (.idle 0)
      (.idle 0) := by
    refine ⟨hrest,fun i _ hi => hids i hi,rfl,by simp,by simp,rfl,by simp [Place.begun],
      by simp,fun _ => .inl ⟨0,rfl⟩⟩
  simp only [Exchange.start, sendPasteFiles]
  split
  · exact ⟨_,_,hbase⟩
  · have hnothing : run (next cfg) (.idle 0) [] = some (.idle 0) := rfl
    exact ⟨.idle 0,inv_dispatch hlen hbase hnothing rfl (by omega) (by simp)⟩

end Sides

/-- After the last file the agent has nothing of the group if and only if the action is settled. -/
theorem agreed_of_rest {cfg : Config} {a : Agent} {k : ℕ} (h : Rest cfg a k)
    (hk : k ≤ cfg.files.length) : Agreed cfg a ↔ Settles cfg.files.length a.verdicts := by
  rw [← tally_eq_none_iff (h.length.trans_le hk)]
  have hentry : entry cfg a.pending = none ↔ tally cfg.files.length a.verdicts = none := by
    rw [h.group, Option.map_eq_none_iff]
  have hlookup : entry cfg a.pending = none ↔ a.pending.groups.lookup cfg.groupId = none := by
    simp [entry, waiting]
  rw [← hentry, hlookup]
  constructor
  · rintro (⟨paths,hpaths,-⟩ | ⟨hgroup,-⟩)
    · rw [← hlookup, hentry, tally_eq_none_iff (h.length.trans_le hk)]
      exact .inl (h.typed paths hpaths).2
    · exact hgroup
  · intro hgroup
    refine .inr ⟨hgroup,?_,?_⟩
    · intro e he
      exact h.idle e.1 e.2 (AList.mem_lookup_iff.mpr he)
    · rw [h.temp]
      simp [finishedOf, waiting, hgroup]

/-- Once the client has returned and the agent has handled everything, the two sides agree if and
only if every file is finished or the last registered one took the group with it. -/
theorem agreed_iff_settles {cfg : Config} {controllerStatus : UInt8} {p : Pending}
    {actions : List Action} {s : Exchange} (hlen : cfg.files.length < 2^32) (hfresh : Fresh cfg p)
    (hrun : run (step cfg) (Exchange.start cfg controllerStatus p) actions = some s)
    (hover : s.Over) : Agreed cfg s.agent ↔ Settles cfg.files.length s.agent.verdicts := by
  have hstep : ∀ s act t, (∃ w v, Inv cfg s w v) → step cfg s act = some t →
      ∃ w v, Inv cfg t w v := by
    rintro s act t ⟨w,v,h⟩ ht
    exact step_inv hlen h ht
  obtain ⟨w,v,h⟩ := run_invariant (step cfg) hstep (start_inv hlen hfresh _) hrun
  have hend := h.wire
  rw [hover.2] at hend
  cases hend
  have hfit := h.fit
  rcases h.returned hover.1 with ⟨j,rfl⟩ | ⟨j,rfl,-,hnone⟩
  · exact agreed_of_rest h.agent (by simp only [Place.begun] at hfit; omega)
  · obtain ⟨hj,⟨hrest,-⟩ | ⟨paste,hbusy⟩⟩ := h.agent
    · exact agreed_of_rest hrest hj
    · cases hnone.symm.trans hbusy.pending

def twoFiles : Config := ⟨Limits.default,[],7,[⟨1,"a"⟩,⟨1,"b"⟩],0⟩

def ready : Found := ⟨true,⟨true,0,0,fun _ => .created⟩,true⟩

def bothRead : List Action :=
  [.resume (some [0]),.resume (some [0])]++List.replicate 6 (.handle ready)

theorem both_read_agreed : ∃ s, run (step twoFiles)
      (Exchange.start twoFiles controllerStatusSelf Pending.empty) bothRead = some s ∧
    s.agent.blocks.map List.length = [2] ∧ Agreed twoFiles s.agent := by
  have hfacts : ((run (step twoFiles) (Exchange.start twoFiles controllerStatusSelf Pending.empty)
      bothRead).map fun s =>
        (s.client.current,s.wire,s.agent.blocks.map List.length,s.agent.verdicts)) =
      some (none,[],[2],[.staged,.staged]) := by
    decide +kernel
  obtain ⟨s,hs,heq⟩ := Option.map_eq_some_iff.mp hfacts
  simp only [Prod.mk.injEq] at heq
  obtain ⟨hcur,hwire,hblocks,hverdicts⟩ := heq
  refine ⟨s,hs,hblocks,?_⟩
  have hfresh : Fresh twoFiles Pending.empty :=
    ⟨rfl,fun _ _ => rfl,fun _ he => absurd he List.not_mem_nil⟩
  refine (agreed_iff_settles (by decide) hfresh hs ⟨hcur,hwire⟩).mpr ?_
  rw [hverdicts]
  exact .inl rfl

def firstUnread : List Action := [.resume none,.resume (some [0])]++List.replicate 5 (.handle ready)

/-- The cancel of the first file removes the group, the second file makes a new one that waits for
two. -/
theorem first_unread_not_agreed : ∃ s, run (step twoFiles)
      (Exchange.start twoFiles controllerStatusSelf Pending.empty) firstUnread = some s ∧
    s.Over ∧ ¬Agreed twoFiles s.agent := by
  have hfacts : ((run (step twoFiles) (Exchange.start twoFiles controllerStatusSelf Pending.empty)
      firstUnread).map fun s =>
        (s.client.current,s.wire,s.agent.blocks.length,(s.agent.pending.groups.lookup 7).isSome)) =
      some (none,[],0,true) := by
    decide +kernel
  obtain ⟨s,hs,heq⟩ := Option.map_eq_some_iff.mp hfacts
  simp only [Prod.mk.injEq] at heq
  obtain ⟨hcur,hwire,hblocks,hgroup⟩ := heq
  refine ⟨s,hs,⟨hcur,hwire⟩,?_⟩
  rintro (⟨paths,hpaths,-⟩ | ⟨hnone,-⟩)
  · rw [List.length_eq_zero_iff.mp hblocks] at hpaths
    cases hpaths
  · have hgone : s.agent.pending.groups.lookup 7 = none := hnone
    rw [hgone] at hgroup
    cases hgroup

end Term.PasteAgreement
