import TermMux.AgentFrames
import TermMux.WebDownloads

/-!
# Downloads across reconnects

A tab goes through a sequence of connections, and its map of downloads outlives each of
them. What should be saved on a connection is what a new tab saves from the messages of
that connection alone. An entry of an earlier connection gets in the way where a
`DownloadBegin` finds it under its id or among those that fill the map, and where a
`DownloadEnd` finds it complete. Where neither happens, nothing else of it shows.
-/

set_option autoImplicit false

namespace Term.DownloadReconnects
open Term.AgentFrames Term.ByteOrder Term.DownloadStream Term.FrameCodec Term.FrameModel
open Term.FrameWire Term.KeyedMap Term.Machine Term.WebDownloads

inductive Act where
  /-- `connectTab`, the first time and after each close of the socket. -/
  | connect
  | message (view : Bytes)
  deriving DecidableEq, Repr

def step (tab : Tab) : Act → Option Tab
  | .connect => some (connectTab tab)
  | .message view => some (onMessage tab view)

def life (connections : List (List Bytes)) : List Act :=
  connections.flatMap fun views => .connect::views.map .message

def alone (connection : ℕ) (views : List Bytes) : Tab := views.foldl onMessage ⟨∅,[],connection⟩

def savedAlone (connections : List (List Bytes)) : List Saved :=
  (connections.zipIdx 1).flatMap fun p => (alone p.2 p.1).saved

def incoming (view : Bytes) : Option Incoming :=
  (parseFrame view).bind fun p =>
    if p.1 = frameDownloadBegin then
      if p.2.length < 13 ∨ p.2.length ≠ 13+(p.2.getD 12 0).toNat then none
      else some (.begin_ (readU32BE p.2 0) (readU64BENumber p.2 4)
        (displayName ((p.2.drop 13).take (p.2.getD 12 0).toNat)))
    else if p.1 = frameDownloadChunk then
      if p.2.length < 4 then none else some (.chunk (readU32BE p.2 0) (p.2.drop 4))
    else if p.1 = frameDownloadEnd then
      if p.2.length ≠ 5 then none else some (.end_ (readU32BE p.2 0) (p.2.getD 4 0))
    else none

def inProgress (tab : Tab) : List (Σ _ : UInt32, Download) :=
  tab.downloads.entries.filter fun e => e.2.connection = tab.connection

/-- Entries of earlier connections do not turn a begin away that the entries of this one
admit, and an end does not complete them. -/
def Apart (tab : Tab) : Incoming → Prop
  | .begin_ id totalSize _ =>
    totalSize ≤ maxDownloadTotalBytes → (inProgress tab).length < maxInflightDownloads →
      id ∉ (inProgress tab).keys →
      id ∉ tab.downloads ∧ tab.downloads.entries.length < maxInflightDownloads
  | .chunk _ _ => True
  | .end_ id status => ∀ dl ∈ tab.downloads.lookup id, dl.connection ≠ tab.connection →
    status ≠ downloadStatusCancel → dl.received ≠ dl.totalSize

def Undisturbed (tab : Tab) : Act → Prop
  | .connect => True
  | .message view => ∀ m ∈ incoming view, Apart tab m

instance decidableApart (tab : Tab) (m : Incoming) : Decidable (Apart tab m) :=
  match m with
  | .begin_ id totalSize _ =>
    inferInstanceAs (Decidable (totalSize ≤ maxDownloadTotalBytes →
      (inProgress tab).length < maxInflightDownloads → id ∉ (inProgress tab).keys →
      id ∉ tab.downloads ∧ tab.downloads.entries.length < maxInflightDownloads))
  | .chunk _ _ => isTrue trivial
  | .end_ id status =>
    inferInstanceAs (Decidable (∀ dl ∈ tab.downloads.lookup id, dl.connection ≠ tab.connection →
      status ≠ downloadStatusCancel → dl.received ≠ dl.totalSize))

instance decidableUndisturbed (tab : Tab) (a : Act) : Decidable (Undisturbed tab a) :=
  match a with
  | .connect => isTrue trivial
  | .message view => inferInstanceAs (Decidable (∀ m ∈ incoming view, Apart tab m))

section Messages

theorem handleDownloadBegin_incoming (tab : Tab) (payload : Bytes) :
    handleDownloadBegin tab payload =
      if payload.length < 13 ∨ payload.length ≠ 13+(payload.getD 12 0).toNat then tab
      else tab.begin_ (readU32BE payload 0) (readU64BENumber payload 4)
        (displayName ((payload.drop 13).take (payload.getD 12 0).toNat)) := by
  unfold handleDownloadBegin
  by_cases hshort : payload.length < 13
  · rw [if_pos hshort, if_pos (.inl hshort)]
  · simp only [hshort, if_false, false_or]

theorem onMessage_incoming (tab : Tab) (view : Bytes) :
    onMessage tab view = ((incoming view).map tab.take).getD tab := by
  unfold onMessage incoming
  cases parseFrame view with
  | none => rfl
  | some p =>
    obtain ⟨type,payload⟩ := p
    simp only [Option.bind_some]
    by_cases hbegin : type = frameDownloadBegin
    · rw [if_pos hbegin, if_pos hbegin, handleDownloadBegin_incoming]
      split_ifs <;> rfl
    rw [if_neg hbegin, if_neg hbegin]
    by_cases hchunk : type = frameDownloadChunk
    · rw [if_pos hchunk, if_pos hchunk, handleDownloadChunk]
      split_ifs <;> rfl
    rw [if_neg hchunk, if_neg hchunk]
    by_cases hend : type = frameDownloadEnd
    · rw [if_pos hend, if_pos hend, handleDownloadEnd]
      split_ifs <;> rfl
    rw [if_neg hend, if_neg hend]
    rfl

end Messages

section Entries
variable {tab : Tab}

theorem inProgress_erase (id : UInt32) :
    inProgress { tab with downloads := tab.downloads.erase id } = (inProgress tab).kerase id :=
  filter_kerase _ id tab.downloads.nodupKeys

theorem inProgress_insert_own {id : UInt32} {dl : Download}
    (h : dl.connection = tab.connection) :
    inProgress { tab with downloads := tab.downloads.insert id dl } =
      ⟨id,dl⟩::(inProgress tab).kerase id := by
  rw [inProgress, AList.entries_insert, List.filter_cons_of_pos (by simpa using h)]
  exact congrArg _ (filter_kerase _ id tab.downloads.nodupKeys)

theorem inProgress_insert_old {id : UInt32} {dl : Download}
    (h : dl.connection ≠ tab.connection) :
    inProgress { tab with downloads := tab.downloads.insert id dl } =
      (inProgress tab).kerase id := by
  rw [inProgress, AList.entries_insert, List.filter_cons_of_neg (by simpa using h)]
  exact filter_kerase _ id tab.downloads.nodupKeys

end Entries

section Connections
variable {base : List Saved} {tab ref t : Tab}

structure Agree (base : List Saved) (tab ref : Tab) : Prop where
  connection : ref.connection = tab.connection
  saved : tab.saved = base++ref.saved
  own : ref.downloads.entries = inProgress tab

theorem lookup_ref (h : Agree base tab ref) (id : UInt32) (dl : Download) :
    ref.downloads.lookup id = some dl ↔
      tab.downloads.lookup id = some dl ∧ dl.connection = tab.connection := by
  have href := AList.mem_lookup_iff (a := id) (b := dl) (s := ref.downloads)
  have htab := AList.mem_lookup_iff (a := id) (b := dl) (s := tab.downloads)
  rw [Option.mem_def] at href htab
  rw [href, htab, h.own, inProgress, List.mem_filter]
  simp

theorem mem_ref (h : Agree base tab ref) (id : UInt32) :
    id ∈ ref.downloads ↔ id ∈ (inProgress tab).keys := by
  rw [← h.own]
  rfl

theorem ref_none (h : Agree base tab ref) {id : UInt32}
    (hold : ∀ dl, tab.downloads.lookup id = some dl → dl.connection ≠ tab.connection) :
    ref.downloads.lookup id = none := by
  apply Option.eq_none_iff_forall_ne_some.mpr
  intro dl hdl
  obtain ⟨htab,hown⟩ := (lookup_ref h id dl).mp hdl
  exact hold dl htab hown

theorem ref_lookup (h : Agree base tab ref) (id : UInt32) :
    tab.downloads.lookup id = none ∧ ref.downloads.lookup id = none ∨
    (∃ dl, tab.downloads.lookup id = some dl ∧ ref.downloads.lookup id = some dl ∧
      dl.connection = tab.connection) ∨
    ∃ dl, tab.downloads.lookup id = some dl ∧ ref.downloads.lookup id = none ∧
      dl.connection ≠ tab.connection := by
  cases hlookup : tab.downloads.lookup id with
  | none =>
    refine .inl ⟨rfl,ref_none h ?_⟩
    rw [hlookup]
    exact nofun
  | some dl =>
    by_cases hown : dl.connection = tab.connection
    · exact .inr (.inl ⟨dl,rfl,(lookup_ref h id dl).mpr ⟨hlookup,hown⟩,hown⟩)
    · refine .inr (.inr ⟨dl,rfl,ref_none h ?_,hown⟩)
      intro other hother
      cases hlookup.symm.trans hother
      exact hown

theorem agree_erase (h : Agree base tab ref) (id : UInt32) :
    Agree base { tab with downloads := tab.downloads.erase id }
      { ref with downloads := ref.downloads.erase id } := by
  refine ⟨h.connection,h.saved,?_⟩
  rw [inProgress_erase, ← h.own]
  rfl

theorem agree_insert (h : Agree base tab ref) (id : UInt32) (dl : Download)
    (hown : dl.connection = tab.connection) :
    Agree base { tab with downloads := tab.downloads.insert id dl }
      { ref with downloads := ref.downloads.insert id dl } := by
  refine ⟨h.connection,h.saved,?_⟩
  rw [inProgress_insert_own hown, ← h.own]
  exact AList.entries_insert

theorem agree_old (h : Agree base tab ref) {id : UInt32} (hnone : ref.downloads.lookup id = none)
    {downloads : AList fun _ : UInt32 => Download}
    (hkept : inProgress { tab with downloads := downloads } = (inProgress tab).kerase id) :
    Agree base { tab with downloads := downloads } ref := by
  refine ⟨h.connection,h.saved,?_⟩
  rw [hkept, ← h.own]
  exact (List.kerase_of_notMem_keys (AList.lookup_eq_none.mp hnone)).symm

theorem agree_begin (h : Agree base tab ref) {id : UInt32} {totalSize : ℕ} {name : String}
    (hapart : Apart tab (.begin_ id totalSize name)) :
    Agree base (tab.begin_ id totalSize name) (ref.begin_ id totalSize name) := by
  have hcount : ref.downloads.entries.length ≤ tab.downloads.entries.length := by
    rw [h.own]
    exact List.length_filter_le _ _
  have hkeys : id ∈ ref.downloads → id ∈ tab.downloads := by
    intro hmem
    obtain ⟨dl,hdl⟩ := Option.isSome_iff_exists.mp (AList.lookup_isSome.mpr hmem)
    exact AList.lookup_isSome.mp (Option.isSome_iff_exists.mpr
      ⟨dl,((lookup_ref h id dl).mp hdl).1⟩)
  unfold Tab.begin_
  by_cases hlarge : maxDownloadTotalBytes < totalSize
  · rw [if_pos hlarge, if_pos hlarge]
    exact h
  rw [if_neg hlarge, if_neg hlarge]
  by_cases hfull : maxInflightDownloads ≤ ref.downloads.entries.length
  · rw [if_pos hfull, if_pos (Nat.le_trans hfull hcount)]
    exact h
  rw [if_neg hfull]
  by_cases hknown : id ∈ ref.downloads
  · rw [if_pos hknown, if_pos (hkeys hknown)]
    split_ifs <;> exact h
  rw [if_neg hknown]
  rw [h.own] at hfull
  obtain ⟨hnew,hroom⟩ := hapart (not_lt.mp hlarge) (not_le.mp hfull) ((mem_ref h id).not.mp hknown)
  rw [if_neg (not_le.mpr hroom), if_neg hnew]
  have hinsert := agree_insert h id ⟨name,totalSize,0,[],tab.connection⟩ rfl
  simpa only [h.connection] using hinsert

theorem agree_chunk (h : Agree base tab ref) (id : UInt32) (bytes : Bytes) :
    Agree base (tab.chunk id bytes) (ref.chunk id bytes) := by
  unfold Tab.chunk
  rcases ref_lookup h id with ⟨hnone,href⟩ | ⟨dl,hdl,href,hown⟩ | ⟨dl,hdl,href,hold⟩
  · rw [hnone, href]
    exact h
  · rw [hdl, href]
    simp only
    split_ifs
    · exact agree_erase h id
    · exact agree_insert h id _ hown
  · rw [hdl, href]
    simp only
    split_ifs
    · exact agree_old h href (inProgress_erase id)
    · exact agree_old h href (inProgress_insert_old hold)

theorem agree_end (h : Agree base tab ref) {id : UInt32} {status : UInt8}
    (hapart : Apart tab (.end_ id status)) :
    Agree base (tab.end_ id status) (ref.end_ id status) := by
  unfold Tab.end_
  rcases ref_lookup h id with ⟨hnone,href⟩ | ⟨dl,hdl,href,hown⟩ | ⟨dl,hdl,href,hold⟩
  · rw [hnone, href]
    exact h
  · rw [hdl, href]
    have herased := agree_erase h id
    simp only
    split_ifs
    · exact herased
    · exact herased
    · refine ⟨h.connection,?_,herased.own⟩
      show tab.saved++_ = _
      rw [h.saved, h.connection, List.append_assoc]
  · have hshort := hapart dl hdl hold
    rw [hdl, href]
    simp only
    split_ifs with hcancel hcount
    · exact agree_old h href (inProgress_erase id)
    · exact agree_old h href (inProgress_erase id)
    · exact absurd (not_not.mp hcount) (hshort hcancel)

/-- A begin that only an earlier connection turns away is lost. -/
theorem apart_of_begin {id : UInt32} {totalSize : ℕ} {name : String} (h : Agree base tab ref)
    (hafter : Agree base (tab.begin_ id totalSize name) (ref.begin_ id totalSize name)) :
    Apart tab (.begin_ id totalSize name) := by
  intro hsize hroom hnew
  rw [← mem_ref h id] at hnew
  rw [← h.own] at hroom
  by_contra hturned
  have hkept : tab.begin_ id totalSize name = tab := by
    unfold Tab.begin_
    split_ifs with hlarge hfull hknown
    · rfl
    · rfl
    · rfl
    · exact absurd ⟨hknown,not_le.mp hfull⟩ hturned
  have hmade : (ref.begin_ id totalSize name).downloads =
      ref.downloads.insert id ⟨name,totalSize,0,[],ref.connection⟩ := by
    rw [Tab.begin_, if_neg (not_lt.mpr hsize), if_neg (not_le.mpr hroom), if_neg hnew]
  have hown := hafter.own
  rw [hkept, hmade, ← h.own, AList.entries_insert_of_notMem hnew] at hown
  exact List.cons_ne_self _ _ hown

theorem apart_of_end {id : UInt32} {status : UInt8} (h : Agree base tab ref)
    (hafter : Agree base (tab.end_ id status) (ref.end_ id status)) :
    Apart tab (.end_ id status) := by
  intro dl hdl hold hcancel hcount
  have href : ref.downloads.lookup id = none := by
    apply ref_none h
    intro other hother
    cases hdl.symm.trans hother
    exact hold
  have hsaved := hafter.saved
  simp only [Tab.end_, Option.mem_def.mp hdl, href, if_neg hcancel, hcount, ne_eq,
    not_true_eq_false, if_false, ← h.saved] at hsaved
  have hlen := congrArg List.length hsaved
  simp at hlen

/-- One message keeps the tab and the reference together just where entries of earlier
connections are not in its way. -/
theorem agree_take_iff (h : Agree base tab ref) (m : Incoming) :
    Agree base (tab.take m) (ref.take m) ↔ Apart tab m := by
  cases m with
  | begin_ id totalSize name => exact ⟨apart_of_begin h,agree_begin h⟩
  | chunk id bytes => exact ⟨fun _ => trivial,fun _ => agree_chunk h id bytes⟩
  | end_ id status => exact ⟨apart_of_end h,agree_end h⟩

theorem agree_message (h : Agree base tab ref) {view : Bytes}
    (hok : Undisturbed tab (.message view)) :
    Agree base (onMessage tab view) (onMessage ref view) := by
  rw [onMessage_incoming, onMessage_incoming]
  cases hview : incoming view with
  | none => exact h
  | some m => exact (agree_take_iff h m).mpr (hok m hview)

theorem agree_messages {views : List Bytes} (h : Agree base tab ref)
    (hok : Along step Undisturbed tab (views.map .message))
    (hrun : run step tab (views.map .message) = some t) :
    Agree base t (views.foldl onMessage ref) := by
  induction views generalizing tab ref with
  | nil =>
    cases hrun
    exact h
  | cons view views ih =>
    obtain ⟨u,hu,hrest⟩ := (run_cons step).mp hrun
    cases hu
    exact ih (agree_message h hok.1) (hok.2 _ rfl) hrest

def Dated (tab : Tab) : Prop := ∀ e ∈ tab.downloads.entries, e.2.connection ≤ tab.connection

theorem dated_erase (h : Dated tab) (id : UInt32) :
    Dated { tab with downloads := tab.downloads.erase id } :=
  fun e he => h e ((List.kerase_sublist id _).subset he)

theorem dated_insert (h : Dated tab) (id : UInt32) (dl : Download)
    (hdl : dl.connection ≤ tab.connection) :
    Dated { tab with downloads := tab.downloads.insert id dl } := by
  intro e he
  rcases List.mem_cons.mp he with rfl | hrest
  · exact hdl
  · exact dated_erase h id e hrest

theorem dated_take (h : Dated tab) (m : Incoming) : Dated (tab.take m) := by
  cases m with
  | begin_ id totalSize name =>
    simp only [Tab.take, Tab.begin_]
    split_ifs
    · exact h
    · exact h
    · exact h
    · exact dated_insert h id _ (Nat.le_refl _)
  | chunk id bytes =>
    simp only [Tab.take, Tab.chunk]
    split
    · exact h
    · next dl hdl =>
      have hentry := h _ (AList.mem_lookup_iff.mp hdl)
      split_ifs
      · exact dated_erase h id
      · exact dated_insert h id _ hentry
  | end_ id status =>
    simp only [Tab.take, Tab.end_]
    split
    · exact h
    · split_ifs <;> exact dated_erase h id

theorem dated_step {a : Act} (h : Dated tab) (hstep : step tab a = some t) : Dated t := by
  cases a with
  | connect =>
    cases hstep
    exact fun e he => Nat.le_succ_of_le (h e he)
  | message view =>
    cases hstep
    rw [onMessage_incoming]
    cases incoming view with
    | none => exact h
    | some m => exact dated_take h m

theorem agree_connect (h : Dated tab) :
    Agree tab.saved (connectTab tab) ⟨∅,[],tab.connection+1⟩ := by
  refine ⟨rfl,(List.append_nil _).symm,?_⟩
  symm
  apply List.filter_eq_nil_iff.mpr
  intro e he
  have hle : e.2.connection ≤ tab.connection := h e he
  have hnew : e.2.connection ≠ tab.connection+1 := by omega
  simp [connectTab, hnew]

end Connections

section Alone
variable {tab : Tab}

theorem take_connection (tab : Tab) (m : Incoming) :
    (tab.take m).connection = tab.connection := by
  cases m with
  | begin_ id totalSize name =>
    simp only [Tab.take, Tab.begin_]
    split_ifs <;> rfl
  | chunk id bytes =>
    simp only [Tab.take, Tab.chunk]
    split
    · rfl
    · split_ifs <;> rfl
  | end_ id status =>
    simp only [Tab.take, Tab.end_]
    split
    · rfl
    · split_ifs <;> rfl

theorem saved_take {m : Incoming} {b : Saved} (hb : b ∈ (tab.take m).saved) :
    b ∈ tab.saved ∨ b.connection = tab.connection := by
  cases m with
  | begin_ id totalSize name =>
    simp only [Tab.take, Tab.begin_] at hb
    split_ifs at hb <;> exact .inl hb
  | chunk id bytes =>
    simp only [Tab.take, Tab.chunk] at hb
    split at hb
    · exact .inl hb
    · split_ifs at hb <;> exact .inl hb
  | end_ id status =>
    simp only [Tab.take, Tab.end_] at hb
    split at hb
    · exact .inl hb
    · split_ifs at hb
      · exact .inl hb
      · exact .inl hb
      · rcases List.mem_append.mp hb with hold | hnew
        · exact .inl hold
        · rw [List.mem_singleton.mp hnew]
          exact .inr rfl

theorem alone_concat (connection : ℕ) (views : List Bytes) (view : Bytes) :
    alone connection (views++[view]) = onMessage (alone connection views) view := by
  rw [alone, List.foldl_append]
  rfl

/-- A tab with one connection saves what the messages of that connection add up to. -/
theorem traced_alone (connection : ℕ) (views : List Bytes) :
    (alone connection views).connection = connection ∧
      (∀ b ∈ (alone connection views).saved, b.connection = connection) ∧
      ∃ history, Traced history (alone connection views) ∧
        history connection = views.filterMap incoming := by
  induction views using List.reverseRecOn with
  | nil =>
    refine ⟨rfl,nofun,fun _ => [],⟨?_,nofun⟩,rfl⟩
    intro i dl hdl
    cases (AList.lookup_empty i).symm.trans hdl
  | append_singleton views view ih =>
    obtain ⟨hconnection,hsaved,history,htraced,hhistory⟩ := ih
    rw [alone_concat, onMessage_incoming, List.filterMap_append]
    cases hview : incoming view with
    | none =>
      refine ⟨hconnection,hsaved,history,htraced,?_⟩
      simp [hview, hhistory]
    | some m =>
      refine ⟨(take_connection _ m).trans hconnection,?_,_,traced_take htraced m,?_⟩
      · intro b hb
        rcases saved_take hb with hold | hnew
        · exact hsaved b hold
        · exact hnew.trans hconnection
      · rw [hconnection, heard_self, hhistory]
        simp [hview]

end Alone

section Lives
variable {connections : List (List Bytes)} {tab : Tab}

theorem life_concat (connections : List (List Bytes)) (views : List Bytes) :
    life (connections++[views]) = life connections++(.connect::views.map .message) := by
  simp [life]

theorem savedAlone_concat (connections : List (List Bytes)) (views : List Bytes) :
    savedAlone (connections++[views]) =
      savedAlone connections++(alone (connections.length+1) views).saved := by
  rw [savedAlone, List.zipIdx_append, List.flatMap_append, Nat.add_comm]
  simp [savedAlone]

theorem dated_new : Dated Tab.new := by
  intro e he
  cases he

theorem dated_life (hrun : run step Tab.new (life connections) = some tab) : Dated tab :=
  run_invariant step (fun _ _ _ h hstep => dated_step h hstep) dated_new hrun

theorem life_saved (hrun : run step Tab.new (life connections) = some tab)
    (hok : Along step Undisturbed Tab.new (life connections)) :
    tab.saved = savedAlone connections ∧ tab.connection = connections.length := by
  induction connections using List.reverseRecOn generalizing tab with
  | nil =>
    cases hrun
    exact ⟨rfl,rfl⟩
  | append_singleton connections views ih =>
    rw [life_concat] at hrun hok
    obtain ⟨u,hu,hlast⟩ := (run_append step).mp hrun
    obtain ⟨hsaved,hconnection⟩ := ih hu (along_append step hok)
    obtain ⟨v,hv,hmessages⟩ := (run_cons step).mp hlast
    cases hv
    have hrest := (along_rest step hok hu).2 _ rfl
    have hagree := agree_messages (agree_connect (dated_life hu)) hrest hmessages
    rw [hconnection, hsaved] at hagree
    refine ⟨?_,?_⟩
    · rw [savedAlone_concat]
      exact hagree.saved
    · rw [← hagree.connection, List.length_append]
      exact (traced_alone (connections.length+1) views).1

/-- On every connection the tab saves what a new tab saves from the messages of that connection
alone, and each file is of one begin, its chunks and its end there, as long as entries of
earlier connections are not in the way. -/
theorem saved_as_alone (connections : List (List Bytes)) (tab : Tab)
    (hrun : run step Tab.new (life connections) = some tab)
    (hok : Along step Undisturbed Tab.new (life connections)) :
    tab.saved = savedAlone connections ∧
      ∀ b ∈ tab.saved, ∃ views chunks status, connections[b.connection-1]? = some views ∧
        (opening b.downloadId b.bytes.length b.name chunks++
          [Incoming.end_ b.downloadId status]).Sublist (views.filterMap incoming) ∧
        status ≠ downloadStatusCancel ∧ b.bytes = chunks.flatten := by
  obtain ⟨hsaved,-⟩ := life_saved hrun hok
  refine ⟨hsaved,?_⟩
  intro b hb
  rw [hsaved] at hb
  obtain ⟨⟨views,connection⟩,hviews,hb⟩ := List.mem_flatMap.mp hb
  obtain ⟨-,hnumber,history,htraced,hhistory⟩ := traced_alone connection views
  obtain ⟨chunks,status,hpart,hstatus,hbytes⟩ := htraced.saved b hb
  rw [hnumber b hb, hhistory] at hpart
  rw [hnumber b hb]
  exact ⟨views,chunks,status,(List.mk_mem_zipIdx_iff_le_and_getElem?_sub.mp hviews).2,hpart,
    hstatus,hbytes⟩

def sent (events : ℕ) (id : UInt32) (path : String) (env : FileEnv) : List Bytes :=
  ((downloadTask id path env).1.take events).map fun e => encode (downloadFrame 0 e)

def fourBytes : FileEnv := ⟨true,some (true,4),true,[.bytes [1,2] true,.bytes [3,4] true]⟩
def twoBytes : FileEnv := ⟨true,some (true,2),true,[.bytes [7,7] true]⟩

def reattached : List (List Bytes) := [sent 2 1 "a" fourBytes,sent 3 2 "b" twoBytes]

theorem reattached_as_alone :
    ∃ tab, run step Tab.new (life reattached) = some tab ∧ tab.saved = [⟨2,"b",[7,7],2⟩] ∧
      tab.saved = savedAlone reattached ∧
      ∀ b ∈ tab.saved, ∃ views chunks status, reattached[b.connection-1]? = some views ∧
        (opening b.downloadId b.bytes.length b.name chunks++
          [Incoming.end_ b.downloadId status]).Sublist (views.filterMap incoming) ∧
        status ≠ downloadStatusCancel ∧ b.bytes = chunks.flatten := by
  have hfacts : ((run step Tab.new (life reattached)).map fun tab => tab.saved) =
      some [⟨2,"b",[7,7],2⟩] := by
    decide +kernel
  have hok : Along step Undisturbed Tab.new (life reattached) := by
    decide +kernel
  obtain ⟨tab,hrun,hsaved⟩ := Option.map_eq_some_iff.mp hfacts
  exact ⟨tab,hrun,hsaved,saved_as_alone reattached tab hrun hok⟩

def respawned : List (List Bytes) := [sent 2 1 "a" fourBytes,sent 3 1 "b" twoBytes]

/-- The begin of the second file is refused, and its bytes complete the first one. -/
theorem respawned_mixes :
    ∃ tab, run step Tab.new (life respawned) = some tab ∧
      tab.saved = [⟨1,"a",[1,2,7,7],2⟩] ∧ savedAlone respawned = [⟨1,"b",[7,7],2⟩] ∧
      tab.saved ≠ savedAlone respawned := by
  have hfacts : ((run step Tab.new (life respawned)).map fun tab => tab.saved) =
      some [⟨1,"a",[1,2,7,7],2⟩] := by
    decide +kernel
  have halone : savedAlone respawned = [⟨1,"b",[7,7],2⟩] := by
    decide +kernel
  obtain ⟨tab,hrun,hsaved⟩ := Option.map_eq_some_iff.mp hfacts
  refine ⟨tab,hrun,hsaved,halone,?_⟩
  rw [hsaved, halone]
  decide

end Lives

end Term.DownloadReconnects
