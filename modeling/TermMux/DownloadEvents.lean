import TermMux.SavedDownloads

/-!
# The events of a download

A download that cannot begin publishes a lone cancelling end. Any other publishes its
begin, chunks that stay within the declared size, and one end. The end comes from the read
loop when it reached the end of the file with the declared size, and from the task around
it on every error, so there is always exactly one while somebody listens.
-/

set_option autoImplicit false

namespace Term.DownloadEvents
open Term.AgentFrames Term.ByteOrder Term.DownloadStream Term.FrameModel Term.Machine
open Term.SavedDownloads

def AtEof : List Read → Prop
  | [] => True
  | .failed::_ => False
  | .bytes b _::_ => b = []

/-- With `sent` bytes behind it the loop reads pieces up to the end of the file, without an
error and without passing the declared size. -/
def ReachesEof (total sent : ℕ) (reads : List Read) : Prop :=
  ∃ (pieces : List Bytes) (rest : List Read),
    reads = pieces.map (fun b => Read.bytes b true)++rest ∧ (∀ b ∈ pieces, b ≠ []) ∧ AtEof rest ∧
      sent+pieces.flatten.length ≤ total

inductive Protocol (id : UInt32) (env : FileEnv) : List DownloadEvent → Prop
  | cancelled : Protocol id env [.end_ id downloadStatusCancel]
  | streamed {total : UInt64} {name : String} {chunks : List Bytes} {status : UInt8}
      (stated : env.metadata = some (true,total))
      (bounded : ∀ c ∈ chunks, c.length ≤ maxPasteChunkBytes)
      (within : chunks.flatten.length ≤ total.toNat)
      (status_cases : status = downloadStatusOk ∨ status = downloadStatusCancel)
      (ok_iff : status = downloadStatusOk ↔
        chunks.flatten.length = total.toNat ∧ ReachesEof total.toNat 0 env.reads) :
      Protocol id env (.begin_ id total name::(chunks.map (.chunk id)++[.end_ id status]))

structure Listened (env : FileEnv) : Prop where
  heard : env.heard = true
  chunks_heard : ∀ b heard, Read.bytes b heard ∈ env.reads → heard = true
  buffered : ∀ r ∈ env.reads, Within r

theorem reachesEof_of_atEof {total sent : ℕ} {reads : List Read} (h : AtEof reads) :
    ReachesEof total sent reads ↔ sent ≤ total := by
  constructor
  · rintro ⟨pieces,rest,-,-,-,hle⟩
    omega
  · intro hle
    exact ⟨[],reads,rfl,nofun,h,by simpa using hle⟩

theorem reachesEof_cons {total sent : ℕ} {b : Bytes} {reads : List Read} (hb : b ≠ []) :
    ReachesEof total sent (.bytes b true::reads) ↔ ReachesEof total (sent+b.length) reads := by
  constructor
  · rintro ⟨pieces,rest,heq,hne,heof,hle⟩
    cases pieces with
    | nil =>
      rw [List.map_nil, List.nil_append] at heq
      rw [← heq] at heof
      exact absurd heof hb
    | cons p pieces =>
      rw [List.map_cons, List.cons_append, List.cons.injEq] at heq
      obtain ⟨hp,heq⟩ := heq
      cases hp
      rw [List.flatten_cons, List.length_append] at hle
      exact ⟨pieces,rest,heq,fun c hc => hne c (List.mem_cons_of_mem _ hc),heof,by omega⟩
  · rintro ⟨pieces,rest,heq,hne,heof,hle⟩
    refine ⟨b::pieces,rest,by rw [heq]; rfl,List.forall_mem_cons.mpr ⟨hb,hne⟩,heof,?_⟩
    rw [List.flatten_cons, List.length_append]
    omega

theorem not_reachesEof_failed {total sent : ℕ} {reads : List Read} :
    ¬ReachesEof total sent (.failed::reads) := by
  rintro ⟨pieces,rest,heq,-,heof,-⟩
  cases pieces with
  | nil =>
    rw [List.map_nil, List.nil_append] at heq
    rw [← heq] at heof
    exact heof
  | cons p pieces => cases heq

theorem reachesEof_le {total sent : ℕ} {reads : List Read} (h : ReachesEof total sent reads) :
    sent ≤ total := by
  obtain ⟨pieces,rest,-,-,-,hle⟩ := h
  omega

structure LoopEnds (id : UInt32) (total sent : ℕ) (reads : List Read) (chunks : List Bytes) :
    Prop where
  bounded : ∀ c ∈ chunks, c.length ≤ maxPasteChunkBytes
  within : sent+chunks.flatten.length ≤ total
  ends : readLoop id total sent reads = (chunks.map (.chunk id)++[.end_ id downloadStatusOk],none) ∧
      sent+chunks.flatten.length = total ∧ ReachesEof total sent reads ∨
    ∃ e, readLoop id total sent reads = (chunks.map (.chunk id),some e) ∧
      ¬(sent+chunks.flatten.length = total ∧ ReachesEof total sent reads)

theorem endOfFile_ends {id : UInt32} {total sent : ℕ} {reads : List Read} (hle : sent ≤ total)
    (heof : AtEof reads) (hloop : readLoop id total sent reads = endOfFile id total sent) :
    LoopEnds id total sent reads [] := by
  refine ⟨nofun,by simpa using hle,?_⟩
  rw [hloop, endOfFile, reachesEof_of_atEof heof]
  split_ifs with h
  · exact .inr ⟨_,rfl,fun hsame => h (by simpa using hsame.1)⟩
  · exact .inl ⟨rfl,by simpa using h,hle⟩

theorem readLoop_ends (id : UInt32) {total sent : ℕ} {reads : List Read} (hle : sent ≤ total)
    (hheard : ∀ b heard, Read.bytes b heard ∈ reads → heard = true)
    (hbuf : ∀ r ∈ reads, Within r) : ∃ chunks, LoopEnds id total sent reads chunks := by
  induction reads generalizing sent with
  | nil => exact ⟨[],endOfFile_ends hle trivial rfl⟩
  | cons r rest ih =>
    cases r with
    | failed =>
      exact ⟨[],nofun,by simpa using hle,.inr ⟨_,rfl,fun h => not_reachesEof_failed h.2⟩⟩
    | bytes b heard =>
      cases hheard b heard List.mem_cons_self
      by_cases hb : b = []
      · exact ⟨[],endOfFile_ends hle hb (by rw [readLoop, if_pos hb])⟩
      have hgrow := @reachesEof_cons total sent b rest hb
      by_cases hover : total < sent+b.length
      · -- The file grew past the declared size.
        refine ⟨[],nofun,by simpa using hle,.inr ⟨_,by rw [readLoop, if_neg hb, if_pos hover]; rfl,?_⟩⟩
        rintro ⟨-,hend⟩
        have := reachesEof_le (hgrow.mp hend)
        omega
      · obtain ⟨chunks,hchunks,hwithin,hends⟩ := @ih (sent+b.length) (by omega)
          (fun c heard hc => hheard c heard (List.mem_cons_of_mem _ hc))
          (fun r hr => hbuf r (List.mem_cons_of_mem _ hr))
        have hlen : sent+(b::chunks).flatten.length = sent+b.length+chunks.flatten.length := by
          rw [List.flatten_cons, List.length_append, Nat.add_assoc]
        have hloop : readLoop id total sent (.bytes b true::rest) =
            (.chunk id b::(readLoop id total (sent+b.length) rest).1,
              (readLoop id total (sent+b.length) rest).2) := by
          rw [readLoop, if_neg hb, if_neg hover]
          rfl
        refine ⟨b::chunks,List.forall_mem_cons.mpr ⟨hbuf _ List.mem_cons_self,hchunks⟩,?_,?_⟩
        · rw [hlen]
          exact hwithin
        · rw [hlen, hgrow, hloop]
          rcases hends with ⟨heq,hsame,hend⟩ | ⟨e,heq,hnot⟩
          · rw [heq]
            exact .inl ⟨rfl,hsame,hend⟩
          · rw [heq]
            exact .inr ⟨e,rfl,hnot⟩

theorem downloadTask_protocol (id : UInt32) (path : String) {env : FileEnv} (h : Listened env) :
    Protocol id env (downloadTask id path env).1 := by
  unfold downloadTask streamDownload
  by_cases hopens : env.opens = false
  · rw [if_pos hopens]
    exact .cancelled
  rw [if_neg hopens]
  cases hmeta : env.metadata with
  | none => exact .cancelled
  | some m =>
    obtain ⟨isFile,total⟩ := m
    simp only
    cases isFile with
    | false => exact .cancelled
    | true =>
      by_cases hlarge : maxPasteTotalBytes < total.toNat
      · rw [if_neg Bool.noConfusion, if_pos hlarge]
        exact .cancelled
      rw [if_neg Bool.noConfusion, if_neg hlarge, if_neg (by rw [h.heard]; exact Bool.noConfusion)]
      obtain ⟨chunks,hbounded,hwithin,hends⟩ :=
        readLoop_ends id (Nat.zero_le total.toNat) h.chunks_heard h.buffered
      rw [Nat.zero_add] at hwithin hends
      rcases hends with ⟨heq,hsame,hend⟩ | ⟨e,heq,hnot⟩
      · rw [heq]
        exact .streamed hmeta hbounded hwithin (.inl rfl) ⟨fun _ => ⟨hsame,hend⟩,fun _ => rfl⟩
      · rw [heq]
        exact .streamed hmeta hbounded hwithin (.inr rfl) ⟨nofun,fun hok => absurd hok hnot⟩

section Sessions
variable {s t : Session} {a : SessionAct}

def ActListened : SessionAct → Prop
  | .download _ env => Listened env
  | .send _ => True

theorem listened_step (h : ∀ d ∈ s.started, Listened d.env) (ha : ActListened a)
    (hstep : s.step a = some t) : ∀ d ∈ t.started, Listened d.env := by
  cases a with
  | download path env =>
    cases hstep
    exact forall_mem_concat h ha
  | send k =>
    obtain ⟨d,e,rest,hd,-,rfl⟩ := send_event hstep
    exact forall_mem_set h (h d (List.mem_of_getElem? hd))

/-- Every download follows the protocol, and so does what a session publishes under its id
among the events of all the others, as far as it has come. -/
theorem download_protocol :
    (∀ id path env, Listened env → Protocol id env (downloadTask id path env).1) ∧
    ∀ acts s, (∀ a ∈ acts, ActListened a) → run Session.step Session.new acts = some s →
      s.started.length < 2^32 → ∀ d ∈ s.started,
        Protocol d.id d.env (s.log.filter (fun e => eventId e = d.id)++d.todo) := by
  refine ⟨fun id path env h => downloadTask_protocol id path h,?_⟩
  intro acts s hacts hrun hfew d hd
  have hinv : Accounted s ∧ ∀ d ∈ s.started, Listened d.env := by
    refine run_along Session.step (I := fun s => Accounted s ∧ ∀ d ∈ s.started, Listened d.env)
      ?_ ⟨accounted_new,nofun⟩ (along_of_forall Session.step hacts) hrun
    rintro u a v ⟨hacc,hall⟩ ha hstep
    exact ⟨accounted_step hacc hstep,listened_step hall ha hstep⟩
  rw [← hinv.1.events hfew d hd]
  exact downloadTask_protocol d.id d.path (hinv.2 d hd)

end Sessions

def shortFile : FileEnv := ⟨true,some (true,3),true,[.bytes [1,2] true,.bytes [3] true]⟩

theorem listened_shortFile : Listened shortFile := by
  refine ⟨rfl,?_,?_⟩
  · intro b heard h
    simp [shortFile] at h
    rcases h with ⟨-,h⟩ | ⟨-,h⟩
    · exact h
    · exact h
  · decide

theorem download_protocol_shortFile :
    Protocol 1 shortFile (downloadTask 1 "/f" shortFile).1 ∧
    ∃ s, run Session.step Session.new [.download "/f" shortFile,.send 0] = some s ∧
      ∀ d ∈ s.started,
        Protocol d.id d.env (s.log.filter (fun e => eventId e = d.id)++d.todo) := by
  have hacts : ∀ a ∈ [SessionAct.download "/f" shortFile,.send 0], ActListened a := by
    simpa [ActListened] using listened_shortFile
  refine ⟨download_protocol.1 1 "/f" shortFile listened_shortFile,_,rfl,?_⟩
  exact download_protocol.2 _ _ hacts rfl (by decide)

end Term.DownloadEvents
