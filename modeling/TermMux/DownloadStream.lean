import TermMux.AsciiText
import TermMux.FrameModel
import TermMux.PasteNames

/-!
# Streaming a download

`stream_download` over what the file system and the download channel answer, and
the task around it that reports a failure. A failure is reported on the PTY's
input, as a line between carriage returns.
-/

set_option autoImplicit false

namespace Term.DownloadStream
open Term.AsciiText Term.ByteOrder Term.FrameModel Term.PasteNames Term.Utf8Text

inductive DownloadEvent where
  | begin_ (id : UInt32) (totalSize : UInt64) (name : String)
  | chunk (id : UInt32) (bytes : Bytes)
  | end_ (id : UInt32) (status : UInt8)
  deriving DecidableEq, Repr

/-- One `read`, and whether the chunk sent for it reaches a subscriber. -/
inductive Read where
  | failed
  | bytes (b : Bytes) (heard : Bool)
  deriving DecidableEq, Repr

/-- The file behind a path: `metadata` is `is_file` and the length, and past the last
of `reads` the file is at its end. -/
structure FileEnv where
  opens : Bool
  metadata : Option (Bool × UInt64)
  heard : Bool
  reads : List Read
  deriving DecidableEq, Repr

inductive DownloadError where
  | opening
  | stat
  | notRegular
  | tooLarge (size : ℕ)
  | reading
  | grew (declared wouldSend : ℕ)
  | shrank (declared sent : ℕ)
  deriving DecidableEq, Repr

def DownloadError.display (path : Bytes) : DownloadError → Bytes
  | .opening => asBytes "opening "++path
  | .stat => asBytes "stat "++path
  | .notRegular => path++asBytes " is not a regular file"
  | .tooLarge size => path++asBytes " is "++decimal size++asBytes " bytes; over 4 GiB cap"
  | .reading => asBytes "reading "++path
  | .grew declared wouldSend =>
    path++asBytes " grew during read: declared "++decimal declared++asBytes ", would send "++
      decimal wouldSend
  | .shrank declared sent =>
    path++asBytes " shrank during read: declared "++decimal declared++asBytes ", sent "++
      decimal sent

def endOfFile (id : UInt32) (total sent : ℕ) : List DownloadEvent × Option DownloadError :=
  if sent ≠ total then ([],some (.shrank total sent)) else ([.end_ id downloadStatusOk],none)

def readLoop (id : UInt32) (total : ℕ) : ℕ → List Read → List DownloadEvent × Option DownloadError
  | sent, [] => endOfFile id total sent
  | _, .failed::_ => ([],some .reading)
  | sent, .bytes b heard::rest =>
    if b = [] then endOfFile id total sent
    else if total < sent+b.length then ([],some (.grew total (sent+b.length)))
    else if heard = false then ([],none)
    else
      let (events,result) := readLoop id total (sent+b.length) rest
      (.chunk id b::events,result)

def streamDownload (id : UInt32) (path : String) (env : FileEnv) :
    List DownloadEvent × Option DownloadError :=
  if env.opens = false then ([],some .opening) else
  match env.metadata with
  | none => ([],some .stat)
  | some (isFile,len) =>
    if isFile = false then ([],some .notRegular)
    else if maxPasteTotalBytes < len.toNat then ([],some (.tooLarge len.toNat))
    else if env.heard = false then ([],none)
    else
      let name := ((fileName path.toList).map String.ofList).getD "download"
      let (events,result) := readLoop id len.toNat 0 env.reads
      (.begin_ id len name::events,result)

def bytesRead (total : ℕ) : ℕ → List Read → Bytes
  | _, [] => []
  | _, .failed::_ => []
  | sent, .bytes b heard::rest =>
    if b = [] then []
    else if total < sent+b.length then b
    else if heard = false then b
    else b++bytesRead total (sent+b.length) rest

/-- `format!("\rterm-dl: {}: {e}\r\n", path.display())`. -/
def failureLine (path : String) (e : DownloadError) : Bytes :=
  0x0D::asBytes "term-dl: "++asBytes path++asBytes ": "++e.display (asBytes path)++[0x0D,0x0A]

/-- The spawned task: the events it sends and the line it writes to the PTY. -/
def downloadTask (id : UInt32) (path : String) (env : FileEnv) :
    List DownloadEvent × Option Bytes :=
  match streamDownload id path env with
  | (events,none) => (events,none)
  | (events,some e) => (events++[.end_ id downloadStatusCancel],some (failureLine path e))

def readsOk (total : ℕ) : ℕ → List Read → Prop
  | sent, [] => sent = total
  | _, .failed::_ => False
  | sent, .bytes b heard::rest =>
    if b = [] then sent = total
    else sent+b.length ≤ total ∧ (heard = true → readsOk total (sent+b.length) rest)

/-- The path is a readable regular file within the size cap that does not change
length while it is sent. -/
def Served (env : FileEnv) : Prop :=
  env.opens = true ∧ ∃ len, env.metadata = some (true,len) ∧ len.toNat ≤ maxPasteTotalBytes ∧
    (env.heard = true → readsOk len.toNat 0 env.reads)

theorem endOfFile_ok_iff (id : UInt32) (total sent : ℕ) :
    (endOfFile id total sent).2 = none ↔ sent = total := by
  unfold endOfFile
  by_cases h : sent = total
  · simp [h]
  · simp [h]

theorem readLoop_ok_iff (id : UInt32) (total sent : ℕ) (reads : List Read) :
    (readLoop id total sent reads).2 = none ↔ readsOk total sent reads := by
  induction reads generalizing sent with
  | nil => exact endOfFile_ok_iff id total sent
  | cons r rest ih =>
    cases r with
    | failed => simp [readLoop, readsOk]
    | bytes b heard =>
      unfold readLoop readsOk
      by_cases hb : b = []
      · rw [if_pos hb, if_pos hb]
        exact endOfFile_ok_iff id total sent
      · rw [if_neg hb, if_neg hb]
        by_cases hover : total < sent+b.length
        · rw [if_pos hover]
          constructor
          · intro h
            cases h
          · intro h
            exact absurd h.1 (by omega)
        · rw [if_neg hover]
          cases heard with
          | false => simpa using not_lt.mp hover
          | true => simpa [ih] using fun _ => not_lt.mp hover

/-- The loop sends nonempty chunks. If it ends well, these are all it has read, and as much
as was declared. -/
theorem readLoop_chunks (id : UInt32) (total sent : ℕ) (reads : List Read) : ∃ chunks : List Bytes,
    (∀ c ∈ chunks, c ≠ []) ∧
      (readLoop id total sent reads = (chunks.map (.chunk id)++[.end_ id downloadStatusOk],none) ∧
          chunks.flatten = bytesRead total sent reads ∧ sent+chunks.flatten.length = total ∨
        ∃ result, readLoop id total sent reads = (chunks.map (.chunk id),result)) := by
  have hend : ∀ sent, endOfFile id total sent = ([.end_ id downloadStatusOk],none) ∧ sent = total ∨
      ∃ result, endOfFile id total sent = ([],result) := by
    intro sent
    unfold endOfFile
    split_ifs with h
    · exact .inr ⟨_,rfl⟩
    · exact .inl ⟨rfl,not_not.mp h⟩
  induction reads generalizing sent with
  | nil =>
    refine ⟨[],nofun,?_⟩
    rcases hend sent with ⟨heq,hsent⟩ | ⟨result,heq⟩
    · exact .inl ⟨heq,rfl,hsent⟩
    · exact .inr ⟨result,heq⟩
  | cons r rest ih =>
    cases r with
    | failed => exact ⟨[],nofun,.inr ⟨_,rfl⟩⟩
    | bytes b heard =>
      unfold readLoop bytesRead
      by_cases hb : b = []
      · rw [if_pos hb, if_pos hb]
        refine ⟨[],nofun,?_⟩
        rcases hend sent with ⟨heq,hsent⟩ | ⟨result,heq⟩
        · exact .inl ⟨heq,rfl,hsent⟩
        · exact .inr ⟨result,heq⟩
      · rw [if_neg hb, if_neg hb]
        by_cases hover : total < sent+b.length
        · rw [if_pos hover]
          exact ⟨[],nofun,.inr ⟨_,rfl⟩⟩
        · rw [if_neg hover, if_neg hover]
          cases heard with
          | false => exact ⟨[],nofun,.inr ⟨_,rfl⟩⟩
          | true =>
            simp only [Bool.true_eq_false, if_false]
            obtain ⟨chunks,hne,hcases⟩ := ih (sent+b.length)
            refine ⟨b::chunks,List.forall_mem_cons.mpr ⟨hb,hne⟩,?_⟩
            rcases hcases with ⟨heq,hbytes,hsent⟩ | ⟨result,heq⟩
            · left
              rw [heq, List.flatten_cons, hbytes]
              refine ⟨rfl,rfl,?_⟩
              rw [List.length_append, ← hbytes, ← Nat.add_assoc, hsent]
            · right
              rw [heq]
              exact ⟨result,rfl⟩

/-- A download fails exactly if its file cannot be served. -/
theorem streamDownload_ok_iff (id : UInt32) (path : String) (env : FileEnv) :
    (streamDownload id path env).2 = none ↔ Served env := by
  unfold streamDownload Served
  cases hopen : env.opens with
  | false => simp
  | true =>
    cases hm : env.metadata with
    | none => simp
    | some m =>
      obtain ⟨isFile,len⟩ := m
      cases isFile with
      | false => simp
      | true =>
        by_cases hcap : maxPasteTotalBytes < len.toNat
        · simp [hcap]
        · cases hheard : env.heard with
          | false => simpa [hcap] using not_lt.mp hcap
          | true => simpa [hcap, readLoop_ok_iff] using fun _ => not_lt.mp hcap

instance (env : FileEnv) : Decidable (Served env) :=
  decidable_of_iff ((streamDownload 0 "" env).2 = none) (streamDownload_ok_iff 0 "" env)

theorem downloadTask_quiet_iff (id : UInt32) (path : String) (env : FileEnv) :
    (downloadTask id path env).2 = none ↔ Served env := by
  rw [← streamDownload_ok_iff id path env, downloadTask]
  cases h : streamDownload id path env with
  | mk events result =>
    cases result with
    | none => simp
    | some e => simp

end Term.DownloadStream
