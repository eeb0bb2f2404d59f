import TermMux.PasteGroups
import Mathlib.Data.Multiset.AddSub
import Mathlib.Logic.Function.Iterate

/-!
# A paste action of the browser and the agent that receives it

`sendPasteFiles` and `sendPasteFile` of the web client, cut at the points where
they await: between two steps the client waits for a slice of the current file, or has
returned. Its frames reach the agent in order and so do the agent's rejections
on their way back, which the client sees at any of its awaits. Next to the registries the
agent's side has the temporary files of the group, the blocks of paths it has
typed, and what became of each file.
-/

set_option autoImplicit false

namespace Term.PasteClient
open Term.ByteOrder Term.FrameModel Term.PasteGroups Term.PasteNames Term.PasteUpload

structure BlobFile where
  size : ℕ
  name : String
  deriving DecidableEq, Repr

def nextPasteId (last : UInt32) : UInt32 := if last+1 = 0 then 1 else last+1

inductive Sent where
  | pasteBegin (pasteId : UInt32) (size : ℕ) (name : String)
  | pasteChunk (pasteId : UInt32) (bytes : Bytes)
  | pasteEnd (pasteId : UInt32) (status : UInt8)
  deriving DecidableEq, Repr

structure Reading where
  pasteId : UInt32
  size : ℕ
  offset : ℕ
  deriving DecidableEq, Repr

/-- The tab during one `sendPasteFiles`; `current` is `none` once it has returned. The
entry of `_pasteToGroup` is always that of the current file. -/
structure Client where
  files : List BlobFile
  lastPasteId : UInt32
  current : Option Reading
  abortedPastes : List UInt32
  groupAborted : Bool
  deriving DecidableEq, Repr

/-- The loop of `sendPasteFiles`, up to the next await. An empty file is sent without one. -/
def dispatch (c : Client) : List BlobFile → Client × List Sent
  | [] => ({ c with files := [], current := none },[])
  | f::rest =>
    if c.groupAborted then ({ c with files := [], current := none },[])
    else if maxPasteTotalBytes < f.size then dispatch c rest
    else
      let pasteId := nextPasteId c.lastPasteId
      if f.size = 0 then
        let (c',sent) := dispatch { c with lastPasteId := pasteId } rest
        (c',.pasteBegin pasteId f.size f.name::.pasteEnd pasteId pasteStatusOk::sent)
      else
        ({ c with files := rest, lastPasteId := pasteId, current := some ⟨pasteId,f.size,0⟩ },
          [.pasteBegin pasteId f.size f.name])

/-- `sendPasteFile` returns: its `finally`, then the loop goes on. -/
def finish (c : Client) (pasteId : UInt32) : Client × List Sent :=
  dispatch { c with abortedPastes := c.abortedPastes.filter (· ≠ pasteId) } c.files

def resume (c : Client) (read : Option Bytes) : Option (Client × List Sent) :=
  match c.current with
  | none => none
  | some r =>
    let rest := finish c r.pasteId
    match read with
    | none => some (rest.1,.pasteEnd r.pasteId pasteStatusCancel::rest.2)
    | some buf =>
      -- A rejected paste is left without an end.
      if r.pasteId ∈ c.abortedPastes then some rest
      else
        let offset := min (r.offset+maxPasteChunkBytes) r.size
        if offset < r.size then
          some ({ c with current := some { r with offset := offset } },[.pasteChunk r.pasteId buf])
        else some (rest.1,.pasteChunk r.pasteId buf::.pasteEnd r.pasteId pasteStatusOk::rest.2)

def hear (c : Client) (pasteId : UInt32) : Client :=
  { c with
    abortedPastes := pasteId::c.abortedPastes
    groupAborted := c.groupAborted || c.current.any fun r => r.pasteId = pasteId }

def sendPasteFiles (lastPasteId : UInt32) (controllerStatus : UInt8) (files : List BlobFile) :
    Client × List Sent :=
  let c : Client := ⟨[],lastPasteId,none,[],false⟩
  if controllerStatus ≠ controllerStatusSelf ∨
      maxPasteTotalBytes < (files.map BlobFile.size).sum then (c,[])
  else dispatch c files

/-- What became of a file at the agent: its begin was refused and left no trace; it was lost,
but its group stays registered; it took its group with it; it is finished. -/
inductive Verdict where
  | refused | stuck | dropped | staged
  deriving DecidableEq, Repr

def verdict (limits : Limits) (dir : Bytes) (p : Pending) : PasteFrame → Option Verdict
  | .pasteBegin controller env pasteId totalSize groupId _ name =>
    if controller = false ∨ Refused limits p pasteId totalSize groupId then some .refused
    else if Oversize p totalSize groupId then some .dropped
    else if (openPasteFile env dir name).isOk = false then some .stuck
    else none
  | .pasteChunk writeOk pasteId bytes =>
    match p.pastes.lookup pasteId with
    | none => none
    | some paste =>
      if paste.totalSize < saturatingAdd paste.written bytes.length ∨ writeOk = false then some .stuck
      else none
  | .pasteEnd _ pasteId status =>
    match p.pastes.lookup pasteId with
    | none => none
    | some paste =>
      if status = pasteStatusCancel ∨ paste.written ≠ paste.totalSize then some .dropped
      else some .staged

/-- The agent's side: `temp` are the temporary files of the group that are neither
typed nor removed, `blocks` the paths it has typed for the group. -/
structure Agent where
  pending : Pending
  temp : Multiset Bytes
  blocks : List (List Bytes)
  verdicts : List Verdict

structure Config where
  limits : Limits
  dir : Bytes
  groupId : UInt32
  files : List BlobFile
  lastPasteId : UInt32

def Config.groupSize (cfg : Config) : UInt32 := UInt32.ofNat cfg.files.length

def Config.pasteId (cfg : Config) (j : ℕ) : UInt32 := nextPasteId^[j+1] cfg.lastPasteId

structure Found where
  controller : Bool
  env : PasteEnv
  writeOk : Bool

def Config.frame (cfg : Config) (found : Found) : Sent → PasteFrame
  | .pasteBegin pasteId size name => .pasteBegin found.controller found.env pasteId
      (UInt64.ofNat size) cfg.groupId cfg.groupSize name
  | .pasteChunk pasteId bytes => .pasteChunk found.writeOk pasteId bytes
  | .pasteEnd pasteId status => .pasteEnd found.controller pasteId status

def Sent.pasteId : Sent → UInt32
  | .pasteBegin pasteId _ _ => pasteId
  | .pasteChunk pasteId _ => pasteId
  | .pasteEnd pasteId _ => pasteId

def opened (h : Handled) : Sent → Multiset Bytes
  | .pasteBegin pasteId _ _ =>
    match h.reject, h.pending.pastes.lookup pasteId with
    | none, some paste => {paste.path}
    | _, _ => 0
  | _ => 0

namespace Agent

/-- The agent handles a frame of the action. At the injection the paths of a complete group
are typed, or removed if control has moved. -/
def handled (cfg : Config) (found : Found) (a : Agent) (f : Sent) : Agent × Option UInt32 :=
  let h := handle cfg.limits cfg.dir a.pending (cfg.frame found f)
  let injected := h.inject.getD []
  (⟨h.pending,a.temp+opened h f-(h.removed : Multiset Bytes)-(injected : Multiset Bytes),
    if found.controller ∧ h.inject.isSome then a.blocks++[injected] else a.blocks,
    a.verdicts++(verdict cfg.limits cfg.dir a.pending (cfg.frame found f)).toList⟩,
    h.reject.map fun _ => f.pasteId)

end Agent

structure Exchange where
  client : Client
  wire : List Sent
  rejects : List UInt32
  agent : Agent

inductive Action where
  | resume (read : Option Bytes)
  | hear
  | handle (found : Found)
  | other (p : Pending)

def Rely (cfg : Config) (p p' : Pending) : Prop :=
  p'.groups.lookup cfg.groupId = p.groups.lookup cfg.groupId ∧
  (∀ j < cfg.files.length, p'.pastes.lookup (cfg.pasteId j) = p.pastes.lookup (cfg.pasteId j)) ∧
  ∀ e ∈ p'.pastes.entries, e.2.groupId = cfg.groupId → e ∈ p.pastes.entries

instance (cfg : Config) (p p' : Pending) : Decidable (Rely cfg p p') :=
  inferInstanceAs (Decidable (_ ∧ _ ∧ _))

def step (cfg : Config) (s : Exchange) : Action → Option Exchange
  | .resume read =>
    (resume s.client read).map fun (c,sent) => { s with client := c, wire := s.wire++sent }
  | .hear =>
    match s.rejects with
    | [] => none
    | id::rest => some { s with client := hear s.client id, rejects := rest }
  | .handle found =>
    match s.wire with
    | [] => none
    | f::rest =>
      let (a,reject) := s.agent.handled cfg found f
      some { s with wire := rest, rejects := s.rejects++reject.toList, agent := a }
  | .other p =>
    if Rely cfg s.agent.pending p then some { s with agent := { s.agent with pending := p } }
    else none

/-- `sendPasteFiles` has been called, on whatever the stream has pending otherwise. -/
def Exchange.start (cfg : Config) (controllerStatus : UInt8) (p : Pending) : Exchange :=
  let (c,sent) := sendPasteFiles cfg.lastPasteId controllerStatus cfg.files
  ⟨c,sent,[],⟨p,0,[],[]⟩⟩

def Fresh (cfg : Config) (p : Pending) : Prop :=
  p.groups.lookup cfg.groupId = none ∧
  (∀ j < cfg.files.length, p.pastes.lookup (cfg.pasteId j) = none) ∧
  ∀ e ∈ p.pastes.entries, e.2.groupId ≠ cfg.groupId

/-- `sendPasteFiles` has returned and the agent has handled everything it sent. -/
def Exchange.Over (s : Exchange) : Prop := s.client.current = none ∧ s.wire = []

def Agreed (cfg : Config) (a : Agent) : Prop :=
  (∃ paths ∈ a.blocks, paths.length = cfg.files.length) ∨
  a.pending.groups.lookup cfg.groupId = none ∧
    (∀ e ∈ a.pending.pastes.entries, e.2.groupId ≠ cfg.groupId) ∧ a.temp = 0

/-- Every file is finished, or the last one that was registered took the group with it. -/
def Settles (n : ℕ) (verdicts : List Verdict) : Prop :=
  verdicts = List.replicate n .staged ∨
    ∀ v ∈ (verdicts.filter (· ≠ .refused)).getLast?, v = .dropped

instance (n : ℕ) (verdicts : List Verdict) : Decidable (Settles n verdicts) :=
  inferInstanceAs (Decidable (_ ∨ _))

theorem toNat_nextPasteId (u : UInt32) : (nextPasteId u).toNat = u.toNat%(2^32-1)+1 := by
  have hlt := u.toNat_lt
  unfold nextPasteId
  by_cases h : u+1 = 0
  · have hu : (u+1).toNat = 0 := by rw [h]; rfl
    rw [UInt32.toNat_add] at hu
    have hone : (1 : UInt32).toNat = 1 := rfl
    rw [if_pos h, hone]
    omega
  · have hu : (u+1).toNat ≠ 0 := fun h0 => h (UInt32.toNat_inj.mp h0)
    rw [if_neg h]
    rw [UInt32.toNat_add] at hu ⊢
    have hone : (1 : UInt32).toNat = 1 := rfl
    omega

theorem toNat_pasteId (cfg : Config) (j : ℕ) :
    (cfg.pasteId j).toNat = (cfg.lastPasteId.toNat+j)%(2^32-1)+1 := by
  induction j with
  | zero => exact toNat_nextPasteId cfg.lastPasteId
  | succ j ih =>
    have hnext : cfg.pasteId (j+1) = nextPasteId (cfg.pasteId j) :=
      Function.iterate_succ_apply' nextPasteId (j+1) cfg.lastPasteId
    rw [hnext, toNat_nextPasteId, ih]
    omega

/-- The ids of an action are distinct: no list of files is long enough for the counter to
come round. -/
theorem pasteId_inj {cfg : Config} (hlen : cfg.files.length < 2^32) {i j : ℕ}
    (hi : i < cfg.files.length) (hj : j < cfg.files.length) (h : cfg.pasteId i = cfg.pasteId j) :
    i = j := by
  have heq := congrArg UInt32.toNat h
  rw [toNat_pasteId, toNat_pasteId] at heq
  omega

end Term.PasteClient
