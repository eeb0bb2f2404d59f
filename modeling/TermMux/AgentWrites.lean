import TermMux.SessionInput

/-!
# What the agent itself types

Pasted paths are built from sanitized names, so injecting them never presses Enter
unless the paste directory's own path does. The failure line of a download does
contain carriage return and line feed, and it goes to the PTY's input: a program
whose output carries the session's token can have a line submitted to the shell,
with a path of its choosing in it. The agent's other writes are free of both
bytes as long as no requested download fails.
-/

set_option autoImplicit false

namespace Term.AgentWrites
open Term.ByteOrder Term.DownloadStream Term.FrameModel Term.Machine Term.OscStream
  Term.PasteNames Term.PasteUpload Term.SessionState Term.SessionInput Term.Utf8Text

/-- Nothing this stream has uploaded, or is about to type, presses Enter. -/
structure Quiet (st : Stream) : Prop where
  pending : Clean st.pending
  finished : ∀ paths, st.inbound = .finished paths → ∀ path ∈ paths, NoEnter path
  injecting : ∀ seq, st.inbound = .injecting seq → NoEnter seq

/-- A block that is not a controller's Data frame does not press Enter. -/
def Harmless (origin : Origin) (bytes : Bytes) : Prop :=
  (∀ sid, origin ≠ .typed sid) → NoEnter bytes

structure QuietFacts (r : Reaction) : Prop where
  stream : Quiet r.stream
  block : ∀ bytes origin, r.block = some (bytes,origin) → Harmless origin bytes

theorem quiet_of_idle {st : Stream} (hp : Clean st.pending) (hi : st.inbound = .idle) :
    Quiet st := by
  refine ⟨hp,?_,?_⟩
  · intro paths h
    rw [hi] at h
    cases h
  · intro seq h
    rw [hi] at h
    cases h

theorem handled_quiet {st : Stream} {pasteId : UInt32} {h : Handled} (hh : HandledClean h) :
    Quiet (st.handled pasteId h) := by
  refine ⟨hh.pending,?_,?_⟩
  · intro paths heq
    apply hh.inject
    cases hi : h.inject with
    | none => simp [Stream.handled, hi] at heq
    | some found =>
      simp only [Stream.handled, hi, Inbound.finished.injEq] at heq
      rw [heq]
  · intro seq heq
    cases hi : h.inject with
    | none => simp [Stream.handled, hi] at heq
    | some found => simp [Stream.handled, hi] at heq

theorem handlePaste_quiet {cfg : Config} {inner : SessionInner} {st u : Stream} {act : StreamAct}
    (hdir : NoEnter cfg.pasteDir) (hst : Quiet st) (h : handlePaste cfg inner st act = some u) :
    Quiet u := by
  obtain ⟨pasteId,handled,rfl,hcase⟩ := handlePaste_cases h
  apply handled_quiet
  rcases hcase with ⟨env,totalSize,groupId,groupSize,name,-,rfl⟩ | rfl | ⟨writeOk,bytes,rfl⟩ |
    ⟨status,rfl⟩
  · exact handlePasteBegin_clean hdir hst.pending _ _ _ _ _
  · exact handledClean_of_none hst.pending rfl
  · exact handlePasteChunk_clean hst.pending _ _ _
  · exact handlePasteEnd_clean hst.pending _ _

theorem paste_quietFacts {cfg : Config} {s : Session} {st : Stream} {act : StreamAct}
    {r : Reaction} (hdir : NoEnter cfg.pasteDir) (hst : Quiet st)
    (h : (if st.Ready then (handlePaste cfg s.inner st act).map fun u => ⟨u,s.inner,none⟩
      else none) = some r) : QuietFacts r := by
  obtain ⟨-,u,hu,rfl⟩ := paste_cases h
  exact ⟨handlePaste_quiet hdir hst hu,nofun⟩

theorem trySend_quietFacts {s : Session} {st : Stream} {r : Reaction} (hst : Quiet st)
    (h : trySend s st = some r) : QuietFacts r := by
  obtain ⟨typed,block,-,hblock,rfl⟩ := trySend_cases h
  refine ⟨quiet_of_idle hst.pending rfl,?_⟩
  intro bytes origin heq htyped
  rcases hblock with rfl | ⟨-,rfl⟩
  · cases heq
  · cases heq
    exact absurd rfl (htyped st.sid)

theorem checkInject_quietFacts {cfg : Config} {s : Session} {st : Stream} {r : Reaction}
    (hst : Quiet st) (h : checkInject cfg s st = some r) : QuietFacts r := by
  obtain ⟨paths,hin,⟨-,rfl⟩ | rfl⟩ := checkInject_cases h
  · refine ⟨⟨hst.pending,nofun,?_⟩,nofun⟩
    intro seq heq
    cases heq
    exact noEnter_pasteSequence cfg.pasteStyle (hst.finished paths hin)
  · exact ⟨quiet_of_idle hst.pending rfl,nofun⟩

theorem inject_quietFacts {s : Session} {st : Stream} {r : Reaction} (hst : Quiet st)
    (h : inject s st = some r) : QuietFacts r := by
  obtain ⟨seq,block,hin,hblock,rfl⟩ := inject_cases h
  refine ⟨quiet_of_idle hst.pending rfl,?_⟩
  intro bytes origin heq _
  rcases hblock with rfl | ⟨-,rfl⟩
  · cases heq
  · cases heq
    exact hst.injecting seq hin

theorem streamStep_quietFacts {cfg : Config} {s : Session} {st : Stream} {act : StreamAct}
    {r : Reaction} (hdir : NoEnter cfg.pasteDir) (hst : Quiet st)
    (h : streamStep cfg s st act = some r) : QuietFacts r := by
  cases act with
  | op op =>
    simp only [streamStep, Option.ite_none_right_eq_some, Option.some.injEq] at h
    rw [← h.2]
    exact ⟨hst,nofun⟩
  | data bytes =>
    obtain ⟨-,⟨-,rfl⟩ | rfl⟩ := checkInput_cases h
    · exact ⟨⟨hst.pending,nofun,nofun⟩,nofun⟩
    · exact ⟨hst,nofun⟩
  | trySend => exact trySend_quietFacts hst h
  | pasteBegin env pasteId totalSize groupId groupSize name => exact paste_quietFacts hdir hst h
  | pasteChunk writeOk pasteId bytes => exact paste_quietFacts hdir hst h
  | pasteEnd pasteId status => exact paste_quietFacts hdir hst h
  | checkInject => exact checkInject_quietFacts hst h
  | inject => exact inject_quietFacts hst h
  | stop =>
    obtain ⟨-,rfl⟩ := stop_cases h
    exact ⟨quiet_of_idle hst.pending rfl,nofun⟩
  | detach now =>
    simp only [streamStep, detach, Option.ite_none_right_eq_some, Option.some.injEq] at h
    rw [← h.2]
    exact ⟨⟨clean_empty,hst.finished,hst.injecting⟩,nofun⟩

structure Invariant (s : Session) : Prop where
  lines : s.lines = []
  streams : ∀ st ∈ s.streams, Quiet st
  blocks : ∀ b ∈ s.blocks, Harmless b.origin b.bytes

/-- Every download that runs is of a file that can be served. -/
def FilesServed (_ : Session) : Action → Prop
  | .download _ env => Served env
  | _ => True

instance (s : Session) (a : Action) : Decidable (FilesServed s a) :=
  match a with
  | .download _ env => inferInstanceAs (Decidable (Served env))
  | .attach .. | .stream .. | .read _ | .reportFailure _ | .drain | .writerExit => isTrue trivial

theorem step_invariant {cfg : Config} (hdir : NoEnter cfg.pasteDir) (s : Session) (a : Action)
    (s' : Session) (h : Invariant s) (hok : FilesServed s a) (hstep : step cfg s a = some s') :
    Invariant s' := by
  cases a with
  | attach sid size now =>
    cases hstep
    refine ⟨h.lines,?_,h.blocks⟩
    exact forall_mem_concat h.streams (quiet_of_idle clean_empty rfl)
  | stream i act =>
    obtain ⟨st,r,hst,hr,rfl⟩ := step_stream hstep
    have hfacts := streamStep_quietFacts hdir (h.streams st (List.mem_of_getElem? hst)) hr
    exact ⟨h.lines,forall_mem_set h.streams hfacts.stream,forall_put h.blocks hfacts.block⟩
  | read chunk =>
    cases hstep
    exact ⟨h.lines,h.streams,h.blocks⟩
  | download k env =>
    obtain ⟨path,-,rfl⟩ := step_download hstep
    refine ⟨?_,h.streams,h.blocks⟩
    dsimp only
    rw [(downloadTask_quiet_iff s.nextDownloadId path env).mpr hok, h.lines]
    rfl
  | reportFailure k =>
    obtain ⟨path,line,hline,-⟩ := step_reportFailure hstep
    rw [h.lines] at hline
    cases hline
  | drain =>
    rw [step_drain hstep]
    exact ⟨h.lines,h.streams,h.blocks⟩
  | writerExit =>
    cases hstep
    exact ⟨h.lines,h.streams,h.blocks⟩

theorem spawn_invariant (initialSize : Size) (cap now : ℕ) :
    Invariant (Session.spawn initialSize cap now) := by
  refine ⟨rfl,?_,?_⟩
  · intro st hst
    cases hst
  · intro b hb
    cases hb

/-- In every run in which each download that runs can be served, and for a paste
directory whose path has no carriage return or line feed, nothing the agent puts
on the PTY's input apart from the controller's own Data frames contains either
byte. -/
theorem agent_never_presses_enter (cfg : Config) (hdir : NoEnter cfg.pasteDir)
    (initialSize : Size) (cap now : ℕ) (as : List Action) (s : Session)
    (hrun : run (step cfg) (Session.spawn initialSize cap now) as = some s)
    (hok : Along (step cfg) FilesServed (Session.spawn initialSize cap now) as) :
    ∀ b ∈ s.blocks, (∀ sid, b.origin ≠ .typed sid) → 0x0D ∉ b.bytes ∧ 0x0A ∉ b.bytes := by
  have hinv : Invariant s :=
    run_along (step cfg) (step_invariant hdir) (spawn_invariant initialSize cap now) hok hrun
  intro b hb htyped
  have hquiet := hinv.blocks b hb htyped
  exact ⟨fun hcr => (hquiet _ hcr).1 rfl,fun hlf => (hquiet _ hlf).2 rfl⟩

def shell : Config := ⟨"tok",.bracketed,asBytes "/run/user/1000/term-agent/paste",.default⟩

def printed : Bytes :=
  [0x1B,0x5D]++asBytes "5111;dl;tok;/x;id"++[0x07]

def twoByteFile : FileEnv := ⟨true,some (true,2),true,[.bytes [0x61,0x62] true]⟩

def quietRun : List Action :=
  [.attach 1 (24,80) 0,.read printed,.download 0 twoByteFile,
    .stream 0 (.pasteBegin ⟨true,0,0,fun _ => .created⟩ 7 0 1 1 "a\nb.png"),
    .stream 0 (.pasteEnd 7 0),.stream 0 .checkInject,.stream 0 .inject]

theorem agent_never_presses_enter_quietRun :
    ∃ s, run (step shell) (Session.spawn (24,80) defaultScrollbackCapBytes 0) quietRun = some s ∧
      s.blocks.length = 1 ∧ ∀ b ∈ s.blocks, (∀ sid, b.origin ≠ .typed sid) →
        0x0D ∉ b.bytes ∧ 0x0A ∉ b.bytes := by
  have heval : (run (step shell) (Session.spawn (24,80) defaultScrollbackCapBytes 0)
      quietRun).any (fun s => s.blocks.length = 1) = true := by
    decide +kernel
  obtain ⟨s,hs,hlen⟩ := (Option.any_eq_true _ _).mp heval
  exact ⟨s,hs,of_decide_eq_true hlen,
    agent_never_presses_enter shell (by decide +kernel) _ _ _ _ s hs (by decide +kernel)⟩

/-- The same output when `/x;id` does not exist: with no client attached, the agent
types a line with the path in it and presses Enter. -/
theorem failed_download_presses_enter :
    ∃ s, run (step shell) (Session.spawn (24,80) defaultScrollbackCapBytes 0)
        [.read printed,.download 0 ⟨false,none,false,[]⟩,.reportFailure 0] = some s ∧
      ∃ b ∈ s.blocks, b.origin = .download "/x;id" ∧
        b.bytes = 0x0D::asBytes "term-dl: /x;id: opening /x;id"++[0x0D,0x0A] ∧
        0x0D ∈ b.bytes ∧ 0x0A ∈ b.bytes := by
  have heval : (run (step shell) (Session.spawn (24,80) defaultScrollbackCapBytes 0)
      [.read printed,.download 0 ⟨false,none,false,[]⟩,.reportFailure 0]).any (fun s =>
        ∃ b ∈ s.blocks, b.origin = .download "/x;id" ∧
          b.bytes = 0x0D::asBytes "term-dl: /x;id: opening /x;id"++[0x0D,0x0A] ∧
          0x0D ∈ b.bytes ∧ 0x0A ∈ b.bytes) = true := by
    decide +kernel
  obtain ⟨s,hs,hfacts⟩ := (Option.any_eq_true _ _).mp heval
  exact ⟨s,hs,of_decide_eq_true hfacts⟩

end Term.AgentWrites
