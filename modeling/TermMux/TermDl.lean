import TermMux.OscSegments
import TermMux.FrameModel

/-!
# The download command and the scanner that reads it

`term-dl` writes one application OSC for each file, next to whatever else is written to the
terminal. The scanner that reads the terminal's bytes gives each request to `parse_dl_osc`
as it was written, and forwards what it would forward without them.
-/

set_option autoImplicit false

namespace Term.TermDl
open Term.ByteOrder Term.Utf8Text Term.FrameModel Term.OscStream Term.OscSegments

def usage : String :=
  "term-dl <path>...\n\nShip one or more files from the agent host to the browser, triggering\na download save. Files are read on the agent side and streamed over\nthe existing terminal mux; paths must be readable by the agent's user.\n\nEach invocation can name multiple paths; each becomes its own\ndownload. Exit status is the count of paths that failed local\nvalidation (the OSC was still emitted for the ones that passed).\n\nenv:\n  TERM_DL_TOKEN   set by the agent in the shell's environment. If\n                  unset, this binary exits non-zero without emitting\n                  any OSC: you're probably not running inside a\n                  term-agent PTY.\n"

def tokenUnset : String :=
  "term-dl: TERM_DL_TOKEN not set in the environment. This binary only works inside a term-agent session shell. If you're seeing this message in such a shell, the agent may be too old (pre-Phase-4.5).\n"

def tokenRefused : String := "term-dl: TERM_DL_TOKEN contains unexpected characters; refusing\n"

structure Metadata where
  isFile : Bool

/-- What the operating system answers about paths. A canonical path is a list of bytes. -/
structure Fs where
  metadata : String → Except String Metadata
  canonicalize : String → Except String Bytes

def prepare (fs : Fs) (raw : String) : Except String Bytes := do
  let info ← fs.metadata raw
  if !info.isFile then throw "not a regular file"
  let abs ← (fs.canonicalize raw).mapError ("canonicalize: " ++ ·)
  if abs.any (fun b => b == bel || b == esc) then
    throw "path contains BEL or ESC byte; refusing to emit OSC"
  return abs

def requestPayload (token : String) (abs : Bytes) : Bytes :=
  appId++semicolon::(dlCommand++semicolon::(asBytes token++semicolon::abs))

def request (token : String) (abs : Bytes) : Bytes :=
  esc::rightBracket::(requestPayload token abs++[bel])

structure Output where
  stdout : List Bytes
  stderr : List String
  code : UInt8

def saturatingSucc (n : UInt8) : UInt8 := if n = 255 then 255 else n+1

def ship (fs : Fs) (token : String) (o : Output) (raw : String) : Output :=
  match prepare fs raw with
  | .ok abs => { o with stdout := o.stdout++[request token abs] }
  | .error e =>
    { o with
      stderr := o.stderr++["term-dl: " ++ raw ++ ": " ++ e ++ "\n"]
      code := saturatingSucc o.code }

def isTokenByte (b : UInt8) : Bool := isAsciiAlphanumeric b || b == 0x2D || b == 0x5F

/-- `main`. No token stands for an unset variable and for one that is not text. -/
def main (fs : Fs) (token : Option String) : List String → Output
  | [] => ⟨[],[usage],64⟩
  | first::args =>
    if first = "-h" ∨ first = "--help" then ⟨[asBytes usage],[],0⟩
    else
      match token with
      | none => ⟨[],[tokenUnset],69⟩
      | some token =>
        if token = "" then ⟨[],[tokenUnset],69⟩
        else if (asBytes token).all isTokenByte then (first::args).foldl (ship fs token) ⟨[],[],0⟩
        else ⟨[],[tokenRefused],78⟩

structure Run where
  fs : Fs
  args : List String

def Run.AsksFor (r : Run) : Prop := r.args.head? ≠ some "-h" ∧ r.args.head? ≠ some "--help"

def Run.accepted (r : Run) : List Bytes := r.args.filterMap fun raw => (prepare r.fs raw).toOption

def Run.writes (token : String) (r : Run) : List Bytes := (main r.fs (some token) r.args).stdout

/-- A token the agent generates: not empty, and over the alphabet of base64url. -/
def Token (token : String) : Prop := token ≠ "" ∧ ∀ b ∈ asBytes token, isTokenByte b = true

/-- Output of other programs that is complete when a request starts and has no application
OSC of its own. -/
structure Quiet (noise : Bytes) : Prop where
  normal : (feed OscScanner.new noise).scanner.state = .normal
  foreign : ∀ p t, Segment.osc p t ∈ (parse noise).1 → isPrivate p = false

section Writes

theorem foldl_ship (fs : Fs) (token : String) (args : List String) (o : Output) :
    (args.foldl (ship fs token) o).stdout =
      o.stdout++(args.filterMap fun raw => (prepare fs raw).toOption).map (request token) := by
  induction args generalizing o with
  | nil => simp
  | cons raw args ih =>
    rw [List.foldl_cons, ih, List.filterMap_cons]
    cases hp : prepare fs raw with
    | ok abs => simp [ship, hp, Except.toOption]
    | error e => simp [ship, hp, Except.toOption]

/-- A run that is asked for files writes one request for each that is accepted. -/
theorem writes_eq {token : String} (htoken : Token token) {r : Run} (h : r.AsksFor) :
    r.writes token = r.accepted.map (request token) := by
  obtain ⟨fs,args⟩ := r
  cases args with
  | nil => rfl
  | cons first args =>
    have hhelp : ¬(first = "-h" ∨ first = "--help") := by
      rintro (rfl | rfl)
      · exact h.1 rfl
      · exact h.2 rfl
    have hall : (asBytes token).all isTokenByte = true := List.all_eq_true.mpr htoken.2
    simp only [Run.writes, main, if_neg hhelp, if_neg htoken.1, if_pos hall]
    exact foldl_ship fs token (first::args) ⟨[],[],0⟩

/-- No accepted path can end the OSC it is written into. -/
theorem prepare_bytes {fs : Fs} {raw : String} {abs : Bytes} (h : prepare fs raw = .ok abs) :
    ∀ b ∈ abs, b ≠ bel ∧ b ≠ esc := by
  unfold prepare at h
  cases hinfo : fs.metadata raw with
  | error e => simp [hinfo, bind, Except.bind] at h
  | ok info =>
    cases hfile : info.isFile with
    | false => simp [hinfo, hfile, bind, Except.bind, throw, throwThe, MonadExceptOf.throw] at h
    | true =>
      cases habs : fs.canonicalize raw with
      | error e => simp [hinfo, hfile, habs, bind, Except.bind, Except.mapError] at h
      | ok path =>
        simp only [hinfo, hfile, habs, bind, Except.bind, Except.mapError] at h
        cases hbad : path.any (fun b => b == bel || b == esc) with
        | true => simp [hbad, throw, throwThe, MonadExceptOf.throw] at h
        | false =>
          simp [hbad, pure, Except.pure] at h
          rw [← h]
          simpa using hbad

theorem accepted_bytes {r : Run} {abs : Bytes} (h : abs ∈ r.accepted) :
    ∀ b ∈ abs, b ≠ bel ∧ b ≠ esc := by
  obtain ⟨raw,-,hraw⟩ := List.mem_filterMap.mp h
  cases hp : prepare r.fs raw with
  | error e =>
    rw [hp] at hraw
    cases hraw
  | ok abs' =>
    rw [hp] at hraw
    cases hraw
    exact prepare_bytes hp

end Writes

section Scanning

theorem tokenByte_plain {b : UInt8} (h : isTokenByte b = true) : b ≠ bel ∧ b ≠ esc ∧ b ≠ semicolon := by
  refine ⟨?_,?_,?_⟩ <;> rintro rfl <;> revert h <;> decide

theorem requestPayload_ok {token : String} (htoken : Token token) {abs : Bytes}
    (habs : ∀ b ∈ abs, b ≠ bel ∧ b ≠ esc) : Payload (requestPayload token abs) := by
  have happ : ∀ b ∈ appId, b ≠ bel ∧ b ≠ esc := by simp [appId, bel, esc]
  have hdl : ∀ b ∈ dlCommand, b ≠ bel ∧ b ≠ esc := by simp [dlCommand, bel, esc]
  show Payload ([]++requestPayload token abs)
  refine payload_of_forall .nil ?_
  simp only [requestPayload, List.mem_append, List.mem_cons]
  rintro b (h | rfl | h | rfl | h | rfl | h)
  · exact happ b h
  · decide
  · exact hdl b h
  · decide
  · have hb := tokenByte_plain (htoken.2 b h)
    exact ⟨hb.1,hb.2.1⟩
  · decide
  · exact habs b h

theorem splitSemi_append {a b : Bytes} (h : semicolon ∉ a) : splitSemi (a++semicolon::b) = some (a,b) := by
  have hpos : ∀ x ∈ a, (x != semicolon) = true := by
    intro x hx
    exact bne_iff_ne.mpr fun heq => h (heq ▸ hx)
  rw [splitSemi, fromSemi, beforeSemi, List.dropWhile_append_of_pos hpos,
    List.takeWhile_append_of_pos hpos]
  simp

/-- What is written is read back: the path is all that follows the second semicolon. -/
theorem parseDlOsc_request {token : String} (htoken : Token token) (path : String) :
    parseDlOsc (dlCommand++semicolon::(asBytes token++semicolon::asBytes path)) =
      some (token,path) := by
  have hplain : semicolon ∉ asBytes token :=
    fun h => (tokenByte_plain (htoken.2 _ h)).2.2 rfl
  have hcmd := splitSemi_append (a := dlCommand) (b := asBytes token++semicolon::asBytes path) (by decide)
  simp [parseDlOsc, hcmd, splitSemi_append hplain]

/-- The scanner takes a request out of the stream and keeps its part after `5111;`. -/
theorem feed_request {token : String} (htoken : Token token) {abs : Bytes}
    (habs : ∀ b ∈ abs, b ≠ bel ∧ b ≠ esc) (hlen : (requestPayload token abs).length ≤ maxOscLen) :
    feed OscScanner.new (request token abs) =
      ⟨OscScanner.new,[],[dlCommand++semicolon::(asBytes token++semicolon::abs)]⟩ := by
  have hparse : parse (request token abs) = ([.osc (requestPayload token abs) .bel],.none) :=
    parse_segment (s := .osc (requestPayload token abs) .bel) ⟨requestPayload_ok htoken habs,hlen⟩
  have hprivate : beforeSemi (requestPayload token abs) = appId := rfl
  rw [feed_parse, hparse]
  simp only [List.flatMap_singleton, Segment.forwarded, Segment.captured, isPrivate, hprivate,
    beq_self_eq_true, if_true]
  rfl

theorem feed_quiet {noise : Bytes} (h : Quiet noise) :
    feed OscScanner.new noise = ⟨OscScanner.new,(feed OscScanner.new noise).out,[]⟩ := by
  have hparse := feed_parse noise
  have hheld : (parse noise).2 = .none := by
    apply state_normal_iff.mp
    have hnormal := h.normal
    rwa [hparse] at hnormal
  have hcaptured : (parse noise).1.flatMap Segment.captured = [] := by
    rw [List.flatMap_eq_nil_iff]
    intro s hs
    cases s with
    | plain b
    | escape b
    | overlong content => rfl
    | osc p t =>
      rw [Segment.captured, h.foreign p t hs]
      rfl
  rw [hparse, hheld, hcaptured]
  rfl

theorem feed_quiet_append {noise : Bytes} (h : Quiet noise) (rest : Bytes) :
    feed OscScanner.new (noise++rest) = ⟨(feed OscScanner.new rest).scanner,
      (feed OscScanner.new noise).out++(feed OscScanner.new rest).out,
      (feed OscScanner.new rest).captured⟩ := by
  rw [feed_append, feed_quiet h]
  rfl

theorem feed_request_append {token : String} (htoken : Token token) {abs : Bytes}
    (habs : ∀ b ∈ abs, b ≠ bel ∧ b ≠ esc) (hlen : (requestPayload token abs).length ≤ maxOscLen)
    (rest : Bytes) :
    feed OscScanner.new (request token abs++rest) = ⟨(feed OscScanner.new rest).scanner,
      (feed OscScanner.new rest).out,
      (dlCommand++semicolon::(asBytes token++semicolon::abs))::(feed OscScanner.new rest).captured⟩ := by
  rw [feed_append, feed_request htoken habs hlen]
  rfl

theorem feed_interleaved {token : String} (htoken : Token token) {paths : List String}
    {noise : List Bytes} (habs : ∀ path ∈ paths, ∀ b ∈ asBytes path, b ≠ bel ∧ b ≠ esc)
    (hlen : ∀ path ∈ paths, (requestPayload token (asBytes path)).length ≤ maxOscLen)
    (hnoise : ∀ n ∈ noise, Quiet n) (hcount : noise.length = paths.length) :
    let f := feed OscScanner.new
      (List.zipWith (· ++ ·) (paths.map fun path => request token (asBytes path)) noise).flatten
    f.out = (feed OscScanner.new noise.flatten).out ∧
      f.captured.map parseDlOsc = paths.map fun path => some (token,path) := by
  induction paths generalizing noise with
  | nil =>
    rw [List.eq_nil_of_length_eq_zero hcount]
    exact ⟨rfl,rfl⟩
  | cons path paths ih =>
    cases noise with
    | nil => cases hcount
    | cons n noise =>
      obtain ⟨hpath,habs⟩ := List.forall_mem_cons.mp habs
      obtain ⟨hfits,hlen⟩ := List.forall_mem_cons.mp hlen
      obtain ⟨hn,hnoise⟩ := List.forall_mem_cons.mp hnoise
      obtain ⟨hout,hcaptured⟩ := ih habs hlen hnoise (Nat.succ.inj hcount)
      rw [List.map_cons, List.zipWith_cons_cons, List.flatten_cons, List.append_assoc,
        feed_request_append htoken hpath hfits, feed_quiet_append hn, List.flatten_cons,
        feed_quiet_append hn]
      refine ⟨?_,?_⟩
      · exact congrArg ((feed OscScanner.new n).out ++ ·) hout
      · show parseDlOsc _::_ = _::_
        rw [parseDlOsc_request htoken, hcaptured]

end Scanning

/-- The requests of any runs of the command, with other output before, between and after
them, are captured and read back in order, and only the other output is forwarded. -/
theorem requests_survive (token : String) (runs : List Run) (paths : List String) (first : Bytes)
    (noise chunks : List Bytes) (htoken : Token token) (hruns : ∀ r ∈ runs, r.AsksFor)
    (hpaths : runs.flatMap Run.accepted = paths.map asBytes)
    (hlen : ∀ path ∈ paths, (requestPayload token (asBytes path)).length ≤ maxOscLen)
    (hnoise : ∀ n ∈ first::noise, Quiet n) (hcount : noise.length = paths.length)
    (hchunks : chunks.flatten =
      first++(List.zipWith (· ++ ·) (runs.flatMap (Run.writes token)) noise).flatten) :
    (feedAll OscScanner.new chunks).captured.map parseDlOsc =
        paths.map (fun path => some (token,path)) ∧
      (feedAll OscScanner.new chunks).out = (feed OscScanner.new (first::noise).flatten).out := by
  have hwrites : runs.flatMap (Run.writes token) = paths.map fun path => request token (asBytes path) := by
    calc
      runs.flatMap (Run.writes token) = runs.flatMap fun r => r.accepted.map (request token) :=
        List.flatMap_congr fun r hr => writes_eq htoken (hruns r hr)
      _ = (runs.flatMap Run.accepted).map (request token) := (List.map_flatMap).symm
      _ = paths.map fun path => request token (asBytes path) := by rw [hpaths, List.map_map]; rfl
  have habs : ∀ path ∈ paths, ∀ b ∈ asBytes path, b ≠ bel ∧ b ≠ esc := by
    intro path hpath
    have hmem : asBytes path ∈ runs.flatMap Run.accepted := by
      rw [hpaths]
      exact List.mem_map_of_mem hpath
    obtain ⟨r,-,hr⟩ := List.mem_flatMap.mp hmem
    exact accepted_bytes hr
  obtain ⟨hfirst,hrest⟩ := List.forall_mem_cons.mp hnoise
  obtain ⟨hout,hcaptured⟩ := feed_interleaved htoken habs hlen hrest hcount
  rw [feedAll_eq, hchunks, hwrites, feed_quiet_append hfirst, List.flatten_cons,
    feed_quiet_append hfirst]
  exact ⟨hcaptured,congrArg ((feed OscScanner.new first).out ++ ·) hout⟩

def plainFs : Fs := ⟨fun _ => .ok ⟨true⟩,fun raw => .ok (asBytes raw)⟩

def title : Bytes := [esc,rightBracket,0x30,semicolon,0x74,bel]

theorem title_quiet : Quiet title := by
  have hparse : (parse title).1 = [.osc [0x30,semicolon,0x74] .bel] := by decide
  constructor
  · decide
  · intro p t h
    rw [hparse, List.mem_singleton] at h
    cases h
    decide

theorem nil_quiet : Quiet [] := ⟨rfl,nofun⟩

/-- Two files, one with a semicolon in its name, around a window title, one byte a read. -/
theorem two_requests_survive :
    (feedAll OscScanner.new
      ((request "t-1" (asBytes "/a;b")++title++request "t-1" (asBytes "/c")).map ([·]))).captured.map
        parseDlOsc = [some ("t-1","/a;b"),some ("t-1","/c")] ∧
    (feedAll OscScanner.new
      ((request "t-1" (asBytes "/a;b")++title++request "t-1" (asBytes "/c")).map ([·]))).out = title := by
  have h := requests_survive "t-1" [⟨plainFs,["/a;b","/c"]⟩] ["/a;b","/c"] [] [title,[]]
    ((request "t-1" (asBytes "/a;b")++title++request "t-1" (asBytes "/c")).map ([·]))
    ⟨by decide,by decide +kernel⟩ (by simp [Run.AsksFor]) (by decide +kernel) (by decide +kernel)
    (by simp [title_quiet, nil_quiet]) rfl (by decide +kernel)
  have hout : (feed OscScanner.new ([]::[title,[]]).flatten).out = title := by decide
  rwa [hout] at h

end Term.TermDl
