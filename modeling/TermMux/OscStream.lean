import TermMux.Utf8Text

/-!
# The application OSC scanner and the download gate

`OscScanner::feed` byte by byte with its six states, `parse_dl_osc`, the token
comparison, and the part of the session reader that turns captured payloads
into downloads. The scanner keeps its state between reads, so a stream is a
list of chunks.
-/

set_option autoImplicit false

namespace Term.OscStream
open Term.ByteOrder Term.Utf8Text

def maxOscLen : ℕ := 64*1024
def esc : UInt8 := 0x1B
def bel : UInt8 := 0x07
def rightBracket : UInt8 := 0x5D
def backslash : UInt8 := 0x5C
def semicolon : UInt8 := 0x3B

def appId : Bytes := [0x35,0x31,0x31,0x31]

def dlCommand : Bytes := [0x64,0x6C]

inductive State where
  | normal | esc | osc | oscEsc | oscOverflow | oscOverflowEsc
  deriving DecidableEq, Repr

inductive Terminator where
  | bel | st
  deriving DecidableEq, Repr

def Terminator.bytes : Terminator → Bytes
  | .bel => [OscStream.bel]
  | .st => [OscStream.esc,backslash]

structure OscScanner where
  state : State
  buf : Bytes
  deriving DecidableEq, Repr

def OscScanner.new : OscScanner := ⟨.normal,[]⟩

structure Feed where
  scanner : OscScanner
  out : Bytes
  captured : List Bytes
  deriving DecidableEq, Repr

def beforeSemi (t : Bytes) : Bytes := t.takeWhile (· != semicolon)
def fromSemi (t : Bytes) : Bytes := t.dropWhile (· != semicolon)

def finishOsc (term : Terminator) (f : Feed) : Feed :=
  let buf := f.scanner.buf
  if beforeSemi buf = appId then
    let payload := if 5 < buf.length then buf.drop 5 else []
    ⟨⟨.normal,[]⟩,f.out,f.captured++[payload]⟩
  else ⟨⟨.normal,[]⟩,f.out++(esc::rightBracket::buf)++term.bytes,f.captured⟩

def feedByte (f : Feed) (b : UInt8) : Feed :=
  let buf := f.scanner.buf
  match f.scanner.state with
  | .normal =>
    if b = esc then { f with scanner := ⟨.esc,buf⟩ } else { f with out := f.out++[b] }
  | .esc =>
    if b = rightBracket then { f with scanner := ⟨.osc,[]⟩ }
    else { f with scanner := ⟨.normal,buf⟩, out := f.out++[esc,b] }
  | .osc =>
    if b = bel then finishOsc .bel f
    else if b = esc then { f with scanner := ⟨.oscEsc,buf⟩ }
    else if buf.length < maxOscLen then { f with scanner := ⟨.osc,buf++[b]⟩ }
    else { f with scanner := ⟨.oscOverflow,[]⟩ }
  | .oscEsc =>
    if b = backslash then finishOsc .st f
    else if buf.length+2 ≤ maxOscLen then { f with scanner := ⟨.osc,buf++[esc,b]⟩ }
    else { f with scanner := ⟨.oscOverflow,[]⟩ }
  | .oscOverflow =>
    if b = bel then { f with scanner := ⟨.normal,buf⟩ }
    else if b = esc then { f with scanner := ⟨.oscOverflowEsc,buf⟩ }
    else f
  | .oscOverflowEsc =>
    if b = backslash then { f with scanner := ⟨.normal,buf⟩ }
    else if b = esc then f
    else { f with scanner := ⟨.oscOverflow,buf⟩ }

def feed (s : OscScanner) (input : Bytes) : Feed := input.foldl feedByte ⟨s,[],[]⟩

/-- `position(|&b| b == b';')` with the two sides of the split. -/
def splitSemi (t : Bytes) : Option (Bytes × Bytes) :=
  match fromSemi t with
  | [] => none
  | _::rest => some (beforeSemi t,rest)

def parseDlOsc (payload : Bytes) : Option (String × String) := do
  let (cmd,rest) ← splitSemi payload
  if cmd ≠ dlCommand then none else
  let (token,path) ← splitSemi rest
  let token ← fromUtf8 token
  let path ← fromUtf8 path
  return (token,path)

/-- The loop `diff |= x ^ y` over both strings. -/
def ctDiff (a b : Bytes) : UInt8 := (a.zip b).foldl (fun diff p => diff ||| (p.1 ^^^ p.2)) 0

def ctEqStr (a b : String) : Bool :=
  if (asBytes a).length ≠ (asBytes b).length then false
  else ctDiff (asBytes a) (asBytes b) == 0

/-- The path a captured payload asks for, if its token is the session's. -/
def authorised (dlToken : String) (payload : Bytes) : Option String :=
  match parseDlOsc payload with
  | some (token,path) => if ctEqStr token dlToken then some path else none
  | none => none

/-- One turn of the session reader: the scanner, the bytes to forward, and the
paths of the downloads it starts. -/
def readChunk (dlToken : String) (s : OscScanner) (chunk : Bytes) :
    OscScanner × Bytes × List String :=
  let f := feed s chunk
  (f.scanner,f.out,f.captured.filterMap (authorised dlToken))

def downloads (dlToken : String) : OscScanner → List Bytes → List String
  | _, [] => []
  | s, chunk::rest =>
    let (t,_,paths) := readChunk dlToken s chunk
    paths++downloads dlToken t rest

end Term.OscStream
