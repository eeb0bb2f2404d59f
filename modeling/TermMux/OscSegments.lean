import TermMux.OscStream

/-!
# The segments of a terminal stream

What the scanner sees in a byte stream: single bytes, escapes of two bytes, and operating
system commands, each with a payload that fits or one that is too long. A stream is a list
of complete segments and at most one that has only begun, which is what the scanner holds.
The grammar is read off the protocol; `Held.next` follows one byte, and both the scanner
and the grammar agree with it.
-/

set_option autoImplicit false

namespace Term.OscSegments
open Term.ByteOrder Term.OscStream

/-- Payloads while they are collected: bytes other than BEL and ESC, and pairs of ESC with
a byte that does not make it a terminator. -/
inductive Payload : Bytes → Prop where
  | nil : Payload []
  | byte {p : Bytes} {b : UInt8} (h : Payload p) (hbel : b ≠ bel) (hesc : b ≠ esc) :
    Payload (p++[b])
  | pair {p : Bytes} {b : UInt8} (h : Payload p) (hb : b ≠ backslash) : Payload (p++[esc,b])

/-- What follows `ESC ]` once the payload is too long, up to a point where a terminator can
come: from there on, a run of ESC only belongs to its next byte. -/
inductive Overflow : Bytes → Prop where
  | byte {p : Bytes} {b : UInt8} (h : Payload p) (hfits : p.length ≤ maxOscLen)
    (hfull : maxOscLen < p.length+1) (hbel : b ≠ bel) (hesc : b ≠ esc) : Overflow (p++[b])
  | pair {p : Bytes} {b : UInt8} (h : Payload p) (hfits : p.length ≤ maxOscLen)
    (hfull : maxOscLen < p.length+2) (hb : b ≠ backslash) : Overflow (p++[esc,b])
  | next {w : Bytes} {b : UInt8} (h : Overflow w) (hbel : b ≠ bel) (hesc : b ≠ esc) :
    Overflow (w++[b])
  | run {w : Bytes} {b : UInt8} (n : ℕ) (h : Overflow w) (hesc : b ≠ esc) (hb : b ≠ backslash) :
    Overflow (w++(List.replicate (n+1) esc++[b]))

inductive Segment where
  | plain (b : UInt8)
  | escape (b : UInt8)
  | osc (payload : Bytes) (t : Terminator)
  /-- An over-long command with all that follows `ESC ]`. -/
  | overlong (content : Bytes)
  deriving DecidableEq, Repr

def Segment.bytes : Segment → Bytes
  | .plain b => [b]
  | .escape b => [esc,b]
  | .osc payload t => esc::rightBracket::(payload++t.bytes)
  | .overlong content => esc::rightBracket::content

def Segment.Ok : Segment → Prop
  | .plain b => b ≠ esc
  | .escape b => b ≠ rightBracket
  | .osc payload _ => Payload payload ∧ payload.length ≤ maxOscLen
  | .overlong content => ∃ w, Overflow w ∧
    (content = w++[bel] ∨ ∃ n, content = w++(List.replicate (n+1) esc++[backslash]))

/-- The application's own command: the part before the first semicolon is `5111`. -/
def isPrivate (payload : Bytes) : Bool := beforeSemi payload == appId

def Segment.forwarded : Segment → Bytes
  | .osc payload t => if isPrivate payload then [] else (Segment.osc payload t).bytes
  | .overlong _ => []
  | s => s.bytes

def Segment.captured : Segment → List Bytes
  | .osc payload _ => if isPrivate payload then [(fromSemi payload).tail] else []
  | _ => []

inductive Held where
  | none
  | esc
  | payload (p : Bytes)
  | payloadEsc (p : Bytes)
  | overflow (w : Bytes)
  | overflowEsc (w : Bytes) (n : ℕ)
  deriving DecidableEq, Repr

def Held.bytes : Held → Bytes
  | .none => []
  | .esc => [OscStream.esc]
  | .payload p => OscStream.esc::rightBracket::p
  | .payloadEsc p => OscStream.esc::rightBracket::(p++[OscStream.esc])
  | .overflow w => OscStream.esc::rightBracket::w
  | .overflowEsc w n => OscStream.esc::rightBracket::(w++List.replicate (n+1) OscStream.esc)

def Held.Ok : Held → Prop
  | .none | .esc => True
  | .payload p | .payloadEsc p => Payload p ∧ p.length ≤ maxOscLen
  | .overflow w | .overflowEsc w _ => Overflow w

def Held.scanner : Held → OscScanner
  | .none => ⟨.normal,[]⟩
  | .esc => ⟨.esc,[]⟩
  | .payload p => ⟨.osc,p⟩
  | .payloadEsc p => ⟨.oscEsc,p⟩
  | .overflow _ => ⟨.oscOverflow,[]⟩
  | .overflowEsc _ _ => ⟨.oscOverflowEsc,[]⟩

def Held.next : Held → UInt8 → List Segment × Held
  | .none, b => if b = OscStream.esc then ([],.esc) else ([.plain b],.none)
  | .esc, b => if b = rightBracket then ([],.payload []) else ([.escape b],.none)
  | .payload p, b =>
    if b = bel then ([.osc p .bel],.none)
    else if b = OscStream.esc then ([],.payloadEsc p)
    else if p.length < maxOscLen then ([],.payload (p++[b]))
    else ([],.overflow (p++[b]))
  | .payloadEsc p, b =>
    if b = backslash then ([.osc p .st],.none)
    else if p.length+2 ≤ maxOscLen then ([],.payload (p++[OscStream.esc,b]))
    else ([],.overflow (p++[OscStream.esc,b]))
  | .overflow w, b =>
    if b = bel then ([.overlong (w++[bel])],.none)
    else if b = OscStream.esc then ([],.overflowEsc w 0)
    else ([],.overflow (w++[b]))
  | .overflowEsc w n, b =>
    if b = backslash then
      ([.overlong (w++(List.replicate (n+1) OscStream.esc++[backslash]))],.none)
    else if b = OscStream.esc then ([],.overflowEsc w (n+1))
    else ([],.overflow (w++(List.replicate (n+1) OscStream.esc++[b])))

def parseFrom : List Segment × Held → Bytes → List Segment × Held
  | p, [] => p
  | p, b::rest =>
    let q := p.2.next b
    parseFrom (p.1++q.1,q.2) rest

def parse (input : Bytes) : List Segment × Held := parseFrom ([],.none) input

structure Decomposes (input : Bytes) (segs : List Segment) (held : Held) : Prop where
  complete : ∀ s ∈ segs, s.Ok
  begun : held.Ok
  bytes : segs.flatMap Segment.bytes++held.bytes = input

def feedAll : OscScanner → List Bytes → Feed
  | s, [] => ⟨s,[],[]⟩
  | s, chunk::rest =>
    let f := feed s chunk
    let g := feedAll f.scanner rest
    ⟨g.scanner,f.out++g.out,f.captured++g.captured⟩

section Grammar

theorem payload_of_forall {p q : Bytes} (hp : Payload p) (h : ∀ b ∈ q, b ≠ bel ∧ b ≠ esc) :
    Payload (p++q) := by
  induction q generalizing p with
  | nil => rwa [List.append_nil]
  | cons b q ih =>
    obtain ⟨hb,hq⟩ := List.forall_mem_cons.mp h
    rw [List.append_cons]
    exact ih (hp.byte hb.1 hb.2) hq

/-- One byte keeps to the grammar and loses nothing. -/
theorem next_ok {held : Held} (h : held.Ok) (b : UInt8) :
    (∀ s ∈ (held.next b).1, s.Ok) ∧ (held.next b).2.Ok ∧
      (held.next b).1.flatMap Segment.bytes++(held.next b).2.bytes = held.bytes++[b] := by
  cases held with
  | none =>
    simp only [Held.next]
    split_ifs with hesc
    · rw [hesc]
      exact ⟨nofun,trivial,rfl⟩
    · exact ⟨List.forall_mem_singleton.mpr hesc,trivial,rfl⟩
  | esc =>
    simp only [Held.next]
    split_ifs with hosc
    · rw [hosc]
      exact ⟨nofun,⟨.nil,Nat.zero_le _⟩,rfl⟩
    · exact ⟨List.forall_mem_singleton.mpr hosc,trivial,rfl⟩
  | payload p =>
    simp only [Held.next]
    split_ifs with hbel hesc hlen
    · rw [hbel]
      exact ⟨List.forall_mem_singleton.mpr h,trivial,by simp [Segment.bytes, Held.bytes, Terminator.bytes]⟩
    · rw [hesc]
      exact ⟨nofun,h,rfl⟩
    · exact ⟨nofun,⟨h.1.byte hbel hesc,by simpa using hlen⟩,rfl⟩
    · exact ⟨nofun,.byte h.1 h.2 (by omega) hbel hesc,rfl⟩
  | payloadEsc p =>
    simp only [Held.next]
    split_ifs with hst hlen
    · rw [hst]
      exact ⟨List.forall_mem_singleton.mpr h,trivial,by simp [Segment.bytes, Held.bytes, Terminator.bytes]⟩
    · exact ⟨nofun,⟨h.1.pair hst,by simpa using hlen⟩,by simp [Held.bytes]⟩
    · exact ⟨nofun,.pair h.1 h.2 (by omega) hst,by simp [Held.bytes]⟩
  | overflow w =>
    simp only [Held.next]
    split_ifs with hbel hesc
    · rw [hbel]
      exact ⟨List.forall_mem_singleton.mpr ⟨w,h,.inl rfl⟩,trivial,by simp [Segment.bytes, Held.bytes]⟩
    · rw [hesc]
      exact ⟨nofun,h,rfl⟩
    · exact ⟨nofun,.next h hbel hesc,rfl⟩
  | overflowEsc w n =>
    simp only [Held.next]
    split_ifs with hst hesc
    · rw [hst]
      exact ⟨List.forall_mem_singleton.mpr ⟨w,h,.inr ⟨n,rfl⟩⟩,trivial,
        by simp [Segment.bytes, Held.bytes]⟩
    · rw [hesc]
      refine ⟨nofun,h,?_⟩
      simp only [Held.bytes, List.flatMap_nil, List.nil_append, List.cons_append,
        List.append_assoc, ← List.replicate_succ']
    · exact ⟨nofun,.run n h hesc hst,by simp [Held.bytes]⟩

theorem parseFrom_ok {p : List Segment × Held} (hsegs : ∀ s ∈ p.1, s.Ok) (hheld : p.2.Ok)
    (input : Bytes) :
    (∀ s ∈ (parseFrom p input).1, s.Ok) ∧ (parseFrom p input).2.Ok ∧
      (parseFrom p input).1.flatMap Segment.bytes++(parseFrom p input).2.bytes =
        p.1.flatMap Segment.bytes++p.2.bytes++input := by
  induction input generalizing p with
  | nil => exact ⟨hsegs,hheld,(List.append_nil _).symm⟩
  | cons b input ih =>
    obtain ⟨hnew,hnext,hbytes⟩ := next_ok hheld b
    have hall : ∀ s ∈ p.1++(p.2.next b).1, s.Ok :=
      fun s hs => (List.mem_append.mp hs).elim (hsegs s) (hnew s)
    obtain ⟨hsegs',hheld',hrest⟩ := @ih (p.1++(p.2.next b).1,(p.2.next b).2) hall hnext
    refine ⟨hsegs',hheld',?_⟩
    rw [parseFrom, hrest, List.flatMap_append, List.append_assoc (p.1.flatMap _), hbytes]
    simp

theorem parseFrom_append (p : List Segment × Held) (a b : Bytes) :
    parseFrom p (a++b) = parseFrom (parseFrom p a) b := by
  induction a generalizing p with
  | nil => rfl
  | cons x a ih => exact ih _

theorem parseFrom_base (segs : List Segment) (held : Held) (input : Bytes) :
    parseFrom (segs,held) input =
      (segs++(parseFrom ([],held) input).1,(parseFrom ([],held) input).2) := by
  induction input generalizing segs held with
  | nil => simp [parseFrom]
  | cons b input ih =>
    simp only [parseFrom]
    rw [ih, ih ([]++_)]
    simp

theorem parseFrom_append_held (held : Held) (a b : Bytes) :
    (parseFrom ([],held) (a++b)).2 = (parseFrom ([],(parseFrom ([],held) a).2) b).2 := by
  rw [parseFrom_append]
  show (parseFrom ((parseFrom ([],held) a).1,(parseFrom ([],held) a).2) b).2 = _
  rw [parseFrom_base]

theorem parse_concat (w : Bytes) (b : UInt8) :
    parse (w++[b]) = ((parse w).1++((parse w).2.next b).1,((parse w).2.next b).2) := by
  rw [parse, parseFrom_append]
  rfl

theorem parse_payload {p : Bytes} (h : Payload p) (hlen : p.length ≤ maxOscLen) :
    parse (esc::rightBracket::p) = ([],.payload p) := by
  induction h with
  | nil => rfl
  | @byte p b h hbel hesc ih =>
    rw [List.length_append, List.length_singleton] at hlen
    have hp := ih (by omega)
    rw [← List.cons_append, ← List.cons_append, parse_concat, hp]
    simp only [Held.next, if_neg hbel, if_neg hesc, if_pos (show p.length < maxOscLen by omega)]
    rfl
  | @pair p b h hb ih =>
    simp only [List.length_append, List.length_cons, List.length_nil] at hlen
    have hp := ih (by omega)
    have hsplit : esc::rightBracket::(p++[esc,b]) = ((esc::rightBracket::p)++[esc])++[b] := by simp
    have hpair : (Held.payload p).next esc = ([],.payloadEsc p) := rfl
    rw [hsplit, parse_concat, parse_concat, hp, hpair]
    simp only [Held.next, if_neg hb, if_pos (show p.length+2 ≤ maxOscLen by omega)]
    rfl

theorem parse_payloadEsc {p : Bytes} (h : Payload p) (hlen : p.length ≤ maxOscLen) :
    parse (esc::rightBracket::(p++[esc])) = ([],.payloadEsc p) := by
  rw [← List.cons_append, ← List.cons_append, parse_concat, parse_payload h hlen]
  rfl

theorem parse_overflowEsc {w : Bytes} (h : parse (esc::rightBracket::w) = ([],.overflow w)) (n : ℕ) :
    parse (esc::rightBracket::(w++List.replicate (n+1) esc)) = ([],.overflowEsc w n) := by
  induction n with
  | zero =>
    rw [← List.cons_append, ← List.cons_append]
    show parse (_++[esc]) = _
    rw [parse_concat, h]
    rfl
  | succ n ih =>
    have hsplit : esc::rightBracket::(w++List.replicate (n+2) esc) =
        (esc::rightBracket::(w++List.replicate (n+1) esc))++[esc] := by
      simp only [List.cons_append, List.append_assoc, ← List.replicate_succ']
    rw [hsplit, parse_concat, ih]
    rfl

theorem parse_overflow {w : Bytes} (h : Overflow w) :
    parse (esc::rightBracket::w) = ([],.overflow w) := by
  induction h with
  | @byte p b h hfits hfull hbel hesc =>
    rw [← List.cons_append, ← List.cons_append, parse_concat, parse_payload h hfits]
    simp only [Held.next, if_neg hbel, if_neg hesc, if_neg (show ¬p.length < maxOscLen by omega)]
    rfl
  | @pair p b h hfits hfull hb =>
    have hsplit : esc::rightBracket::(p++[esc,b]) = (esc::rightBracket::(p++[esc]))++[b] := by simp
    rw [hsplit, parse_concat, parse_payloadEsc h hfits]
    simp only [Held.next, if_neg hb, if_neg (show ¬p.length+2 ≤ maxOscLen by omega)]
    rfl
  | @next w b h hbel hesc ih =>
    rw [← List.cons_append, ← List.cons_append, parse_concat, ih]
    simp only [Held.next, if_neg hbel, if_neg hesc]
    rfl
  | @run w b n h hesc hb ih =>
    have hsplit : esc::rightBracket::(w++(List.replicate (n+1) esc++[b])) =
        (esc::rightBracket::(w++List.replicate (n+1) esc))++[b] := by simp
    rw [hsplit, parse_concat, parse_overflowEsc ih n]
    simp only [Held.next, if_neg hb, if_neg hesc]
    rfl

theorem parse_held {held : Held} (h : held.Ok) : parse held.bytes = ([],held) := by
  cases held with
  | none
  | esc => rfl
  | payload p => exact parse_payload h.1 h.2
  | payloadEsc p => exact parse_payloadEsc h.1 h.2
  | overflow w => exact parse_overflow h
  | overflowEsc w n => exact parse_overflowEsc (parse_overflow h) n

theorem segment_last {s : Segment} (h : s.Ok) :
    ∃ held : Held, ∃ b, held.Ok ∧ s.bytes = held.bytes++[b] ∧ held.next b = ([s],.none) := by
  cases s with
  | plain b => exact ⟨.none,b,trivial,rfl,if_neg h⟩
  | escape b => exact ⟨.esc,b,trivial,rfl,if_neg h⟩
  | osc p t =>
    cases t with
    | bel => exact ⟨.payload p,bel,h,rfl,rfl⟩
    | st => exact ⟨.payloadEsc p,backslash,h,by simp [Segment.bytes, Held.bytes, Terminator.bytes],rfl⟩
  | overlong content =>
    obtain ⟨w,hw,rfl | ⟨n,rfl⟩⟩ := h
    · exact ⟨.overflow w,bel,hw,rfl,rfl⟩
    · exact ⟨.overflowEsc w n,backslash,hw,by simp [Segment.bytes, Held.bytes],rfl⟩

theorem parse_segment {s : Segment} (h : s.Ok) : parse s.bytes = ([s],.none) := by
  obtain ⟨held,b,hheld,hbytes,hnext⟩ := segment_last h
  rw [hbytes, parse_concat, parse_held hheld, hnext]
  rfl

theorem parse_segments {segs : List Segment} {held : Held} (hsegs : ∀ s ∈ segs, s.Ok)
    (hheld : held.Ok) : parse (segs.flatMap Segment.bytes++held.bytes) = (segs,held) := by
  induction segs with
  | nil => exact parse_held hheld
  | cons s segs ih =>
    obtain ⟨hs,hrest⟩ := List.forall_mem_cons.mp hsegs
    rw [List.flatMap_cons, List.append_assoc, parse, parseFrom_append]
    have hfirst : parseFrom ([],.none) s.bytes = ([s],.none) := parse_segment hs
    have htail : parseFrom ([],.none) (segs.flatMap Segment.bytes++held.bytes) = (segs,held) :=
      ih hrest
    rw [hfirst, parseFrom_base, htail]
    rfl

/-- A stream has one decomposition. -/
theorem parse_of_decomposes {input : Bytes} {segs : List Segment} {held : Held}
    (h : Decomposes input segs held) : parse input = (segs,held) := by
  rw [← h.bytes]
  exact parse_segments h.complete h.begun

end Grammar

section Scanner

/-- What is captured of a private command is its part after the first semicolon. -/
theorem finishOsc_payload {p : Bytes} (h : beforeSemi p = appId) :
    (if 5 < p.length then p.drop 5 else []) = (fromSemi p).tail := by
  have hp : appId++fromSemi p = p := by
    rw [← h]
    exact List.takeWhile_append_dropWhile
  have hdrop : p.drop 5 = (fromSemi p).tail := by
    calc
      p.drop 5 = (appId++fromSemi p).drop 5 := by rw [hp]
      _ = (fromSemi p).drop 1 := rfl
      _ = (fromSemi p).tail := List.drop_one
  split_ifs with hlen
  · exact hdrop
  · rw [← hdrop, List.drop_of_length_le (Nat.not_lt.mp hlen)]

theorem finishOsc_segment (p : Bytes) (t : Terminator) (s : State) :
    finishOsc t ⟨⟨s,p⟩,[],[]⟩ =
      ⟨Held.none.scanner,(Segment.osc p t).forwarded,(Segment.osc p t).captured⟩ := by
  unfold finishOsc
  simp only [Segment.forwarded, Segment.captured, isPrivate, beq_iff_eq]
  by_cases happ : beforeSemi p = appId
  · simp only [if_pos happ, finishOsc_payload happ]
    rfl
  · simp only [if_neg happ]
    rfl

/-- The scanner follows the segments byte by byte. -/
theorem feedByte_next (held : Held) (b : UInt8) :
    feedByte ⟨held.scanner,[],[]⟩ b =
      ⟨(held.next b).2.scanner,(held.next b).1.flatMap Segment.forwarded,
        (held.next b).1.flatMap Segment.captured⟩ := by
  cases held with
  | none =>
    simp only [feedByte, Held.scanner, Held.next]
    split_ifs <;> rfl
  | esc =>
    simp only [feedByte, Held.scanner, Held.next]
    split_ifs <;> rfl
  | payload p =>
    simp only [feedByte, Held.scanner, Held.next]
    by_cases hbel : b = bel
    · simp only [if_pos hbel, finishOsc_segment, Held.scanner, List.flatMap_singleton]
    by_cases hesc : b = esc
    · simp only [if_neg hbel, if_pos hesc, List.flatMap_nil]
    by_cases hlen : p.length < maxOscLen
    · simp only [if_neg hbel, if_neg hesc, if_pos hlen, List.flatMap_nil]
      exact if_pos hlen
    · simp only [if_neg hbel, if_neg hesc, if_neg hlen, List.flatMap_nil]
      exact if_neg hlen
  | payloadEsc p =>
    simp only [feedByte, Held.scanner, Held.next]
    by_cases hst : b = backslash
    · simp only [if_pos hst, finishOsc_segment, Held.scanner, List.flatMap_singleton]
    by_cases hlen : p.length+2 ≤ maxOscLen
    · simp only [if_neg hst, if_pos hlen, List.flatMap_nil]
      exact if_pos hlen
    · simp only [if_neg hst, if_neg hlen, List.flatMap_nil]
      exact if_neg hlen
  | overflow w =>
    simp only [feedByte, Held.scanner, Held.next]
    split_ifs <;> rfl
  | overflowEsc w n =>
    simp only [feedByte, Held.scanner, Held.next]
    split_ifs <;> rfl

theorem feedByte_base (s : OscScanner) (out : Bytes) (captured : List Bytes) (b : UInt8) :
    feedByte ⟨s,out,captured⟩ b =
      ⟨(feedByte ⟨s,[],[]⟩ b).scanner,out++(feedByte ⟨s,[],[]⟩ b).out,
        captured++(feedByte ⟨s,[],[]⟩ b).captured⟩ := by
  obtain ⟨state,buf⟩ := s
  have hfinish : ∀ t, finishOsc t ⟨⟨state,buf⟩,out,captured⟩ =
      ⟨(finishOsc t ⟨⟨state,buf⟩,[],[]⟩).scanner,out++(finishOsc t ⟨⟨state,buf⟩,[],[]⟩).out,
        captured++(finishOsc t ⟨⟨state,buf⟩,[],[]⟩).captured⟩ := by
    intro t
    unfold finishOsc
    by_cases happ : beforeSemi buf = appId
    · simp only [if_pos happ, List.append_nil, List.nil_append]
    · simp only [if_neg happ, List.append_nil, List.nil_append, List.append_assoc]
  cases state <;> simp only [feedByte] <;> split_ifs <;>
    first | exact hfinish _ | simp only [List.append_nil, List.nil_append]

theorem foldl_feedByte (s : OscScanner) (out : Bytes) (captured : List Bytes) (input : Bytes) :
    input.foldl feedByte ⟨s,out,captured⟩ =
      ⟨(feed s input).scanner,out++(feed s input).out,captured++(feed s input).captured⟩ := by
  induction input generalizing s out captured with
  | nil => simp [feed]
  | cons b input ih =>
    have hself : feed s (b::input) = _ := ih (feedByte ⟨s,[],[]⟩ b).scanner
      (feedByte ⟨s,[],[]⟩ b).out (feedByte ⟨s,[],[]⟩ b).captured
    rw [List.foldl_cons, feedByte_base, ih, hself]
    simp only [List.append_assoc]

theorem feed_append (s : OscScanner) (a b : Bytes) :
    feed s (a++b) = ⟨(feed (feed s a).scanner b).scanner,
      (feed s a).out++(feed (feed s a).scanner b).out,
      (feed s a).captured++(feed (feed s a).scanner b).captured⟩ := by
  rw [feed, List.foldl_append]
  exact foldl_feedByte _ _ _ b

theorem feedAll_eq (s : OscScanner) (chunks : List Bytes) :
    feedAll s chunks = feed s chunks.flatten := by
  induction chunks generalizing s with
  | nil => rfl
  | cons chunk chunks ih =>
    rw [feedAll, List.flatten_cons, feed_append, ih]

theorem feed_parseFrom (held : Held) (input : Bytes) :
    feed held.scanner input = ⟨(parseFrom ([],held) input).2.scanner,
      (parseFrom ([],held) input).1.flatMap Segment.forwarded,
      (parseFrom ([],held) input).1.flatMap Segment.captured⟩ := by
  induction input generalizing held with
  | nil => rfl
  | cons b input ih =>
    have hbyte : feed held.scanner [b] = ⟨(held.next b).2.scanner,
        (held.next b).1.flatMap Segment.forwarded,(held.next b).1.flatMap Segment.captured⟩ :=
      feedByte_next held b
    have hparse : parseFrom ([],held) (b::input) =
        ((held.next b).1++(parseFrom ([],(held.next b).2) input).1,
          (parseFrom ([],(held.next b).2) input).2) :=
      parseFrom_base (held.next b).1 (held.next b).2 input
    rw [← List.singleton_append, feed_append, hbyte, ih, List.singleton_append, hparse]
    simp only [List.flatMap_append]

/-- A fresh scanner forwards and captures what the segments of its input say, and holds the
rest. -/
theorem feed_parse (input : Bytes) :
    feed OscScanner.new input = ⟨(parse input).2.scanner,
      (parse input).1.flatMap Segment.forwarded,(parse input).1.flatMap Segment.captured⟩ :=
  feed_parseFrom .none input

theorem parse_decomposes (input : Bytes) : Decomposes input (parse input).1 (parse input).2 := by
  obtain ⟨hsegs,hheld,hbytes⟩ := parseFrom_ok (p := ([],.none)) nofun trivial input
  exact ⟨hsegs,hheld,hbytes⟩

theorem state_normal_iff {held : Held} : held.scanner.state = .normal ↔ held = .none := by
  cases held <;> simp [Held.scanner]

theorem buf_length {held : Held} (h : held.Ok) : held.scanner.buf.length ≤ maxOscLen := by
  cases held with
  | payload p
  | payloadEsc p => exact h.2
  | none
  | esc
  | overflow w
  | overflowEsc w n => exact Nat.zero_le _

/-- The input of a fresh scanner has one decomposition into segments. What the scanner forwards
and captures are those of the complete ones, whatever the reads, and it holds the last. -/
theorem scanner_segments (chunks : List Bytes) :
    (∃ segs held, Decomposes chunks.flatten segs held ∧
      (∀ segs' held', Decomposes chunks.flatten segs' held' → segs' = segs ∧ held' = held) ∧
      feedAll OscScanner.new chunks =
        ⟨held.scanner,segs.flatMap Segment.forwarded,segs.flatMap Segment.captured⟩) ∧
    (feedAll OscScanner.new chunks).scanner.buf.length ≤ maxOscLen ∧
    ∀ chunks', chunks'.flatten = chunks.flatten →
      feedAll OscScanner.new chunks' = feedAll OscScanner.new chunks := by
  have hparse := parse_decomposes chunks.flatten
  have hfeed : feedAll OscScanner.new chunks = ⟨(parse chunks.flatten).2.scanner,
      (parse chunks.flatten).1.flatMap Segment.forwarded,
      (parse chunks.flatten).1.flatMap Segment.captured⟩ := by
    rw [feedAll_eq, feed_parse]
  refine ⟨⟨_,_,hparse,?_,hfeed⟩,?_,?_⟩
  · intro segs' held' h
    rw [parse_of_decomposes h]
    exact ⟨rfl,rfl⟩
  · rw [hfeed]
    exact buf_length hparse.begun
  · intro chunks' hsame
    rw [feedAll_eq, feedAll_eq, hsame]

end Scanner

end Term.OscSegments
