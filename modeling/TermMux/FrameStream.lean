import TermMux.FrameCodec

/-!
# Frames over a byte stream

The byte-stream transport: a header of nine bytes is read, then the payload it announces.
The stream is the bytes that are still to come before the peer closes. A read that finds
too few bytes has taken those there were.
-/

set_option autoImplicit false

namespace Term.FrameStream
open Term.ByteOrder Term.FrameModel Term.FrameWire Term.FrameCodec Term.Outcome

/-- `read_exact` into a buffer of `n` bytes; nothing stands for `UnexpectedEof`. -/
def readExact (s : Bytes) (n : ℕ) : Option (Bytes × Bytes) :=
  if n ≤ s.length then some (s.take n,s.drop n) else none

def recvPayload (s : Bytes) (len : UInt32) : Outcome FrameError (Bytes × Bytes) :=
  if 0 < len then orElse (readExact s len.toNat) (.io .unexpectedEof "early eof") else .ok ([],s)

def recv (s : Bytes) : Outcome FrameError (Option (Frame × ℕ) × Bytes) :=
  match readExact s headerLen with
  | none => .ok (none,[])
  | some (hdr,s) => do
    let streamId ← u32At hdr 0
    let tyByte ← index hdr 4
    let len ← u32At hdr 5
    let (ty,len) ← validateHeader streamId tyByte len
    let (payload,s) ← recvPayload s len
    let f ← fromPayload streamId ty payload
    return (some (f,headerLen+len.toNat),s)

def readFrames : ℕ → Bytes → Option (List (Frame × ℕ) × Outcome FrameError Unit)
  | 0, _ => none
  | fuel+1, s =>
    match recv s with
    | .ok (none,_) => some ([],.ok ())
    | .ok (some p,rest) => (readFrames fuel rest).map fun r => (p::r.1,r.2)
    | .err e => some ([],.err e)
    | .panicked => some ([],.panicked)

/-- A frame takes a byte at least, so that this many calls are enough. -/
def readAll (s : Bytes) : Option (List (Frame × ℕ) × Outcome FrameError Unit) :=
  readFrames (s.length+1) s

def After : Bytes → Bytes → Prop :=
  Relation.ReflTransGen fun s rest => ∃ p, recv s = .ok (some p,rest)

section Recv

theorem readExact_append (m rest : Bytes) : readExact (m++rest) m.length = some (m,rest) := by
  rw [readExact, if_pos (by simp), List.take_left, List.drop_left]

theorem readExact_eq_some {s m rest : Bytes} {n : ℕ} :
    readExact s n = some (m,rest) ↔ s = m++rest ∧ m.length = n := by
  constructor
  · intro h
    unfold readExact at h
    split_ifs at h with hlen
    cases h
    exact ⟨(List.take_append_drop n s).symm,List.length_take_of_le hlen⟩
  · rintro ⟨rfl,rfl⟩
    exact readExact_append m rest

theorem recv_short {s : Bytes} (h : s.length < headerLen) : recv s = .ok (none,[]) := by
  have hread : readExact s headerLen = none := if_neg (Nat.not_le.mpr h)
  rw [recv, hread]

theorem recvPayload_eq (s : Bytes) (len : UInt32) :
    recvPayload s len = orElse (readExact s len.toNat) (.io .unexpectedEof "early eof") := by
  unfold recvPayload
  split_ifs with hlen
  · rfl
  · have hzero : len = 0 := by simpa using hlen
    rw [hzero]
    rfl

theorem recv_header (sid : UInt32) (tb : UInt8) (len : UInt32) (p : Bytes) :
    recv (be32 sid ++ (tb :: (be32 len ++ p))) = (do
      let (ty,len) ← validateHeader sid tb len
      let (payload,s) ← orElse (readExact p len.toNat) (.io .unexpectedEof "early eof")
      let f ← fromPayload sid ty payload
      return (some (f,headerLen+len.toNat),s)) := by
  have hsplit : be32 sid ++ (tb :: (be32 len ++ p)) = (be32 sid ++ (tb :: (be32 len ++ [])))++p := by
    simp
  have hread : readExact (be32 sid ++ (tb :: (be32 len ++ p))) headerLen =
      some (be32 sid ++ (tb :: (be32 len ++ [])),p) := by
    rw [hsplit]
    exact readExact_append (be32 sid ++ (tb :: (be32 len ++ []))) p
  simp only [recv, hread, header_len, u32At_be32, ok_bind, index_skip32, index_cons, recvPayload_eq]

theorem recv_header_ok (sid : UInt32) (tb : UInt8) (len : UInt32) (p rest : Bytes)
    (o : Option (Frame × ℕ)) :
    recv (be32 sid ++ (tb :: (be32 len ++ p))) = .ok (o,rest) ↔
      ∃ m f n, p = m++rest ∧ o = some (f,n) ∧
        frameFromWsPayload (be32 sid ++ (tb :: (be32 len ++ m))) = .ok (f,n) := by
  simp only [recv_header, bind_eq_ok, Prod.exists, validateHeader_eq_ok, orElse_eq_ok, readExact_eq_some,
    pure_eq_ok, Prod.mk.injEq, frameFromWsPayload_header]
  constructor
  · rintro ⟨ty,_,⟨htb,rfl,hsc,hok⟩,m,_,⟨hp,hm⟩,f,hf,rfl,rfl⟩
    exact ⟨m,f,_,hp,rfl,ty,htb,hsc,hok,hm,hf,by rw [hm]⟩
  · rintro ⟨m,f,n,hp,rfl,ty,htb,hsc,hok,hm,hf,rfl⟩
    exact ⟨ty,len,⟨htb,rfl,hsc,hok⟩,m,rest,⟨hp,hm⟩,f,hf,by rw [hm],rfl⟩

theorem recv_frame (s rest : Bytes) (f : Frame) (n : ℕ) :
    recv s = .ok (some (f,n),rest) ↔
      ∃ m, s = m++rest ∧ m.length = n ∧ frameFromWsPayload m = .ok (f,n) := by
  constructor
  · intro h
    by_cases hs : headerLen ≤ s.length
    · obtain ⟨sid,tb,len,p,rfl⟩ := exists_header hs
      obtain ⟨m,f',n',rfl,ho,hm⟩ := (recv_header_ok sid tb len p rest _).mp h
      cases ho
      refine ⟨_,?_,?_,hm⟩
      · simp
      · exact ((frameFromWsPayload_eq_ok _ _ _).mp hm).2.2.symm
    · rw [recv_short (Nat.not_le.mp hs)] at h
      cases h
  · rintro ⟨m,rfl,hn,hm⟩
    obtain ⟨-,hencode,-⟩ := (frameFromWsPayload_eq_ok m f n).mp hm
    have hlen : headerLen ≤ m.length := by
      rw [hencode, encode_length]
      exact Nat.le_add_right _ _
    obtain ⟨sid,tb,len,p,rfl⟩ := exists_header hlen
    have happend : be32 sid ++ (tb :: (be32 len ++ p)) ++ rest =
        be32 sid ++ (tb :: (be32 len ++ (p++rest))) := by simp
    rw [happend]
    exact (recv_header_ok sid tb len (p++rest) rest _).mpr ⟨p,f,n,rfl,rfl,hm⟩

theorem recv_encode {f : Frame} (h : WellFormed f) (rest : Bytes) :
    recv (encode f++rest) = .ok (some (f,(encode f).length),rest) :=
  (recv_frame _ _ _ _).mpr ⟨encode f,rfl,rfl,(frameFromWsPayload_eq_ok _ _ _).mpr ⟨h,rfl,rfl⟩⟩

theorem recv_inversion {s rest : Bytes} {f : Frame} {n : ℕ} (h : recv s = .ok (some (f,n),rest)) :
    WellFormed f ∧ s = encode f++rest ∧ n = (encode f).length := by
  obtain ⟨m,rfl,rfl,hm⟩ := (recv_frame s rest f n).mp h
  obtain ⟨hf,rfl,-⟩ := (frameFromWsPayload_eq_ok m f _).mp hm
  exact ⟨hf,rfl,rfl⟩

/-- The stream is taken to be closed as soon as fewer bytes than a header are left. -/
theorem recv_none {s rest : Bytes} : recv s = .ok (none,rest) ↔ s.length < headerLen ∧ rest = [] := by
  constructor
  · intro h
    by_cases hs : headerLen ≤ s.length
    · obtain ⟨sid,tb,len,p,rfl⟩ := exists_header hs
      obtain ⟨m,f,n,-,ho,-⟩ := (recv_header_ok sid tb len p rest _).mp h
      cases ho
    · rw [recv_short (Nat.not_le.mp hs)] at h
      cases h
      exact ⟨Nat.not_le.mp hs,rfl⟩
  · rintro ⟨hs,rfl⟩
    exact recv_short hs

/-- A stream that ends within a payload is an error. -/
theorem recv_truncated {f : Frame} (h : WellFormed f) {t u : Bytes} (htu : t++u = encode f)
    (hu : u ≠ []) (ht : headerLen ≤ t.length) :
    recv t = .err (.io .unexpectedEof "early eof") := by
  obtain ⟨sid,tb,len,p,rfl⟩ := exists_header ht
  have hws := (frameFromWsPayload_eq_ok _ f _).mpr ⟨h,htu,rfl⟩
  simp only [List.append_assoc, List.cons_append] at hws
  obtain ⟨ty,htb,hsc,hok,hlen,-,-⟩ := (frameFromWsPayload_header sid tb len (p++u) f _).mp hws
  have hheader : validateHeader sid tb len = .ok (ty,len) :=
    (validateHeader_eq_ok sid tb len len ty).mpr ⟨htb,rfl,hsc,hok⟩
  have hshort : readExact p len.toNat = none := by
    rw [readExact, if_neg]
    rw [← hlen, List.length_append]
    have := List.length_pos_of_ne_nil hu
    omega
  rw [recv_header, hheader]
  simp only [ok_bind, hshort]
  rfl

end Recv

section Reading

theorem readFrames_encode {f : Frame} (h : WellFormed f) (rest : Bytes) (fuel : ℕ) :
    readFrames (fuel+1) (encode f++rest) =
      (readFrames fuel rest).map fun r => ((f,(encode f).length)::r.1,r.2) := by
  rw [readFrames, recv_encode h]

theorem readFrames_flatMap {fs : List Frame} (h : ∀ f ∈ fs, WellFormed f) (rest : Bytes) (fuel : ℕ) :
    readFrames (fs.length+fuel) (fs.flatMap encode++rest) =
      (readFrames fuel rest).map fun r => (fs.map (fun f => (f,(encode f).length))++r.1,r.2) := by
  induction fs with
  | nil => simp
  | cons f fs ih =>
    obtain ⟨hf,hfs⟩ := List.forall_mem_cons.mp h
    rw [List.length_cons, Nat.add_right_comm, List.flatMap_cons, List.append_assoc,
      readFrames_encode hf, ih hfs, Option.map_map]
    rfl

theorem length_le_flatMap (fs : List Frame) : fs.length ≤ (fs.flatMap encode).length := by
  induction fs with
  | nil => exact Nat.le_refl 0
  | cons f fs ih =>
    rw [List.flatMap_cons, List.length_append, encode_length, List.length_cons]
    simp only [headerLen]
    omega

theorem readAll_flatMap {fs : List Frame} (h : ∀ f ∈ fs, WellFormed f) (rest : Bytes) :
    ∃ fuel, readAll (fs.flatMap encode++rest) =
      (readFrames (fuel+1) rest).map fun r => (fs.map (fun f => (f,(encode f).length))++r.1,r.2) := by
  have hlen := length_le_flatMap fs
  obtain ⟨k,hk⟩ := Nat.exists_eq_add_of_le hlen
  refine ⟨k+rest.length,?_⟩
  rw [readAll, List.length_append, hk, ← readFrames_flatMap h]
  congr 1
  omega

theorem readAll_short {fs : List Frame} (h : ∀ f ∈ fs, WellFormed f) {rest : Bytes}
    (hrest : rest.length < headerLen) :
    readAll (fs.flatMap encode++rest) = some (fs.map fun f => (f,(encode f).length),.ok ()) := by
  obtain ⟨fuel,hread⟩ := readAll_flatMap h rest
  rw [hread, readFrames, recv_short hrest]
  simp

theorem after_iff (s rest : Bytes) :
    After s rest ↔ ∃ fs : List Frame, (∀ f ∈ fs, WellFormed f) ∧ s = fs.flatMap encode++rest := by
  constructor
  · intro h
    induction h using Relation.ReflTransGen.head_induction_on with
    | refl => exact ⟨[],nofun,rfl⟩
    | @head s t hstep _ ih =>
      obtain ⟨⟨f,n⟩,hrecv⟩ := hstep
      obtain ⟨hf,rfl,-⟩ := recv_inversion hrecv
      obtain ⟨fs,hfs,rfl⟩ := ih
      refine ⟨f::fs,List.forall_mem_cons.mpr ⟨hf,hfs⟩,?_⟩
      rw [List.flatMap_cons, List.append_assoc]
  · rintro ⟨fs,hfs,rfl⟩
    induction fs with
    | nil => exact Relation.ReflTransGen.refl
    | cons f fs ih =>
      obtain ⟨hf,hrest⟩ := List.forall_mem_cons.mp hfs
      rw [List.flatMap_cons, List.append_assoc]
      exact Relation.ReflTransGen.head ⟨_,recv_encode hf _⟩ (ih hrest)

/-- What was read before the stream was closed is its frames, up to a beginning of a header. -/
theorem readFrames_closed {fuel : ℕ} {s : Bytes} {ps : List (Frame × ℕ)}
    (h : readFrames fuel s = some (ps,.ok ())) :
    (∀ p ∈ ps, WellFormed p.1) ∧
      ∃ rest, rest.length < headerLen ∧ s = ps.flatMap (fun p => encode p.1)++rest := by
  induction fuel generalizing s ps with
  | zero => cases h
  | succ fuel ih =>
    rw [readFrames] at h
    split at h
    next rest hrecv =>
      cases h
      exact ⟨nofun,s,(recv_none.mp hrecv).1,rfl⟩
    next p rest hrecv =>
      obtain ⟨⟨qs,o⟩,hread,heq⟩ := Option.map_eq_some_iff.mp h
      cases heq
      obtain ⟨hp,hs,-⟩ := recv_inversion hrecv
      obtain ⟨hqs,tail,htail,hrest⟩ := ih hread
      refine ⟨List.forall_mem_cons.mpr ⟨hp,hqs⟩,tail,htail,?_⟩
      rw [hs, hrest, List.flatMap_cons, List.append_assoc]
    next => cases h
    next => cases h

end Reading

/-- The byte stream carries the frames the messages carry. A concatenation of encodings is read
as its frames, and then as closed. -/
theorem byte_stream_refines :
    (∀ s rest f n, recv s = .ok (some (f,n),rest) ↔
      ∃ m, s = m++rest ∧ m.length = n ∧ frameFromWsPayload m = .ok (f,n)) ∧
    ∀ fs : List Frame, (∀ f ∈ fs, WellFormed f) →
      readAll (fs.flatMap encode) = some (fs.map fun f => (f,(encode f).length),.ok ()) := by
  refine ⟨recv_frame,fun fs h => ?_⟩
  have hread : readAll (fs.flatMap encode++[]) = some (fs.map fun f => (f,(encode f).length),.ok ()) :=
    readAll_short h (by decide)
  rwa [List.append_nil] at hread

section Truncation

/-- What a reader wants to know of the end of the stream: it is reported as a close where no
byte is left, it is an error within a frame, and a close means that whole frames were read. -/
structure EndReported (s : Bytes) : Prop where
  closed : ∀ rest left, After s rest → recv rest = .ok (none,left) → rest = []
  inside : ∀ (fs : List Frame) f t u, (∀ g ∈ fs, WellFormed g) → WellFormed f → encode f = t++u → t ≠ [] → u ≠ [] →
    s = fs.flatMap encode++t → ∃ e, readAll s = some (fs.map fun g => (g,(encode g).length),.err e)
  whole : ∀ ps, readAll s = some (ps,.ok ()) →
    (∀ p ∈ ps, WellFormed p.1) ∧ s = ps.flatMap fun p => encode p.1

def HeaderCut (s : Bytes) : Prop :=
  ∃ (fs : List Frame) (rest : Bytes), (∀ f ∈ fs, WellFormed f) ∧ s = fs.flatMap encode++rest ∧ rest ≠ [] ∧
    rest.length < headerLen

/-- The end of the stream is reported as it should be unless it is within a header. -/
theorem end_reported_iff (s : Bytes) : EndReported s ↔ ¬HeaderCut s := by
  constructor
  · rintro h ⟨fs,rest,hfs,hs,hne,hlen⟩
    exact hne (h.closed rest [] ((after_iff s rest).mpr ⟨fs,hfs,hs⟩) (recv_short hlen))
  · intro h
    have hnil : ∀ (fs : List Frame) (rest : Bytes), (∀ f ∈ fs, WellFormed f) → s = fs.flatMap encode++rest →
        rest.length < headerLen → rest = [] := by
      intro fs rest hfs hs hlen
      by_contra hne
      exact h ⟨fs,rest,hfs,hs,hne,hlen⟩
    constructor
    · intro rest left hafter hrecv
      obtain ⟨fs,hfs,hs⟩ := (after_iff s rest).mp hafter
      exact hnil fs rest hfs hs (recv_none.mp hrecv).1
    · intro fs f t u hfs hf htu ht hu hs
      have hlen : headerLen ≤ t.length := by
        by_contra hlt
        exact ht (hnil fs t hfs hs (Nat.not_le.mp hlt))
      obtain ⟨fuel,hread⟩ := readAll_flatMap hfs t
      refine ⟨.io .unexpectedEof "early eof",?_⟩
      rw [hs, hread, readFrames, recv_truncated hf htu.symm hu hlen]
      simp
    · intro ps hread
      obtain ⟨hps,rest,hlen,hs⟩ := readFrames_closed hread
      have hflat : ps.flatMap (fun p => encode p.1) = (ps.map Prod.fst).flatMap encode :=
        (List.flatMap_map _ _ _).symm
      have hall : ∀ f ∈ ps.map Prod.fst, WellFormed f := by
        intro f hf
        obtain ⟨p,hp,rfl⟩ := List.mem_map.mp hf
        exact hps p hp
      have hrest := hnil (ps.map Prod.fst) rest hall (by rw [hs, hflat]) hlen
      refine ⟨hps,?_⟩
      rw [hs, hrest, List.append_nil]

/-- One byte of a header, then the end. -/
theorem one_byte_closes : recv [0] = .ok (none,[]) ∧ readAll [0] = some ([],.ok ()) ∧ ¬EndReported [0] := by
  refine ⟨rfl,rfl,fun h => ?_⟩
  have hrest := h.closed [0] [] Relation.ReflTransGen.refl rfl
  cases hrest

end Truncation

end Term.FrameStream
