import TermMux.ByteOrder

/-!
# The cursor query filter of the Windows PTY

On Windows ConPTY asks for the cursor position and waits for the answer.
`DsrScanner::feed` takes each `ESC [ 6 n` out of the PTY's output and answers
it itself. What it removes is said without the scanner: every stream is a list
of sequences and the beginning of one more, and the queries among them go.
-/

set_option autoImplicit false

namespace Term.DsrFilter
open Term.ByteOrder

/-- `out` is `input` with `k` disjoint occurrences of `w` taken out. -/
inductive Removed {α : Type} (w : List α) : ℕ → List α → List α → Prop where
  | nil : Removed w 0 [] []
  | keep (a : α) {k : ℕ} {input out : List α} :
      Removed w k input out → Removed w k (a::input) (a::out)
  | cut {k : ℕ} {input out : List α} :
      Removed w k input out → Removed w (k+1) (w++input) out

section Removal

variable {α : Type} {w : List α}

theorem removed_refl (xs : List α) : Removed w 0 xs xs := by
  induction xs with
  | nil => exact .nil
  | cons a xs ih => exact .keep a ih

theorem Removed.append {j k : ℕ} {xs xs' ys ys' : List α} (h : Removed w j xs xs')
    (hy : Removed w k ys ys') : Removed w (j+k) (xs++ys) (xs'++ys') := by
  induction h with
  | nil => simpa using hy
  | keep a _ ih => exact .keep a ih
  | cut _ ih =>
    rw [List.append_assoc, Nat.add_right_comm]
    exact .cut ih

end Removal

def maxCsiLen : ℕ := 64
def esc : UInt8 := 0x1B
def bracket : UInt8 := 0x5B

/-- `ESC [ 6 n`. -/
def query : Bytes := [0x1B,0x5B,0x36,0x6E]

/-- `ESC [ 1 ; 1 R`. -/
def reply : Bytes := [0x1B,0x5B,0x31,0x3B,0x31,0x52]

inductive DsrState where
  | normal | esc | csi
  deriving DecidableEq, Repr

structure DsrScanner where
  state : DsrState
  args : Bytes
  deriving DecidableEq, Repr

def DsrScanner.new : DsrScanner := ⟨.normal,[]⟩

structure Feed where
  scanner : DsrScanner
  out : Bytes
  replies : List Bytes
  deriving DecidableEq, Repr

def isFinal (b : UInt8) : Bool := 0x40 ≤ b && b ≤ 0x7E

def csiBytes (args : Bytes) : Bytes := esc::bracket::args

def feedByte (f : Feed) (b : UInt8) : Feed :=
  let args := f.scanner.args
  match f.scanner.state with
  | .normal =>
    if b = esc then { f with scanner := ⟨.esc,args⟩ } else { f with out := f.out++[b] }
  | .esc =>
    if b = bracket then { f with scanner := ⟨.csi,[]⟩ }
    else { f with scanner := ⟨.normal,args⟩, out := f.out++[esc,b] }
  | .csi =>
    if isFinal b then
      if args = [0x36] ∧ b = 0x6E then
        { f with scanner := ⟨.normal,[]⟩, replies := f.replies++[reply] }
      else { f with scanner := ⟨.normal,[]⟩, out := f.out++(csiBytes args++[b]) }
    -- The overrun: the sequence is given up and forwarded as it is.
    else if maxCsiLen ≤ args.length then
      { f with scanner := ⟨.normal,[]⟩, out := f.out++(csiBytes args++[b]) }
    else { f with scanner := ⟨.csi,args++[b]⟩ }

def feed (s : DsrScanner) (input : Bytes) : Feed := input.foldl feedByte ⟨s,[],[]⟩

def feedAll : DsrScanner → List Bytes → Feed
  | s, [] => ⟨s,[],[]⟩
  | s, chunk::rest =>
    let f := feed s chunk
    let g := feedAll f.scanner rest
    ⟨g.scanner,f.out++g.out,f.replies++g.replies⟩

def DsrScanner.held (s : DsrScanner) : Bytes :=
  match s.state with
  | .normal => []
  | .esc => [DsrFilter.esc]
  | .csi => csiBytes s.args

section Chunks

def Feed.behind (out : Bytes) (replies : List Bytes) (f : Feed) : Feed :=
  ⟨f.scanner,out++f.out,replies++f.replies⟩

theorem feedByte_behind (out : Bytes) (replies : List Bytes) (f : Feed) (b : UInt8) :
    feedByte (f.behind out replies) b = (feedByte f b).behind out replies := by
  obtain ⟨⟨state,args⟩,o,r⟩ := f
  cases state with
  | normal =>
    simp only [feedByte, Feed.behind]
    split_ifs <;> simp
  | esc =>
    simp only [feedByte, Feed.behind]
    split_ifs <;> simp
  | csi =>
    simp only [feedByte, Feed.behind]
    split_ifs <;> simp [*]

theorem feed_behind (s : DsrScanner) (out : Bytes) (replies : List Bytes) (input : Bytes) :
    input.foldl feedByte ⟨s,out,replies⟩ = (feed s input).behind out replies := by
  have hstart : (⟨s,out,replies⟩ : Feed) = Feed.behind out replies ⟨s,[],[]⟩ := by
    simp only [Feed.behind, List.append_nil]
  rw [hstart]
  exact List.foldl_hom (Feed.behind out replies) (feedByte_behind out replies)

theorem feed_append (s : DsrScanner) (a b : Bytes) :
    feed s (a++b) =
      (feed (feed s a).scanner b).behind (feed s a).out (feed s a).replies := by
  rw [feed, List.foldl_append]
  exact feed_behind _ _ _ b

theorem feedAll_eq (s : DsrScanner) (chunks : List Bytes) :
    feedAll s chunks = feed s chunks.flatten := by
  induction chunks generalizing s with
  | nil => rfl
  | cons chunk chunks ih =>
    rw [feedAll, List.flatten_cons, feed_append, ih]
    rfl

end Chunks

inductive Sequence where
  | byte (b : UInt8)
  | pair (b : UInt8)
  | csi (args : Bytes) (final : UInt8)
  | overrun (args : Bytes) (b : UInt8)
  deriving DecidableEq, Repr

def Sequence.bytes : Sequence → Bytes
  | .byte b => [b]
  | .pair b => [esc,b]
  | .csi args b | .overrun args b => csiBytes args++[b]

def Fits (args : Bytes) : Prop := args.length ≤ maxCsiLen ∧ ∀ b ∈ args, isFinal b = false

def Sequence.Ok : Sequence → Prop
  | .byte b => b ≠ DsrFilter.esc
  | .pair b => b ≠ bracket
  | .csi args final => Fits args ∧ isFinal final = true
  | .overrun args b => Fits args ∧ maxCsiLen ≤ args.length ∧ isFinal b = false

def Unfinished (rest : Bytes) : Prop :=
  rest = [] ∨ rest = [esc] ∨ ∃ args, Fits args ∧ rest = csiBytes args

/-- The input is these sequences and the beginning of one more. -/
structure Cut (input : Bytes) (seqs : List Sequence) (rest : Bytes) : Prop where
  split : input = seqs.flatMap Sequence.bytes++rest
  ok : ∀ q ∈ seqs, q.Ok
  rest : Unfinished rest

def Sequence.dsr : Sequence := .csi [0x36] 0x6E

section Sequences

variable {input rest : Bytes} {seqs : List Sequence} {args : Bytes}

theorem cut_rest (h : Cut input seqs rest) {rest' : Bytes} {b : UInt8} (hrest : rest' = rest++[b])
    (hun : Unfinished rest') : Cut (input++[b]) seqs rest' :=
  ⟨by rw [h.split, hrest, List.append_assoc],h.ok,hun⟩

theorem cut_ends (h : Cut input seqs rest) {q : Sequence} {b : UInt8} (hq : q.bytes = rest++[b])
    (hok : q.Ok) : Cut (input++[b]) (seqs++[q]) [] where
  split := by
    rw [h.split, List.flatMap_append, List.flatMap_singleton, hq, List.append_nil,
      List.append_assoc]
  ok r hr := by
    rcases List.mem_append.mp hr with hr | hr
    · exact h.ok r hr
    · rwa [List.mem_singleton.mp hr]
  rest := .inl rfl

/-- The next byte ends the sequence that is begun, or goes on with it. -/
theorem cut_snoc (h : Cut input seqs rest) (b : UInt8) :
    ∃ seqs' rest', Cut (input++[b]) seqs' rest' := by
  rcases h.rest with rfl | rfl | ⟨args,hfits,rfl⟩
  · by_cases hb : b = esc
    · exact ⟨_,_,cut_rest h rfl (.inr (.inl (by rw [hb]; rfl)))⟩
    · exact ⟨_,_,cut_ends (q := .byte b) h rfl hb⟩
  · by_cases hb : b = bracket
    · have hempty : Fits [] := ⟨Nat.zero_le _,List.forall_mem_nil _⟩
      exact ⟨_,_,cut_rest h rfl (.inr (.inr ⟨[],hempty,by rw [hb]; rfl⟩))⟩
    · exact ⟨_,_,cut_ends (q := .pair b) h rfl hb⟩
  · by_cases hb : isFinal b = true
    · exact ⟨_,_,cut_ends (q := .csi args b) h rfl ⟨hfits,hb⟩⟩
    · have hb : isFinal b = false := Bool.eq_false_iff.mpr hb
      by_cases hlong : maxCsiLen ≤ args.length
      · exact ⟨_,_,cut_ends (q := .overrun args b) h rfl ⟨hfits,hlong,hb⟩⟩
      · have hmore : Fits (args++[b]) := by
          constructor
          · rw [List.length_append, List.length_singleton]
            omega
          · exact List.forall_mem_append.mpr ⟨hfits.2,List.forall_mem_singleton.mpr hb⟩
        exact ⟨_,_,cut_rest h rfl (.inr (.inr ⟨_,hmore,rfl⟩))⟩

theorem cut_exists (input : Bytes) : ∃ seqs rest, Cut input seqs rest := by
  induction input using List.reverseRecOn with
  | nil => exact ⟨[],[],rfl,List.forall_mem_nil _,.inl rfl⟩
  | append_singleton input b ih =>
    obtain ⟨seqs,rest,h⟩ := ih
    exact cut_snoc h b

/-- The queries are among the sequences, so they are disjoint. -/
theorem removed_sequences (seqs : List Sequence) :
    Removed query (seqs.count .dsr) (seqs.flatMap Sequence.bytes)
      ((seqs.filter (· ≠ .dsr)).flatMap Sequence.bytes) := by
  induction seqs with
  | nil => exact .nil
  | cons q seqs ih =>
    by_cases hq : q = .dsr
    · rw [hq, List.count_cons_self, List.filter_cons_of_neg (by simp), List.flatMap_cons]
      exact .cut ih
    · rw [List.count_cons_of_ne hq, List.filter_cons_of_pos (by simpa using hq),
        List.flatMap_cons, List.flatMap_cons]
      simpa using (removed_refl q.bytes).append ih

end Sequences

section Steps

variable {args out : Bytes} {replies : List Bytes}

theorem feed_args {start : Bytes} (h : Fits (start++args)) :
    args.foldl feedByte ⟨⟨.csi,start⟩,out,replies⟩ = ⟨⟨.csi,start++args⟩,out,replies⟩ := by
  induction args generalizing start with
  | nil => rw [List.append_nil]; rfl
  | cons b args ih =>
    obtain ⟨hlen,hall⟩ := h
    have hb : isFinal b = false := hall b (by simp)
    have hroom : ¬ maxCsiLen ≤ start.length := by
      rw [List.length_append, List.length_cons] at hlen
      omega
    have hrest : Fits (start++[b]++args) := by
      rw [List.append_assoc]
      exact ⟨hlen,hall⟩
    rw [List.foldl_cons]
    simp only [feedByte, hb, hroom, if_false, Bool.false_eq_true]
    rw [ih hrest, List.append_assoc]
    rfl

theorem feed_csi (h : Fits args) :
    (csiBytes args).foldl feedByte ⟨.new,out,replies⟩ = ⟨⟨.csi,args⟩,out,replies⟩ := by
  have hall : Fits ([]++args) := h
  exact feed_args hall

/-- A whole sequence leaves the scanner as new. A query is answered and every other passes. -/
theorem feed_sequence {q : Sequence} (hq : q.Ok) :
    q.bytes.foldl feedByte ⟨.new,out,replies⟩ =
      if q = .dsr then ⟨.new,out,replies++[reply]⟩ else ⟨.new,out++q.bytes,replies⟩ := by
  cases q with
  | byte b =>
    have hb : b ≠ esc := hq
    simp [Sequence.bytes, Sequence.dsr, feedByte, DsrScanner.new, hb]
  | pair b =>
    have hb : b ≠ bracket := hq
    simp [Sequence.bytes, Sequence.dsr, feedByte, DsrScanner.new, hb]
  | csi args final =>
    obtain ⟨hfits,hfinal⟩ := hq
    rw [Sequence.bytes, List.foldl_append, feed_csi hfits]
    simp only [List.foldl_cons, List.foldl_nil, feedByte, hfinal, if_true, Sequence.dsr,
      Sequence.csi.injEq]
    rfl
  | overrun args b =>
    obtain ⟨hfits,hlong,hb⟩ := hq
    rw [Sequence.bytes, List.foldl_append, feed_csi hfits]
    simp [feedByte, hb, hlong, Sequence.dsr, DsrScanner.new]

theorem feed_sequences {seqs : List Sequence} (hok : ∀ q ∈ seqs, q.Ok) :
    (seqs.flatMap Sequence.bytes).foldl feedByte ⟨.new,out,replies⟩ =
      ⟨.new,out++(seqs.filter (· ≠ .dsr)).flatMap Sequence.bytes,
        replies++List.replicate (seqs.count .dsr) reply⟩ := by
  induction seqs generalizing out replies with
  | nil => simp
  | cons q seqs ih =>
    obtain ⟨hq,hrest⟩ := List.forall_mem_cons.mp hok
    rw [List.flatMap_cons, List.foldl_append, feed_sequence hq]
    by_cases hdsr : q = .dsr
    · rw [if_pos hdsr, ih hrest, hdsr, List.count_cons_self, List.filter_cons_of_neg (by simp),
        List.append_assoc, List.replicate_succ]
      rfl
    · rw [if_neg hdsr, ih hrest, List.count_cons_of_ne hdsr,
        List.filter_cons_of_pos (by simpa using hdsr), List.flatMap_cons, List.append_assoc]

theorem feed_rest {rest : Bytes} (h : Unfinished rest) :
    ∃ s : DsrScanner, (∀ out replies, rest.foldl feedByte ⟨.new,out,replies⟩ = ⟨s,out,replies⟩) ∧
      s.held = rest ∧ s.args.length ≤ maxCsiLen := by
  rcases h with rfl | rfl | ⟨args,hfits,rfl⟩
  · exact ⟨.new,fun _ _ => rfl,rfl,Nat.zero_le _⟩
  · exact ⟨⟨.esc,[]⟩,fun _ _ => rfl,rfl,Nat.zero_le _⟩
  · exact ⟨⟨.csi,args⟩,fun _ _ => feed_csi hfits,rfl,hfits.1⟩

theorem feed_cut {input rest : Bytes} {seqs : List Sequence} (h : Cut input seqs rest) :
    (feed .new input).out = (seqs.filter (· ≠ .dsr)).flatMap Sequence.bytes ∧
    (feed .new input).replies = List.replicate (seqs.count .dsr) reply ∧
    (feed .new input).scanner.held = rest ∧
    (feed .new input).scanner.args.length ≤ maxCsiLen := by
  obtain ⟨s,hs,hheld,hlen⟩ := feed_rest h.rest
  have hfeed : feed .new input = ⟨s,(seqs.filter (· ≠ .dsr)).flatMap Sequence.bytes,
      List.replicate (seqs.count .dsr) reply⟩ := by
    rw [feed, h.split, List.foldl_append, feed_sequences h.ok, List.nil_append, List.nil_append,
      hs]
  rw [hfeed]
  exact ⟨rfl,rfl,hheld,hlen⟩

end Steps

/-- Whatever the stream and however it is cut into reads, what is forwarded and
what is held is the input less one cursor query for each reply. The input is a
list of sequences and the beginning of one more, which is held; of the sequences
the queries are taken out and no others. -/
theorem queries_removed (chunks : List Bytes) :
    let f := feedAll .new chunks
    Removed query f.replies.length chunks.flatten (f.out++f.scanner.held) ∧
      (∀ r ∈ f.replies, r = reply) ∧
      f = feed .new chunks.flatten ∧
      (∀ n, (feed .new (chunks.flatten.take n)).scanner.args.length ≤ maxCsiLen) ∧
      (∃ seqs, Cut chunks.flatten seqs f.scanner.held) ∧
      ∀ seqs rest, Cut chunks.flatten seqs rest → f.scanner.held = rest ∧
        f.out = (seqs.filter (· ≠ .dsr)).flatMap Sequence.bytes ∧
        f.replies.length = seqs.count .dsr := by
  intro f
  have hf : f = feed .new chunks.flatten := feedAll_eq .new chunks
  obtain ⟨seqs,rest,hcut⟩ := cut_exists chunks.flatten
  obtain ⟨hout,hreplies,hheld,-⟩ := feed_cut hcut
  rw [← hf] at hout hreplies hheld
  refine ⟨?_,?_,hf,fun n => ?_,⟨seqs,hheld ▸ hcut⟩,fun seqs' rest' hcut' => ?_⟩
  · rw [hout, hreplies, hheld, List.length_replicate, hcut.split]
    exact (removed_sequences seqs).append (removed_refl rest)
  · intro r hr
    rw [hreplies] at hr
    exact List.eq_of_mem_replicate hr
  · obtain ⟨_,_,hcut'⟩ := cut_exists (chunks.flatten.take n)
    exact (feed_cut hcut').2.2.2
  · obtain ⟨hout',hreplies',hheld',-⟩ := feed_cut hcut'
    rw [hf, hreplies', List.length_replicate]
    exact ⟨hheld',hout',rfl⟩

/-- A query cut between two reads, and one behind a stray ESC, which passes. -/
example : feedAll .new [[0x61,0x1B,0x5B],[0x36,0x6E,0x1B],[0x1B,0x5B,0x36,0x6E]] =
    ⟨.new,[0x61,0x1B,0x1B,0x5B,0x36,0x6E],[reply]⟩ := by decide

end Term.DsrFilter
