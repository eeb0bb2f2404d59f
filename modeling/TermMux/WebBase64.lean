import TermMux.Base64

/-!
# Base64 as the browser spells it

`btoa` and `atob` write and read the padded standard alphabet, `atob` in the
forgiving way of the platform: it drops whitespace, takes padding or none, and
ignores unused low bits. `bufToB64u`, `b64uToBuf` and `bytesToB64NoPad` go from
there to the spellings of the hub by replacing single characters. Text is its
code units, all of them below 256.
-/

set_option autoImplicit false

namespace Term.WebBase64
open Term.ByteOrder Term.Base64

def btoa (b : Bytes) : Bytes := encode standard b++padding (encode standard b).length

def isAsciiWhitespace (c : UInt8) : Bool :=
  c = 0x09 ∨ c = 0x0A ∨ c = 0x0C ∨ c = 0x0D ∨ c = 0x20

def decodeForgiving (a : Alphabet) : Bytes → Option Bytes
  | p::q::r::s::rest => do
    let p ← value a p
    let q ← value a q
    let r ← value a r
    let s ← value a s
    let tail ← decodeForgiving a rest
    return UInt8.ofNat (p*4+q/16)::UInt8.ofNat (q%16*16+r/4)::UInt8.ofNat (r%4*64+s)::tail
  | [p,q,r] => do
    let p ← value a p
    let q ← value a q
    let r ← value a r
    return [UInt8.ofNat (p*4+q/16),UInt8.ofNat (q%16*16+r/4)]
  | [p,q] => do
    let p ← value a p
    let q ← value a q
    return [UInt8.ofNat (p*4+q/16)]
  | [_] => none
  | [] => some []

def dropPadding (t : Bytes) : Bytes :=
  if t.length%4 = 0 then
    match t.reverse with
    | 0x3D::0x3D::rest => rest.reverse
    | 0x3D::rest => rest.reverse
    | _ => t
  else t

def atob (t : Bytes) : Option Bytes :=
  decodeForgiving standard (dropPadding (t.filter fun c => !isAsciiWhitespace c))

/-- `s.replace(/c/g, d)` for single characters. -/
def replaceAll (c d : UInt8) (t : Bytes) : Bytes := t.map fun x => if x = c then d else x

/-- `s.replace(/=+$/, '')` -/
def stripPadding (t : Bytes) : Bytes := (t.reverse.dropWhile (· = 0x3D)).reverse

/-- `while (s.length % 4) s += '='` -/
def padToGroups (t : Bytes) : Bytes := t++List.replicate ((4-t.length%4)%4) 0x3D

def bufToB64u (buf : Bytes) : Bytes :=
  stripPadding (replaceAll 0x2F 0x5F (replaceAll 0x2B 0x2D (btoa buf)))

def b64uToBuf (s : Bytes) : Option Bytes :=
  atob (padToGroups (replaceAll 0x5F 0x2F (replaceAll 0x2D 0x2B s)))

def bytesToB64NoPad (bytes : Bytes) : Bytes := stripPadding (btoa bytes)

section Spellings
variable {a b : Alphabet} {t : Bytes}

theorem forall_encode {p : UInt8 → Prop} (h : ∀ v < 64, p (symbol a v)) (t : Bytes) :
    ∀ s ∈ encode a t, p s := by
  fun_induction encode a t with
  | case1 x y z rest ih =>
    have hx := x.toNat_lt
    have hy := y.toNat_lt
    have hz := z.toNat_lt
    simp only [List.forall_mem_cons]
    exact ⟨h _ (by omega),h _ (by omega),h _ (by omega),h _ (by omega),ih⟩
  | case2 x y =>
    have hx := x.toNat_lt
    have hy := y.toNat_lt
    simp only [List.forall_mem_cons]
    exact ⟨h _ (by omega),h _ (by omega),h _ (by omega),List.forall_mem_nil p⟩
  | case3 x =>
    have hx := x.toNat_lt
    simp only [List.forall_mem_cons]
    exact ⟨h _ (by omega),h _ (by omega),List.forall_mem_nil p⟩
  | case4 => exact List.forall_mem_nil p

theorem map_encode {f : UInt8 → UInt8} (h : ∀ v < 64, f (symbol a v) = symbol b v) (t : Bytes) :
    (encode a t).map f = encode b t := by
  fun_induction encode a t with
  | case1 x y z rest ih =>
    have hx := x.toNat_lt
    have hy := y.toNat_lt
    have hz := z.toNat_lt
    simp only [List.map_cons, ih, encode, h (x.toNat/4) (by omega),
      h (x.toNat%4*16+y.toNat/16) (by omega), h (y.toNat%16*4+z.toNat/64) (by omega),
      h (z.toNat%64) (by omega)]
  | case2 x y =>
    have hx := x.toNat_lt
    have hy := y.toNat_lt
    simp only [List.map_cons, List.map_nil, encode, h (x.toNat/4) (by omega),
      h (x.toNat%4*16+y.toNat/16) (by omega), h (y.toNat%16*4) (by omega)]
  | case3 x =>
    have hx := x.toNat_lt
    simp only [List.map_cons, List.map_nil, encode, h (x.toNat/4) (by omega),
      h (x.toNat%4*16) (by omega)]
  | case4 => rfl

theorem padding_eq (n : ℕ) : ∃ k < 3, padding n = List.replicate k 0x3D := by
  rw [padding]
  split
  · exact ⟨2,by decide,rfl⟩
  · exact ⟨1,by decide,rfl⟩
  · exact ⟨0,by decide,rfl⟩

theorem stripPadding_append (h : ∀ s ∈ t, s ≠ 0x3D) (k : ℕ) :
    stripPadding (t++List.replicate k 0x3D) = t := by
  have hpad : (List.replicate k (0x3D : UInt8)).dropWhile (· = 0x3D) = [] := by
    rw [List.dropWhile_replicate, if_pos (by decide)]
  have hbody : t.reverse.dropWhile (· = 0x3D) = t.reverse := by
    cases hr : t.reverse with
    | nil => rfl
    | cons x rest =>
      have hx : x ∈ t := List.mem_reverse.mp (hr ▸ List.mem_cons_self)
      rw [List.dropWhile_cons_of_neg]
      simpa using h x hx
  rw [stripPadding, List.reverse_append, List.reverse_replicate, List.dropWhile_append, hpad]
  simp [hbody]

theorem replaceAll_replicate {c d : UInt8} (hc : (0x3D : UInt8) ≠ c) (k : ℕ) :
    replaceAll c d (List.replicate k 0x3D) = List.replicate k 0x3D := by
  rw [replaceAll, List.map_replicate, if_neg hc]

theorem bytesToB64NoPad_eq (b : Bytes) : bytesToB64NoPad b = encode standard b := by
  have ⟨k,_,hk⟩ := padding_eq (encode standard b).length
  have hbody : ∀ s ∈ encode standard b, s ≠ 0x3D :=
    forall_encode (fun v hv => by interval_cases v <;> decide) b
  rw [bytesToB64NoPad, btoa, hk, stripPadding_append hbody]

theorem bufToB64u_eq (b : Bytes) : bufToB64u b = encode urlSafe b := by
  have ⟨k,_,hk⟩ := padding_eq (encode standard b).length
  have hbody : ∀ s ∈ encode urlSafe b, s ≠ 0x3D :=
    forall_encode (fun v hv => by interval_cases v <;> decide) b
  have hmap : replaceAll 0x2F 0x5F (replaceAll 0x2B 0x2D (encode standard b)) =
      encode urlSafe b := by
    rw [replaceAll, replaceAll, List.map_map]
    exact map_encode (fun v hv => by interval_cases v <;> rfl) b
  have happend : ∀ (c d : UInt8) (u v : Bytes),
      replaceAll c d (u++v) = replaceAll c d u++replaceAll c d v :=
    fun c d u v => List.map_append
  rw [bufToB64u, btoa, hk, happend, happend, replaceAll_replicate (by decide),
    replaceAll_replicate (by decide), hmap, stripPadding_append hbody]

theorem decodeForgiving_of_decode {c : Bytes} (h : decode a t = some c) :
    decodeForgiving a t = some c := by
  fun_induction decode a t generalizing c with
  | case1 p q r s rest ih =>
    simp only [Option.bind_eq_bind, Option.bind_eq_some_iff, Option.pure_def,
      Option.some.injEq] at h
    obtain ⟨vp,hp,vq,hq,vr,hr,vs,hs,tail,htail,rfl⟩ := h
    simp [decodeForgiving, hp, hq, hr, hs, ih htail]
  | case2 p q r =>
    simp only [Option.bind_eq_bind, Option.bind_eq_some_iff] at h
    obtain ⟨vp,hp,vq,hq,vr,hr,h⟩ := h
    split_ifs at h
    cases h
    simp [decodeForgiving, hp, hq, hr]
  | case3 p q =>
    simp only [Option.bind_eq_bind, Option.bind_eq_some_iff] at h
    obtain ⟨vp,hp,vq,hq,h⟩ := h
    split_ifs at h
    cases h
    simp [decodeForgiving, hp, hq]
  | case4 p => cases h
  | case5 => cases h; rfl

theorem dropPadding_append (h : ∀ s ∈ t, s ≠ 0x3D) {k : ℕ} (hk : k < 3)
    (hlen : (t.length+k)%4 = 0) : dropPadding (t++List.replicate k 0x3D) = t := by
  have hgroups : (t++List.replicate k (0x3D : UInt8)).length%4 = 0 := by
    rw [List.length_append, List.length_replicate, hlen]
  have hhead : ∀ x rest, t.reverse = x::rest → x ≠ 0x3D := fun x rest hr =>
    h x (List.mem_reverse.mp (hr ▸ List.mem_cons_self))
  rw [dropPadding, if_pos hgroups, List.reverse_append, List.reverse_replicate]
  have hback : t.reverse.reverse = t := List.reverse_reverse t
  cases hr : t.reverse with
  | nil =>
    rw [hr] at hback
    interval_cases k <;> simp [List.replicate] at * <;> exact hback
  | cons x rest =>
    have hx := hhead x rest hr
    rw [hr] at hback
    interval_cases k <;> simp [List.replicate, hx] at * <;> exact hback

/-- The browser reads what the hub writes. -/
theorem b64uToBuf_encode (b : Bytes) : b64uToBuf (encode urlSafe b) = some b := by
  have hmap : replaceAll 0x5F 0x2F (replaceAll 0x2D 0x2B (encode urlSafe b)) =
      encode standard b := by
    rw [replaceAll, replaceAll, List.map_map]
    exact map_encode (fun v hv => by interval_cases v <;> rfl) b
  have hbody : ∀ s ∈ encode standard b, s ≠ 0x3D ∧ !isAsciiWhitespace s :=
    forall_encode (fun v hv => by interval_cases v <;> decide) b
  have hlength := encode_length standard b
  have hfilter : (padToGroups (encode standard b)).filter (fun c => !isAsciiWhitespace c) =
      padToGroups (encode standard b) := by
    rw [List.filter_eq_self]
    intro x hx
    rcases List.mem_append.mp hx with hx | hx
    · exact (hbody x hx).2
    · rw [List.eq_of_mem_replicate hx]
      decide
  rw [b64uToBuf, hmap, atob, hfilter, padToGroups,
    dropPadding_append (fun s hs => (hbody s hs).1) (by omega) (by omega)]
  exact decodeForgiving_of_decode (decode_encode_standard b)

end Spellings

end Term.WebBase64
