import TermMux.ByteOrder

/-!
# Encoded CBOR items

The encodings of definite-length data items of major types 0 to 5, as a grammar over byte
strings. A head carries its argument in one of five widths, of which none is preferred. The
grammar is bounded by the length of strings and by the depth at which an item may lie.
-/

set_option autoImplicit false

namespace Term.CborItem
open Term.ByteOrder

inductive Width where
  | direct | one | two | four | eight
  deriving DecidableEq, Repr

def Width.bytes : Width → ℕ
  | .direct => 0
  | .one => 1
  | .two => 2
  | .four => 4
  | .eight => 8

def Width.info (w : Width) (v : ℕ) : ℕ :=
  match w with
  | .direct => v
  | .one => 24
  | .two => 25
  | .four => 26
  | .eight => 27

def Width.Fits (w : Width) (v : ℕ) : Prop := v < if w = .direct then 24 else 256^w.bytes

instance (w : Width) (v : ℕ) : Decidable (w.Fits v) := inferInstanceAs (Decidable (_ < _))

def headBytes (w : Width) (major v : ℕ) : Bytes :=
  UInt8.ofNat (32*major+w.info v)::beBytes w.bytes v

/-- `e` is the encoding of one item that lies at `depth`. -/
inductive Item (maxString maxNesting : ℕ) : ℕ → Bytes → Prop
  | integer {depth major v : ℕ} {w : Width} (hdepth : depth ≤ maxNesting) (hmajor : major < 2)
      (hfits : w.Fits v) : Item maxString maxNesting depth (headBytes w major v)
  | string {depth major : ℕ} {w : Width} {s : Bytes} (hdepth : depth ≤ maxNesting)
      (hlow : 2 ≤ major) (hhigh : major < 4) (hfits : w.Fits s.length)
      (hlen : s.length ≤ maxString) :
      Item maxString maxNesting depth (headBytes w major s.length++s)
  | array {depth : ℕ} {w : Width} {items : List Bytes} (hdepth : depth ≤ maxNesting)
      (hfits : w.Fits items.length) (hitems : ∀ e ∈ items, Item maxString maxNesting (depth+1) e) :
      Item maxString maxNesting depth (headBytes w 4 items.length++items.flatten)
  | map {depth : ℕ} {w : Width} {entries : List (Bytes × Bytes)} (hdepth : depth ≤ maxNesting)
      (hfits : w.Fits entries.length)
      (hkeys : ∀ p ∈ entries, Item maxString maxNesting (depth+1) p.1)
      (hvalues : ∀ p ∈ entries, Item maxString maxNesting (depth+1) p.2) :
      Item maxString maxNesting depth
        (headBytes w 5 entries.length++entries.flatMap fun p => p.1++p.2)

/-- The argument of an integer is its value, or the distance of its value from `-1`. -/
def intArg (i : ℤ) : ℕ := (if i < 0 then -1-i else i).toNat

def intMajor (i : ℤ) : ℕ := if i < 0 then 1 else 0

def IsInt (e : Bytes) (i : ℤ) : Prop :=
  ∃ w : Width, w.Fits (intArg i) ∧ e = headBytes w (intMajor i) (intArg i)

def IsString (major : ℕ) (e s : Bytes) : Prop :=
  ∃ w : Width, w.Fits s.length ∧ e = headBytes w major s.length++s

def IsOther (e : Bytes) : Prop :=
  ∃ b q, e = b::q ∧ (3 ≤ b.toNat/32 ∨ 28 ≤ b.toNat%32)

variable {maxString maxNesting depth : ℕ} {e : Bytes} {w : Width} {major v : ℕ} {i : ℤ}

theorem fits_lt (h : w.Fits v) : v < 2^64 := by
  cases w <;> simp only [Width.Fits, Width.bytes] at h <;> simp at h <;> omega

theorem info_lt (h : w.Fits v) : w.info v < 32 := by
  cases w <;> simp only [Width.Fits, Width.info, Width.bytes] at h ⊢ <;> simp at h <;> omega

theorem Item.depth_le (h : Item maxString maxNesting depth e) : depth ≤ maxNesting := by
  cases h <;> assumption

theorem IsInt.item (h : IsInt e i) (hdepth : depth ≤ maxNesting) :
    Item maxString maxNesting depth e := by
  obtain ⟨w,hfits,rfl⟩ := h
  apply Item.integer hdepth _ hfits
  unfold intMajor
  split_ifs <;> decide

theorem IsString.item {s : Bytes} (h : IsString major e s) (hdepth : depth ≤ maxNesting)
    (hlow : 2 ≤ major) (hhigh : major < 4) (hlen : s.length ≤ maxString) :
    Item maxString maxNesting depth e := by
  obtain ⟨w,hfits,rfl⟩ := h
  exact .string hdepth hlow hhigh hfits hlen

/-- The initial byte of a head names its major type and a width. -/
theorem head_initial {b : UInt8} {q rest : Bytes} (hmajor : major < 8) (hfits : w.Fits v)
    (h : b::q = headBytes w major v++rest) : b.toNat/32 = major ∧ b.toNat%32 < 28 := by
  have hinfo : w.info v < 28 := by
    cases w with
    | direct =>
      have hlt : v < 24 := hfits
      exact hlt.trans (by decide)
    | one | two | four | eight => simp [Width.info]
  obtain ⟨rfl,-⟩ := List.cons.inj h
  rw [UInt8.toNat_ofNat_of_lt' (show 32*major+w.info v < 256 by omega)]
  omega

theorem Item.lift (h : Item maxString maxNesting depth e) :
    ∀ depth' ≤ depth, Item maxString maxNesting depth' e := by
  induction h with
  | integer hdepth hmajor hfits =>
    intro depth' hle
    exact .integer (by omega) hmajor hfits
  | string hdepth hlow hhigh hfits hlen =>
    intro depth' hle
    exact .string (by omega) hlow hhigh hfits hlen
  | array hdepth hfits hitems ih =>
    intro depth' hle
    exact .array (by omega) hfits fun e he => ih e he (depth'+1) (by omega)
  | map hdepth hfits hkeys hvalues ihk ihv =>
    intro depth' hle
    exact .map (by omega) hfits (fun p hp => ihk p hp (depth'+1) (by omega))
      fun p hp => ihv p hp (depth'+1) (by omega)

theorem item_succ_iff : Item maxString (maxNesting+1) (depth+1) e ↔
    Item maxString maxNesting depth e := by
  constructor
  · intro h
    generalize hd : depth+1 = d at h
    induction h generalizing depth with
    | integer hdepth hmajor hfits => exact .integer (by omega) hmajor hfits
    | string hdepth hlow hhigh hfits hlen => exact .string (by omega) hlow hhigh hfits hlen
    | array hdepth hfits hitems ih =>
      exact .array (by omega) hfits fun e he => ih e he (by rw [hd])
    | map hdepth hfits hkeys hvalues ihk ihv =>
      exact .map (by omega) hfits (fun p hp => ihk p hp (by rw [hd]))
        fun p hp => ihv p hp (by rw [hd])
  · intro h
    induction h with
    | integer hdepth hmajor hfits => exact .integer (by omega) hmajor hfits
    | string hdepth hlow hhigh hfits hlen => exact .string (by omega) hlow hhigh hfits hlen
    | array hdepth hfits hitems ih => exact .array (by omega) hfits ih
    | map hdepth hfits hkeys hvalues ihk ihv => exact .map (by omega) hfits ihk ihv

end Term.CborItem
