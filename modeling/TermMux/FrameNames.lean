import TermMux.FrameCodec

/-!
# Names of pastes and downloads on the wire

The frame that announces a file carries its name behind one length byte. The encoder
steps back from byte 255 over continuation bytes, and the decoder wants the length byte to
account for the rest of the payload and the name to be text. What arrives is the longest
beginning of the name that fits.
-/

set_option autoImplicit false

namespace Term.FrameNames
open Term.ByteOrder Term.FrameCodec Term.FrameModel Term.FrameWire Term.Outcome Term.Utf8Text

/-- The longest string of whole characters that begins a name and fits in `max` bytes. -/
structure LongestPrefix (max : ℕ) (name t : String) : Prop where
  begins : t.toList <+: name.toList
  fits : (asBytes t).length ≤ max
  longest : ∀ u : String, u.toList <+: name.toList → (asBytes u).length ≤ max →
    (asBytes u).length ≤ (asBytes t).length

theorem le_roundDown {name : String} {j k : ℕ} (h : isCharBoundary name j = true) (hle : j ≤ k) :
    j ≤ roundDown name k := by
  induction k with
  | zero => exact hle
  | succ k ih =>
    unfold roundDown
    split
    · exact hle
    · next hk =>
      have hne : j ≠ k+1 := by
        rintro rfl
        exact hk h
      exact ih (by omega)

/-- The loop stops at the last boundary that is in reach. -/
theorem le_nameCut {name t : String} (h : t.toList <+: name.toList)
    (hfits : (asBytes t).length ≤ maxPasteNameLen) : (asBytes t).length ≤ nameCut name := by
  have hbound := isCharBoundary_of_prefix h
  unfold nameCut
  split
  · obtain ⟨cs,hcs⟩ := h
    rw [asBytes_toList name, asBytes_toList t, ← hcs, List.flatMap_append, List.length_append]
    omega
  · exact le_roundDown hbound hfits

theorem isCharBoundary_nameCut (name : String) : isCharBoundary name (nameCut name) = true := by
  unfold nameCut
  split
  · exact isCharBoundary_of_prefix (List.prefix_refl _)
  · exact isCharBoundary_roundDown name _

theorem cutName_longest (name : String) : LongestPrefix maxPasteNameLen name (cutName name) := by
  obtain ⟨t,hpre,ht⟩ := exists_take_of_isCharBoundary (isCharBoundary_nameCut name)
  have hcut : cutName name = t := by
    apply asBytes_injective
    rw [asBytes_cutName, ht]
  refine ⟨by rwa [hcut],length_cutName name,fun u hu hfits => ?_⟩
  rw [asBytes_cutName, List.length_take, Nat.min_eq_left (nameCut_le name)]
  exact le_nameCut hu hfits

def named : Body → Option String
  | .pasteBegin _ _ _ _ name => some name
  | .downloadBegin _ _ name => some name
  | _ => none

def rename (t : String) : Body → Body
  | .pasteBegin pasteId totalSize groupId groupSize _ =>
    .pasteBegin pasteId totalSize groupId groupSize t
  | .downloadBegin downloadId totalSize _ => .downloadBegin downloadId totalSize t
  | body => body

def nameLenAt : Body → ℕ
  | .pasteBegin .. => 20
  | _ => 12

theorem cutBody_of_named {body : Body} {name : String} (h : named body = some name) :
    cutBody body = rename (cutName name) body := by
  cases body with
  | pasteBegin pasteId totalSize groupId groupSize n =>
    cases h
    rfl
  | downloadBegin downloadId totalSize n =>
    cases h
    rfl
  | _ => cases h

theorem wellFormed_rename {streamId : UInt32} {body : Body} {name t : String}
    (hname : named body = some name) (hlegal : WellFormed ⟨streamId,rename "" body⟩)
    (hfits : (asBytes t).length ≤ maxPasteNameLen) : WellFormed ⟨streamId,rename t body⟩ := by
  cases body with
  | pasteBegin pasteId totalSize groupId groupSize n =>
    exact ⟨hlegal.1,hlegal.2.1,hlegal.2.2.1,hfits⟩
  | downloadBegin downloadId totalSize n => exact ⟨hlegal.1,hlegal.2.1,hfits⟩
  | _ => cases hname

theorem named_rename {body : Body} {name : String} (h : named body = some name) (t : String) :
    named (rename t body) = some t := by
  cases body with
  | pasteBegin pasteId totalSize groupId groupSize n => rfl
  | downloadBegin downloadId totalSize n => rfl
  | _ => cases h

theorem nameLenAt_rename (t : String) (body : Body) :
    nameLenAt (rename t body) = nameLenAt body := by
  cases body <;> rfl

theorem lengthByte_behind {p head q : Bytes} {pos : ℕ} (hp : p = head++(UInt8.ofNat q.length::q))
    (hpos : head.length = pos) (hfits : q.length < 256) :
    ∃ b, p[pos]? = some b ∧ b.toNat = q.length ∧ p.length = pos+1+b.toNat := by
  have hbyte := toNat_ofNat_length hfits
  refine ⟨UInt8.ofNat q.length,?_,hbyte,?_⟩
  · rw [hp, ← hpos, List.getElem?_append_right (Nat.le_refl _), Nat.sub_self]
    rfl
  · rw [hp, hbyte, List.length_append, List.length_cons, hpos]
    omega

/-- The length byte holds the length of a name that fits. -/
theorem lengthByte {body : Body} {name : String} (hname : named body = some name)
    (hfits : (asBytes name).length ≤ maxPasteNameLen) :
    ∃ b, (payload body)[nameLenAt body]? = some b ∧ b.toNat = (asBytes name).length ∧
      (payload body).length = nameLenAt body+1+b.toNat := by
  cases body with
  | pasteBegin pasteId totalSize groupId groupSize n =>
    cases hname
    have hp : payload (.pasteBegin pasteId totalSize groupId groupSize name) =
        (be32 pasteId++be64 totalSize++be32 groupId++be32 groupSize)++
          (UInt8.ofNat (asBytes name).length::asBytes name) := by
      rw [payload_pasteBegin_of_le _ _ _ _ hfits]
      simp only [List.append_assoc]
    exact lengthByte_behind hp (by simp [nameLenAt]) (Nat.lt_succ_of_le hfits)
  | downloadBegin downloadId totalSize n =>
    cases hname
    have hp : payload (.downloadBegin downloadId totalSize name) =
        (be32 downloadId++be64 totalSize)++(UInt8.ofNat (asBytes name).length::asBytes name) := by
      rw [payload_downloadBegin_of_le _ _ hfits]
      simp only [List.append_assoc]
    exact lengthByte_behind hp (by simp [nameLenAt]) (Nat.lt_succ_of_le hfits)
  | _ => cases hname

/-- A frame with a name of any length arrives as the same frame with the longest beginning of
the name that fits, and the length byte holds that length. -/
theorem name_truncated {f : Frame} {name : String} (hname : named f.body = some name)
    (hlegal : WellFormed ⟨f.streamId,rename "" f.body⟩) :
    ∃ t len p, LongestPrefix maxPasteNameLen name t ∧
      encode f = be32 f.streamId++(f.ty.code::(be32 len++p)) ∧ len.toNat = p.length ∧
      validateHeader f.streamId f.ty.code len = .ok (f.ty,len) ∧
      fromPayload f.streamId f.ty p = .ok ⟨f.streamId,rename t f.body⟩ ∧
      (∃ b, p[nameLenAt f.body]? = some b ∧ b.toNat = (asBytes t).length ∧
        p.length = nameLenAt f.body+1+b.toNat) ∧
      ((asBytes name).length ≤ maxPasteNameLen → t = name) := by
  have hwf := wellFormed_rename hname hlegal (length_cutName name)
  have hty : (rename (cutName name) f.body).ty = f.ty ∧
      payload (rename (cutName name) f.body) = payload f.body := by
    rw [← cutBody_of_named hname]
    exact encode_inj (encode_cutBody f.streamId f.body)
  have hlen : LenOk f.ty (payload f.body).length := by
    rw [← hty.1, ← hty.2]
    exact payload_lenOk _ hwf.2
  have hscoped : Scoped f.ty f.streamId := by
    rw [← hty.1]
    exact hwf.1
  refine ⟨cutName name,asU32 (payload f.body).length,payload f.body,cutName_longest name,rfl,
    asU32_toNat hlen,?_,?_,?_,cutName_of_le⟩
  · rw [validateHeader_eq_ok, asU32_toNat hlen]
    exact ⟨rfl,rfl,hscoped,hlen⟩
  · exact (fromPayload_eq_ok hscoped hlen).mpr ⟨rfl,hty.1,hwf,hty.2⟩
  · obtain ⟨b,hb,hval,htotal⟩ := lengthByte (named_rename hname _) (length_cutName name)
    rw [nameLenAt_rename, hty.2] at hb htotal
    exact ⟨b,hb,hval,htotal⟩

/-- 300 characters of two bytes each: an even number of bytes stays. -/
theorem name_truncated_accents :
    ∃ t len p, LongestPrefix maxPasteNameLen (String.ofList (List.replicate 300 'é')) t ∧
      encode ⟨3,.downloadBegin 7 9 (String.ofList (List.replicate 300 'é'))⟩ =
        be32 3++(FrameType.downloadBegin.code::(be32 len++p)) ∧ len.toNat = p.length ∧
      validateHeader 3 FrameType.downloadBegin.code len = .ok (.downloadBegin,len) ∧
      fromPayload 3 .downloadBegin p = .ok ⟨3,.downloadBegin 7 9 t⟩ ∧
      (∃ b, p[12]? = some b ∧ b.toNat = (asBytes t).length ∧ p.length = 12+1+b.toNat) ∧
      ((asBytes (String.ofList (List.replicate 300 'é'))).length ≤ maxPasteNameLen →
        t = String.ofList (List.replicate 300 'é')) :=
  name_truncated (f := ⟨3,.downloadBegin 7 9 (String.ofList (List.replicate 300 'é'))⟩) rfl
    ⟨by simp [Scoped, IsControl, Frame.ty, rename, Body.ty, controlStream],by decide,by decide⟩

end Term.FrameNames
