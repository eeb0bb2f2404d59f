import TermMux.FrameCodec

/-!
# Parsing a payload without its header

`Frame::from_payload` is public, so it is called on payloads no header check
has seen. Each layout makes its reads safe by its own length test; a length
byte inside the payload is never read past the payload's end.
-/

set_option autoImplicit false

namespace Term.FrameParse
open Term.ByteOrder Term.Utf8Text Term.FrameModel Term.Outcome Term.FrameWire Term.FrameCodec

def embeddedEnd : FrameType → Bytes → Option ℕ
  | .pasteBegin, p => p[20]?.map fun n => 21+n.toNat
  | .downloadBegin, p => p[12]?.map fun n => 13+n.toNat
  | .killSession, p => p[4]?.map fun n => 5+n.toNat
  | .sessionList, p => some (8+(ofBe32 ((p.drop 4).take 4)).toNat)
  | _, _ => none

def IgnoresPayload (ty : FrameType) : Prop :=
  ty = .close ∨ ty = .acquireControl ∨ ty = .releaseControl ∨ ty = .takeControl

section Layouts

variable {p : Bytes}

theorem status_ne_panicked {n : ℕ} (hn : n = 5) {e : FrameError} {c : UInt8 → Prop}
    [DecidablePred c] {e' : UInt8 → FrameError} {mk : UInt32 → UInt8 → Body} :
    (do
      rejectIf (p.length ≠ n) e
      let a ← u32At p 0
      let st ← index p 4
      rejectIf (c st) (e' st)
      return mk a st) ≠ (.panicked : Outcome FrameError Body) := by
  apply rejectIf_bind_ne_panicked
  intro hl
  apply u32At_bind_ne_panicked (by omega)
  intro a
  apply index_bind_ne_panicked (by omega)
  intro st _
  exact rejectIf_bind_ne_panicked fun _ => ok_ne_panicked

theorem chunk_ne_panicked {e e' : FrameError} {mk : UInt32 → Bytes → Body} :
    (do
      rejectIf (p.length < 4) e
      let a ← u32At p 0
      rejectIf (4+maxPasteChunkBytes < p.length) e'
      let bytes ← slice p 4 p.length
      return mk a bytes) ≠ (.panicked : Outcome FrameError Body) := by
  apply rejectIf_bind_ne_panicked
  intro hl
  apply u32At_bind_ne_panicked (by omega)
  intro a
  apply rejectIf_bind_ne_panicked
  intro _
  exact slice_bind_ne_panicked ⟨by omega,le_refl _⟩ fun _ => ok_ne_panicked

/-- A length byte at `i`, then that many bytes and the end of the payload. The
byte is below 256, so the sum with `i+1` does not overflow. -/
theorem named_ne_panicked {i k : ℕ} (hk : k = i+1) (hi : k < 2^63) (hl : i < p.length)
    {e : UInt8 → FrameError} {f : Bytes → Outcome FrameError Body} (hf : ∀ q, f q ≠ .panicked) :
    (do
      let n ← index p i
      let nEnd ← add k n.toNat
      rejectIf (p.length ≠ nEnd) (e n)
      let q ← slice p k nEnd
      f q) ≠ (.panicked : Outcome FrameError Body) := by
  apply index_bind_ne_panicked hl
  intro n _
  have hn := n.toNat_lt
  apply add_bind_ne_panicked (by omega)
  apply rejectIf_bind_ne_panicked
  intro he
  exact slice_bind_ne_panicked ⟨by omega,by omega⟩ hf

end Layouts

theorem parseBody_ne_panicked (ty : FrameType) (p : Bytes) : parseBody ty p ≠ .panicked := by
  cases ty with
  | open_ =>
    apply rejectIf_bind_ne_panicked
    intro hl
    apply sub_bind_ne_panicked (by omega)
    apply u16At_bind_ne_panicked (by omega)
    intro rows
    apply u16At_bind_ne_panicked (by omega)
    intro cols
    apply slice_bind_ne_panicked ⟨by omega,by omega⟩
    intro id
    apply orElse_bind_ne_panicked
    intro s _
    exact rejectIf_bind_ne_panicked fun _ => ok_ne_panicked
  | resize =>
    apply rejectIf_bind_ne_panicked
    intro hl
    apply u16At_bind_ne_panicked (by omega)
    intro rows
    apply u16At_bind_ne_panicked (by omega)
    intro cols
    exact ok_ne_panicked
  | pasteBegin =>
    apply rejectIf_bind_ne_panicked
    intro hl
    apply u32At_bind_ne_panicked (by omega)
    intro pasteId
    apply u64At_bind_ne_panicked (by omega)
    intro totalSize
    apply rejectIf_bind_ne_panicked
    intro _
    apply u32At_bind_ne_panicked (by omega)
    intro groupId
    apply u32At_bind_ne_panicked (by omega)
    intro groupSize
    apply rejectIf_bind_ne_panicked
    intro _
    apply named_ne_panicked rfl (by omega) (by omega)
    intro q
    exact orElse_bind_ne_panicked fun _ _ => ok_ne_panicked
  | downloadBegin =>
    apply rejectIf_bind_ne_panicked
    intro hl
    apply u32At_bind_ne_panicked (by omega)
    intro downloadId
    apply u64At_bind_ne_panicked (by omega)
    intro totalSize
    apply rejectIf_bind_ne_panicked
    intro _
    apply named_ne_panicked rfl (by omega) (by omega)
    intro q
    exact orElse_bind_ne_panicked fun _ _ => ok_ne_panicked
  | sessionList =>
    apply rejectIf_bind_ne_panicked
    intro hl
    apply u32At_bind_ne_panicked (by omega)
    intro requestId
    apply u32At_bind_ne_panicked (by omega)
    intro jsonLen
    apply sub_bind_ne_panicked (by omega)
    apply rejectIf_bind_ne_panicked
    intro _
    exact slice_bind_ne_panicked ⟨by omega,le_refl _⟩ fun _ => ok_ne_panicked
  | killSession =>
    apply rejectIf_bind_ne_panicked
    intro hl
    apply u32At_bind_ne_panicked (by omega)
    intro requestId
    apply named_ne_panicked rfl (by omega) (by omega)
    intro q
    apply orElse_bind_ne_panicked
    intro s _
    exact rejectIf_bind_ne_panicked fun _ => ok_ne_panicked
  | controllerChanged =>
    apply rejectIf_bind_ne_panicked
    intro hl
    have h1 : p.length = 1 := not_not.mp hl
    apply index_bind_ne_panicked (by omega)
    intro status _
    exact rejectIf_bind_ne_panicked fun _ => ok_ne_panicked
  | listSessions =>
    apply rejectIf_bind_ne_panicked
    intro hl
    have h4 : p.length = 4 := not_not.mp hl
    exact u32At_bind_ne_panicked (by omega) fun _ => ok_ne_panicked
  | pasteEnd => exact status_ne_panicked rfl
  | pasteReject => exact status_ne_panicked rfl
  | downloadEnd => exact status_ne_panicked rfl
  | killSessionAck => exact status_ne_panicked rfl
  | pasteChunk => exact chunk_ne_panicked
  | downloadChunk => exact chunk_ne_panicked
  | _ => exact ok_ne_panicked

theorem not_rejected {α : Type} {c : Prop} [Decidable c] {e : FrameError}
    {f : Unit → Outcome FrameError α} {a : α} (h : (rejectIf c e >>= f) = .ok a) : ¬c := by
  obtain ⟨_,hc,_⟩ := bind_eq_ok.mp h
  exact rejectIf_eq_ok.mp hc

theorem length_eq_of_ok {α : Type} {n k : ℕ} {e : FrameError} {f : Unit → Outcome FrameError α}
    {a : α} (h : (rejectIf (n ≠ k) e >>= f) = .ok a) : n = k :=
  not_not.mp (not_rejected h)

/-- An accepted payload is used up: written again it is the same bytes. -/
theorem parseBody_whole {ty : FrameType} {p : Bytes} {body : Body} (h : parseBody ty p = .ok body) :
    body.ty = ty ∧ (IgnoresPayload ty ∨ payload body = p) := by
  have whole (hb : body.ty = ty ∧ BodyOk body ∧ payload body = p) :
      body.ty = ty ∧ (IgnoresPayload ty ∨ payload body = p) := ⟨hb.1,Or.inr hb.2.2⟩
  cases ty with
  | data => cases h; exact ⟨rfl,Or.inr rfl⟩
  | ping => cases h; exact ⟨rfl,Or.inr rfl⟩
  | pong => cases h; exact ⟨rfl,Or.inr rfl⟩
  | hello => cases h; exact ⟨rfl,Or.inr rfl⟩
  | close => cases h; exact ⟨rfl,Or.inl (by simp [IgnoresPayload])⟩
  | acquireControl => cases h; exact ⟨rfl,Or.inl (by simp [IgnoresPayload])⟩
  | releaseControl => cases h; exact ⟨rfl,Or.inl (by simp [IgnoresPayload])⟩
  | takeControl => cases h; exact ⟨rfl,Or.inl (by simp [IgnoresPayload])⟩
  | open_ => exact whole (open_inversion (not_lt.mp (not_rejected h)) h)
  | pasteBegin => exact whole (pasteBegin_inversion (not_lt.mp (not_rejected h)) h)
  | downloadBegin => exact whole (downloadBegin_inversion (not_lt.mp (not_rejected h)) h)
  | killSession => exact whole (killSession_inversion (not_lt.mp (not_rejected h)) h)
  | sessionList =>
    -- Longer lists than the header allows are accepted here as well.
    have hl := not_rejected h
    obtain ⟨a,q,rfl⟩ := exists_be32 (p := p) (by omega)
    rw [List.length_append, be32_length] at hl
    obtain ⟨n,json,rfl⟩ := exists_be32 (p := q) (by omega)
    obtain ⟨rfl,rfl⟩ := (parse_sessionList _ _ _ _).mp h
    exact ⟨rfl,Or.inr rfl⟩
  | pasteChunk =>
    obtain ⟨_,hl,a,_,_,hmax,-⟩ := by simpa only [parseBody, bind_eq_ok, rejectIf_eq_ok] using h
    exact whole (parseBody_inversion ⟨not_lt.mp hl,not_lt.mp hmax⟩ h)
  | downloadChunk =>
    obtain ⟨_,hl,a,_,_,hmax,-⟩ := by simpa only [parseBody, bind_eq_ok, rejectIf_eq_ok] using h
    exact whole (parseBody_inversion ⟨not_lt.mp hl,not_lt.mp hmax⟩ h)
  | resize => exact whole (parseBody_inversion (length_eq_of_ok h) h)
  | pasteEnd => exact whole (parseBody_inversion (length_eq_of_ok h) h)
  | pasteReject => exact whole (parseBody_inversion (length_eq_of_ok h) h)
  | downloadEnd => exact whole (parseBody_inversion (length_eq_of_ok h) h)
  | controllerChanged => exact whole (parseBody_inversion (length_eq_of_ok h) h)
  | listSessions => exact whole (parseBody_inversion (length_eq_of_ok h) h)
  | killSessionAck => exact whole (parseBody_inversion (length_eq_of_ok h) h)

/-- The layout an accepted payload announces ends where the payload does. -/
theorem embeddedEnd_eq {ty : FrameType} {p : Bytes} {body : Body} {n : ℕ} (hp : p.length < 2^32)
    (h : parseBody ty p = .ok body) (hn : embeddedEnd ty p = some n) : n = p.length := by
  cases ty with
  | pasteBegin =>
    simp only [parseBody, bind_eq_ok, rejectIf_eq_ok, index_eq_ok, add_eq_ok] at h
    obtain ⟨_,-,a,-,b,-,_,-,c,-,d,-,_,-,k,hk,e,⟨-,rfl⟩,_,he,-⟩ := h
    simp only [embeddedEnd, hk, Option.map_some, Option.some.injEq] at hn
    omega
  | downloadBegin =>
    simp only [parseBody, bind_eq_ok, rejectIf_eq_ok, index_eq_ok, add_eq_ok] at h
    obtain ⟨_,-,a,-,b,-,_,-,k,hk,e,⟨-,rfl⟩,_,he,-⟩ := h
    simp only [embeddedEnd, hk, Option.map_some, Option.some.injEq] at hn
    omega
  | killSession =>
    simp only [parseBody, bind_eq_ok, rejectIf_eq_ok, index_eq_ok, add_eq_ok] at h
    obtain ⟨_,-,a,-,k,hk,e,⟨-,rfl⟩,_,he,-⟩ := h
    simp only [embeddedEnd, hk, Option.map_some, Option.some.injEq] at hn
    omega
  | sessionList =>
    simp only [parseBody, bind_eq_ok, rejectIf_eq_ok, u32At_eq_ok, sub_eq_ok] at h
    obtain ⟨_,hl,a,-,k,⟨-,hk⟩,e,⟨-,rfl⟩,_,he,-⟩ := h
    rw [not_not] at he
    have hlt : p.length-8 < UInt32.size := by simp only [UInt32.size]; omega
    simp only [embeddedEnd, hk, he, asU32, Option.some.injEq, UInt32.toNat_ofNat_of_lt' hlt] at hn
    omega
  | _ => cases hn

/-- With any payload, of a checked header or not, the parser answers with an
error or with a frame made of the whole payload. -/
theorem fromPayload_total (streamId : UInt32) (ty : FrameType) (p : Bytes)
    (hp : p.length < 2^32) :
    (∃ e, fromPayload streamId ty p = .err e) ∨
      ∃ f, fromPayload streamId ty p = .ok f ∧ f.streamId = streamId ∧ f.ty = ty ∧
        (IgnoresPayload ty ∨ payload f.body = p) ∧
        ∀ n, embeddedEnd ty p = some n → n = p.length := by
  have hne : fromPayload streamId ty p ≠ .panicked :=
    bind_ne_panicked (parseBody_ne_panicked ty p) fun _ _ => ok_ne_panicked
  rcases eq_err_or_eq_ok hne with he | ⟨f,hf⟩
  · exact Or.inl he
  · obtain ⟨body,hbody,hframe⟩ := bind_eq_ok.mp hf
    rw [pure_eq_ok] at hframe
    subst hframe
    obtain ⟨hty,hwhole⟩ := parseBody_whole hbody
    exact Or.inr ⟨_,hf,rfl,hty,hwhole,fun n hn => embeddedEnd_eq hp hbody hn⟩

/-- The largest length a session list can announce, with nothing behind it. -/
theorem fromPayload_total_hugeJsonLen :
    ∃ e, fromPayload 0 .sessionList (be32 1 ++ be32 0xFFFFFFFF) = .err e := by
  rcases fromPayload_total 0 .sessionList (be32 1 ++ be32 0xFFFFFFFF) (by decide) with
    he | ⟨f,-,-,-,-,hend⟩
  · exact he
  · exact absurd (hend (2^32+7) (by decide)) (by decide)

end Term.FrameParse
