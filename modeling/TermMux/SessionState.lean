import TermMux.FrameModel
import Mathlib.Data.List.AList
import Mathlib.Data.List.DropRight

/-!
# The state a session keeps under its lock

`SessionInner` and what `attach`, `detach`, `resize_for`, `acquire_control`,
`release_control` and `take_control` do to it while they hold the lock. The
PTY resize and the `ControllerChanged` broadcast come after the lock is
released, so each operation only returns them.
-/

set_option autoImplicit false

namespace Term.SessionState
open Term.ByteOrder Term.FrameModel

abbrev StreamId := UInt32
abbrev Size := UInt16 × UInt16
abbrev Attached := AList fun _ : StreamId => Size

def defaultScrollbackCapBytes : ℕ := 8*1024*1024

structure ByteRing where
  buf : Bytes
  cap : ℕ
  bounded : buf.length ≤ cap

namespace ByteRing

def new (cap : ℕ) : ByteRing := ⟨[],cap,Nat.zero_le cap⟩

/-- The buffer after appending and draining the excess from the front. -/
def drained (cap : ℕ) (buf : Bytes) : Bytes :=
  if cap < buf.length then buf.drop (buf.length-cap) else buf

theorem drained_eq_rtake (cap : ℕ) (buf : Bytes) : drained cap buf = buf.rtake cap := by
  unfold drained List.rtake
  by_cases h : cap < buf.length
  · rw [if_pos h]
  · rw [if_neg h, Nat.sub_eq_zero_of_le (not_lt.mp h), List.drop_zero]

theorem length_drained_le (cap : ℕ) (buf : Bytes) : (drained cap buf).length ≤ cap := by
  rw [drained_eq_rtake, List.rtake, List.length_drop]
  omega

def extend (r : ByteRing) (bytes : Bytes) : ByteRing :=
  ⟨drained r.cap (r.buf++bytes),r.cap,length_drained_le _ _⟩

def snapshot (r : ByteRing) : Bytes := r.buf

/-- A ring that holds the last `cap` bytes of a stream still does after it is extended. -/
theorem extend_buf {r : ByteRing} {stream : Bytes} (bytes : Bytes)
    (h : r.buf = stream.rtake r.cap) : (r.extend bytes).buf = (stream++bytes).rtake r.cap := by
  change drained r.cap (r.buf++bytes) = _
  rw [drained_eq_rtake, h]
  simp only [List.rtake, ← List.drop_append_of_le_length (Nat.sub_le stream.length r.cap),
    List.drop_drop]
  congr 1
  simp only [List.length_append, List.length_drop]
  omega

end ByteRing

structure SessionInner where
  controller : Option StreamId
  lastSize : Size
  attached : Attached
  scrollback : ByteRing
  lastAttachedAt : ℕ
  exited : Bool

def SessionInner.spawn (initialSize : Size) (scrollbackCap now : ℕ) : SessionInner :=
  ⟨none,initialSize,∅,ByteRing.new scrollbackCap,now,false⟩

/-- One operation's locked update, the flag it computes there, and the PTY resize
and `ControllerChanged` broadcast it makes once the lock is released. -/
structure Locked where
  inner : SessionInner
  done : Bool
  resize : Option Size
  changed : Option StreamId

namespace SessionInner

def unchanged (inner : SessionInner) : Locked := ⟨inner,false,none,none⟩

def attach (inner : SessionInner) (sid : StreamId) (size : Size) (now : ℕ) : Locked :=
  let attached := inner.attached.insert sid size
  if inner.controller.isNone then
    ⟨{ inner with
        attached := attached
        lastAttachedAt := now
        controller := some sid
        lastSize := size },true,some size,some sid⟩
  else ⟨{ inner with attached := attached, lastAttachedAt := now },false,none,none⟩

def detach (inner : SessionInner) (sid : StreamId) (now : ℕ) : Locked :=
  let attached := inner.attached.erase sid
  if inner.controller = some sid then
    ⟨{ inner with attached := attached, lastAttachedAt := now, controller := none },true,none,
      some controllerNoneStreamId⟩
  else ⟨{ inner with attached := attached, lastAttachedAt := now },false,none,none⟩

def resizeFor (inner : SessionInner) (sid : StreamId) (rows cols : UInt16) : Locked :=
  let attached := inner.attached.insert sid (rows,cols)
  if inner.controller ≠ some sid then ⟨{ inner with attached := attached },false,none,none⟩
  else ⟨{ inner with attached := attached, lastSize := (rows,cols) },true,some (rows,cols),none⟩

def grant (inner : SessionInner) (sid : StreamId) (size : Size) : Locked :=
  ⟨{ inner with controller := some sid, lastSize := size },true,some size,some sid⟩

def acquireControl (inner : SessionInner) (sid : StreamId) : Locked :=
  match inner.attached.lookup sid with
  | none => unchanged inner
  | some size => if inner.controller.isSome then unchanged inner else grant inner sid size

def releaseControl (inner : SessionInner) (sid : StreamId) : Locked :=
  if inner.controller ≠ some sid then unchanged inner
  else ⟨{ inner with controller := none },true,none,some controllerNoneStreamId⟩

def takeControl (inner : SessionInner) (sid : StreamId) : Locked :=
  match inner.attached.lookup sid with
  | none => unchanged inner
  | some size => grant inner sid size

def forward (inner : SessionInner) (bytes : Bytes) : SessionInner :=
  { inner with scrollback := inner.scrollback.extend bytes }

def isController (inner : SessionInner) (sid : StreamId) : Bool := inner.controller == some sid

end SessionInner

inductive Op where
  | resize (rows cols : UInt16)
  | acquireControl
  | releaseControl
  | takeControl
  deriving DecidableEq, Repr

def Op.locked (inner : SessionInner) (sid : StreamId) : Op → Locked
  | .resize rows cols => inner.resizeFor sid rows cols
  | .acquireControl => inner.acquireControl sid
  | .releaseControl => inner.releaseControl sid
  | .takeControl => inner.takeControl sid

inductive Moves (inner : SessionInner) (sid : StreamId) : Locked → Prop where
  | idle (l : Locked) (hc : l.inner.controller = inner.controller)
      (hs : l.inner.lastSize = inner.lastSize) (hr : l.resize = none) (hch : l.changed = none) :
      Moves inner sid l
  | granted (l : Locked) (hc : l.inner.controller = some sid)
      (hr : l.resize = some l.inner.lastSize) (hch : l.changed = some sid) : Moves inner sid l
  | resized (l : Locked) (hold : inner.controller = some sid)
      (hc : l.inner.controller = some sid) (hr : l.resize = some l.inner.lastSize)
      (hch : l.changed = none) : Moves inner sid l
  | released (l : Locked) (hold : inner.controller = some sid) (hc : l.inner.controller = none)
      (hr : l.resize = none) (hch : l.changed = some controllerNoneStreamId) : Moves inner sid l

theorem unchanged_moves (inner : SessionInner) (sid : StreamId) :
    Moves inner sid inner.unchanged := .idle _ rfl rfl rfl rfl

theorem attach_cases (inner : SessionInner) (sid : StreamId) (size : Size) (now : ℕ) :
    (inner.controller = none ∧ inner.attach sid size now =
      ⟨{ inner with
          attached := inner.attached.insert sid size
          lastAttachedAt := now
          controller := some sid
          lastSize := size },true,some size,some sid⟩) ∨
    (inner.controller ≠ none ∧ inner.attach sid size now =
      ⟨{ inner with attached := inner.attached.insert sid size, lastAttachedAt := now },false,none,
        none⟩) := by
  unfold SessionInner.attach
  cases hc : inner.controller with
  | none => exact .inl ⟨rfl,rfl⟩
  | some c => exact .inr ⟨Option.some_ne_none c,rfl⟩

theorem detach_cases (inner : SessionInner) (sid : StreamId) (now : ℕ) :
    (inner.controller = some sid ∧ inner.detach sid now =
      ⟨{ inner with
          attached := inner.attached.erase sid
          lastAttachedAt := now
          controller := none },true,none,some controllerNoneStreamId⟩) ∨
    (inner.controller ≠ some sid ∧ inner.detach sid now =
      ⟨{ inner with attached := inner.attached.erase sid, lastAttachedAt := now },false,none,
        none⟩) := by
  by_cases h : inner.controller = some sid
  · exact .inl ⟨h,if_pos h⟩
  · exact .inr ⟨h,if_neg h⟩

theorem locked_cases (inner : SessionInner) (sid : StreamId) (op : Op) :
    op.locked inner sid = inner.unchanged ∨
    (∃ size, inner.controller ≠ some sid ∧ op.locked inner sid =
      ⟨{ inner with attached := inner.attached.insert sid size },false,none,none⟩) ∨
    (∃ size, inner.controller = some sid ∧ op.locked inner sid =
      ⟨{ inner with attached := inner.attached.insert sid size, lastSize := size },true,some size,
        none⟩) ∨
    (∃ size, (op = .takeControl ∨ inner.controller = none) ∧
      inner.attached.lookup sid = some size ∧ op.locked inner sid = inner.grant sid size) ∨
    (inner.controller = some sid ∧ op.locked inner sid =
      ⟨{ inner with controller := none },true,none,some controllerNoneStreamId⟩) := by
  cases op with
  | resize rows cols =>
    by_cases h : inner.controller = some sid
    · exact .inr (.inr (.inl ⟨(rows,cols),h,if_neg (not_not.mpr h)⟩))
    · exact .inr (.inl ⟨(rows,cols),h,if_pos h⟩)
  | acquireControl =>
    unfold Op.locked SessionInner.acquireControl
    cases hl : inner.attached.lookup sid with
    | none => exact .inl rfl
    | some size =>
      cases hc : inner.controller with
      | none => exact .inr (.inr (.inr (.inl ⟨size,.inr rfl,rfl,rfl⟩)))
      | some c => exact .inl rfl
  | releaseControl =>
    by_cases h : inner.controller = some sid
    · exact .inr (.inr (.inr (.inr ⟨h,if_neg (not_not.mpr h)⟩)))
    · exact .inl (if_pos h)
  | takeControl =>
    unfold Op.locked SessionInner.takeControl
    cases hl : inner.attached.lookup sid with
    | none => exact .inl rfl
    | some size => exact .inr (.inr (.inr (.inl ⟨size,.inl rfl,rfl,rfl⟩)))

theorem attach_moves (inner : SessionInner) (sid : StreamId) (size : Size) (now : ℕ) :
    Moves inner sid (inner.attach sid size now) := by
  rcases attach_cases inner sid size now with ⟨-,heq⟩ | ⟨-,heq⟩
  · rw [heq]
    exact .granted _ rfl rfl rfl
  · rw [heq]
    exact .idle _ rfl rfl rfl rfl

theorem detach_moves (inner : SessionInner) (sid : StreamId) (now : ℕ) :
    Moves inner sid (inner.detach sid now) := by
  rcases detach_cases inner sid now with ⟨h,heq⟩ | ⟨-,heq⟩
  · rw [heq]
    exact .released _ h rfl rfl rfl
  · rw [heq]
    exact .idle _ rfl rfl rfl rfl

theorem locked_moves (inner : SessionInner) (sid : StreamId) (op : Op) :
    Moves inner sid (op.locked inner sid) := by
  rcases locked_cases inner sid op with heq | ⟨size,-,heq⟩ | ⟨size,h,heq⟩ | ⟨size,-,-,heq⟩ | ⟨h,heq⟩
  · rw [heq]
    exact unchanged_moves inner sid
  · rw [heq]
    exact .idle _ rfl rfl rfl rfl
  · rw [heq]
    exact .resized _ h h rfl rfl
  · rw [heq]
    exact .granted _ rfl rfl rfl
  · rw [heq]
    exact .released _ h rfl rfl rfl

theorem attach_scrollback (inner : SessionInner) (sid : StreamId) (size : Size) (now : ℕ) :
    (inner.attach sid size now).inner.scrollback = inner.scrollback := by
  rcases attach_cases inner sid size now with ⟨-,heq⟩ | ⟨-,heq⟩ <;> rw [heq]

theorem detach_scrollback (inner : SessionInner) (sid : StreamId) (now : ℕ) :
    (inner.detach sid now).inner.scrollback = inner.scrollback := by
  rcases detach_cases inner sid now with ⟨-,heq⟩ | ⟨-,heq⟩ <;> rw [heq]

theorem locked_scrollback (inner : SessionInner) (sid : StreamId) (op : Op) :
    (op.locked inner sid).inner.scrollback = inner.scrollback := by
  rcases locked_cases inner sid op with heq | ⟨size,-,heq⟩ | ⟨size,-,heq⟩ | ⟨size,-,-,heq⟩ | ⟨-,heq⟩ <;>
    exact congrArg (fun l : Locked => l.inner.scrollback) heq

end Term.SessionState
