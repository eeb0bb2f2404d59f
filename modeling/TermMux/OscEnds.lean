import TermMux.OscSegments
import Mathlib.Data.List.DropRight

/-!
# Where an operating system command ends

After `ESC ]` a command should end at the first BEL or ESC backslash. The scanner pairs ESC
with the byte after it, so an ESC right before the terminator can hide it. How many there
are, and the length, decide whether it does.
-/

set_option autoImplicit false

namespace Term.OscEnds
open Term.ByteOrder Term.OscStream Term.OscSegments

theorem bel_ne_backslash : bel ≠ backslash := by decide
theorem esc_ne_backslash : esc ≠ backslash := by decide

def escRun (q : Bytes) : ℕ := (q.rtakeWhile (· == esc)).length

def Seen (q : Bytes) : Terminator → Prop
  | .st => Even (escRun q) ∨ maxOscLen+1 < q.length
  | .bel => escRun q = 0 ∨ (Even (escRun q) ∧ q.length ≤ maxOscLen+2)

def Within (q : Bytes) : Held → Prop
  | .payload p => p.length = q.length ∧ q.length ≤ maxOscLen ∧ Even (escRun q)
  | .payloadEsc p => p.length+1 = q.length ∧ q.length ≤ maxOscLen+1 ∧ Odd (escRun q)
  | .overflow _ => maxOscLen < q.length ∧
    (escRun q = 0 ∨ (Even (escRun q) ∧ q.length ≤ maxOscLen+2))
  | .overflowEsc _ _ => maxOscLen+1 < q.length ∧ 0 < escRun q ∧
    (Even (escRun q) → maxOscLen+2 < q.length)
  | .none | .esc => False

theorem escRun_esc (q : Bytes) : escRun (q++[esc]) = escRun q+1 := by
  rw [escRun, List.rtakeWhile_concat_pos _ _ _ (by decide), List.length_append]
  rfl

theorem escRun_other (q : Bytes) {b : UInt8} (h : b ≠ esc) : escRun (q++[b]) = 0 := by
  rw [escRun, List.rtakeWhile_concat_neg _ _ _ (by simpa using h)]
  rfl

theorem escRun_backslash {q : Bytes} {b : UInt8} (hst : ¬[esc,backslash] <:+: q++[b])
    (hrun : 0 < escRun q) : b ≠ backslash := by
  rintro rfl
  cases q using List.reverseRecOn with
  | nil => exact absurd hrun (by decide)
  | append_singleton q c =>
    by_cases hc : c = esc
    · rw [hc, List.append_assoc] at hst
      exact hst (List.suffix_append q [esc,backslash]).isInfix
    · rw [escRun_other q hc] at hrun
      exact absurd hrun (Nat.lt_irrefl 0)

theorem within_step {q : Bytes} {held : Held} (h : Within q held) {b : UInt8} (hbel : b ≠ bel)
    (hst : ¬[esc,backslash] <:+: q++[b]) : Within (q++[b]) (held.next b).2 := by
  have hslash : 0 < escRun q → b ≠ backslash := escRun_backslash hst
  have hlen : (q++[b]).length = q.length+1 := List.length_append
  cases held with
  | none
  | esc => exact h.elim
  | payload p =>
    obtain ⟨hp,hfits,heven⟩ := h
    simp only [Held.next, if_neg hbel]
    by_cases hesc : b = esc
    · rw [if_pos hesc, hesc]
      exact ⟨by simp [hp],by simpa using hfits,by rw [escRun_esc]; exact heven.add_one⟩
    · rw [if_neg hesc]
      have hrun := escRun_other q hesc
      split_ifs with hroom
      · exact ⟨by simp [hp],by omega,by rw [hrun]; exact Even.zero⟩
      · exact ⟨by omega,.inl hrun⟩
  | payloadEsc p =>
    obtain ⟨hp,hfits,hodd⟩ := h
    simp only [Held.next, if_neg (hslash hodd.pos)]
    by_cases hesc : b = esc
    · have hrun : Even (escRun (q++[b])) := by
        rw [hesc, escRun_esc]
        exact hodd.add_one
      split_ifs with hroom
      · exact ⟨by simp [← hp],by omega,hrun⟩
      · exact ⟨by omega,.inr ⟨hrun,by omega⟩⟩
    · have hrun := escRun_other q hesc
      split_ifs with hroom
      · exact ⟨by simp [← hp],by omega,by rw [hrun]; exact Even.zero⟩
      · exact ⟨by omega,.inl hrun⟩
  | overflow w =>
    obtain ⟨hfull,heven⟩ := h
    simp only [Held.next, if_neg hbel]
    by_cases hesc : b = esc
    · rw [if_pos hesc, hesc]
      have hrun := escRun_esc q
      refine ⟨by simpa using hfull,by omega,?_⟩
      intro hboth
      rw [hrun, Nat.even_add_one] at hboth
      rcases heven with hzero | hpair
      · exact absurd (hzero ▸ Even.zero) hboth
      · exact absurd hpair.1 hboth
    · rw [if_neg hesc]
      exact ⟨by omega,.inl (escRun_other q hesc)⟩
  | overflowEsc w n =>
    obtain ⟨hfull,hpos,-⟩ := h
    simp only [Held.next, if_neg (hslash hpos)]
    by_cases hesc : b = esc
    · rw [if_pos hesc, hesc]
      have hrun := escRun_esc q
      exact ⟨by simp; omega,by omega,fun _ => by simp; omega⟩
    · rw [if_neg hesc]
      exact ⟨by omega,.inl (escRun_other q hesc)⟩

theorem within_parse {q : Bytes} (hbel : bel ∉ q) (hst : ¬[esc,backslash] <:+: q) :
    Within q (parseFrom ([],.payload []) q).2 := by
  induction q using List.reverseRecOn with
  | nil => exact ⟨rfl,Nat.zero_le _,Even.zero⟩
  | append_singleton q b ih =>
    rw [List.mem_append, not_or] at hbel
    have hq := ih hbel.1 fun h => hst (h.trans (List.prefix_append q [b]).isInfix)
    rw [parseFrom_append]
    exact within_step hq (fun h => hbel.2 (List.mem_singleton.mpr h.symm)) hst

/-- The terminator is seen unless an ESC before it is paired with its first byte. -/
theorem within_terminator {q : Bytes} {held : Held} (h : Within q held) (t : Terminator) :
    (parseFrom ([],held) t.bytes).2 = .none ↔ Seen q t := by
  cases held with
  | none
  | esc => exact h.elim
  | payload p =>
    obtain ⟨-,hfits,heven⟩ := h
    cases t with
    | bel => exact iff_of_true rfl (.inr ⟨heven,by omega⟩)
    | st => exact iff_of_true rfl (.inl heven)
  | payloadEsc p =>
    obtain ⟨-,hfits,hodd⟩ := h
    have hrun : ¬Even (escRun q) := Nat.not_even_iff_odd.mpr hodd
    cases t with
    | bel =>
      refine iff_of_false ?_ ?_
      · simp only [Terminator.bytes, parseFrom, Held.next, if_neg bel_ne_backslash]
        split_ifs <;> simp
      · rintro (hzero | hpair)
        · exact absurd hodd.pos (by omega)
        · exact hrun hpair.1
    | st =>
      refine iff_of_false ?_ ?_
      · simp only [Terminator.bytes, parseFrom, Held.next, if_neg esc_ne_backslash]
        split_ifs <;> simp [bel_ne_backslash.symm, esc_ne_backslash.symm]
        split_ifs <;> simp
      · rintro (heven | hfull)
        · exact hrun heven
        · omega
  | overflow w =>
    obtain ⟨-,heven⟩ := h
    cases t with
    | bel => exact iff_of_true rfl heven
    | st =>
      refine iff_of_true rfl (.inl ?_)
      rcases heven with hzero | hpair
      · rw [hzero]
        exact Even.zero
      · exact hpair.1
  | overflowEsc w n =>
    obtain ⟨hfull,hpos,hboth⟩ := h
    cases t with
    | bel =>
      apply iff_of_false
      · intro hnone
        cases hnone
      · rintro (hzero | ⟨heven,hfits⟩)
        · omega
        · exact absurd (hboth heven) (by omega)
    | st => exact iff_of_true rfl (.inr hfull)

/-- An OSC whose content has no terminator of its own ends at the terminator that follows
exactly where the scanner sees it, for any reads and any scanner outside a sequence. -/
theorem ends_at_terminator (s : OscScanner) (q : Bytes) (t : Terminator) (chunks : List Bytes)
    (hs : s.state = .normal) (hbel : bel ∉ q) (hst : ¬[esc,backslash] <:+: q)
    (hchunks : chunks.flatten = esc::rightBracket::(q++t.bytes)) :
    (feedAll s chunks).scanner.state = .normal ↔ Seen q t := by
  obtain ⟨state,buf⟩ := s
  cases hs
  have hbegin : feed ⟨.normal,buf⟩ (esc::rightBracket::(q++t.bytes)) =
      feed (Held.payload []).scanner (q++t.bytes) := rfl
  rw [feedAll_eq, hchunks, hbegin, feed_parseFrom, state_normal_iff, parseFrom_append_held]
  exact within_terminator (within_parse hbel hst) t

/-- A title that ends with ESC hides its BEL from the scanner. -/
theorem esc_hides_bel : bel ∉ [0x61,esc] ∧ ¬[esc,backslash] <:+: [0x61,esc] ∧
    (feedAll OscScanner.new [esc::rightBracket::([0x61,esc]++[bel])]).scanner.state ≠ .normal := by
  decide

/-- A title that does not end with ESC. -/
theorem title_ends :
    (feedAll OscScanner.new [[esc,rightBracket,0x61],[esc],[backslash]]).scanner.state = .normal := by
  apply (ends_at_terminator OscScanner.new [0x61] .st _ rfl (by decide) (by decide) rfl).mpr
  exact .inl (by decide)

end Term.OscEnds
