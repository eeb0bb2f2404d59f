import Mathlib.Data.List.AList
import Mathlib.Data.List.Induction
import Mathlib.Logic.Function.Basic
import TermMux.KeyedMap
import TermMux.Machine

/-!
# One stream behind a demultiplexer

A reader hands frames to bounded queues through a map of senders. A frame that
finds its queue full, or its receiver gone, costs the stream its sender. The
history of all streams is one log; what concerns one stream is a part of it. A
log is honest about a stream when its frames were accepted exactly when the
stream's own queue, as that part of the log builds it, had room. Then what was
placed is a prefix of what was addressed, and no other stream has a say in it. The
table of all streams keeps such a log as long as each stream is opened once.
-/

set_option autoImplicit false

namespace Term.StreamDemux
open Term.KeyedMap Term.Machine

inductive Event (K C α : Type) where
  | opened (k : K)
  | frame (k : K) (c : C) (b : α) (accepted : Bool)
  | took (k : K) (c : C)
  /-- The receiver is gone. -/
  | dropped (k : K)
  | removed (k : K)
  /-- Every sender is removed. -/
  | cleared
  deriving DecidableEq, Repr

/-- One stream: whether the map has its sender, whether its receiver is there, and what
is queued in each class. -/
structure Port (C α : Type) where
  registered : Bool
  live : Bool
  queue : C → List α

variable {K C α : Type} [DecidableEq K] [DecidableEq C]

def Port.absent : Port C α := ⟨false,false,fun _ => []⟩

def Port.accepts (cap : C → ℕ) (p : Port C α) (c : C) : Bool :=
  p.registered && (p.live && decide ((p.queue c).length < cap c))

def Port.next (cap : C → ℕ) (k : K) (p : Port C α) : Event K C α → Port C α
  | .opened k' => if k' = k then ⟨true,true,fun _ => []⟩ else p
  | .frame k' c b _ =>
    if k' = k then
      if p.accepts cap c then { p with queue := Function.update p.queue c (p.queue c++[b]) }
      else { p with registered := false }
    else p
  | .took k' c =>
    if k' = k then { p with queue := Function.update p.queue c (p.queue c).tail } else p
  | .dropped k' => if k' = k then { p with live := false } else p
  | .removed k' => if k' = k then { p with registered := false } else p
  | .cleared => { p with registered := false }

def portOf (cap : C → ℕ) (k : K) (log : List (Event K C α)) : Port C α :=
  log.foldl (Port.next cap k) .absent

def Honest (cap : C → ℕ) (k : K) (log : List (Event K C α)) : Prop :=
  ∀ before c b accepted after, log = before++.frame k c b accepted::after →
    accepted = (portOf cap k before).accepts cap c

def sinceOpened (k : K) (log : List (Event K C α)) : Option (List (Event K C α)) :=
  log.foldl (fun part e =>
    match e with
    | .opened k' => if k' = k then some [] else part.map (·++[e])
    | _ => part.map (·++[e])) none

def addressed? (k : K) (c : C) : Event K C α → Option α
  | .frame k' c' b _ => if k' = k ∧ c' = c then some b else none
  | _ => none

def placed? (k : K) (c : C) : Event K C α → Option α
  | .frame k' c' b accepted => if (k' = k ∧ c' = c) ∧ accepted = true then some b else none
  | _ => none

def addressedOn (k : K) (c : C) (log : List (Event K C α)) : List α :=
  ((sinceOpened k log).getD []).filterMap (addressed? k c)

def placedOn (k : K) (c : C) (log : List (Event K C α)) : List α :=
  ((sinceOpened k log).getD []).filterMap (placed? k c)

/-- No frame of the stream is read after the senders were cleared. -/
def ReadsFirst (k : K) (log : List (Event K C α)) : Prop :=
  ∀ before c b accepted after, log = before++.frame k c b accepted::after → .cleared ∉ before

def input? (k : K) : Event K C α → Option (Event K C α)
  | .opened k' => if k' = k then some (.opened k) else none
  | .frame k' c b _ => if k' = k then some (.frame k c b false) else none
  | .took k' c => if k' = k then some (.took k c) else none
  | .dropped k' => if k' = k then some (.dropped k) else none
  | .removed k' => if k' = k then some (.removed k) else none
  | .cleared => none

def inputs (k : K) (log : List (Event K C α)) : List (Event K C α) := log.filterMap (input? k)

def place (cap : C → ℕ) (k : K) (c : C) (s : Port C α × List α) (e : Event K C α) :
    Port C α × List α :=
  (s.1.next cap k e,
    match e with
    | .opened k' => if k' = k then [] else s.2
    | .frame k' c' b _ => if (k' = k ∧ c' = c) ∧ s.1.accepts cap c then s.2++[b] else s.2
    | _ => s.2)

section Logs
variable {cap : C → ℕ} {k : K} {c : C} {log log' : List (Event K C α)} {e : Event K C α}

theorem portOf_concat (cap : C → ℕ) (k : K) (log : List (Event K C α)) (e : Event K C α) :
    portOf cap k (log++[e]) = (portOf cap k log).next cap k e := by
  simp [portOf]

omit [DecidableEq K] [DecidableEq C] in
theorem eq_concat_of_split {before after : List (Event K C α)} {e e' : Event K C α}
    (h : log++[e] = before++e'::after) :
    after = [] ∧ before = log ∧ e' = e ∨ ∃ rest, after = rest++[e] ∧ log = before++e'::rest := by
  rcases List.eq_nil_or_concat after with rfl | ⟨rest,z,rfl⟩
  · obtain ⟨rfl,hlast⟩ := List.append_inj' h rfl
    exact .inl ⟨rfl,rfl,(List.cons.inj hlast).1.symm⟩
  · rw [List.concat_eq_append, ← List.cons_append, ← List.append_assoc] at h
    obtain ⟨hold,hlast⟩ := List.append_inj' h rfl
    rw [List.concat_eq_append, (List.cons.inj hlast).1]
    exact .inr ⟨rest,rfl,hold⟩

theorem honest_nil : Honest cap k ([] : List (Event K C α)) := by
  intro before c b accepted after h
  simp at h

theorem honest_concat (h : Honest cap k log)
    (he : ∀ c b accepted, e = .frame k c b accepted →
      accepted = (portOf cap k log).accepts cap c) : Honest cap k (log++[e]) := by
  intro before c b accepted after hsplit
  rcases eq_concat_of_split hsplit with ⟨-,rfl,hlast⟩ | ⟨rest,-,hold⟩
  · exact he c b accepted hlast.symm
  · exact h before c b accepted rest hold

theorem honest_init (h : Honest cap k (log++[e])) : Honest cap k log := by
  intro before c b accepted after hsplit
  exact h before c b accepted (after++[e]) (by rw [hsplit, List.append_assoc, List.cons_append])

omit [DecidableEq K] [DecidableEq C] in
theorem readsFirst_nil : ReadsFirst k ([] : List (Event K C α)) := by
  intro before c b accepted after h
  simp at h

omit [DecidableEq K] [DecidableEq C] in
theorem readsFirst_concat (h : ReadsFirst k log)
    (he : ∀ c b accepted, e = .frame k c b accepted → .cleared ∉ log) :
    ReadsFirst k (log++[e]) := by
  intro before c b accepted after hsplit
  rcases eq_concat_of_split hsplit with ⟨-,rfl,hlast⟩ | ⟨rest,-,hold⟩
  · exact he c b accepted hlast.symm
  · exact h before c b accepted rest hold

omit [DecidableEq K] [DecidableEq C] in
theorem readsFirst_init (h : ReadsFirst k (log++[e])) : ReadsFirst k log := by
  intro before c b accepted after hsplit
  exact h before c b accepted (after++[e]) (by rw [hsplit, List.append_assoc, List.cons_append])

theorem honest_last {b : α} {accepted : Bool} (h : Honest cap k (log++[.frame k c b accepted])) :
    accepted = (portOf cap k log).accepts cap c :=
  h log c b accepted [] rfl

omit [DecidableEq C] in
theorem sinceOpened_concat (k : K) (log : List (Event K C α)) (e : Event K C α) :
    sinceOpened k (log++[e]) =
      match e with
      | .opened k' => if k' = k then some [] else (sinceOpened k log).map (·++[e])
      | _ => (sinceOpened k log).map (·++[e]) := by
  rw [sinceOpened, List.foldl_append]
  rfl

omit [DecidableEq C] in
theorem bodies_concat {f : Event K C α → Option α} (hopen : ∀ k', e = .opened k' → k' ≠ k)
    (h : sinceOpened k log ≠ none) :
    ((sinceOpened k (log++[e])).getD []).filterMap f =
      ((sinceOpened k log).getD []).filterMap f++(f e).toList := by
  obtain ⟨part,hpart⟩ := Option.ne_none_iff_exists'.mp h
  have hsince : sinceOpened k (log++[e]) = some (part++[e]) := by
    rw [sinceOpened_concat]
    cases e with
    | opened k' => simp [hopen k' rfl, hpart]
    | _ => simp [hpart]
  rw [hsince, hpart]
  simp only [Option.getD_some, List.filterMap_append, List.filterMap_cons, List.filterMap_nil]
  cases f e <;> rfl

omit [DecidableEq C] in
theorem bodies_opened {f : Event K C α → Option α} :
    ((sinceOpened k (log++[.opened k])).getD []).filterMap f = [] := by
  simp [sinceOpened_concat]

omit [DecidableEq C] in
theorem bodies_unopened {f : Event K C α → Option α} (hopen : ∀ k', e = .opened k' → k' ≠ k)
    (h : sinceOpened k log = none) :
    ((sinceOpened k (log++[e])).getD []).filterMap f = [] := by
  have hsince : sinceOpened k (log++[e]) = none := by
    rw [sinceOpened_concat]
    cases e with
    | opened k' => simp [hopen k' rfl, h]
    | _ => simp [h]
  simp [hsince]

/-- A stream that was never opened has no sender. -/
theorem registered_opened (h : (portOf cap k log).registered = true) :
    sinceOpened k log ≠ none := by
  induction log using List.reverseRecOn with
  | nil => cases h
  | append_singleton log e ih =>
    rw [portOf_concat] at h
    rw [sinceOpened_concat]
    cases e with
    | opened k' =>
      by_cases hk : k' = k
      · simp [hk]
      · simp only [Port.next, if_neg hk] at h
        simpa [hk] using ih h
    | frame k' c b accepted =>
      simp only [Port.next] at h
      split_ifs at h
      · simpa using ih h
      · simpa using ih h
    | took k' c
    | dropped k'
    | removed k' =>
      simp only [Port.next] at h
      split_ifs at h <;> simpa using ih h
    | cleared => cases h

omit [DecidableEq C] in
theorem quiet_bodies {f : Event K C α → Option α} (hquiet : f e = none)
    (hopen : ∀ k', e = .opened k' → k' ≠ k) :
    ((sinceOpened k (log++[e])).getD []).filterMap f =
      ((sinceOpened k log).getD []).filterMap f := by
  by_cases hnone : sinceOpened k log = none
  · rw [bodies_unopened hopen hnone, hnone]
    rfl
  · rw [bodies_concat hopen hnone, hquiet, Option.toList_none, List.append_nil]

/-- No event but an opening or a frame changes what is placed and addressed, and only an
opening gives a stream a sender. -/
theorem quiet_next (cap : C → ℕ) (c : C) (hopen : ∀ k', e = .opened k' → k' ≠ k)
    (hframe : ∀ c b accepted, e ≠ .frame k c b accepted) :
    placedOn k c (log++[e]) = placedOn k c log ∧ addressedOn k c (log++[e]) = addressedOn k c log ∧
      (((portOf cap k log).next cap k e).registered = true →
        (portOf cap k log).registered = true) := by
  refine ⟨?_,?_,?_⟩
  · apply quiet_bodies _ hopen
    cases e with
    | frame k' c' b accepted =>
      have hk : k' ≠ k := fun hk => hframe c' b accepted (by rw [hk])
      simp [placed?, hk]
    | _ => rfl
  · apply quiet_bodies _ hopen
    cases e with
    | frame k' c' b accepted =>
      have hk : k' ≠ k := fun hk => hframe c' b accepted (by rw [hk])
      simp [addressed?, hk]
    | _ => rfl
  · intro h
    cases e with
    | opened k' => simpa [Port.next, hopen k' rfl] using h
    | frame k' c' b accepted =>
      have hk : k' ≠ k := fun hk => hframe c' b accepted (by rw [hk])
      simpa [Port.next, hk] using h
    | took k' c' =>
      simp only [Port.next] at h
      split_ifs at h <;> exact h
    | dropped k' =>
      simp only [Port.next] at h
      split_ifs at h <;> exact h
    | removed k' =>
      simp only [Port.next] at h
      split_ifs at h
      exact h
    | cleared => cases h

omit [DecidableEq C] in
theorem accepts_registered {p : Port C α} (h : p.accepts cap c = true) : p.registered = true := by
  simp only [Port.accepts, Bool.and_eq_true] at h
  exact h.1

/-- The events of an honest log: the stream is opened, its queue takes or refuses a frame, or
the event is none of these. -/
@[elab_as_elim] theorem honest_rec {motive : ∀ log : List (Event K C α), Honest cap k log → Prop}
    {log : List (Event K C α)} (h : Honest cap k log) (nil : motive [] honest_nil)
    (opened : ∀ log (h : Honest cap k (log++[.opened k])), motive (log++[.opened k]) h)
    (taken : ∀ log c b (h : Honest cap k (log++[.frame k c b true])),
      (portOf cap k log).accepts cap c = true → motive log (honest_init h) →
        motive (log++[.frame k c b true]) h)
    (refused : ∀ log c b (h : Honest cap k (log++[.frame k c b false])),
      (portOf cap k log).accepts cap c = false → motive log (honest_init h) →
        motive (log++[.frame k c b false]) h)
    (quiet : ∀ log e (h : Honest cap k (log++[e])), (∀ k', e = .opened k' → k' ≠ k) →
      (∀ c b accepted, e ≠ .frame k c b accepted) → motive log (honest_init h) →
        motive (log++[e]) h) : motive log h := by
  induction log using List.reverseRecOn with
  | nil => exact nil
  | append_singleton log e ih =>
    have hold := ih (honest_init h)
    by_cases hopen : e = .opened k
    · subst hopen
      exact opened log h
    by_cases hframe : ∃ c b accepted, e = .frame k c b accepted
    · obtain ⟨c',b,accepted,rfl⟩ := hframe
      have haccepted := honest_last h
      cases accepted with
      | true => exact taken log c' b h haccepted.symm hold
      | false => exact refused log c' b h haccepted.symm hold
    · refine quiet log e h ?_ ?_ hold
      · rintro k' rfl rfl
        exact hopen rfl
      · intro c b accepted heq
        exact hframe ⟨c,b,accepted,heq⟩

omit [DecidableEq K] [DecidableEq C] in
theorem frame_not_opened {b : α} {accepted : Bool} (k' : K)
    (h : Event.frame k c b accepted = .opened k') : k' ≠ k := by
  cases h

/-- What is placed is a prefix of what is addressed, and all of it while the stream has
its sender. -/
theorem placed_isPrefix (h : Honest cap k log) :
    placedOn k c log <+: addressedOn k c log ∧
      ((portOf cap k log).registered = true → placedOn k c log = addressedOn k c log) := by
  induction h using honest_rec with
  | nil => exact ⟨List.prefix_refl _,fun _ => rfl⟩
  | opened log =>
    rw [placedOn, addressedOn, bodies_opened, bodies_opened]
    exact ⟨List.prefix_refl _,fun _ => rfl⟩
  | taken log c' b _ haccepts ih =>
    -- A frame that is taken finds the sender there, so nothing was refused before it.
    have hregistered := accepts_registered haccepts
    have hopened := registered_opened hregistered
    have heq : placedOn k c (log++[.frame k c' b true]) =
        addressedOn k c (log++[.frame k c' b true]) := by
      rw [placedOn, addressedOn, bodies_concat frame_not_opened hopened,
        bodies_concat frame_not_opened hopened]
      have hsame' := ih.2 hregistered
      rw [placedOn, addressedOn] at hsame'
      rw [hsame']
      simp [placed?, addressed?]
    exact ⟨heq ▸ List.prefix_refl _,fun _ => heq⟩
  | refused log c' b _ hrefuses ih =>
    have hplaced : placedOn k c (log++[.frame k c' b false]) = placedOn k c log :=
      quiet_bodies (by simp [placed?]) frame_not_opened
    have hgone : (portOf cap k (log++[.frame k c' b false])).registered = false := by
      simp [portOf_concat, Port.next, hrefuses]
    refine ⟨?_,fun hreg => absurd (hreg.symm.trans hgone) (by decide)⟩
    rw [hplaced]
    by_cases hnone : sinceOpened k log = none
    · have hnil : placedOn k c log = [] := by simp [placedOn, hnone]
      rw [hnil]
      exact List.nil_prefix
    · apply ih.1.trans
      rw [addressedOn, addressedOn, bodies_concat frame_not_opened hnone]
      exact List.prefix_append _ _
  | quiet log e _ hopen hframe ih =>
    obtain ⟨hplaced,haddressed,hregistered⟩ := quiet_next cap c hopen hframe
    rw [hplaced, haddressed, portOf_concat]
    exact ⟨ih.1,fun hreg => ih.2 (hregistered hreg)⟩

/-- An event that places nothing only takes from the queue of a stream. -/
theorem quiet_queue {p : Port C α} (hopen : ∀ k', e = .opened k' → k' ≠ k)
    (hframe : ∀ c b accepted, e ≠ .frame k c b accepted) :
    (p.next cap k e).queue c <:+ p.queue c := by
  cases e with
  | opened k' => simp [Port.next, hopen k' rfl]
  | frame k' c' b accepted =>
    have hk : k' ≠ k := fun hk => hframe c' b accepted (by rw [hk])
    simp [Port.next, hk]
  | took k' c' =>
    simp only [Port.next]
    split_ifs
    · by_cases hc : c' = c
      · simp only [hc, Function.update_self]
        exact List.tail_suffix _
      · simp only [Function.update_of_ne (Ne.symm hc)]
        exact List.suffix_refl _
    · exact List.suffix_refl _
  | dropped k'
  | removed k' =>
    simp only [Port.next]
    split_ifs <;> exact List.suffix_refl _
  | cleared => exact List.suffix_refl _

/-- What is queued is the last part of what was placed. -/
theorem queue_suffix (h : Honest cap k log) :
    (portOf cap k log).queue c <:+ placedOn k c log := by
  induction h using honest_rec with
  | nil => exact List.nil_suffix
  | opened log =>
    rw [portOf_concat, placedOn, bodies_opened]
    simp [Port.next]
  | taken log c' b _ haccepts hold =>
    have hopened := registered_opened (accepts_registered haccepts)
    rw [portOf_concat, placedOn, bodies_concat frame_not_opened hopened]
    simp only [Port.next, if_true, haccepts]
    by_cases hc : c' = c
    · rw [hc, Function.update_self]
      obtain ⟨taken,htaken⟩ := hold
      refine ⟨taken,?_⟩
      rw [placedOn] at htaken
      rw [← List.append_assoc, htaken]
      simp [placed?]
    · rw [Function.update_of_ne (Ne.symm hc)]
      simpa [placed?, hc, placedOn] using hold
  | refused log c' b _ hrefuses hold =>
    rw [portOf_concat, placedOn, quiet_bodies (by simp [placed?]) frame_not_opened]
    simpa [Port.next, hrefuses, placedOn] using hold
  | quiet log e _ hopen hframe hold =>
    rw [portOf_concat, (quiet_next cap c hopen hframe).1]
    exact (quiet_queue hopen hframe).trans hold

theorem fold_place (cap : C → ℕ) (k : K) (c : C) (log : List (Event K C α)) :
    (log.foldl (place cap k c) (.absent,[])).1 = portOf cap k log := by
  induction log using List.reverseRecOn with
  | nil => rfl
  | append_singleton log e ih =>
    rw [List.foldl_append, portOf_concat, ← ih]
    rfl

/-- In an honest log what is placed is what the stream's own queue takes. -/
theorem placed_eq_fold (h : Honest cap k log) :
    placedOn k c log = (log.foldl (place cap k c) (.absent,[])).2 := by
  induction h using honest_rec with
  | nil => rfl
  | opened log =>
    rw [List.foldl_append, placedOn, bodies_opened]
    simp [place]
  | taken log c' b _ haccepts hold =>
    have hopened := registered_opened (accepts_registered haccepts)
    simp only [List.foldl_append, List.foldl_cons, List.foldl_nil, place, fold_place, ← hold]
    rw [placedOn, bodies_concat frame_not_opened hopened]
    by_cases hc : c' = c
    · rw [← hc, haccepts]
      simp [placed?, placedOn]
    · simp [placed?, placedOn, hc]
  | refused log c' b _ hrefuses hold =>
    simp only [List.foldl_append, List.foldl_cons, List.foldl_nil, place, fold_place, ← hold]
    rw [placedOn, quiet_bodies (by simp [placed?]) frame_not_opened]
    by_cases hc : c' = c
    · rw [← hc, hrefuses]
      simp [placedOn]
    · simp [placedOn, hc]
  | quiet log e _ hopen hframe hold =>
    rw [List.foldl_append, (quiet_next cap c hopen hframe).1, hold]
    cases e with
    | opened k' => simp [place, hopen k' rfl]
    | frame k' c' b accepted =>
      have hk : k' ≠ k := fun hk => hframe c' b accepted (by rw [hk])
      simp [place, hk]
    | _ => rfl

/-- The stream's own queue reads only what concerns the stream, and no answers. -/
theorem fold_inputs (cap : C → ℕ) (c : C) (hcleared : .cleared ∉ log)
    (s : Port C α × List α) :
    log.foldl (place cap k c) s = (inputs k log).foldl (place cap k c) s := by
  induction log generalizing s with
  | nil => rfl
  | cons e log ih =>
    rw [List.foldl_cons, ih (fun h => hcleared (List.mem_cons_of_mem e h))]
    unfold inputs
    rw [List.filterMap_cons]
    cases e with
    | opened k'
    | took k' c'
    | dropped k'
    | removed k' =>
      by_cases hk : k' = k
      · subst hk
        simp only [input?, if_true, List.foldl_cons]
      · simp only [input?, if_neg hk]
        simp [place, Port.next, hk]
    | frame k' c' b accepted =>
      by_cases hk : k' = k
      · subst hk
        simp only [input?, if_true, List.foldl_cons]
        rfl
      · simp only [input?, if_neg hk]
        simp [place, Port.next, hk]
    | cleared => exact absurd List.mem_cons_self hcleared

/-- The senders are cleared when no frame of the stream is to come, so what its queue takes
does not depend on when that is. -/
theorem taken_inputs (cap : C → ℕ) (c : C) (h : ReadsFirst k log) :
    (log.foldl (place cap k c) (.absent,[])).2 =
      ((inputs k log).foldl (place cap k c) (.absent,[])).2 := by
  induction log using List.reverseRecOn with
  | nil => rfl
  | append_singleton log e ih =>
    have hold := ih (readsFirst_init h)
    by_cases hframe : ∃ c b accepted, e = .frame k c b accepted
    · obtain ⟨c',b,accepted,rfl⟩ := hframe
      have hcleared : .cleared ∉ log++[.frame k c' b accepted] := by
        simpa using h log c' b accepted [] rfl
      rw [fold_inputs cap c hcleared]
    · have hinputs : inputs k (log++[e]) = inputs k log++(input? k e).toList := by
        simp only [inputs, List.filterMap_append, List.filterMap_cons, List.filterMap_nil]
        cases input? k e <;> rfl
      rw [hinputs, List.foldl_append, List.foldl_append]
      cases e with
      | opened k' =>
        by_cases hk : k' = k
        · simp [place, input?, hk]
        · simp [place, input?, hk, hold]
      | frame k' c' b accepted =>
        have hk : k' ≠ k := fun hk => hframe ⟨c',b,accepted,by rw [hk]⟩
        simp [place, input?, hk, hold]
      | took k' c'
      | dropped k'
      | removed k' =>
        by_cases hk : k' = k
        · simp [place, input?, hk, hold]
        · simp [place, input?, hk, hold]
      | cleared => exact hold

/-- Two histories that agree on a stream's inputs place the same on its queues. -/
theorem placed_of_inputs (h : Honest cap k log) (h' : Honest cap k log')
    (hfirst : ReadsFirst k log) (hfirst' : ReadsFirst k log')
    (hinputs : inputs k log = inputs k log') : placedOn k c log = placedOn k c log' := by
  rw [placed_eq_fold h, placed_eq_fold h', taken_inputs cap c hfirst,
    taken_inputs cap c hfirst', hinputs]

end Logs

structure Entry (K C α : Type) where
  key : K
  live : Bool
  queue : C → List α

/-- Every stream ever opened, with the senders in the reader's map. -/
structure Table (K C α : Type) [DecidableEq K] where
  entries : List (Entry K C α)
  senders : AList fun _ : K => ℕ
  log : List (Event K C α)

inductive Op (K C α : Type) where
  | open_ (k : K)
  | frame (k : K) (c : C) (b : α)
  | take (i : ℕ) (c : C)
  | drop (i : ℕ)
  | remove (i : ℕ)
  | clear

def Entry.takes (cap : C → ℕ) (c : C) (e : Entry K C α) : Bool :=
  e.live && decide ((e.queue c).length < cap c)

namespace Table

def empty : Table K C α := ⟨[],∅,[]⟩

def apply (cap : C → ℕ) (t : Table K C α) : Op K C α → Table K C α
  | .open_ k =>
    ⟨t.entries++[⟨k,true,fun _ => []⟩],t.senders.insert k t.entries.length,t.log++[.opened k]⟩
  | .frame k c b =>
    match t.senders.lookup k with
    | none => { t with log := t.log++[.frame k c b false] }
    | some i =>
      match t.entries[i]?.filter (Entry.takes cap c) with
      | some e =>
        { t with
          entries := t.entries.set i
            { e with queue := Function.update e.queue c (e.queue c++[b]) }
          log := t.log++[.frame k c b true] }
      | none => ⟨t.entries,t.senders.erase k,t.log++[.frame k c b false]⟩
  | .take i c =>
    match t.entries[i]? with
    | some e =>
      { t with
        entries := t.entries.set i { e with queue := Function.update e.queue c (e.queue c).tail }
        log := t.log++[.took e.key c] }
    | none => t
  | .drop i =>
    match t.entries[i]? with
    | some e =>
      { t with entries := t.entries.set i { e with live := false }, log := t.log++[.dropped e.key] }
    | none => t
  | .remove i =>
    match t.entries[i]? with
    | some e => ⟨t.entries,t.senders.erase e.key,t.log++[.removed e.key]⟩
    | none => t
  | .clear => ⟨t.entries,∅,t.log++[.cleared]⟩

def entryOf (t : Table K C α) (k : K) : Option (Entry K C α) := t.entries.find? fun e => e.key = k

def port (t : Table K C α) (k : K) : Port C α :=
  ⟨(t.senders.lookup k).isSome,((t.entryOf k).map Entry.live).getD false,
    ((t.entryOf k).map Entry.queue).getD fun _ => []⟩

/-- A stream is opened under a key that was never used, and nothing is read after the
senders were cleared. -/
def Allowed (t : Table K C α) : Op K C α → Prop
  | .open_ k => k ∉ t.entries.map Entry.key
  | .frame _ _ _ => .cleared ∉ t.log
  | _ => True

/-- Each key has one entry, a sender leads to the entry of its key, and the log is honest. -/
structure Sync (cap : C → ℕ) (t : Table K C α) : Prop where
  keys : (t.entries.map Entry.key).Nodup
  senders : ∀ k i, t.senders.lookup k = some i → ∃ e, t.entries[i]? = some e ∧ e.key = k
  honest : ∀ k, Honest cap k t.log
  first : ∀ k, ReadsFirst k t.log
  port : ∀ k, portOf cap k t.log = t.port k

end Table

open Table

section Tables
variable {cap : C → ℕ} {t : Table K C α} {k : K} {i : ℕ} {e e' : Entry K C α}

omit [DecidableEq C] in
theorem key_inj (hkeys : (t.entries.map Entry.key).Nodup) {i j : ℕ} (hi : t.entries[i]? = some e)
    (hj : t.entries[j]? = some e') (h : e.key = e'.key) : i = j := by
  have hi' : (t.entries.map Entry.key)[i]? = some e.key := by simp [hi]
  have hj' : (t.entries.map Entry.key)[j]? = some e.key := by simp [hj, h]
  have hlt : i < (t.entries.map Entry.key).length := (List.getElem?_eq_some_iff.mp hi').1
  exact (List.getElem?_inj hlt hkeys).mp (hi'.trans hj'.symm)

omit [DecidableEq C] in
theorem entryOf_get (hkeys : (t.entries.map Entry.key).Nodup) (hi : t.entries[i]? = some e) :
    t.entryOf e.key = some e := by
  unfold entryOf
  cases hfind : t.entries.find? fun e' => e'.key = e.key with
  | none =>
    have hnone := List.find?_eq_none.mp hfind e (List.mem_of_getElem? hi)
    simp at hnone
  | some e' =>
    have hkey : e'.key = e.key := by simpa using List.find?_some hfind
    obtain ⟨j,hj⟩ := List.mem_iff_getElem?.mp (List.mem_of_find?_eq_some hfind)
    have hij := key_inj hkeys hi hj hkey.symm
    rw [hij, hj] at hi
    exact hi

omit [DecidableEq C] in
theorem entryOf_set (hkeys : (t.entries.map Entry.key).Nodup) (hi : t.entries[i]? = some e)
    (hkey : e'.key = e.key) (senders : AList fun _ : K => ℕ) (log : List (Event K C α)) (k : K) :
    (Table.mk (t.entries.set i e') senders log).entryOf k =
      if e.key = k then some e' else t.entryOf k := by
  obtain ⟨hlt,hget⟩ := List.getElem?_eq_some_iff.mp hi
  have hmap : (t.entries.set i e').map Entry.key = t.entries.map Entry.key :=
    map_set_same Entry.key hi hkey
  by_cases hk : e.key = k
  · rw [if_pos hk, ← hk, ← hkey]
    apply entryOf_get (t := Table.mk (t.entries.set i e') senders log)
    · exact hmap ▸ hkeys
    · exact List.getElem?_set_self hlt
  · rw [if_neg hk]
    unfold entryOf
    have hsplit := List.set_eq_take_append_cons_drop (l := t.entries) (i := i) (a := e')
    rw [if_pos hlt] at hsplit
    have hwhole : t.entries = t.entries.take i++e::t.entries.drop (i+1) := by
      rw [← hget, ← List.drop_eq_getElem_cons hlt, List.take_append_drop]
    show List.find? _ (t.entries.set i e') = List.find? _ t.entries
    rw [hsplit]
    conv_rhs => rw [hwhole]
    simp [List.find?_append, hkey, hk]

theorem sync_of_event {t' : Table K C α} {ev : Event K C α} (h : Sync cap t)
    (hlog : t'.log = t.log++[ev]) (hkeys : (t'.entries.map Entry.key).Nodup)
    (hsenders : ∀ k i, t'.senders.lookup k = some i → ∃ e, t'.entries[i]? = some e ∧ e.key = k)
    (hport : ∀ k, t'.port k = (t.port k).next cap k ev)
    (hev : ∀ k c b accepted, ev = .frame k c b accepted →
      accepted = (t.port k).accepts cap c ∧ .cleared ∉ t.log) : Sync cap t' := by
  refine ⟨hkeys,hsenders,fun k => ?_,fun k => ?_,fun k => ?_⟩
  · rw [hlog]
    apply honest_concat (h.honest k)
    intro c b accepted heq
    rw [h.port k]
    exact (hev k c b accepted heq).1
  · rw [hlog]
    apply readsFirst_concat (h.first k)
    exact fun c b accepted heq => (hev k c b accepted heq).2
  · rw [hlog, portOf_concat, h.port k, hport k]

omit [DecidableEq C] in
theorem senders_set (h : ∀ k i, t.senders.lookup k = some i →
      ∃ e, t.entries[i]? = some e ∧ e.key = k) (hi : t.entries[i]? = some e)
    (hkey : e'.key = e.key) : ∀ k j, t.senders.lookup k = some j →
      ∃ e, (t.entries.set i e')[j]? = some e ∧ e.key = k := by
  intro k j hj
  obtain ⟨e₀,he₀,hk⟩ := h k j hj
  by_cases hij : i = j
  · subst hij
    rw [hi] at he₀
    cases he₀
    exact ⟨e',List.getElem?_set_self (List.getElem?_eq_some_iff.mp hi).1,hkey.trans hk⟩
  · exact ⟨e₀,(List.getElem?_set_ne hij).trans he₀,hk⟩

omit [DecidableEq C] in
theorem port_eq (h : t.entryOf k = some e) :
    t.port k = ⟨(t.senders.lookup k).isSome,e.live,e.queue⟩ := by
  simp [Table.port, h]

omit [DecidableEq C] in
theorem port_set (hkeys : (t.entries.map Entry.key).Nodup) (hi : t.entries[i]? = some e)
    (hkey : e'.key = e.key) (log : List (Event K C α)) (k : K) :
    (Table.mk (t.entries.set i e') t.senders log).port k =
      if e.key = k then ⟨(t.port k).registered,e'.live,e'.queue⟩ else t.port k := by
  have hentry := entryOf_set hkeys hi hkey t.senders log k
  by_cases hk : e.key = k
  · rw [if_pos hk] at hentry ⊢
    rw [port_eq hentry]
    rfl
  · rw [if_neg hk] at hentry ⊢
    simp only [Table.port, hentry]

omit [DecidableEq C] in
theorem port_erase (log : List (Event K C α)) (k₀ k : K) :
    (Table.mk t.entries (t.senders.erase k₀) log).port k =
      if k₀ = k then { t.port k with registered := false } else t.port k := by
  by_cases hk : k₀ = k
  · rw [if_pos hk, hk]
    simp [Table.port, AList.lookup_erase, Table.entryOf]
  · rw [if_neg hk]
    simp [Table.port, AList.lookup_erase_ne (Ne.symm hk), Table.entryOf]

theorem sync_open (h : Sync cap t) (hfresh : k ∉ t.entries.map Entry.key) :
    Sync cap (t.apply cap (.open_ k)) := by
  have hnone : t.entryOf k = none := by
    apply List.find?_eq_none.mpr
    intro e he
    simpa using fun hk => hfresh (List.mem_map.mpr ⟨e,he,hk⟩)
  apply sync_of_event h rfl
  · simp only [apply, List.map_append, List.map_cons, List.map_nil]
    apply List.Nodup.append h.keys (List.nodup_singleton k)
    simpa using hfresh
  · intro k' i hk'
    rcases lookup_of_insert hk' with ⟨rfl,rfl⟩ | ⟨-,hold⟩
    · exact ⟨⟨k',true,fun _ => []⟩,List.getElem?_concat_length,rfl⟩
    · obtain ⟨e,he,hkey⟩ := h.senders k' i hold
      exact ⟨e,List.getElem?_append_left (List.getElem?_eq_some_iff.mp he).1 ▸ he,hkey⟩
  · intro k'
    by_cases heq : k = k'
    · subst heq
      have hentry : (t.apply cap (.open_ k)).entryOf k = some ⟨k,true,fun _ => []⟩ := by
        have hnone' : t.entries.find? (fun e => e.key = k) = none := hnone
        simp [apply, Table.entryOf, List.find?_append, hnone']
      rw [port_eq hentry]
      simp [Port.next, apply]
    · have hentry : (t.apply cap (.open_ k)).entryOf k' = t.entryOf k' := by
        simp [apply, Table.entryOf, List.find?_append, heq]
      simp only [Table.port, hentry, Port.next, if_neg heq]
      simp [apply, AList.lookup_insert_ne (Ne.symm heq)]
  · exact nofun

theorem sync_set {ev : Event K C α} (h : Sync cap t) (hi : t.entries[i]? = some e)
    (hkey : e'.key = e.key)
    (hself : (t.port e.key).next cap e.key ev = ⟨(t.port e.key).registered,e'.live,e'.queue⟩)
    (hothers : ∀ k, e.key ≠ k → (t.port k).next cap k ev = t.port k)
    (hev : ∀ k c b accepted, ev = .frame k c b accepted →
      accepted = (t.port k).accepts cap c ∧ .cleared ∉ t.log) :
    Sync cap ⟨t.entries.set i e',t.senders,t.log++[ev]⟩ := by
  refine sync_of_event h rfl ?_ (senders_set h.senders hi hkey) (fun k => ?_) hev
  · show ((t.entries.set i e').map Entry.key).Nodup
    rw [map_set_same Entry.key hi hkey]
    exact h.keys
  · rw [port_set h.keys hi hkey]
    by_cases heq : e.key = k
    · rw [if_pos heq, ← heq, hself]
    · rw [if_neg heq, hothers k heq]

theorem sync_frame {c : C} {b : α} (h : Sync cap t) (hcleared : .cleared ∉ t.log) :
    Sync cap (t.apply cap (.frame k c b)) := by
  cases hk : t.senders.lookup k with
  | none =>
    have hregistered : (t.port k).registered = false := by simp [Table.port, hk]
    have hrefused : (t.port k).accepts cap c = false := by simp [Port.accepts, hregistered]
    simp only [apply, hk]
    refine sync_of_event h rfl h.keys h.senders ?_ ?_
    · intro k'
      show t.port k' = _
      by_cases heq : k = k'
      · rw [← heq]
        simp only [Port.next, if_true, hrefused, Bool.false_eq_true, if_false]
        rw [← hregistered]
      · simp [Port.next, heq]
    · rintro k' c' b' accepted ⟨rfl,rfl,rfl,rfl⟩
      exact ⟨hrefused.symm,hcleared⟩
  | some i =>
    obtain ⟨e,hi,rfl⟩ := h.senders k i hk
    have hentry := entryOf_get h.keys hi
    have haccepts : (t.port e.key).accepts cap c = e.takes cap c := by
      simp [port_eq hentry, Port.accepts, Entry.takes, hk]
    simp only [apply, hk, hi]
    by_cases htakes : e.takes cap c = true
    · simp only [Option.filter_some_pos htakes]
      refine sync_set h hi rfl ?_ ?_ ?_
      · simp only [Port.next, if_true, haccepts, htakes]
        rw [port_eq hentry]
      · intro k' hk'
        simp [Port.next, hk']
      · rintro k' c' b' accepted ⟨rfl,rfl,rfl,rfl⟩
        rw [haccepts, htakes]
        exact ⟨rfl,hcleared⟩
    · have htakes' : e.takes cap c = false := by simpa using htakes
      simp only [Option.filter_some_neg htakes']
      refine sync_of_event h rfl h.keys (forall_erase h.senders) ?_ ?_
      · intro k'
        rw [port_erase]
        by_cases heq : e.key = k'
        · rw [if_pos heq, ← heq]
          simp [Port.next, haccepts, htakes']
        · rw [if_neg heq]
          simp [Port.next, heq]
      · rintro k' c' b' accepted ⟨rfl,rfl,rfl,rfl⟩
        rw [haccepts, htakes']
        exact ⟨rfl,hcleared⟩

theorem sync_take {c : C} (h : Sync cap t) : Sync cap (t.apply cap (.take i c)) := by
  cases hi : t.entries[i]? with
  | none =>
    simp only [apply, hi]
    exact h
  | some e =>
    simp only [apply, hi]
    refine sync_set h hi rfl ?_ ?_ nofun
    · rw [port_eq (entryOf_get h.keys hi)]
      simp [Port.next]
    · intro k hk
      simp [Port.next, hk]

theorem sync_drop (h : Sync cap t) : Sync cap (t.apply cap (.drop i)) := by
  cases hi : t.entries[i]? with
  | none =>
    simp only [apply, hi]
    exact h
  | some e =>
    simp only [apply, hi]
    refine sync_set h hi rfl ?_ ?_ nofun
    · rw [port_eq (entryOf_get h.keys hi)]
      simp [Port.next]
    · intro k hk
      simp [Port.next, hk]

theorem sync_remove (h : Sync cap t) : Sync cap (t.apply cap (.remove i)) := by
  cases hi : t.entries[i]? with
  | none =>
    simp only [apply, hi]
    exact h
  | some e =>
    simp only [apply, hi]
    refine sync_of_event h rfl h.keys (forall_erase h.senders) ?_ nofun
    intro k
    rw [port_erase]
    rfl

theorem sync_clear (h : Sync cap t) : Sync cap (t.apply cap .clear) := by
  refine sync_of_event h rfl h.keys ?_ ?_ nofun
  · intro k i hk
    rw [show (t.apply cap .clear).senders = ∅ from rfl, AList.lookup_empty] at hk
    cases hk
  · intro k
    simp [apply, Table.port, Port.next, AList.lookup_empty, Table.entryOf]

/-- The table keeps an honest log as long as keys are fresh when streams are opened. -/
theorem sync_apply {op : Op K C α} (h : Sync cap t) (hop : t.Allowed op) :
    Sync cap (t.apply cap op) := by
  cases op with
  | open_ k => exact sync_open h hop
  | frame k c b => exact sync_frame h hop
  | take i c => exact sync_take h
  | drop i => exact sync_drop h
  | remove i => exact sync_remove h
  | clear => exact sync_clear h

theorem keys_apply {op : Op K C α} (hop : ∀ k, op ≠ .open_ k) :
    (t.apply cap op).entries.map Entry.key = t.entries.map Entry.key := by
  cases op with
  | open_ k => exact absurd rfl (hop k)
  | frame k c b =>
    simp only [apply]
    split
    · rfl
    · split
      · next e he => exact map_set_same Entry.key (Option.filter_eq_some_iff.mp he).1 rfl
      · rfl
  | take i c =>
    simp only [apply]
    split
    · next e he => exact map_set_same Entry.key he rfl
    · rfl
  | drop i =>
    simp only [apply]
    split
    · next e he => exact map_set_same Entry.key he rfl
    · rfl
  | remove i =>
    simp only [apply]
    split <;> rfl
  | clear => rfl

theorem cleared_apply {op : Op K C α} (h : .cleared ∈ (t.apply cap op).log) :
    .cleared ∈ t.log ∨ op = .clear := by
  have hlast : ∀ ev : Event K C α, .cleared ∈ t.log++[ev] → ev ≠ .cleared → .cleared ∈ t.log := by
    intro ev hmem hev
    rcases List.mem_append.mp hmem with hold | hnew
    · exact hold
    · exact absurd (List.mem_singleton.mp hnew).symm hev
  cases op with
  | clear => exact .inr rfl
  | open_ k => exact .inl (hlast _ h nofun)
  | frame k c b =>
    left
    simp only [apply] at h
    split at h
    · exact hlast _ h nofun
    · split at h
      · exact hlast _ h nofun
      · exact hlast _ h nofun
  | take i c
  | drop i
  | remove i =>
    left
    simp only [apply] at h
    split at h
    · exact hlast _ h nofun
    · exact h

theorem sync_empty : Sync cap (Table.empty : Table K C α) where
  keys := List.nodup_nil
  senders := by
    intro k i hk
    rw [show (Table.empty : Table K C α).senders = ∅ from rfl, AList.lookup_empty] at hk
    cases hk
  honest := fun _ => honest_nil
  first := fun _ => readsFirst_nil
  port := by
    intro k
    simp [Table.empty, portOf, Port.absent, Table.port, Table.entryOf]

end Tables

end Term.StreamDemux
