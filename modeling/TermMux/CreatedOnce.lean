import TermMux.ByteOrder
import TermMux.Machine
import Mathlib.Data.List.Infix

/-!
# A file that whoever comes first creates

Parties that start at any time each open the file. A party that finds it reads
a fixed number of bytes and fails at an earlier end; a party that does not find
it draws a value of that length, creates the file, fails if it has come to
exist meanwhile, and writes the value. Reads and writes move any number of
bytes at a time, and a party may fail or be killed at any point.

All parties that return have one value, which is how the file begins; and a
file that was left short is final, and lets nobody return.
-/

set_option autoImplicit false

namespace Term.CreatedOnce
open Term.ByteOrder Term.Machine

inductive Phase where
  | started
  | reading (got : Bytes)
  /-- There was no file, and the value has been drawn. -/
  | drawn (value : Bytes)
  | writing (value rest : Bytes)
  | returned (value : Bytes)
  | failed
  deriving DecidableEq, Repr

structure World where
  file : Option Bytes
  parties : List Phase
  deriving DecidableEq, Repr

inductive Act where
  | spawn
  /-- The value is what would be drawn. -/
  | openFile (i : ℕ) (value : Bytes)
  | read (i n : ℕ)
  | create (i : ℕ)
  | write (i n : ℕ)
  | finish (i : ℕ)
  | fail (i : ℕ)
  deriving DecidableEq, Repr

def World.start (file : Option Bytes) : World := ⟨file,[]⟩

def World.set (w : World) (i : ℕ) (p : Phase) : World := { w with parties := w.parties.set i p }

section Steps
variable (len : ℕ)

def afterRead (contents got : Bytes) (n : ℕ) : Phase :=
  let chunk := (contents.drop got.length).take (min n (len-got.length))
  if chunk = [] then .failed
  else if (got++chunk).length = len then .returned (got++chunk)
  else .reading (got++chunk)

def step (w : World) : Act → Option World
  | .spawn => some { w with parties := w.parties++[.started] }
  | .openFile i value =>
    match w.parties[i]?, w.file with
    | some .started, some _ => some (w.set i (.reading []))
    | some .started, none => if value.length = len then some (w.set i (.drawn value)) else none
    | _, _ => none
  | .read i n =>
    match w.parties[i]?, w.file with
    | some (.reading got), some contents =>
      if 0 < n then some (w.set i (afterRead len contents got n)) else none
    | _, _ => none
  | .create i =>
    match w.parties[i]?, w.file with
    | some (.drawn value), none => some { w.set i (.writing value value) with file := some [] }
    | some (.drawn _), some _ => some (w.set i .failed)
    | _, _ => none
  | .write i n =>
    match w.parties[i]?, w.file with
    | some (.writing value rest), some contents =>
      some { w.set i (.writing value (rest.drop n)) with file := some (contents++rest.take n) }
    | _, _ => none
  | .finish i =>
    match w.parties[i]? with
    | some (.writing value []) => some (w.set i (.returned value))
    | _ => none
  | .fail i =>
    match w.parties[i]? with
    | some (.returned _) | some .failed | none => none
    | some _ => some (w.set i .failed)

def Knows (file : Option Bytes) : Phase → Prop
  | .started | .failed => True
  | .drawn value => value.length = len
  | .reading got => ∃ contents, file = some contents ∧ got <+: contents
  | .writing value rest => value.length = len ∧ ∃ contents, file = some contents ∧
      contents++rest = value
  | .returned value => value.length = len ∧ ∃ contents, file = some contents ∧
      value <+: contents

def Phase.isWriting : Phase → Bool
  | .writing _ _ => true
  | _ => false

def OneWriter (parties : List Phase) : Prop :=
  ∀ (i j : ℕ) (p q : Phase), parties[i]? = some p → parties[j]? = some q → p.isWriting →
    q.isWriting → i = j

structure OnceOk (w : World) : Prop where
  knows : ∀ p ∈ w.parties, Knows len w.file p
  single : OneWriter w.parties

end Steps

section Invariant
variable {len : ℕ} {u w v : World} {a : Act} {i : ℕ} {p : Phase}

/-- Everything an act can do. -/
theorem step_cases (h : step len w a = some v) :
    (v = { w with parties := w.parties++[.started] }) ∨
    (∃ i p, w.parties[i]? = some .started ∧ v = w.set i p ∧ Knows len w.file p ∧ ¬p.isWriting) ∨
    (∃ i got contents n, w.parties[i]? = some (.reading got) ∧ w.file = some contents ∧
      v = w.set i (afterRead len contents got n)) ∨
    (∃ i value, w.parties[i]? = some (.drawn value) ∧ w.file = none ∧
      v = { w.set i (.writing value value) with file := some [] }) ∨
    (∃ i value rest contents n, w.parties[i]? = some (.writing value rest) ∧
      w.file = some contents ∧
      v = { w.set i (.writing value (rest.drop n)) with file := some (contents++rest.take n) }) ∨
    (∃ i value, w.parties[i]? = some (.writing value []) ∧ v = w.set i (.returned value)) ∨
    ∃ i, v = w.set i .failed := by
  cases a with
  | spawn =>
    cases h
    exact .inl rfl
  | openFile i value =>
    simp only [step] at h
    split at h
    · rename_i hi hfile
      cases h
      exact .inr (.inl ⟨i,_,hi,rfl,⟨_,hfile,List.nil_prefix⟩,nofun⟩)
    · rename_i hi hfile
      split_ifs at h with hlen
      cases h
      exact .inr (.inl ⟨i,_,hi,rfl,hlen,nofun⟩)
    · cases h
  | read i n =>
    simp only [step] at h
    split at h
    · rename_i got contents hi hfile
      split_ifs at h
      cases h
      exact .inr (.inr (.inl ⟨i,got,contents,n,hi,hfile,rfl⟩))
    · cases h
  | create i =>
    simp only [step] at h
    split at h
    · rename_i value hi hfile
      cases h
      exact .inr (.inr (.inr (.inl ⟨i,value,hi,hfile,rfl⟩)))
    · cases h
      exact .inr (.inr (.inr (.inr (.inr (.inr ⟨i,rfl⟩)))))
    · cases h
  | write i n =>
    simp only [step] at h
    split at h
    · rename_i value rest contents hi hfile
      cases h
      exact .inr (.inr (.inr (.inr (.inl ⟨i,value,rest,contents,n,hi,hfile,rfl⟩))))
    · cases h
  | finish i =>
    simp only [step] at h
    split at h
    · rename_i value hi
      cases h
      exact .inr (.inr (.inr (.inr (.inr (.inl ⟨i,value,hi,rfl⟩)))))
    · cases h
  | fail i =>
    simp only [step] at h
    split at h
    · cases h
    · cases h
    · cases h
    · cases h
      exact .inr (.inr (.inr (.inr (.inr (.inr ⟨i,rfl⟩)))))

theorem knows_grow {contents more : Bytes} (h : Knows len (some contents) p)
    (hp : ¬p.isWriting) : Knows len (some (contents++more)) p := by
  cases p with
  | started => trivial
  | failed => trivial
  | drawn value => exact h
  | reading got =>
    obtain ⟨c,hc,hstart⟩ := h
    cases hc
    exact ⟨_,rfl,hstart.trans (List.prefix_append _ _)⟩
  | writing value rest => exact absurd rfl hp
  | returned value =>
    obtain ⟨hlen,c,hc,hstart⟩ := h
    cases hc
    exact ⟨hlen,_,rfl,hstart.trans (List.prefix_append _ _)⟩

/-- While there is no file nobody has one open. -/
theorem knows_created (h : Knows len none p) (more : Bytes) : Knows len (some more) p := by
  cases p with
  | started => trivial
  | failed => trivial
  | drawn value => exact h
  | reading got => obtain ⟨_,hc,-⟩ := h; cases hc
  | writing value rest => obtain ⟨-,_,hc,-⟩ := h; cases hc
  | returned value => obtain ⟨-,_,hc,-⟩ := h; cases hc

theorem knows_afterRead {contents got : Bytes} (n : ℕ) (hfile : w.file = some contents)
    (hgot : got <+: contents) : Knows len w.file (afterRead len contents got n) := by
  obtain ⟨rest,rfl⟩ := hgot
  have hchunk : got++(((got++rest).drop got.length).take (min n (len-got.length))) <+:
      got++rest := by
    rw [List.drop_left]
    exact (List.prefix_append_right_inj _).mpr (List.take_prefix _ _)
  simp only [afterRead]
  split_ifs with hnil hlen
  · trivial
  · exact ⟨hlen,_,hfile,hchunk⟩
  · exact ⟨_,hfile,hchunk⟩

theorem afterRead_not_writing (contents got : Bytes) (n : ℕ) :
    ¬(afterRead len contents got n).isWriting := by
  simp only [afterRead]
  split_ifs <;> exact nofun

theorem oneWriter_set {parties : List Phase} (h : OneWriter parties)
    (hp : p.isWriting → ∃ q, parties[i]? = some q ∧ q.isWriting) :
    OneWriter (parties.set i p) := by
  have hback : ∀ (m : ℕ) (x : Phase), (parties.set i p)[m]? = some x → x.isWriting →
      ∃ y, parties[m]? = some y ∧ y.isWriting := by
    intro m x hx hxw
    rcases getElem?_set_cases hx with ⟨rfl,rfl⟩ | ⟨-,hx⟩
    · exact hp hxw
    · exact ⟨x,hx,hxw⟩
  intro j k q r hq hr hqw hrw
  have ⟨y,hy,hyw⟩ := hback j q hq hqw
  have ⟨z,hz,hzw⟩ := hback k r hr hrw
  exact h j k y z hy hz hyw hzw

theorem onceOk_spawn (hw : OnceOk len w) :
    OnceOk len { w with parties := w.parties++[.started] } where
  knows := by
    intro q hq
    rcases List.mem_append.mp hq with hq | hq
    · exact hw.knows q hq
    · cases List.mem_singleton.mp hq
      trivial
  single := by
    have hback : ∀ (m : ℕ) (x : Phase), (w.parties++[Phase.started])[m]? = some x →
        x.isWriting → w.parties[m]? = some x := by
      intro m x hx hxw
      rcases getElem?_concat_cases hx with hx | ⟨-,rfl⟩
      · exact hx
      · cases hxw
    intro j k q r hq hr hqw hrw
    exact hw.single j k q r (hback j q hq hqw) (hback k r hr hrw) hqw hrw

theorem onceOk_set (hw : OnceOk len w) (hp : Knows len w.file p) (hwriting : ¬p.isWriting) :
    OnceOk len (w.set i p) where
  knows := by
    intro q hq
    rcases List.mem_or_eq_of_mem_set hq with hq | rfl
    · exact hw.knows q hq
    · exact hp
  single := oneWriter_set hw.single fun h => absurd h hwriting

theorem onceOk_create {value : Bytes} (hw : OnceOk len w)
    (hi : w.parties[i]? = some (.drawn value)) (hfile : w.file = none) :
    OnceOk len { w.set i (.writing value value) with file := some [] } where
  knows := by
    intro q hq
    rcases List.mem_or_eq_of_mem_set hq with hq | rfl
    · exact knows_created (hfile ▸ hw.knows q hq) []
    · exact ⟨hw.knows _ (List.mem_of_getElem? hi),[],rfl,rfl⟩
  single := by
    -- Without a file there was no writer yet.
    have hnone : ∀ (m : ℕ) (x : Phase), w.parties[m]? = some x → ¬x.isWriting := by
      intro m x hx hxw
      have hknows := hw.knows x (List.mem_of_getElem? hx)
      rw [hfile] at hknows
      cases x with
      | writing value rest => obtain ⟨-,_,hc,-⟩ := hknows; cases hc
      | started | failed | drawn | reading | returned => cases hxw
    intro j k q r hq hr hqw hrw
    rcases getElem?_set_cases hq with ⟨rfl,-⟩ | ⟨-,hq⟩
    · rcases getElem?_set_cases hr with ⟨rfl,-⟩ | ⟨-,hr⟩
      · rfl
      · exact absurd hrw (hnone k r hr)
    · exact absurd hqw (hnone j q hq)

theorem onceOk_write {value rest contents : Bytes} (n : ℕ) (hw : OnceOk len w)
    (hi : w.parties[i]? = some (.writing value rest)) (hfile : w.file = some contents) :
    OnceOk len
      { w.set i (.writing value (rest.drop n)) with file := some (contents++rest.take n) } where
  knows := by
    intro q hq
    have ⟨hlen,c,hc,hvalue⟩ := hw.knows _ (List.mem_of_getElem? hi)
    rw [hfile] at hc
    cases hc
    have ⟨k,hk⟩ := List.mem_iff_getElem?.mp hq
    rcases getElem?_set_cases hk with ⟨-,rfl⟩ | ⟨hne,hk⟩
    · show value.length = len ∧ ∃ c, some (contents++rest.take n) = some c ∧
        c++rest.drop n = value
      exact ⟨hlen,_,rfl,by rw [List.append_assoc, List.take_append_drop, hvalue]⟩
    · have hq : ¬q.isWriting := fun hqw => hne (hw.single i k _ q hi hk rfl hqw).symm
      exact knows_grow (hfile ▸ hw.knows q (List.mem_of_getElem? hk)) hq
  single := oneWriter_set hw.single fun _ => ⟨_,hi,rfl⟩

theorem onceOk_step (hw : OnceOk len w) (h : step len w a = some v) : OnceOk len v := by
  rcases step_cases h with rfl | ⟨i,p,-,rfl,hp,hwriting⟩ | ⟨i,got,contents,n,hi,hfile,rfl⟩ |
    ⟨i,value,hi,hfile,rfl⟩ | ⟨i,value,rest,contents,n,hi,hfile,rfl⟩ | ⟨i,value,hi,rfl⟩ | ⟨i,rfl⟩
  · exact onceOk_spawn hw
  · exact onceOk_set hw hp hwriting
  · have ⟨c,hc,hgot⟩ := hw.knows _ (List.mem_of_getElem? hi)
    rw [hfile] at hc
    cases hc
    exact onceOk_set hw (knows_afterRead n hfile hgot) (afterRead_not_writing contents got n)
  · exact onceOk_create hw hi hfile
  · exact onceOk_write n hw hi hfile
  · have ⟨hlen,c,hc,hvalue⟩ := hw.knows _ (List.mem_of_getElem? hi)
    rw [List.append_nil] at hvalue
    exact onceOk_set hw ⟨hlen,c,hc,hvalue ▸ List.prefix_refl c⟩ nofun
  · exact onceOk_set hw trivial nofun

theorem onceOk_start (file : Option Bytes) : OnceOk len (.start file) :=
  ⟨nofun,fun _ _ _ _ h => nomatch h⟩

/-- A file only ever gets longer. -/
theorem file_step (h : step len w a = some v) (contents : Bytes) (hw : w.file = some contents) :
    ∃ more, v.file = some (contents++more) := by
  have hsame : ∀ u : World, u.file = w.file → ∃ more, u.file = some (contents++more) :=
    fun u hu => ⟨[],by rw [hu, hw, List.append_nil]⟩
  rcases step_cases h with rfl | ⟨i,p,-,rfl,-,-⟩ | ⟨i,got,c,n,-,-,rfl⟩ | ⟨i,value,-,hfile,rfl⟩ |
    ⟨i,value,rest,c,n,-,hfile,rfl⟩ | ⟨i,value,-,rfl⟩ | ⟨i,rfl⟩
  · exact hsame _ rfl
  · exact hsame _ rfl
  · exact hsame _ rfl
  · rw [hw] at hfile
    cases hfile
  · rw [hw] at hfile
    cases hfile
    exact ⟨rest.take n,rfl⟩
  · exact hsame _ rfl
  · exact hsame _ rfl

theorem onceOk_run {as : List Act} (hu : OnceOk len u) (h : run (step len) u as = some v) :
    OnceOk len v :=
  run_invariant (step len) (I := OnceOk len) (fun _ _ _ hI hstep => onceOk_step hI hstep) hu h

theorem file_run {as : List Act} (h : run (step len) u as = some v) (contents : Bytes)
    (hu : u.file = some contents) : ∃ more, v.file = some (contents++more) := by
  refine run_invariant (step len) (I := fun w => ∃ more, w.file = some (contents++more)) ?_
    ⟨[],by rw [hu, List.append_nil]⟩ h
  intro s a t ⟨more,hs⟩ hstep
  have ⟨more',ht⟩ := file_step hstep _ hs
  exact ⟨more++more',by rw [ht, List.append_assoc]⟩

/-- A value that was returned is how the file begins, then and later. -/
theorem returned_prefix {as : List Act} {value : Bytes} (hu : OnceOk len u)
    (hreturned : .returned value ∈ u.parties) (h : run (step len) u as = some v) :
    value.length = len ∧ ∃ contents, v.file = some contents ∧ contents.take len = value := by
  have ⟨hlen,c,hc,hstart⟩ := hu.knows _ hreturned
  have ⟨more,hv⟩ := file_run h c hc
  have hvalue : value <+: c++more := hstart.trans (List.prefix_append c more)
  exact ⟨hlen,_,hv,by rw [← hlen]; exact (List.prefix_iff_eq_take.mp hvalue).symm⟩

/-- Two parties that return, whenever they do, return one value. -/
theorem returned_agree {as : List Act} {a b : Bytes} (hu : OnceOk len u)
    (h : run (step len) u as = some v) (ha : .returned a ∈ u.parties)
    (hb : .returned b ∈ v.parties) : a = b := by
  have ⟨_,c,hc,hac⟩ := returned_prefix hu ha h
  have hstay : run (step len) v [] = some v := rfl
  have ⟨_,d,hd,hbd⟩ := returned_prefix (onceOk_run hu h) hb hstay
  rw [hc] at hd
  cases hd
  exact hac.symm.trans hbd

/-- The file is short, and nobody is there to complete it. -/
def Stuck (len : ℕ) (contents : Bytes) (w : World) : Prop :=
  w.file = some contents ∧ contents.length < len ∧ ∀ p ∈ w.parties, ¬p.isWriting

instance (contents : Bytes) : Decidable (Stuck len contents w) :=
  inferInstanceAs (Decidable (_ ∧ _ ∧ _))

theorem stuck_set {contents : Bytes} (hw : Stuck len contents w) (hp : ¬p.isWriting) :
    Stuck len contents (w.set i p) := by
  have ⟨hfile,hshort,hnone⟩ := hw
  refine ⟨hfile,hshort,fun q hq => ?_⟩
  rcases List.mem_or_eq_of_mem_set hq with hq | rfl
  · exact hnone q hq
  · exact hp

theorem stuck_step {contents : Bytes} (hw : Stuck len contents w) (h : step len w a = some v) :
    Stuck len contents v := by
  have ⟨hfile,hshort,hnone⟩ := hw
  rcases step_cases h with rfl | ⟨i,p,-,rfl,-,hp⟩ | ⟨i,got,c,n,-,-,rfl⟩ | ⟨i,value,-,hf,rfl⟩ |
    ⟨i,value,rest,c,n,hi,-,rfl⟩ | ⟨i,value,hi,rfl⟩ | ⟨i,rfl⟩
  · refine ⟨hfile,hshort,fun q hq => ?_⟩
    rcases List.mem_append.mp hq with hq | hq
    · exact hnone q hq
    · cases List.mem_singleton.mp hq
      exact nofun
  · exact stuck_set hw hp
  · exact stuck_set hw (afterRead_not_writing c got n)
  · rw [hfile] at hf
    cases hf
  · exact absurd rfl (hnone _ (List.mem_of_getElem? hi))
  · exact absurd rfl (hnone _ (List.mem_of_getElem? hi))
  · exact stuck_set hw nofun

/-- From then on the file stays as it is and nobody returns. -/
theorem stuck_run {as : List Act} {contents : Bytes} (hu : Stuck len contents u)
    (h : run (step len) u as = some v) : Stuck len contents v :=
  run_invariant (step len) (I := Stuck len contents) (fun _ _ _ hI hstep => stuck_step hI hstep)
    hu h

theorem stuck_none_returned {contents value : Bytes} (hw : Stuck len contents w)
    (hok : OnceOk len w) : .returned value ∉ w.parties := by
  intro hmem
  have ⟨hlen,c,hc,hstart⟩ := hok.knows _ hmem
  rw [hw.1] at hc
  cases hc
  have hle := hstart.length_le
  have hlt := hw.2.1
  omega

end Invariant

end Term.CreatedOnce
