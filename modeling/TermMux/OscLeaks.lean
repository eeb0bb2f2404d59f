import TermMux.OscSegments

/-!
# What the scanner forwards of private sequences

A private sequence can stand in the output although the scanner strips every private OSC it
reads: within the payload of a foreign OSC that is forwarded, and from the second byte of
an ESC ESC pair on, over single bytes. These are the only ways.
-/

set_option autoImplicit false

namespace Term.OscLeaks
open Term.ByteOrder Term.OscStream Term.OscSegments

/-- `5111`, or `5111;` with a payload that has neither BEL nor ESC. -/
structure PrivateBody (body : Bytes) : Prop where
  app : body = appId ∨ ∃ q, body = appId++semicolon::q
  clean : ∀ b ∈ body, b ≠ bel ∧ b ≠ esc
  fits : body.length ≤ maxOscLen

def complete (body : Bytes) (t : Terminator) : Bytes := esc::rightBracket::(body++t.bytes)

def Leaked (out : Bytes) : Prop :=
  ∃ body t, PrivateBody body ∧ complete body t <:+: out

def kept : Segment → Bool
  | .osc payload _ => !isPrivate payload
  | .overlong _ => false
  | _ => true

def loose : Terminator → List Segment
  | .bel => [.plain bel]
  | .st => [.escape backslash]

/-- No forwarded OSC has a private sequence within its payload, and no pair ESC ESC starts one
together with the segments forwarded after it. -/
structure Safe (segs : List Segment) : Prop where
  nested : ∀ p t, .osc p t ∈ segs → isPrivate p = false →
    ∀ body t', PrivateBody body → ¬complete body t' <:+: p++t.bytes
  paired : ∀ pre body t post, PrivateBody body → segs.filter kept ≠
    pre++.escape esc::.plain rightBracket::(body.map .plain++loose t++post)

theorem forwarded_eq (s : Segment) : s.forwarded = if kept s then s.bytes else [] := by
  cases s with
  | plain b
  | escape b
  | overlong content => rfl
  | osc p t =>
    cases hp : isPrivate p <;> simp [Segment.forwarded, kept, hp]

theorem flatMap_forwarded (segs : List Segment) :
    segs.flatMap Segment.forwarded = (segs.filter kept).flatMap Segment.bytes := by
  induction segs with
  | nil => rfl
  | cons s segs ih =>
    rw [List.flatMap_cons, ih, forwarded_eq, List.filter_cons]
    cases kept s <;> rfl

theorem private_isPrivate {body : Bytes} (h : PrivateBody body) : isPrivate body = true := by
  rcases h.app with rfl | ⟨q,rfl⟩ <;> rfl

theorem private_ok {body : Bytes} (h : PrivateBody body) (t : Terminator) :
    (Segment.osc body t).Ok :=
  ⟨payload_of_forall .nil h.clean,h.fits⟩

section Alignment

theorem segments_front {segs front : List Segment} {rest : Bytes} (hsegs : ∀ s ∈ segs, s.Ok)
    (hfront : ∀ s ∈ front, s.Ok)
    (h : segs.flatMap Segment.bytes = front.flatMap Segment.bytes++rest) :
    ∃ post, segs = front++post := by
  have hall : parse (segs.flatMap Segment.bytes) = (segs,.none) := by
    have hparse : parse (segs.flatMap Segment.bytes++Held.none.bytes) = (segs,.none) :=
      parse_segments hsegs trivial
    rwa [Held.bytes, List.append_nil] at hparse
  have hbegin : parse (front.flatMap Segment.bytes) = (front,.none) := by
    have hparse : parse (front.flatMap Segment.bytes++Held.none.bytes) = (front,.none) :=
      parse_segments hfront trivial
    rwa [Held.bytes, List.append_nil] at hparse
  rw [h, parse, parseFrom_append] at hall
  have hfrom : parseFrom (front,.none) rest = (segs,.none) := by
    rw [← hbegin]
    exact hall
  rw [parseFrom_base] at hfrom
  exact ⟨_,(Prod.mk.inj hfrom).1.symm⟩

theorem bytes_loose (body : Bytes) (t : Terminator) :
    (body.map Segment.plain++loose t).flatMap Segment.bytes = body++t.bytes := by
  have hplain : (body.map Segment.plain).flatMap Segment.bytes = body := by
    induction body with
    | nil => rfl
    | cons b body ih => rw [List.map_cons, List.flatMap_cons, ih]; rfl
  rw [List.flatMap_append, hplain]
  cases t <;> rfl

theorem loose_ok {body : Bytes} (h : ∀ b ∈ body, b ≠ esc) (t : Terminator) :
    ∀ s ∈ body.map Segment.plain++loose t, s.Ok := by
  intro s hs
  rcases List.mem_append.mp hs with hs | hs
  · obtain ⟨b,hb,rfl⟩ := List.mem_map.mp hs
    exact h b hb
  · cases t with
    | bel =>
      rw [List.mem_singleton.mp hs]
      exact (by decide : bel ≠ esc)
    | st =>
      rw [List.mem_singleton.mp hs]
      exact (by decide : backslash ≠ rightBracket)

theorem terminator_head (t : Terminator) : ∃ b rest, t.bytes = b::rest ∧ (b = bel ∨ b = esc) := by
  cases t with
  | bel => exact ⟨bel,[],rfl,.inl rfl⟩
  | st => exact ⟨esc,[backslash],rfl,.inr rfl⟩

theorem terminator_last {u body d : Bytes} {t t' : Terminator} (hclean : ∀ b ∈ body, b ≠ bel ∧ b ≠ esc)
    (h : u++(t.bytes++d) = body++t'.bytes) : d = [] := by
  have hends : ∀ c : Bytes, t'.bytes = c++(t.bytes++d) → d = [] := by
    intro c hc
    cases t <;> cases t' <;> rcases c with _ | ⟨x,_ | ⟨y,c⟩⟩ <;>
      simp_all [Terminator.bytes, bel, esc, backslash]
  rcases List.append_eq_append_iff.mp h with ⟨a,rfl,ht⟩ | ⟨c,-,ht⟩
  · cases a with
    | nil => exact hends [] ht.symm
    | cons b a =>
      -- the other terminator would begin within the body
      have hb := hclean b (by simp)
      obtain ⟨x,rest,hx,hspecial⟩ := terminator_head t
      rw [hx] at ht
      obtain ⟨rfl,-⟩ := List.cons.inj ht
      exact absurd hspecial (not_or.mpr hb)
  · exact hends c ht

/-- A private sequence that begins in the payload of an OSC ends with that OSC or before. -/
theorem complete_front {u body rest : Bytes} {t t' : Terminator}
    (hclean : ∀ b ∈ body, b ≠ bel ∧ b ≠ esc) (h : complete body t' <+: u++(t.bytes++rest)) (hu : u ≠ []) :
    complete body t' <+: u++t.bytes := by
  have hshort : u++t.bytes <+: u++(t.bytes++rest) := by
    rw [← List.append_assoc]
    exact List.prefix_append _ _
  rcases List.prefix_or_prefix_of_prefix h hshort with hpre | ⟨d,hd⟩
  · exact hpre
  · have hnil : d = [] := by
      rw [List.append_assoc] at hd
      obtain ⟨x,r,hx,hspecial⟩ := terminator_head t
      cases u with
      | nil => exact absurd rfl hu
      | cons a u =>
        cases u with
        | nil =>
          rw [hx] at hd
          have hbracket := (List.cons.inj (List.cons.inj hd).2).1
          rw [hbracket] at hspecial
          exact absurd hspecial (by decide)
        | cons b u =>
          have htail : u++(t.bytes++d) = body++t'.bytes := (List.cons.inj (List.cons.inj hd).2).2
          exact terminator_last hclean htail
    rw [hnil, List.append_nil] at hd
    rw [hd]

/-- A private sequence does not lie across the end of an OSC. -/
theorem complete_within {u body rest : Bytes} {t t' : Terminator}
    (hclean : ∀ b ∈ body, b ≠ bel ∧ b ≠ esc) (h : complete body t' <:+: u++(t.bytes++rest)) :
    complete body t' <:+: u++t.bytes ∨ complete body t' <:+: rest := by
  induction u with
  | nil =>
    cases t with
    | bel =>
      rcases List.infix_cons_iff.mp h with ⟨d,hd⟩ | h
      · exact absurd (List.cons.inj hd).1 (by decide)
      · exact .inr h
    | st =>
      rcases List.infix_cons_iff.mp h with ⟨d,hd⟩ | h
      · exact absurd (List.cons.inj (List.cons.inj hd).2).1 (by decide)
      · rcases List.infix_cons_iff.mp h with ⟨d,hd⟩ | h
        · exact absurd (List.cons.inj hd).1 (by decide)
        · exact .inr h
  | cons b u ih =>
    rcases List.infix_cons_iff.mp h with hpre | h
    · exact .inl (complete_front (u := b::u) hclean hpre nofun).isInfix
    · rcases ih h with h | h
      · exact .inl (h.trans (List.suffix_cons b _).isInfix)
      · exact .inr h

end Alignment

section Kept

/-- After an ESC that ends a pair, the rest of a private sequence is single bytes up to its
terminator. -/
theorem front_paired {segs : List Segment} (hok : ∀ s ∈ segs, s.Ok) {body d : Bytes}
    {t : Terminator} (hbody : PrivateBody body)
    (h : rightBracket::(body++t.bytes)++d = segs.flatMap Segment.bytes) :
    ∃ post, segs = .plain rightBracket::(body.map .plain++loose t++post) := by
  have hclean : ∀ x ∈ rightBracket::body, x ≠ esc :=
    List.forall_mem_cons.mpr ⟨by decide,fun x hx => (hbody.clean x hx).2⟩
  have hfront : segs.flatMap Segment.bytes =
      ((rightBracket::body).map Segment.plain++loose t).flatMap Segment.bytes++d := by
    rw [bytes_loose]
    exact h.symm
  exact segments_front hok (loose_ok hclean t) hfront

/-- A private sequence at the front of an OSC is that OSC. -/
theorem front_osc {segs : List Segment} {p body : Bytes} {t t' : Terminator}
    (hok : ∀ s ∈ Segment.osc p t'::segs, s.Ok) (hbody : PrivateBody body)
    (h : complete body t <+: (Segment.osc p t'::segs).flatMap Segment.bytes) : p = body := by
  obtain ⟨d,hd⟩ := h
  have hfront : (Segment.osc p t'::segs).flatMap Segment.bytes =
      [Segment.osc body t].flatMap Segment.bytes++d := by
    rw [List.flatMap_singleton]
    exact hd.symm
  obtain ⟨post,hpost⟩ :=
    segments_front hok (List.forall_mem_singleton.mpr (private_ok hbody t)) hfront
  cases (List.cons.inj hpost).1
  rfl

/-- Where a private sequence begins among the segments that are kept. -/
theorem leak_origin {segs : List Segment} (hok : ∀ s ∈ segs, s.Ok)
    (hkept : ∀ s ∈ segs, kept s = true) {body : Bytes} {t : Terminator}
    (hbody : PrivateBody body) (h : complete body t <:+: segs.flatMap Segment.bytes) :
    (∃ p t', .osc p t' ∈ segs ∧ complete body t <:+: p++t'.bytes) ∨
      ∃ pre post, segs = pre++.escape esc::.plain rightBracket::(body.map .plain++loose t++post) := by
  induction segs with
  | nil => exact absurd (List.eq_nil_of_infix_nil h) nofun
  | cons s segs ih =>
    obtain ⟨hs,hrest⟩ := List.forall_mem_cons.mp hok
    obtain ⟨hsk,hrestk⟩ := List.forall_mem_cons.mp hkept
    have hlater : complete body t <:+: segs.flatMap Segment.bytes →
        (∃ p t', .osc p t' ∈ s::segs ∧ complete body t <:+: p++t'.bytes) ∨
          ∃ pre post, s::segs =
            pre++.escape esc::.plain rightBracket::(body.map .plain++loose t++post) := by
      intro h
      rcases ih hrest hrestk h with ⟨p,t',hp,hin⟩ | ⟨pre,post,rfl⟩
      · exact .inl ⟨p,t',List.mem_cons_of_mem _ hp,hin⟩
      · exact .inr ⟨s::pre,post,rfl⟩
    cases s with
    | plain b =>
      rcases List.infix_cons_iff.mp h with ⟨d,hd⟩ | h
      · exact absurd (List.cons.inj hd).1.symm hs
      · exact hlater h
    | escape b =>
      rcases List.infix_cons_iff.mp h with ⟨d,hd⟩ | h
      · exact absurd (List.cons.inj (List.cons.inj hd).2).1.symm hs
      · rcases List.infix_cons_iff.mp h with ⟨d,hd⟩ | h
        · -- the second byte of the pair is the ESC of the sequence
          obtain ⟨rfl,htail⟩ := List.cons.inj hd
          obtain ⟨post,rfl⟩ := front_paired hrest hbody htail
          exact .inr ⟨[],post,rfl⟩
        · exact hlater h
    | osc p t' =>
      have hown : ¬complete body t <+: (Segment.osc p t'::segs).flatMap Segment.bytes := by
        intro hfront
        rw [front_osc hok hbody hfront] at hsk
        simp [kept, private_isPrivate hbody] at hsk
      rw [List.flatMap_cons, Segment.bytes, List.cons_append, List.cons_append,
        List.append_assoc] at h hown
      rcases List.infix_cons_iff.mp h with hfront | h
      · exact absurd hfront hown
      · rcases List.infix_cons_iff.mp h with ⟨d,hd⟩ | h
        · exact absurd (List.cons.inj hd).1 (by decide)
        · rcases complete_within hbody.clean h with h | h
          · exact .inl ⟨p,t',List.mem_cons_self,h⟩
          · exact hlater h
    | overlong content => cases hsk

theorem infix_of_nested {segs : List Segment} {p w : Bytes} {t : Terminator}
    (hmem : .osc p t ∈ segs) (h : w <:+: p++t.bytes) : w <:+: segs.flatMap Segment.bytes := by
  obtain ⟨pre,post,rfl⟩ := List.append_of_mem hmem
  obtain ⟨u,v,huv⟩ := h
  refine ⟨pre.flatMap Segment.bytes++esc::rightBracket::u,v++post.flatMap Segment.bytes,?_⟩
  rw [List.flatMap_append, List.flatMap_cons, Segment.bytes, ← huv]
  simp

theorem infix_of_paired (pre post : List Segment) (body : Bytes) (t : Terminator) :
    complete body t <:+: (pre++Segment.escape esc::Segment.plain rightBracket::
      (body.map Segment.plain++loose t++post)).flatMap Segment.bytes := by
  refine ⟨pre.flatMap Segment.bytes++[esc],post.flatMap Segment.bytes,?_⟩
  simp only [List.flatMap_append, List.flatMap_cons, ← bytes_loose, Segment.bytes, complete]
  simp

end Kept

/-- Nothing private is forwarded exactly where the input has neither of the two forms. -/
theorem not_leaked_iff (chunks : List Bytes) :
    ¬Leaked (feedAll OscScanner.new chunks).out ↔ Safe (parse chunks.flatten).1 := by
  have hparse := parse_decomposes chunks.flatten
  have hout : (feedAll OscScanner.new chunks).out =
      ((parse chunks.flatten).1.filter kept).flatMap Segment.bytes := by
    rw [feedAll_eq, feed_parse, flatMap_forwarded]
  rw [hout]
  constructor
  · intro h
    constructor
    · intro p t hp hforeign body t' hbody hin
      have hmem : .osc p t ∈ (parse chunks.flatten).1.filter kept :=
        List.mem_filter.mpr ⟨hp,by simp [kept, hforeign]⟩
      exact h ⟨body,t',hbody,infix_of_nested hmem hin⟩
    · intro pre body t post hbody heq
      rw [heq] at h
      exact h ⟨body,t,hbody,infix_of_paired pre post body t⟩
  · rintro hsafe ⟨body,t,hbody,hin⟩
    have hok : ∀ s ∈ (parse chunks.flatten).1.filter kept, s.Ok :=
      fun s hs => hparse.complete s (List.mem_filter.mp hs).1
    have hkept : ∀ s ∈ (parse chunks.flatten).1.filter kept, kept s = true :=
      fun s hs => (List.mem_filter.mp hs).2
    rcases leak_origin hok hkept hbody hin with ⟨p,t',hp,hnested⟩ | ⟨pre,post,heq⟩
    · obtain ⟨hmem,hk⟩ := List.mem_filter.mp hp
      exact hsafe.nested p t' hmem (by simpa [kept] using hk) body t hbody hnested
    · exact hsafe.paired pre body t post hbody heq

/-- `5111;x` after a pair ESC ESC is forwarded as it came. -/
theorem private_after_esc_leaks :
    Leaked (feedAll OscScanner.new [esc::complete (appId++[semicolon,0x78]) .bel]).out := by
  refine ⟨appId++[semicolon,0x78],.bel,⟨.inr ⟨_,rfl⟩,?_,?_⟩,?_⟩
  · simp [appId, bel, esc, semicolon]
  · decide
  · decide

end Term.OscLeaks
