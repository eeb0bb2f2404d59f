import TermMux.TabConnection
import Mathlib.Data.List.Nodup
import Mathlib.Tactic.IntervalCases

/-!
# The tabs of the page and its URL fragment

`parseFragment` and `writeFragment`, and the page as a machine: `enterApp`,
`openTab`, `activateTab`, `closeTab` and the logout button, with the events of
the connections of all tabs ever opened. The tab objects are kept in the order
of their creation, and `tabs` holds their positions. Text is its characters.

The tabs are distinct, the active one is among them, and the fragment in the
address spells them, so that a reload opens the same tabs again.
-/

set_option autoImplicit false

namespace Term.WebTabs
open Term.Machine Term.TabConnection

abbrev Text := List Char

structure Key where
  machineId : Text
  sessionId : Text
  deriving DecidableEq, Repr

section Fragment

def idChar (c : Char) : Bool :=
  ('A' ≤ c ∧ c ≤ 'Z') ∨ ('a' ≤ c ∧ c ≤ 'z') ∨ ('0' ≤ c ∧ c ≤ '9') ∨ c = '_' ∨ c = '-'

def isId (max : ℕ) (t : Text) : Bool := t ≠ [] ∧ t.length ≤ max ∧ t.all idChar

/-- `MACHINE_ID_RE` and `SESSION_ID_RE` -/
def machineIdOk (t : Text) : Bool := isId 32 t
def sessionIdOk (t : Text) : Bool := isId 64 t

def Key.ok (k : Key) : Bool := machineIdOk k.machineId ∧ sessionIdOk k.sessionId

/-- The whitespace that `trim` strips. -/
def isSpace (c : Char) : Bool :=
  let n := c.toNat
  (0x09 ≤ n && n ≤ 0x0D) || n == 0x20 || n == 0xA0 || n == 0x1680 ||
    (0x2000 ≤ n && n ≤ 0x200A) || n == 0x2028 || n == 0x2029 || n == 0x202F || n == 0x205F ||
    n == 0x3000 || n == 0xFEFF

def trim (t : Text) : Text := ((t.dropWhile isSpace).reverse.dropWhile isSpace).reverse

def parsePair (pair : Text) : Option Key :=
  match pair.dropWhile (· ≠ ':') with
  | _::s =>
    let key : Key := ⟨pair.takeWhile (· ≠ ':'),s⟩
    if key.ok then some key else none
  | [] => none

def parseFragment (hash : Text) : List Key :=
  let raw := match hash with
    | '#'::raw => raw
    | raw => raw
  if raw = [] then [] else (((raw.splitOn ',').map trim).filter (· ≠ [])).filterMap parsePair

def Key.text (k : Key) : Text := k.machineId++(':'::k.sessionId)

def hashOf (keys : List Key) : Text :=
  match [','].intercalate (keys.map Key.text) with
  | [] => []
  | frag => '#'::frag

end Fragment

structure Tab where
  key : Key
  conn : Conn
  deriving DecidableEq, Repr

structure Page where
  machines : List Text
  /-- `location.hash` -/
  hash : Text
  objects : List Tab
  tabs : List ℕ
  /-- `none` for -1. -/
  activeTabIdx : Option ℕ
  deriving DecidableEq, Repr

def Page.keyAt (p : Page) (i : ℕ) : Option Key := p.objects[i]?.map Tab.key

def Page.keys (p : Page) : List Key := p.tabs.filterMap p.keyAt

def activateTab (p : Page) (idx : ℕ) : Page :=
  if idx < p.tabs.length then { p with activeTabIdx := some idx } else p

def writeFragment (p : Page) : Page := { p with hash := hashOf p.keys }

def openTab (p : Page) (key : Key) (activate throws : Bool) : Page :=
  if key.machineId ∈ p.machines then
    match p.tabs.findIdx? fun i => p.keyAt i = some key with
    | some existing => if activate then activateTab p existing else p
    | none =>
      let tab : Tab := ⟨key,connectTab Conn.new throws⟩
      let p := writeFragment
        { p with objects := p.objects++[tab], tabs := p.tabs++[p.objects.length] }
      if activate then activateTab p (p.tabs.length-1) else p
  else p

def closeTab (p : Page) (i : ℕ) (persist : Bool) : Page :=
  match p.tabs.findIdx? (· = i) with
  | none => p
  | some idx =>
    let p := { p with
      objects := p.objects.modify i fun t => { t with conn := shut t.conn }
      tabs := p.tabs.eraseIdx idx }
    let p := if persist then writeFragment p else p
    if p.tabs = [] then { p with activeTabIdx := none }
    else activateTab p (min idx (p.tabs.length-1))

/-- The click on the logout button, up to the reload. -/
def logout (p : Page) : Page :=
  { p.tabs.foldl (fun p i => closeTab p i false) p with hash := [] }

def enterApp (machines : List Text) (hash : Text) (throws : Key → Bool) : Page :=
  let p := (parseFragment hash).foldl (fun p key => openTab p key false (throws key))
    ⟨machines,hash,[],[],none⟩
  if p.tabs = [] then p else activateTab p 0

def hexDigit (n : ℕ) : Char := if n < 10 then Char.ofNat (0x30+n) else Char.ofNat (0x61+(n-10))

def newSessionId (bytes : Fin 4 → UInt8) : Text :=
  (List.ofFn bytes).flatMap fun b => [hexDigit (b.toNat/16),hexDigit (b.toNat%16)]

inductive Act where
  | newTab (machineId : Text) (bytes : Fin 4 → UInt8) (throws : Bool)
  | clickTab (i : ℕ)
  | clickClose (i : ℕ)
  | logout
  | event (i : ℕ) (e : Event)

def step (p : Page) : Act → Option Page
  | .newTab machineId bytes throws => some (openTab p ⟨machineId,newSessionId bytes⟩ true throws)
  | .clickTab i => (p.tabs.findIdx? (· = i)).map (activateTab p)
  | .clickClose i => if i ∈ p.tabs then some (closeTab p i true) else none
  | .logout => some (logout p)
  | .event i e =>
    p.objects[i]?.bind fun t =>
      (handle t.conn e).map fun c => { p with objects := p.objects.set i { t with conn := c } }

section Spelling
variable {k : Key} {ks : List Key} {t : Text} {c : Char}

theorem idChar_range (h : idChar c = true) : 0x2D ≤ c.toNat ∧ c.toNat ≤ 0x7A := by
  have hA : 'A'.toNat = 65 := rfl
  have hZ : 'Z'.toNat = 90 := rfl
  have ha : 'a'.toNat = 97 := rfl
  have hz : 'z'.toNat = 122 := rfl
  have h0 : '0'.toNat = 48 := rfl
  have h9 : '9'.toNat = 57 := rfl
  simp only [idChar, Char.le_def, UInt32.le_iff_toNat_le, decide_eq_true_eq, Char.toNat_val] at h
  rcases h with h | h | h | rfl | rfl
  · omega
  · omega
  · omega
  · decide
  · decide

theorem idChar_facts (h : idChar c = true) : isSpace c = false ∧ c ≠ ':' ∧ c ≠ ',' := by
  have hne : ∀ d : Char, idChar d = false → c ≠ d := fun d hd heq => by
    rw [heq, hd] at h
    cases h
  have ⟨hlow,hhigh⟩ := idChar_range h
  refine ⟨?_,hne _ (by decide),hne _ (by decide)⟩
  simp only [isSpace, Bool.or_eq_false_iff, Bool.and_eq_false_iff, beq_eq_false_iff_ne,
    decide_eq_false_iff_not]
  omega

theorem ok_text (h : k.ok = true) :
    (∀ c ∈ k.machineId, c ≠ ':') ∧ ∀ c ∈ k.text, isSpace c = false ∧ c ≠ ',' := by
  simp only [Key.ok, machineIdOk, sessionIdOk, isId, decide_eq_true_eq, List.all_eq_true] at h
  obtain ⟨⟨-,-,hm⟩,-,-,hs⟩ := h
  refine ⟨fun c hc => (idChar_facts (hm c hc)).2.1,fun c hc => ?_⟩
  rcases List.mem_append.mp hc with hc | hc
  · exact ⟨(idChar_facts (hm c hc)).1,(idChar_facts (hm c hc)).2.2⟩
  · rcases List.mem_cons.mp hc with rfl | hc
    · decide
    · exact ⟨(idChar_facts (hs c hc)).1,(idChar_facts (hs c hc)).2.2⟩

theorem text_ne_nil (k : Key) : k.text ≠ [] := by simp [Key.text]

theorem dropWhile_of_false {α : Type} {p : α → Bool} {l : List α} (h : ∀ x ∈ l, p x = false) :
    l.dropWhile p = l := by
  cases l with
  | nil => rfl
  | cons x l => rw [List.dropWhile_cons_of_neg (by simp [h x List.mem_cons_self])]

theorem trim_of_false (h : ∀ c ∈ t, isSpace c = false) : trim t = t := by
  have hreverse : ∀ c ∈ t.reverse, isSpace c = false := fun c hc => h c (List.mem_reverse.mp hc)
  rw [trim, dropWhile_of_false h, dropWhile_of_false hreverse, List.reverse_reverse]

theorem parsePair_text (h : k.ok = true) : parsePair k.text = some k := by
  have hm := (ok_text h).1
  have hdrop : k.text.dropWhile (· ≠ ':') = ':'::k.sessionId := by
    rw [Key.text, List.dropWhile_append_of_pos (by simpa using hm)]
    rfl
  have htake : k.text.takeWhile (· ≠ ':') = k.machineId := by
    rw [Key.text, List.takeWhile_append_of_pos (by simpa using hm)]
    simp
  rw [parsePair, hdrop, htake]
  exact if_pos h

/-- What is written is read back. -/
theorem parseFragment_hashOf (h : ∀ k ∈ ks, k.ok = true) : parseFragment (hashOf ks) = ks := by
  by_cases hnil : ks = []
  · subst hnil
    rfl
  have htexts : ∀ t ∈ ks.map Key.text, t ≠ [] ∧ ∀ c ∈ t, isSpace c = false ∧ c ≠ ',' := by
    intro t ht
    have ⟨k,hk,hkt⟩ := List.mem_map.mp ht
    subst hkt
    exact ⟨text_ne_nil k,(ok_text (h k hk)).2⟩
  have hsplit : ([','].intercalate (ks.map Key.text)).splitOn ',' = ks.map Key.text :=
    List.splitOn_intercalate ',' (fun t ht hc => ((htexts t ht).2 _ hc).2 rfl) (by simpa using hnil)
  have hfrag : [','].intercalate (ks.map Key.text) ≠ [] := by
    intro hempty
    rw [hempty] at hsplit
    have hone : [] ∈ ks.map Key.text := by
      rw [← hsplit]
      exact List.mem_singleton_self _
    exact (htexts _ hone).1 rfl
  have htrim : (ks.map Key.text).map trim = ks.map Key.text :=
    (List.map_congr_left fun t ht => trim_of_false fun c hc => ((htexts t ht).2 c hc).1).trans
      (List.map_id _)
  have hfilter : (ks.map Key.text).filter (· ≠ []) = ks.map Key.text :=
    List.filter_eq_self.mpr fun t ht => decide_eq_true (htexts t ht).1
  have hparse : (ks.map Key.text).filterMap parsePair = ks := by
    rw [List.filterMap_map]
    exact (List.filterMap_congr fun k hk => parsePair_text (h k hk)).trans List.filterMap_some
  rw [hashOf]
  cases hraw : [','].intercalate (ks.map Key.text) with
  | nil => exact absurd hraw hfrag
  | cons c raw =>
    show parseFragment ('#'::c::raw) = ks
    rw [parseFragment, if_neg (List.cons_ne_nil c raw), ← hraw, hsplit, htrim, hfilter, hparse]

theorem ok_of_parse {hash : Text} (h : k ∈ parseFragment hash) : k.ok = true := by
  have hpair : ∀ pair, parsePair pair = some k → k.ok = true := by
    intro pair hpair
    rw [parsePair] at hpair
    split at hpair
    · dsimp only at hpair
      split_ifs at hpair with hok
      cases hpair
      exact hok
    · cases hpair
  have hraw : ∀ raw : Text, k ∈ (if raw = [] then []
      else (((raw.splitOn ',').map trim).filter (· ≠ [])).filterMap parsePair) → k.ok = true := by
    intro raw hk
    by_cases hempty : raw = []
    · rw [if_pos hempty] at hk
      exact absurd hk List.not_mem_nil
    · rw [if_neg hempty] at hk
      have ⟨pair,_,hp⟩ := List.mem_filterMap.mp hk
      exact hpair pair hp
  exact hraw _ h

theorem idChar_hexDigit {n : ℕ} (h : n < 16) : idChar (hexDigit n) = true := by
  interval_cases n <;> decide

theorem sessionIdOk_new (bytes : Fin 4 → UInt8) : sessionIdOk (newSessionId bytes) = true := by
  have hlen : (newSessionId bytes).length = 8 := by
    simp [newSessionId]
  have hchars : ∀ c ∈ newSessionId bytes, idChar c = true := by
    intro c hc
    have ⟨b,_,hc⟩ := List.mem_flatMap.mp hc
    have hb := b.toNat_lt
    rcases List.mem_cons.mp hc with rfl | hc
    · exact idChar_hexDigit (by omega)
    · rw [List.mem_singleton.mp hc]
      exact idChar_hexDigit (by omega)
  have hne : newSessionId bytes ≠ [] := List.ne_nil_of_length_pos (by omega)
  simp only [sessionIdOk, isId, decide_eq_true_eq, List.all_eq_true]
  exact ⟨hne,by omega,hchars⟩

end Spelling

section Firsts
variable {α : Type} [DecidableEq α] {l m : List α} {a : α}

theorem eraseDups_of_nodup (h : l.Nodup) : l.eraseDups = l := by
  induction l with
  | nil => rfl
  | cons a l ih =>
    have ⟨hnew,hrest⟩ := List.nodup_cons.mp h
    have hfilter : l.filter (fun b => !b == a) = l := by
      rw [List.filter_eq_self]
      intro b hb
      have hne : b ≠ a := fun hba => hnew (hba ▸ hb)
      simpa using hne
    rw [List.eraseDups_cons, hfilter, ih hrest]

theorem eraseDups_append_known (h : a ∈ l) : (l++a::m).eraseDups = (l++m).eraseDups := by
  rw [List.eraseDups_append, List.eraseDups_append, List.cons_removeAll, if_neg (by simpa using h)]

end Firsts

section Pages
variable {p q : Page} {key : Key} {i idx : ℕ} {activate throws persist : Bool}

structure TabsOk (p : Page) : Prop where
  conns : ∀ t ∈ p.objects, ConnOk t.conn
  keysOk : ∀ t ∈ p.objects, t.key.ok = true ∧ t.key.machineId ∈ p.machines
  mem : ∀ i, i ∈ p.tabs ↔ ∃ t, p.objects[i]? = some t ∧ t.conn.closing = false
  nodup : p.tabs.Nodup
  distinct : p.keys.Nodup

def ActiveOk (p : Page) : Prop :=
  (p.tabs = [] ∧ p.activeTabIdx = none) ∨ ∃ i, p.activeTabIdx = some i ∧ i < p.tabs.length

def HashOk (p : Page) : Prop := p.tabs ≠ [] → p.hash = hashOf p.keys

theorem mem_keys (h : TabsOk p) :
    key ∈ p.keys ↔
      ∃ (i : ℕ) (t : Tab), p.objects[i]? = some t ∧ t.conn.closing = false ∧ t.key = key := by
  simp only [Page.keys, List.mem_filterMap, Page.keyAt, Option.map_eq_some_iff]
  constructor
  · rintro ⟨i,hi,t,ht,hkey⟩
    have ⟨t',ht',hopen⟩ := (h.mem i).mp hi
    cases ht.symm.trans ht'
    exact ⟨i,t,ht,hopen,hkey⟩
  · rintro ⟨i,t,ht,hopen,hkey⟩
    exact ⟨i,(h.mem i).mpr ⟨t,ht,hopen⟩,t,ht,hkey⟩

theorem keys_of_same (hobjects : q.objects.map Tab.key = p.objects.map Tab.key)
    (htabs : q.tabs = p.tabs) : q.keys = p.keys := by
  have hat : q.keyAt = p.keyAt := by
    funext i
    rw [Page.keyAt, Page.keyAt, ← List.getElem?_map, ← List.getElem?_map, hobjects]
  rw [Page.keys, Page.keys, hat, htabs]

theorem keys_length (h : TabsOk p) : p.keys.length = p.tabs.length := by
  have hall : ∀ i ∈ p.tabs, (p.keyAt i).isSome := by
    intro i hi
    have ⟨t,ht,_⟩ := (h.mem i).mp hi
    rw [Page.keyAt, ht]
    rfl
  rw [Page.keys, List.length_filterMap_eq_countP, List.countP_eq_length]
  exact hall

theorem key_ok (h : TabsOk p) (hkey : key ∈ p.keys) :
    key.ok = true ∧ key.machineId ∈ p.machines := by
  have ⟨i,t,ht,_,hk⟩ := (mem_keys h).mp hkey
  rw [← hk]
  exact h.keysOk t (List.mem_of_getElem? ht)

theorem tabsOk_of_same (h : TabsOk p) (hmachines : q.machines = p.machines)
    (hobjects : q.objects = p.objects) (htabs : q.tabs = p.tabs) : TabsOk q := by
  have hkeys : q.keys = p.keys := keys_of_same (by rw [hobjects]) htabs
  constructor
  · rw [hobjects]
    exact h.conns
  · rw [hobjects, hmachines]
    exact h.keysOk
  · rw [hobjects, htabs]
    exact h.mem
  · rw [htabs]
    exact h.nodup
  · rw [hkeys]
    exact h.distinct

@[simp] theorem activateTab_objects : (activateTab p idx).objects = p.objects := by
  rw [activateTab]
  split_ifs <;> rfl

@[simp] theorem activateTab_tabs : (activateTab p idx).tabs = p.tabs := by
  rw [activateTab]
  split_ifs <;> rfl

@[simp] theorem activateTab_machines : (activateTab p idx).machines = p.machines := by
  rw [activateTab]
  split_ifs <;> rfl

@[simp] theorem activateTab_hash : (activateTab p idx).hash = p.hash := by
  rw [activateTab]
  split_ifs <;> rfl

@[simp] theorem activateTab_keys : (activateTab p idx).keys = p.keys :=
  keys_of_same (by rw [activateTab_objects]) activateTab_tabs

theorem activateTab_active (h : idx < p.tabs.length) : ActiveOk (activateTab p idx) := by
  rw [activateTab, if_pos h]
  exact .inr ⟨idx,rfl,h⟩

theorem activateTab_ok (h : TabsOk p) (idx : ℕ) : TabsOk (activateTab p idx) :=
  tabsOk_of_same h activateTab_machines activateTab_objects activateTab_tabs

def pushed (p : Page) (key : Key) (throws : Bool) : Page :=
  writeFragment
    { p with
      objects := p.objects++[⟨key,connectTab Conn.new throws⟩]
      tabs := p.tabs++[p.objects.length] }

theorem openTab_cases (p : Page) (key : Key) (activate throws : Bool) :
    (openTab p key activate throws = p ∧ (key.machineId ∉ p.machines ∨ key ∈ p.keys)) ∨
    (key ∈ p.keys ∧ ∃ idx, idx < p.tabs.length ∧
      openTab p key activate throws = activateTab p idx) ∨
    (key.machineId ∈ p.machines ∧ key ∉ p.keys ∧ openTab p key activate throws =
      if activate then activateTab (pushed p key throws) (pushed p key throws).tabs.length.pred
      else pushed p key throws) := by
  rw [openTab]
  by_cases hm : key.machineId ∈ p.machines
  · rw [if_pos hm]
    cases hfind : p.tabs.findIdx? (fun i => p.keyAt i = some key) with
    | none =>
      have hnew : key ∉ p.keys := by
        intro hkey
        have ⟨i,hi,hk⟩ := List.mem_filterMap.mp hkey
        rw [List.findIdx?_eq_none_iff] at hfind
        have hno := hfind i hi
        simp [hk] at hno
      exact .inr (.inr ⟨hm,hnew,rfl⟩)
    | some idx =>
      have ⟨hlt,hk,_⟩ := List.findIdx?_eq_some_iff_getElem.mp hfind
      have hkey : key ∈ p.keys :=
        List.mem_filterMap.mpr ⟨p.tabs[idx],List.getElem_mem hlt,by simpa using hk⟩
      dsimp only
      cases activate with
      | true => exact .inr (.inl ⟨hkey,idx,hlt,rfl⟩)
      | false => exact .inl ⟨rfl,.inr hkey⟩
  · rw [if_neg hm]
    exact .inl ⟨rfl,.inl hm⟩

theorem keys_pushed (h : TabsOk p) (key : Key) (throws : Bool) :
    (pushed p key throws).keys = p.keys++[key] := by
  have hold : ∀ i ∈ p.tabs, (pushed p key throws).keyAt i = p.keyAt i := by
    intro i hi
    have ⟨t,ht,_⟩ := (h.mem i).mp hi
    have hlt : i < p.objects.length := (List.getElem?_eq_some_iff.mp ht).1
    show ((p.objects++[_])[i]?).map Tab.key = (p.objects[i]?).map Tab.key
    rw [List.getElem?_append_left hlt]
  have hnew : (pushed p key throws).keyAt p.objects.length = some key := by
    show ((p.objects++[_])[p.objects.length]?).map Tab.key = some key
    rw [List.getElem?_concat_length]
    rfl
  show (p.tabs++[p.objects.length]).filterMap (pushed p key throws).keyAt = p.keys++[key]
  rw [List.filterMap_append, List.filterMap_congr hold, List.filterMap_cons_some hnew]
  rfl

theorem pushed_ok (h : TabsOk p) (hkey : key.ok = true) (hm : key.machineId ∈ p.machines)
    (hnew : key ∉ p.keys) (throws : Bool) : TabsOk (pushed p key throws) where
  conns := by
    intro t ht
    rcases List.mem_append.mp ht with ht | ht
    · exact h.conns t ht
    · rw [List.mem_singleton.mp ht]
      exact connOk_new throws
  keysOk := by
    intro t ht
    rcases List.mem_append.mp ht with ht | ht
    · exact h.keysOk t ht
    · rw [List.mem_singleton.mp ht]
      exact ⟨hkey,hm⟩
  mem := by
    intro i
    have hclosing : (connectTab Conn.new throws).closing = false := connectTab_closing _ _
    show i ∈ p.tabs++[p.objects.length] ↔ ∃ t, (p.objects++[_])[i]? = some t ∧ _
    rw [List.mem_append, List.mem_singleton, h.mem]
    constructor
    · rintro (⟨t,ht,hopen⟩ | rfl)
      · have hlt : i < p.objects.length := (List.getElem?_eq_some_iff.mp ht).1
        exact ⟨t,by rw [List.getElem?_append_left hlt, ht],hopen⟩
      · exact ⟨_,List.getElem?_concat_length,hclosing⟩
    · rintro ⟨t,ht,hopen⟩
      rcases getElem?_concat_cases ht with ht | ⟨rfl,-⟩
      · exact .inl ⟨t,ht,hopen⟩
      · exact .inr rfl
  nodup := by
    refine List.nodup_append.mpr ⟨h.nodup,List.nodup_singleton _,fun i hi j hj => ?_⟩
    have ⟨t,ht,_⟩ := (h.mem i).mp hi
    have hlt : i < p.objects.length := (List.getElem?_eq_some_iff.mp ht).1
    rw [List.mem_singleton.mp hj]
    omega
  distinct := by
    rw [keys_pushed h]
    exact List.nodup_append.mpr ⟨h.distinct,List.nodup_singleton _,fun a ha b hb hab =>
      hnew (List.mem_singleton.mp hb ▸ hab ▸ ha)⟩

theorem pushed_tabs_ne_nil : (pushed p key throws).tabs ≠ [] := by
  show p.tabs++[p.objects.length] ≠ []
  simp

theorem pushed_hashOk : HashOk (pushed p key throws) := fun _ => rfl

theorem openTab_ok (h : TabsOk p) (hkey : key.ok = true) :
    TabsOk (openTab p key activate throws) := by
  rcases openTab_cases p key activate throws with ⟨heq,-⟩ | ⟨-,idx,-,heq⟩ | ⟨hm,hnew,heq⟩
  · rw [heq]
    exact h
  · rw [heq]
    exact activateTab_ok h idx
  · rw [heq]
    have hpushed := pushed_ok h hkey hm hnew throws
    split_ifs
    · exact activateTab_ok hpushed _
    · exact hpushed

theorem openTab_hash (h : HashOk p) : HashOk (openTab p key activate throws) := by
  rcases openTab_cases p key activate throws with ⟨heq,-⟩ | ⟨-,idx,-,heq⟩ | ⟨-,-,heq⟩
  · rw [heq]
    exact h
  · rw [heq, HashOk, activateTab_tabs, activateTab_hash, activateTab_keys]
    exact h
  · rw [heq]
    split_ifs
    · rw [HashOk, activateTab_tabs, activateTab_hash, activateTab_keys]
      exact pushed_hashOk
    · exact pushed_hashOk

theorem openTab_active (h : ActiveOk p) : ActiveOk (openTab p key true throws) := by
  rcases openTab_cases p key true throws with ⟨heq,-⟩ | ⟨-,idx,hlt,heq⟩ | ⟨-,-,heq⟩
  · rw [heq]
    exact h
  · rw [heq]
    exact activateTab_active hlt
  · rw [heq, if_pos rfl]
    have hpos : 0 < (pushed p key throws).tabs.length := List.length_pos_iff.mpr pushed_tabs_ne_nil
    exact activateTab_active (Nat.pred_lt (by omega))

theorem keys_openTab (h : TabsOk p) (hm : key.machineId ∈ p.machines) (hnew : key ∉ p.keys) :
    (openTab p key activate throws).keys = p.keys++[key] := by
  rcases openTab_cases p key activate throws with ⟨-,hor⟩ | ⟨hold,-⟩ | ⟨-,-,heq⟩
  · rcases hor with hno | hold
    · exact absurd hm hno
    · exact absurd hold hnew
  · exact absurd hold hnew
  · rw [heq]
    split_ifs
    · rw [activateTab_keys, keys_pushed h]
    · exact keys_pushed h key throws

theorem openTab_known (h : key ∈ p.keys) : openTab p key false throws = p := by
  have ⟨i,hi,hk⟩ := List.mem_filterMap.mp h
  rw [openTab]
  by_cases hm : key.machineId ∈ p.machines
  · rw [if_pos hm]
    cases hfind : p.tabs.findIdx? (fun i => p.keyAt i = some key) with
    | some idx => rfl
    | none =>
      rw [List.findIdx?_eq_none_iff] at hfind
      exact absurd hk (of_decide_eq_false (hfind i hi))
  · rw [if_neg hm]

theorem openTab_inactive : (openTab p key false throws).activeTabIdx = p.activeTabIdx := by
  rcases openTab_cases p key false throws with ⟨heq,-⟩ | ⟨hold,-⟩ | ⟨-,-,heq⟩
  · rw [heq]
  · rw [openTab_known hold]
  · rw [heq]
    rfl

theorem openTab_machines : (openTab p key activate throws).machines = p.machines := by
  rcases openTab_cases p key activate throws with ⟨heq,-⟩ | ⟨-,idx,-,heq⟩ | ⟨-,-,heq⟩
  · rw [heq]
  · rw [heq, activateTab_machines]
  · rw [heq]
    split_ifs
    · rw [activateTab_machines]
      rfl
    · rfl

def dropped (p : Page) (i : ℕ) : Page :=
  { p with
    objects := p.objects.modify i fun t => { t with conn := shut t.conn }
    tabs := p.tabs.erase i }

theorem closeTab_cases (p : Page) (i : ℕ) (persist : Bool) :
    (i ∉ p.tabs ∧ closeTab p i persist = p) ∨
    (i ∈ p.tabs ∧ ∃ q, q = (if persist then writeFragment (dropped p i) else dropped p i) ∧
      ((q.tabs = [] ∧ closeTab p i persist = { q with activeTabIdx := none }) ∨
        ∃ idx, idx < q.tabs.length ∧ closeTab p i persist = activateTab q idx)) := by
  rw [closeTab]
  cases hfind : p.tabs.findIdx? (· = i) with
  | none =>
    rw [List.findIdx?_eq_none_iff] at hfind
    exact .inl ⟨fun hi => by simpa using hfind i hi,rfl⟩
  | some idx =>
    have ⟨hlt,hidx⟩ := List.findIdx?_eq_some_iff_findIdx_eq.mp hfind
    have hmem : i ∈ p.tabs := by
      have ⟨_,hi,_⟩ := List.findIdx?_eq_some_iff_getElem.mp hfind
      have hi : p.tabs[idx] = i := by simpa using hi
      rw [← hi]
      exact List.getElem_mem hlt
    have herase : p.tabs.eraseIdx idx = p.tabs.erase i := by
      rw [← List.eraseIdx_idxOf_eq_erase, ← hidx]
      rfl
    have hnext : ∀ q : Page, ∀ r, r = (if q.tabs = [] then { q with activeTabIdx := none }
        else activateTab q (min idx (q.tabs.length-1))) →
        (q.tabs = [] ∧ r = { q with activeTabIdx := none }) ∨
          ∃ idx, idx < q.tabs.length ∧ r = activateTab q idx := by
      intro q r hr
      by_cases hnil : q.tabs = []
      · rw [if_pos hnil] at hr
        exact .inl ⟨hnil,hr⟩
      · rw [if_neg hnil] at hr
        have hpos := List.length_pos_iff.mpr hnil
        exact .inr ⟨_,by omega,hr⟩
    refine .inr ⟨hmem,_,rfl,hnext _ _ ?_⟩
    rw [dropped, ← herase]

theorem dropped_eq {t : Tab} (ht : p.objects[i]? = some t) :
    dropped p i =
      { p with objects := p.objects.set i ⟨t.key,shut t.conn⟩, tabs := p.tabs.erase i } := by
  have hmodify : p.objects.modify i (fun t => { t with conn := shut t.conn }) =
      p.objects.set i ⟨t.key,shut t.conn⟩ := by
    rw [List.modify_eq_set_getElem?, ht]
    rfl
  rw [dropped, hmodify]

theorem dropped_ok (h : TabsOk p) (hi : i ∈ p.tabs) : TabsOk (dropped p i) := by
  have ⟨t,ht,hopen⟩ := (h.mem i).mp hi
  have hmem : t ∈ p.objects := List.mem_of_getElem? ht
  have hlt : i < p.objects.length := (List.getElem?_eq_some_iff.mp ht).1
  rw [dropped_eq ht]
  constructor
  · exact forall_mem_set h.conns (shut_ok (h.conns t hmem) hopen)
  · exact forall_mem_set h.keysOk (h.keysOk t hmem)
  · intro j
    show j ∈ p.tabs.erase i ↔ _
    rw [h.nodup.mem_erase_iff, h.mem]
    constructor
    · rintro ⟨hne,u,hu,huopen⟩
      exact ⟨u,(List.getElem?_set_ne (Ne.symm hne)).trans hu,huopen⟩
    · rintro ⟨u,hu,huopen⟩
      rcases getElem?_set_cases hu with ⟨-,rfl⟩ | ⟨hne,hu⟩
      · cases (shut_closing t.conn).symm.trans huopen
      · exact ⟨hne,u,hu,huopen⟩
  · exact h.nodup.erase i
  · have hat : ∀ q : Page, q.objects.map Tab.key = p.objects.map Tab.key →
        q.tabs = p.tabs.erase i → q.keys.Nodup := by
      intro q hobjects htabs
      have hsame : Page.keys { q with tabs := p.tabs } = p.keys := keys_of_same hobjects rfl
      have hsub : q.keys.Sublist (Page.keys { q with tabs := p.tabs }) := by
        rw [Page.keys, htabs]
        exact List.Sublist.filterMap _ List.erase_sublist
      rw [hsame] at hsub
      exact h.distinct.sublist hsub
    exact hat _ (map_set_same Tab.key ht rfl) rfl

theorem closeTab_ok (h : TabsOk p) : TabsOk (closeTab p i persist) := by
  rcases closeTab_cases p i persist with ⟨-,heq⟩ | ⟨hi,q,hq,hor⟩
  · rw [heq]
    exact h
  · have hdropped := dropped_ok h hi
    have hqOk : TabsOk q := by
      rw [hq]
      split_ifs
      · exact tabsOk_of_same hdropped rfl rfl rfl
      · exact hdropped
    rcases hor with ⟨-,heq⟩ | ⟨idx,-,heq⟩
    · rw [heq]
      exact tabsOk_of_same hqOk rfl rfl rfl
    · rw [heq]
      exact activateTab_ok hqOk idx

theorem closeTab_machines : (closeTab p i persist).machines = p.machines := by
  rcases closeTab_cases p i persist with ⟨-,heq⟩ | ⟨hi,q,hq,hor⟩
  · rw [heq]
  · have hqSame : q.machines = p.machines := by
      rw [hq]
      split_ifs <;> rfl
    rcases hor with ⟨-,heq⟩ | ⟨idx,-,heq⟩
    · rw [heq]
      exact hqSame
    · rw [heq, activateTab_machines, hqSame]

theorem closeTab_tabs : (closeTab p i persist).tabs = p.tabs.erase i := by
  rcases closeTab_cases p i persist with ⟨hi,heq⟩ | ⟨hi,q,hq,hor⟩
  · rw [heq, List.erase_of_not_mem hi]
  · have hqSame : q.tabs = p.tabs.erase i := by
      rw [hq]
      split_ifs <;> rfl
    rcases hor with ⟨-,heq⟩ | ⟨idx,-,heq⟩
    · rw [heq]
      exact hqSame
    · rw [heq, activateTab_tabs, hqSame]

theorem closeTab_active (h : ActiveOk p) : ActiveOk (closeTab p i persist) := by
  rcases closeTab_cases p i persist with ⟨-,heq⟩ | ⟨-,q,-,⟨hnil,heq⟩ | ⟨idx,hlt,heq⟩⟩
  · rw [heq]
    exact h
  · rw [heq]
    exact .inl ⟨hnil,rfl⟩
  · rw [heq]
    exact activateTab_active hlt

theorem closeTab_hash (h : HashOk p) : HashOk (closeTab p i true) := by
  rcases closeTab_cases p i true with ⟨-,heq⟩ | ⟨-,q,hq,⟨hnil,heq⟩ | ⟨idx,-,heq⟩⟩
  · rw [heq]
    exact h
  · rw [heq]
    exact fun hne => absurd hnil hne
  · rw [heq, HashOk, activateTab_tabs, activateTab_hash, activateTab_keys, hq]
    exact fun _ => rfl

theorem fold_closeTab (is : List ℕ) (h : TabsOk p) (hp : ActiveOk p) (his : p.tabs = is) :
    TabsOk (is.foldl (fun p i => closeTab p i false) p) ∧
    ActiveOk (is.foldl (fun p i => closeTab p i false) p) ∧
    (is.foldl (fun p i => closeTab p i false) p).tabs = [] ∧
    (is.foldl (fun p i => closeTab p i false) p).machines = p.machines := by
  induction is generalizing p with
  | nil => exact ⟨h,hp,his,rfl⟩
  | cons i is ih =>
    have hrest : (closeTab p i false).tabs = is := by
      rw [closeTab_tabs, his, List.erase_cons_head]
    have ⟨htabs,hactive,hnil,hmachines⟩ := ih (closeTab_ok h) (closeTab_active hp) hrest
    exact ⟨htabs,hactive,hnil,hmachines.trans closeTab_machines⟩

theorem event_ok {t : Tab} {c : Conn} {e : Event} (h : TabsOk p) (ht : p.objects[i]? = some t)
    (hc : handle t.conn e = some c) :
    TabsOk { p with objects := p.objects.set i { t with conn := c } } ∧
      Page.keys { p with objects := p.objects.set i { t with conn := c } } = p.keys := by
  have hmem : t ∈ p.objects := List.mem_of_getElem? ht
  have hlt : i < p.objects.length := (List.getElem?_eq_some_iff.mp ht).1
  have ⟨hok,hclosing⟩ := handle_ok (h.conns t hmem) hc
  have hkeys : Page.keys { p with objects := p.objects.set i { t with conn := c } } = p.keys :=
    keys_of_same (map_set_same Tab.key ht rfl) rfl
  refine ⟨⟨?_,?_,?_,h.nodup,?_⟩,hkeys⟩
  · exact forall_mem_set h.conns hok
  · exact forall_mem_set h.keysOk (h.keysOk t hmem)
  · intro j
    rw [h.mem]
    by_cases hj : j = i
    · subst hj
      constructor
      · rintro ⟨u,hu,huopen⟩
        cases ht.symm.trans hu
        exact ⟨_,List.getElem?_set_self hlt,hclosing.trans huopen⟩
      · rintro ⟨u,hu,huopen⟩
        cases (List.getElem?_set_self hlt).symm.trans hu
        exact ⟨t,ht,hclosing.symm.trans huopen⟩
    · simp only [List.getElem?_set_ne (Ne.symm hj)]
  · rw [hkeys]
    exact h.distinct

structure PageOk (p : Page) : Prop where
  tabs : TabsOk p
  active : ActiveOk p
  hash : HashOk p
  machines : ∀ m ∈ p.machines, machineIdOk m = true

theorem step_ok {a : Act} (h : PageOk p) (hstep : step p a = some q) : PageOk q := by
  cases a with
  | newTab machineId bytes throws =>
    cases hstep
    by_cases hm : machineId ∈ p.machines
    · have hkey : Key.ok ⟨machineId,newSessionId bytes⟩ = true :=
        decide_eq_true ⟨h.machines _ hm,sessionIdOk_new bytes⟩
      refine ⟨openTab_ok h.tabs hkey,openTab_active h.active,openTab_hash h.hash,?_⟩
      rw [openTab_machines]
      exact h.machines
    · rw [openTab, if_neg hm]
      exact h
  | clickTab i =>
    have ⟨idx,hidx,heq⟩ := Option.map_eq_some_iff.mp hstep
    have hlt := (List.findIdx?_eq_some_iff_findIdx_eq.mp hidx).1
    subst heq
    refine ⟨activateTab_ok h.tabs idx,activateTab_active hlt,?_,?_⟩
    · rw [HashOk, activateTab_tabs, activateTab_hash, activateTab_keys]
      exact h.hash
    · rw [activateTab_machines]
      exact h.machines
  | clickClose i =>
    rw [step] at hstep
    split_ifs at hstep
    cases hstep
    refine ⟨closeTab_ok h.tabs,closeTab_active h.active,closeTab_hash h.hash,?_⟩
    rw [closeTab_machines]
    exact h.machines
  | logout =>
    cases hstep
    have ⟨htabs,hactive,hnil,hmachines⟩ := fold_closeTab p.tabs h.tabs h.active rfl
    refine ⟨tabsOk_of_same htabs rfl rfl rfl,hactive,fun hne => absurd hnil hne,?_⟩
    show ∀ m ∈ Page.machines (List.foldl _ _ _), _
    rw [hmachines]
    exact h.machines
  | event i e =>
    have ⟨t,ht,hmap⟩ := Option.bind_eq_some_iff.mp hstep
    have ⟨c,hc,heq⟩ := Option.map_eq_some_iff.mp hmap
    subst heq
    have ⟨htabs,hkeys⟩ := event_ok h.tabs ht hc
    refine ⟨htabs,h.active,?_,h.machines⟩
    intro hne
    rw [hkeys]
    exact h.hash hne

/-- The keys of a page that is loaded, in the order in which they first stand in the fragment. -/
theorem keys_fold (ks : List Key) (throws : Key → Bool) (h : TabsOk p)
    (hks : ∀ k ∈ ks, k.ok = true) :
    (ks.foldl (fun p key => openTab p key false (throws key)) p).keys =
      (p.keys++ks.filter (·.machineId ∈ p.machines)).eraseDups := by
  induction ks generalizing p with
  | nil => rw [List.foldl_nil, List.filter_nil, List.append_nil, eraseDups_of_nodup h.distinct]
  | cons k ks ih =>
    have hopened : TabsOk (openTab p k false (throws k)) :=
      openTab_ok h (hks k List.mem_cons_self)
    have hrest := ih hopened fun k hk => hks k (List.mem_cons_of_mem _ hk)
    rw [List.foldl_cons, hrest, openTab_machines]
    by_cases hm : k.machineId ∈ p.machines
    · rw [List.filter_cons_of_pos (by simpa using hm)]
      by_cases hk : k ∈ p.keys
      · rw [openTab_known hk, eraseDups_append_known hk]
      · rw [keys_openTab h hm hk, List.append_assoc]
        rfl
    · rw [List.filter_cons_of_neg (by simpa using hm), openTab, if_neg hm]

theorem fold_ok (ks : List Key) (throws : Key → Bool) (h : TabsOk p) (hp : HashOk p)
    (hks : ∀ k ∈ ks, k.ok = true) :
    TabsOk (ks.foldl (fun p key => openTab p key false (throws key)) p) ∧
    HashOk (ks.foldl (fun p key => openTab p key false (throws key)) p) ∧
    (ks.foldl (fun p key => openTab p key false (throws key)) p).machines = p.machines ∧
    (ks.foldl (fun p key => openTab p key false (throws key)) p).activeTabIdx =
      p.activeTabIdx := by
  induction ks generalizing p with
  | nil => exact ⟨h,hp,rfl,rfl⟩
  | cons k ks ih =>
    have hopened : TabsOk (openTab p k false (throws k)) :=
      openTab_ok h (hks k List.mem_cons_self)
    have ⟨htabs,hhash,hmachines,hactive⟩ := ih hopened (openTab_hash hp) fun k hk =>
      hks k (List.mem_cons_of_mem _ hk)
    exact ⟨htabs,hhash,hmachines.trans openTab_machines,hactive.trans openTab_inactive⟩

theorem tabsOk_empty (machines : List Text) (hash : Text) : TabsOk ⟨machines,hash,[],[],none⟩ where
  conns := nofun
  keysOk := nofun
  mem i := ⟨fun hi => absurd hi List.not_mem_nil,fun ⟨_,ht,_⟩ => by cases ht⟩
  nodup := List.nodup_nil
  distinct := List.nodup_nil

theorem enterApp_keys (machines : List Text) (hash : Text) (throws : Key → Bool) :
    (enterApp machines hash throws).keys =
      ((parseFragment hash).filter (·.machineId ∈ machines)).eraseDups := by
  have hkeys := keys_fold (parseFragment hash) throws (tabsOk_empty machines hash) fun _ hk =>
    ok_of_parse hk
  rw [enterApp]
  split_ifs
  · exact hkeys
  · rw [activateTab_keys]
    exact hkeys

theorem enterApp_ok {machines : List Text} (hash : Text) (throws : Key → Bool)
    (h : ∀ m ∈ machines, machineIdOk m = true) : PageOk (enterApp machines hash throws) := by
  have ⟨htabs,hhash,hmachines,hactive⟩ := fold_ok (parseFragment hash) throws
    (tabsOk_empty machines hash) (fun hne => absurd rfl hne) fun _ hk => ok_of_parse hk
  rw [enterApp]
  generalize (parseFragment hash).foldl (fun p key => openTab p key false (throws key))
    ⟨machines,hash,[],[],none⟩ = q at htabs hhash hmachines hactive ⊢
  have hknown : ∀ m ∈ q.machines, machineIdOk m = true := by
    rw [hmachines]
    exact h
  split_ifs with hnil
  · exact ⟨htabs,.inl ⟨hnil,hactive⟩,hhash,hknown⟩
  · have hpos := List.length_pos_iff.mpr hnil
    refine ⟨activateTab_ok htabs 0,activateTab_active hpos,?_,?_⟩
    · rw [HashOk, activateTab_tabs, activateTab_hash, activateTab_keys]
      exact hhash
    · rw [activateTab_machines]
      exact hknown

theorem run_ok {machines : List Text} {hash : Text} {opens : Key → Bool} {acts : List Act}
    (hmachines : ∀ m ∈ machines, machineIdOk m = true)
    (hrun : run step (enterApp machines hash opens) acts = some p) : PageOk p :=
  run_invariant step (fun _ _ _ h hstep => step_ok h hstep) (enterApp_ok hash opens hmachines) hrun

end Pages

/-- The tabs are distinct and one of them is active. The address spells them: loading it again
opens the same tabs in the same order, less those of machines that are gone. -/
theorem fragment_follows_tabs {machines : List Text} {hash : Text} {throws : Key → Bool}
    {acts : List Act} {p : Page} (hmachines : ∀ m ∈ machines, machineIdOk m = true)
    (hrun : run step (enterApp machines hash throws) acts = some p) :
    p.keys.Nodup ∧ p.keys.length = p.tabs.length ∧ ActiveOk p ∧
      (p.tabs ≠ [] → parseFragment p.hash = p.keys ∧
        ∀ machines' throws', (enterApp machines' p.hash throws').keys =
          p.keys.filter (·.machineId ∈ machines')) := by
  have h := run_ok hmachines hrun
  refine ⟨h.tabs.distinct,keys_length h.tabs,h.active,fun hne => ?_⟩
  have hparse : parseFragment p.hash = p.keys := by
    rw [h.hash hne]
    exact parseFragment_hashOf fun k hk => (key_ok h.tabs hk).1
  refine ⟨hparse,fun machines' throws' => ?_⟩
  rw [enterApp_keys, hparse, eraseDups_of_nodup (h.tabs.distinct.filter _)]

theorem fragment_follows_tabs_sample :
    let machines := ["alpha".toList]
    ∃ p, run step (enterApp machines "#alpha:1,beta:2, alpha:1".toList fun _ => false)
        [.newTab "alpha".toList (fun _ => 0xAB) false,.clickTab 0,.clickClose 0] = some p ∧
      p.hash = "#alpha:abababab".toList ∧
      (enterApp machines p.hash fun _ => true).keys =
        p.keys.filter (·.machineId ∈ machines) := by
  have hmachines : ∀ m ∈ ["alpha".toList], machineIdOk m = true := by decide
  have hsome : (run step
      (enterApp ["alpha".toList] "#alpha:1,beta:2, alpha:1".toList fun _ => false)
      [.newTab "alpha".toList (fun _ => 0xAB) false,.clickTab 0,.clickClose 0]).map
      (fun p => (p.tabs,p.hash)) = some ([1],"#alpha:abababab".toList) := by decide +kernel
  have ⟨p,hrun,heq⟩ := Option.map_eq_some_iff.mp hsome
  have ⟨htabs,hhash⟩ := Prod.mk.inj heq
  have hne : p.tabs ≠ [] := by rw [htabs]; nofun
  exact ⟨p,hrun,hhash,((fragment_follows_tabs hmachines hrun).2.2.2 hne).2 _ _⟩

/-- An open tab has one socket that has not closed, the one it sends on, or one timer that will
make the next, and never both. A closed tab has no timer, and its sockets close. -/
theorem one_connection_a_tab {machines : List Text} {hash : Text} {throws : Key → Bool}
    {acts : List Act} {p : Page} (hmachines : ∀ m ∈ machines, machineIdOk m = true)
    (hrun : run step (enterApp machines hash throws) acts = some p) {i : ℕ} {t : Tab}
    (ht : p.objects[i]? = some t) :
    (i ∈ p.tabs → t.conn.unclosed+t.conn.pending = 1 ∧
      ∀ k, t.conn.ws = some k ↔ ∃ r, t.conn.sockets[k]? = some r ∧ r ≠ .closed) ∧
    (i ∉ p.tabs → t.conn.pending = 0 ∧ ∀ r ∈ t.conn.sockets, r = .closing ∨ r = .closed) ∧
    ∀ timer ∈ t.conn.timers, 500 ≤ timer.base ∧ timer.base ≤ 30000 := by
  have h := run_ok hmachines hrun
  have hconn := h.tabs.conns t (List.mem_of_getElem? ht)
  refine ⟨fun hi => ?_,fun hi => ?_,hconn.bases⟩
  · have ⟨t',ht',hopen⟩ := (h.tabs.mem i).mp hi
    cases ht.symm.trans ht'
    exact live_counts (hconn.live hopen)
  · have hclosed : t.conn.closing = true := by
      by_contra hopen
      exact hi ((h.tabs.mem i).mpr ⟨t,ht,by simpa using hopen⟩)
    have hover := hconn.ended hclosed
    exact ⟨over_pending hover,hover.sockets⟩

/-- The hub ends the first connection: its socket is the tab's until the close event. -/
theorem one_connection_a_tab_sample :
    ∃ p t, run step (enterApp ["alpha".toList] "#alpha:1".toList fun _ => false)
        [.event 0 (.opened 0),.event 0 (.closing 0)] = some p ∧
      p.objects[0]? = some t ∧ t.conn.sockets = [.closing] ∧
      t.conn.unclosed+t.conn.pending = 1 := by
  have hmachines : ∀ m ∈ ["alpha".toList], machineIdOk m = true := by decide
  have hsome : ((run step (enterApp ["alpha".toList] "#alpha:1".toList fun _ => false)
      [.event 0 (.opened 0),.event 0 (.closing 0)]).bind
      fun p => p.objects[0]?.bind fun t =>
        if p.tabs = [0] ∧ t.conn.sockets = [.closing] then some () else none) =
      some () := by decide +kernel
  have ⟨p,hrun,hbind⟩ := Option.bind_eq_some_iff.mp hsome
  have ⟨t,ht,hif⟩ := Option.bind_eq_some_iff.mp hbind
  split_ifs at hif with hboth
  have hin : 0 ∈ p.tabs := by rw [hboth.1]; exact List.mem_singleton_self 0
  exact ⟨p,t,hrun,ht,hboth.2,((one_connection_a_tab hmachines hrun ht).1 hin).1⟩

end Term.WebTabs
