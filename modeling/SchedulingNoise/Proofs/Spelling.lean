import Mathlib.Data.List.TakeWhile
import Mathlib.Logic.Relation
import SchedulingNoise.Proofs.Entries
import SchedulingNoise.Proofs.LetterCase

/-! The spelling of a list. White space around its parts, the case of its words, items that say
nothing, the order of different keys and values that a later one replaces do not matter: each
such change keeps what the items say, or what the sayings come to. -/
namespace SchedulingNoise

namespace Text

section Trimming

variable {p : Char → Bool} {s : Text}

theorem trimBy_append_left (front : ∀ c ∈ s, p c = true) (t : Text) :
    trimBy p (s ++ t) = trimBy p t := by
  unfold trimBy
  rw [List.dropWhile_append_of_pos front]

theorem trimBy_append_right (back : ∀ c ∈ s, p c = true) (t : Text) :
    trimBy p (t ++ s) = trimBy p t := by
  unfold trimBy
  rw [List.dropWhile_append]
  split
  · rename_i gone
    have dropped : s.dropWhile p = [] := List.dropWhile_eq_nil_iff.mpr back
    rw [dropped, List.isEmpty_iff.mp gone]
  · have turned : ∀ c ∈ s.reverse, p c = true := fun c hc => back c (List.mem_reverse.mp hc)
    rw [List.reverse_append, List.dropWhile_append_of_pos turned]

end Trimming

section Blanks

variable {b u v t : Text} {c : Char}

theorem Blank.not_mem (blank : Blank b) (solid : isBlank c = false) : c ∉ b := by
  intro mem
  rw [blank c mem] at solid
  cases solid

theorem trim_insert (blank : Blank b) (edge : Blank u ∨ Blank v) :
    trim (u ++ b ++ v) = trim (u ++ v) := by
  rcases edge with front | back
  · have both : Blank (u ++ b) := List.forall_mem_append.mpr ⟨front, blank⟩
    exact (trimBy_append_left both v).trans (trimBy_append_left front v).symm
  · have both : Blank (b ++ v) := List.forall_mem_append.mpr ⟨blank, back⟩
    rw [List.append_assoc]
    exact (trimBy_append_right both u).trans (trimBy_append_right back u).symm

theorem isEmpty_trim : (trim t).isEmpty = true ↔ Blank t := by
  rw [List.isEmpty_iff]
  constructor
  · intro gone c mem
    cases solid : isBlank c with
    | true => rfl
    | false =>
      have kept : c ∈ trim t := mem_trimBy mem solid
      rw [gone] at kept
      cases kept
  · intro blank
    have dropped := trimBy_append_left blank []
    rwa [List.append_nil] at dropped

theorem eq_of_cut {x y : Text} (left : c ∉ u) (right : c ∉ v) (eq : u ++ c :: x = v ++ c :: y) :
    u = v := by
  have parted : partition? c (u ++ c :: x) = some (u, x) := partition?_eq_some.mpr ⟨rfl, left⟩
  rw [eq, partition?_eq_some.mpr ⟨rfl, right⟩] at parted
  cases parted
  rfl

theorem not_infix_of_not_mem (absent : c ∉ t) : ¬ [c] <:+: t :=
  fun inside => absent (inside.subset List.mem_cons_self)

end Blanks

end Text

open Text (Blank SameLetters)

namespace Settings

def Marked (t : Text) : Prop :=
  Blank t ∨ ∃ b c rest, t = b ++ c :: rest ∧ Blank b ∧ (c = ',' ∨ c = '=')

/-- A place where a key, a value, an equals sign or a comma begins or ends. -/
def Seam (x y : Text) : Prop := Marked x.reverse ∨ Marked y

section Sayings

variable {key value value' : Text}

theorem valued_congr (numbers : number? value = number? value') (kinds : kind? value = kind? value')
    (name : Text) : valued name value = valued name value' := by
  unfold valued
  cases Key.ofName? name with
  | none => rfl
  | some k => cases k <;> simp only [Key.saying, Key.read, numbers, kinds]

theorem valued_of_bare (same : bare value = bare value') (name : Text) :
    valued name value = valued name value' := by
  apply valued_congr
  · unfold number?
    rw [same]
  · unfold kind?
    rw [same]

theorem mem_bare {c : Char} (mem : c ∈ value) (solid : Text.isBlank c = false)
    (plain : isQuote c = false) : c ∈ bare value :=
  Text.mem_trimBy (Text.mem_trimBy (Text.mem_trimBy mem solid) plain) solid

theorem unread_of_equals (mem : '=' ∈ value) : number? value = .ok none ∧ kind? value = none := by
  have inside : '=' ∈ bare value := mem_bare mem (by decide) (by decide)
  have word : '=' ∈ Text.lower (bare value) := Text.mem_lower (by decide) (by decide) inside
  constructor
  · have digits : (bare value).all Char.isDigit = false := by
      rw [List.all_eq_false]
      exact ⟨'=', inside, by decide⟩
    simp [number?, digits]
  · have sleep : Text.lower (bare value) ≠ "sleep".toList := by
      intro eq
      rw [eq] at word
      exact absurd word (by decide)
    have yield : Text.lower (bare value) ≠ "yield".toList := by
      intro eq
      rw [eq] at word
      exact absurd word (by decide)
    rw [kind?, if_neg sleep, if_neg yield]

theorem valued_of_equals (left : '=' ∈ value) (right : '=' ∈ value') (name : Text) :
    valued name value = valued name value' := by
  obtain ⟨number, kind⟩ := unread_of_equals left
  obtain ⟨number', kind'⟩ := unread_of_equals right
  exact valued_congr (number.trans number'.symm) (kind.trans kind'.symm) name

theorem saying_blank {t : Text} (blank : Blank t) : saying t = .ok .nothing := by
  rw [saying, if_pos (Text.isEmpty_trim.mpr blank)]

theorem saying_plain {t : Text} (plain : '=' ∉ t) :
    saying t = .ok (if Blank t then .nothing else .malformed) := by
  by_cases blank : Blank t
  · rw [saying_blank blank, if_pos blank]
  · have whole : Text.partition? '=' t = none := by
      cases parted : Text.partition? '=' t with
      | none => rfl
      | some parts =>
        obtain ⟨rfl, _⟩ := Text.partition?_eq_some.mp parted
        exact absurd (by simp) plain
    rw [if_neg blank, saying, if_neg fun gone => blank (Text.isEmpty_trim.mp gone), whole]

end Sayings

section Seams

variable {u v b : Text}

theorem Marked.part {t more : Text} (h : Marked (t ++ ',' :: more)) (plain : ',' ∉ t) :
    Marked t := by
  rcases h with blank | ⟨b, c, rest, eq, blank, mark⟩
  · exact .inl (List.forall_mem_append.mp blank).1
  · have absent : ',' ∉ b := blank.not_mem (by decide)
    rcases mark with rfl | rfl
    · rw [Text.eq_of_cut plain absent eq]
      exact .inl blank
    · obtain ⟨t', rfl, behind⟩ := Text.behind_of_not_mem absent eq
      cases t' with
      | nil => cases behind
      | cons d t' =>
        cases behind
        exact .inr ⟨b, '=', t', rfl, blank, .inr rfl⟩

theorem Marked.equals (h : Marked v) (plain : ',' ∉ v) :
    Blank v ∨ ∃ b rest, v = b ++ '=' :: rest ∧ Blank b := by
  rcases h with blank | ⟨b, c, rest, rfl, blank, rfl | rfl⟩
  · exact .inl blank
  · exact absurd (by simp) plain
  · exact .inr ⟨b, rest, rfl, blank⟩

theorem valued_seam {key : Text} (blank : Blank b) (seam : Seam (key ++ '=' :: u) v)
    (plain : ',' ∉ key ++ '=' :: u) (plain' : ',' ∉ v) (name : Text) :
    valued name (u ++ b ++ v) = valued name (u ++ v) := by
  have edge : Blank u ∨ Blank v ∨ '=' ∈ u ∨ '=' ∈ v := by
    rcases seam with back | front
    · rcases back.equals (by simpa [and_comm] using plain) with empty | ⟨b', rest, eq, blank'⟩
      · exact absurd (by simp) (empty.not_mem (c := '=') (by decide))
      · by_cases more : '=' ∈ u
        · exact .inr (.inr (.inl more))
        · rw [List.reverse_append, List.reverse_cons, List.append_assoc,
            List.singleton_append] at eq
          have same := Text.eq_of_cut (by simpa using more) (blank'.not_mem (by decide)) eq
          rw [← same] at blank'
          exact .inl fun c hc => blank' c (List.mem_reverse.mpr hc)
    · rcases front.equals plain' with empty | ⟨b', rest, rfl, _⟩
      · exact .inr (.inl empty)
      · exact .inr (.inr (.inr (by simp)))
  rcases edge with front | back | mem | mem
  · exact valued_of_bare (by rw [bare, Text.trim_insert blank (.inl front), bare]) name
  · exact valued_of_bare (by rw [bare, Text.trim_insert blank (.inr back), bare]) name
  · exact valued_of_equals (by simp [mem]) (by simp [mem]) name
  · exact valued_of_equals (by simp [mem]) (by simp [mem]) name

theorem saying_seam (blank : Blank b) (seam : Seam u v) (plain : ',' ∉ u) (plain' : ',' ∉ v) :
    saying (u ++ b ++ v) = saying (u ++ v) := by
  have absent : '=' ∉ b := blank.not_mem (by decide)
  by_cases before : '=' ∈ u
  · -- The value goes from here to the end of the item.
    obtain ⟨key, u, rfl, unkeyed⟩ := List.eq_append_cons_of_mem before
    have valued := valued_seam blank seam plain plain' (keyOf key)
    simp only [List.append_assoc, List.cons_append] at valued ⊢
    rw [saying_named unkeyed, saying_named unkeyed, valued]
  · by_cases behind : '=' ∈ v
    · obtain ⟨v, value, rfl, unkeyed⟩ := List.eq_append_cons_of_mem behind
      have edge : Blank u ∨ Blank v := by
        rcases seam with back | front
        · rcases back.equals (by simpa using plain) with empty | ⟨b', rest, eq, _⟩
          · exact .inl fun c hc => empty c (List.mem_reverse.mpr hc)
          · have mem : '=' ∈ u.reverse := by simp [eq]
            exact absurd (List.mem_reverse.mp mem) before
        · rcases front.equals plain' with empty | ⟨b', rest, eq, blank'⟩
          · exact absurd (by simp) (empty.not_mem (c := '=') (by decide))
          · rw [Text.eq_of_cut unkeyed (blank'.not_mem (by decide)) eq]
            exact .inr blank'
      have name : keyOf (u ++ b ++ v) = keyOf (u ++ v) := by
        rw [keyOf, Text.trim_insert blank edge, keyOf]
      have whole : '=' ∉ u ++ b ++ v := by simp [before, absent, unkeyed]
      have part : '=' ∉ u ++ v := by simp [before, unkeyed]
      rw [← List.append_assoc, ← List.append_assoc u v, saying_named whole, saying_named part, name]
    · have same : Blank (u ++ b ++ v) ↔ Blank (u ++ v) := by
        simp only [Blank, List.forall_mem_append]
        exact ⟨fun h => ⟨h.1.1, h.2⟩, fun h => ⟨⟨h.1, blank⟩, h.2⟩⟩
      rw [saying_plain (by simp [before, absent, behind]), saying_plain (by simp [before, behind])]
      simp only [same]

end Seams

def Unquoted (t : Text) : Prop :=
  (∀ c ∈ t.head?, isQuote c = false) ∧ ∀ c ∈ t.getLast?, isQuote c = false

instance (t : Text) : Decidable (Unquoted t) :=
  decidable_of_iff ((t.head?.all fun c => !isQuote c) = true ∧
    (t.getLast?.all fun c => !isQuote c) = true) <| by
      simp [Unquoted, Option.all_eq_true]

section Quotes

variable {u v b : Text}

theorem not_isBlank_of_isQuote {c : Char} (quote : isQuote c = true) : Text.isBlank c = false := by
  have known : c = '"' ∨ c = '\'' := by simpa [isQuote] using quote
  rcases known with rfl | rfl <;> decide

theorem Unquoted.insert (h : Unquoted (u ++ v)) (blank : Blank b) : Unquoted (u ++ b ++ v) := by
  have solid : ∀ c ∈ b, isQuote c = false := by
    intro c hc
    cases quote : isQuote c with
    | false => rfl
    | true => exact absurd hc (blank.not_mem (not_isBlank_of_isQuote quote))
  constructor
  · intro c hc
    have first := h.1 c
    rw [List.head?_append, Option.mem_def] at first hc
    rw [List.head?_append] at hc
    cases u with
    | cons d u => exact first hc
    | nil =>
      cases b with
      | nil => exact first hc
      | cons d b =>
        cases hc
        exact solid _ List.mem_cons_self
  · intro c hc
    have last := h.2 c
    rw [List.getLast?_append, Option.mem_def] at last hc
    rw [List.getLast?_append] at hc
    cases atEnd : v.getLast? with
    | some d =>
      rw [atEnd] at hc last
      exact last hc
    | none =>
      rw [atEnd] at hc last
      cases atBlank : b.getLast? with
      | none =>
        rw [atBlank] at hc
        exact last hc
      | some d =>
        rw [atBlank] at hc
        cases hc
        exact solid _ (List.mem_of_getLast? atBlank)

def quoted (s : Text) (q : Char) (inner : Text) (q' : Char) (s' : Text) : Text :=
  s ++ (q :: inner ++ [q']) ++ s'

theorem bare_quoted {s s' inner : Text} {q q' : Char} (space : Blank s) (space' : Blank s')
    (quote : isQuote q = true) (quote' : isQuote q' = true) (single : Unquoted inner) :
    bare (quoted s q inner q' s') = Text.trim inner := by
  have outer : Text.trim (quoted s q inner q' s') = [q] ++ (inner ++ [q']) := by
    unfold quoted
    rw [Text.trim, Text.trimBy_append_right space', Text.trimBy_append_left space]
    apply Text.trimBy_of_ends
    · simp [not_isBlank_of_isQuote quote]
    · rw [List.getLast?_concat]
      simp [not_isBlank_of_isQuote quote']
  have opening : ∀ c ∈ [q], isQuote c = true := by simp [quote]
  have closing : ∀ c ∈ [q'], isQuote c = true := by simp [quote']
  rw [bare, outer, Text.trimBy_append_left opening, Text.trimBy_append_right closing,
    Text.trimBy_of_ends single.1 single.2]

end Quotes

/-- Other spellings of one item: the case of its key or of a type, and white space inside the
quotes of its value. -/
inductive Restyled : Text → Text → Prop
  | key {key key' value : Text} (plain : '=' ∉ key) (same : SameLetters key key') :
      Restyled (key ++ '=' :: value) (key' ++ '=' :: value)
  | type {key value value' : Text} (plain : '=' ∉ key) (named : keyOf key = Key.kind.name)
      (same : SameLetters value value') : Restyled (key ++ '=' :: value) (key ++ '=' :: value')
  | quoted {key s u b v s' : Text} {q q' : Char} (plain : '=' ∉ key) (space : Blank s)
      (space' : Blank s') (quote : isQuote q = true) (quote' : isQuote q' = true)
      (single : Unquoted (u ++ v)) (blank : Blank b) (edge : Blank u ∨ Blank v) :
      Restyled (key ++ '=' :: Settings.quoted s q (u ++ v) q' s')
        (key ++ '=' :: Settings.quoted s q (u ++ b ++ v) q' s')

theorem kind?_sameLetters {value value' : Text} (same : SameLetters value value') :
    kind? value = kind? value' := by
  have plain : ∀ c, Text.Letter c → isQuote c = false := by
    intro c letter
    have first : c ≠ '"' := letter.ne (by decide)
    have second : c ≠ '\'' := letter.ne (by decide)
    simp [isQuote, first, second]
  have word : Text.lower (bare value) = Text.lower (bare value') :=
    (same.trim.trimBy plain).trim.lower
  unfold kind?
  rw [word]

theorem Restyled.saying_eq {t t' : Text} (h : Restyled t t') : saying t' = saying t := by
  cases h with
  | key plain same =>
    have plain' := mt (same.mem (by decide)).mpr plain
    rw [saying_named plain, saying_named plain', keyOf, keyOf, same.trim.lower]
  | type plain named same =>
    rw [saying_named plain, saying_named plain, named, valued_name, valued_name, Key.saying,
      Key.saying, Key.read, Key.read, kind?_sameLetters same]
  | quoted plain space space' quote quote' single blank edge =>
    rw [saying_named plain, saying_named plain]
    apply valued_of_bare
    rw [bare_quoted space space' quote quote' single,
      bare_quoted space space' quote quote' (single.insert blank), Text.trim_insert blank edge]

theorem Restyled.plain {t t' : Text} (h : Restyled t t') (plain : ',' ∉ t) : ',' ∉ t' := by
  have foreign : ¬ Text.Letter ',' := by decide
  cases h with
  | key _ same => simpa [same.mem foreign] using plain
  | type _ _ same => simpa [same.mem foreign] using plain
  | quoted _ _ _ _ _ _ blank _ =>
    have absent := blank.not_mem (c := ',') (by decide)
    simp only [Settings.quoted, List.mem_append, List.mem_cons, not_or] at plain ⊢
    simp [plain, absent]

def SameKey (i j : Text) : Prop := (known? i).isSome = true ∧ known? i = known? j

instance (i j : Text) : Decidable (SameKey i j) :=
  inferInstanceAs (Decidable ((known? i).isSome = true ∧ known? i = known? j))

def Idle (i : Text) : Prop := Blank i ∨ '=' ∈ i ∧ known? i = none

instance (i : Text) : Decidable (Idle i) :=
  inferInstanceAs (Decidable (Blank i ∨ '=' ∈ i ∧ known? i = none))

theorem Idle.saying_eq {i : Text} (idle : Idle i) : saying i = .ok .nothing := by
  rcases idle with blank | ⟨mem, unknown⟩
  · exact saying_blank blank
  · obtain ⟨key, value, rfl, plain⟩ := List.eq_append_cons_of_mem mem
    rw [saying_named plain]
    apply valued_unknown
    cases named : Key.ofName? (keyOf key) with
    | none => rfl
    | some k =>
      have name := (Key.ofName?_eq_some.mp named).symm
      rw [known?_eq_some.mpr ⟨key, value, rfl, plain, name⟩] at unknown
      cases unknown

theorem known?_of_sets {i : Text} {e : Entry} (h : said i = .sets e) : known? i = some e.key := by
  have spoken : saying i = .ok (.sets e) := by
    unfold said at h
    split at h
    · rename_i m eq
      rw [eq, h]
    · cases h
  obtain ⟨key, value, eq, plain, named, _⟩ := saying_eq_sets spoken
  exact known?_eq_some.mpr ⟨key, value, eq, plain, named⟩

theorem said_of_known {i : Text} {k : Key} (readable : Readable i) (known : known? i = some k) :
    said i = .malformed ∨ ∃ e, said i = .sets e ∧ e.key = k := by
  cases spoken : said i with
  | malformed => exact .inl rfl
  | sets e =>
    have same := (known?_of_sets spoken).symm.trans known
    exact .inr ⟨e, rfl, Option.some.inj same⟩
  | nothing =>
    have silent := readable.saying_eq
    obtain ⟨key, value, rfl, plain, named⟩ := known?_eq_some.mp known
    rw [spoken, saying_named plain, named, valued_name] at silent
    exact absurd silent (k.saying_ne_nothing value)

/-- The second list of items can be read if the first can, and comes to the same settings. -/
def Amounts (ts ts' : List Text) : Prop :=
  (∀ i ∈ ts, Readable i) → (∀ i ∈ ts', Readable i) ∧
    heedAll {} (ts'.map said) = heedAll {} (ts.map said)

section Amounts

variable {x y ts ts' : List Text} {i i' : Text}

theorem amounts_restyled (same : saying i' = saying i) : Amounts (x ++ i :: y) (x ++ i' :: y) := by
  intro readable
  rw [List.forall_mem_append, List.forall_mem_cons] at readable ⊢
  have here : Readable i' := by
    unfold Readable
    rw [same]
    exact readable.2.1
  have spoken : said i' = said i := by rw [said, same, said]
  exact ⟨⟨readable.1, here, readable.2.2⟩, by simp [spoken]⟩

theorem amounts_idle (idle : Idle i) : Amounts (x ++ y) (x ++ i :: y) := by
  intro readable
  have spoken := said_eq idle.saying_eq
  constructor
  · rw [List.forall_mem_append] at readable
    rw [List.forall_mem_append, List.forall_mem_cons]
    exact ⟨readable.1, ⟨_, idle.saying_eq⟩, readable.2⟩
  · simp [heedAll_eq, entries, List.filterMap_cons, Saying.effect?, spoken]

theorem amounts_perm (distinct : ts.Pairwise fun i j => ¬ SameKey i j) (perm : ts.Perm ts') :
    Amounts ts ts' := by
  intro readable
  have spoken := perm.map said
  have apart : (entries (ts.map said)).Pairwise fun e e' => e.key ≠ e'.key := by
    unfold entries
    rw [List.filterMap_map, List.pairwise_filterMap]
    apply distinct.imp
    intro i j other e he e' he' same
    have left := known?_of_sets (Saying.effect?_eq_some.mp he)
    have right := known?_of_sets (Saying.effect?_eq_some.mp he')
    exact other ⟨by rw [left]; rfl, by rw [left, right, same]⟩
  have put := foldl_put_perm (spoken.filterMap _) apart {}
  constructor
  · exact fun i hi => readable i (perm.mem_iff.mpr hi)
  · rw [heedAll_eq, heedAll_eq]
    simp only [spoken.mem_iff]
    exact congrArg (fun s => if Saying.malformed ∈ ts'.map said then none else some s) put.symm

theorem amounts_repeated {s : Settings} (formed : item {} i = .ok (some s))
    (again : ∃ j ∈ y, SameKey i j) : Amounts (x ++ i :: y) (x ++ y) := by
  intro readable
  rw [List.forall_mem_append, List.forall_mem_cons] at readable
  obtain ⟨j, hj, known, same⟩ := again
  obtain ⟨k, known⟩ := Option.isSome_iff_exists.mp known
  -- The item is well-formed, so it sets the value of its key.
  have first : ∃ e, said i = .sets e ∧ e.key = k := by
    rcases said_of_known readable.2.1 known with spoilt | sets
    · rw [item_eq, readable.2.1.saying_eq, spoilt] at formed
      cases formed
    · exact sets
  obtain ⟨e, sets, key⟩ := first
  have later := said_of_known (readable.2.2 j hj) (same.symm.trans known)
  constructor
  · exact List.forall_mem_append.mpr ⟨readable.1, readable.2.2⟩
  · rw [heedAll_eq, heedAll_eq]
    by_cases spoilt : Saying.malformed ∈ (x ++ y).map said
    · have spoilt' : Saying.malformed ∈ (x ++ i :: y).map said := by
        simp only [List.map_append, List.map_cons, List.mem_append, List.mem_cons] at spoilt ⊢
        exact spoilt.imp_right .inr
      rw [if_pos spoilt, if_pos spoilt']
    · have spoilt' : Saying.malformed ∉ (x ++ i :: y).map said := by
        simp only [List.map_append, List.map_cons, List.mem_append, List.mem_cons, sets] at spoilt ⊢
        simpa using spoilt
      have hidden : ∃ e' ∈ entries (y.map said), e.key = e'.key := by
        rcases later with bad | ⟨e', sets', key'⟩
        · exact absurd (bad ▸ List.mem_map_of_mem (List.mem_append_right x hj)) spoilt
        · exact ⟨e', mem_entries.mpr (sets' ▸ List.mem_map_of_mem hj), key.trans key'.symm⟩
      rw [if_neg spoilt, if_neg spoilt']
      have split : entries ((x ++ i :: y).map said) =
          entries (x.map said) ++ e :: entries (y.map said) := by
        simp [entries, Saying.effect?, sets]
      have joined : entries ((x ++ y).map said) = entries (x.map said) ++ entries (y.map said) := by
        simp [entries]
      rw [split, joined, List.foldl_append, List.foldl_append, List.foldl_cons,
        foldl_put_hidden hidden]

end Amounts

/-- One change of the spelling of a list. The items of a list stand between its commas. -/
inductive Respelled : Text → Text → Prop
  | space {x y b : Text} (blank : Blank b) (seam : Seam x y) : Respelled (x ++ y) (x ++ b ++ y)
  | item {x y : List Text} {i i' : Text} (plain : ∀ t ∈ x ++ i :: y, ',' ∉ t)
      (restyled : Restyled i i') :
      Respelled (Text.join [','] (x ++ i :: y)) (Text.join [','] (x ++ i' :: y))
  | idle {x y : List Text} {i : Text} (plain : ∀ t ∈ x ++ i :: y, ',' ∉ t) (idle : Idle i) :
      Respelled (Text.join [','] (x ++ y)) (Text.join [','] (x ++ i :: y))
  | order {ts ts' : List Text} (plain : ∀ t ∈ ts, ',' ∉ t)
      (distinct : ts.Pairwise fun i j => ¬ SameKey i j) (perm : ts.Perm ts') :
      Respelled (Text.join [','] ts) (Text.join [','] ts')
  | repeated {x y : List Text} {i : Text} {s : Settings} (plain : ∀ t ∈ x ++ i :: y, ',' ∉ t)
      (formed : Settings.item {} i = .ok (some s)) (again : ∃ j ∈ y, SameKey i j) :
      Respelled (Text.join [','] (x ++ i :: y)) (Text.join [','] (x ++ y))

theorem splitOn_listed {ts : List Text} (some : ts ≠ []) (plain : ∀ t ∈ ts, ',' ∉ t) :
    Text.splitOn [','] (Text.join [','] ts) = ts :=
  (Text.Separates.char ',').splitOn_join some fun t ht => Text.not_infix_of_not_mem (plain t ht)

theorem plain_without {x y : List Text} {i : Text} (plain : ∀ t ∈ x ++ i :: y, ',' ∉ t) :
    ∀ t ∈ x ++ y, ',' ∉ t := by
  have fewer : (x ++ y).Sublist (x ++ i :: y) := (List.sublist_cons_self i y).append_left x
  exact fun t ht => plain t (fewer.subset ht)

theorem splitOn_place (x y : Text) : ∃ before u v after,
    (∀ b, ',' ∉ b → Text.splitOn [','] (x ++ b ++ y) = before ++ (u ++ b ++ v) :: after) ∧
    ',' ∉ u ∧ ',' ∉ v ∧ (Seam x y → Seam u v) := by
  have sep := Text.Separates.char ','
  have front : ∃ before u,
      (∀ t, Text.splitOn [','] (x ++ t) = before ++ Text.splitOn [','] (u ++ t)) ∧
      ',' ∉ u ∧ (Marked x.reverse → Marked u.reverse) := by
    by_cases comma : ',' ∈ x
    · obtain ⟨u, x', eq, plain⟩ := List.eq_append_cons_of_mem (List.mem_reverse.mpr comma)
      have turned : x = x'.reverse ++ [','] ++ u.reverse := by
        rw [← List.reverse_reverse x, eq]
        simp
      refine ⟨Text.splitOn [','] x'.reverse, u.reverse, ?_, by simpa using plain, ?_⟩
      · intro t
        rw [turned, List.append_assoc, sep.splitOn_around]
      · rw [eq, List.reverse_reverse]
        exact fun marked => marked.part plain
    · exact ⟨[], x, fun t => rfl, comma, id⟩
  have back : ∃ v after, (∀ t, ',' ∉ t → Text.splitOn [','] (t ++ y) = (t ++ v) :: after) ∧
      ',' ∉ v ∧ (Marked y → Marked v) := by
    by_cases comma : ',' ∈ y
    · obtain ⟨v, y', rfl, plain⟩ := List.eq_append_cons_of_mem comma
      refine ⟨v, Text.splitOn [','] y', ?_, plain, fun marked => marked.part plain⟩
      intro t absent
      have whole : ',' ∉ t ++ v := by simp [absent, plain]
      have cut := sep.splitOn_append_sep (Text.not_infix_of_not_mem whole) y'
      simpa using cut
    · refine ⟨y, [], ?_, comma, id⟩
      intro t absent
      exact Text.splitOn_of_not_infix (Text.not_infix_of_not_mem (by simp [absent, comma]))
  obtain ⟨before, u, cutFront, plain, seamFront⟩ := front
  obtain ⟨v, after, cutBack, plain', seamBack⟩ := back
  refine ⟨before, u, v, after, ?_, plain, plain', Or.imp seamFront seamBack⟩
  intro b absent
  rw [List.append_assoc, cutFront, ← List.append_assoc, cutBack _ (by simp [plain, absent])]

theorem Respelled.amounts {t t' : Text} (h : Respelled t t') :
    Amounts (Text.splitOn [','] t) (Text.splitOn [','] t') := by
  cases h with
  | @space x y b blank seam =>
    obtain ⟨before, u, v, after, cut, plain, plain', place⟩ := splitOn_place x y
    have closed := cut [] (by simp)
    rw [List.append_nil, List.append_nil] at closed
    rw [closed, cut b (blank.not_mem (by decide))]
    exact amounts_restyled (saying_seam blank (place seam) plain plain')
  | @item x y i i' plain restyled =>
    have plain' : ∀ t ∈ x ++ i' :: y, ',' ∉ t := by
      rw [List.forall_mem_append, List.forall_mem_cons] at plain ⊢
      exact ⟨plain.1, restyled.plain plain.2.1, plain.2.2⟩
    rw [splitOn_listed (by simp) plain, splitOn_listed (by simp) plain']
    exact amounts_restyled restyled.saying_eq
  | @idle x y i plain idle =>
    rw [splitOn_listed (by simp) plain]
    by_cases none : x ++ y = []
    · -- Before the first item there is only the empty text, which is blank itself.
      obtain ⟨rfl, rfl⟩ := List.append_eq_nil_iff.mp none
      have empty : saying [] = .ok .nothing := saying_blank nofun
      exact amounts_restyled (x := []) (y := []) (idle.saying_eq.trans empty.symm)
    · rw [splitOn_listed none (plain_without plain)]
      exact amounts_idle idle
  | @order ts ts' plain distinct perm =>
    cases ts with
    | nil =>
      rw [perm.nil_eq]
      exact fun readable => ⟨readable, rfl⟩
    | cons i rest =>
      have some : ts' ≠ [] := fun gone => by simp [gone] at perm
      have plain' : ∀ t ∈ ts', ',' ∉ t := fun t ht => plain t (perm.mem_iff.mpr ht)
      rw [splitOn_listed (List.cons_ne_nil i rest) plain, splitOn_listed some plain']
      exact amounts_perm distinct perm
  | @repeated x y i s plain formed again =>
    have some : x ++ y ≠ [] := by
      obtain ⟨j, hj, _⟩ := again
      exact List.ne_nil_of_mem (List.mem_append_right x hj)
    rw [splitOn_listed (by simp) plain, splitOn_listed some (plain_without plain)]
    exact amounts_repeated formed again

theorem amounts_run {t t' : Text} (run : Relation.ReflTransGen Respelled t t') :
    Amounts (Text.splitOn [','] t) (Text.splitOn [','] t') := by
  induction run with
  | refl => exact fun readable => ⟨readable, rfl⟩
  | tail _ step ih =>
    intro readable
    obtain ⟨between, same⟩ := ih readable
    obtain ⟨after, same'⟩ := step.amounts between
    exact ⟨after, same'.trans same⟩

end Settings

namespace Pragma

theorem ofList_readable {t : Text} (readable : ∀ i ∈ Text.splitOn [','] t, Settings.Readable i)
    (defaults : Pragma Int) : ofList (some t) defaults =
      .ok ((Settings.heedAll {} ((Text.splitOn [','] t).map Settings.said)).bind
        fun s => s.apply defaults) := by
  rw [ofList, Option.getD_some, Settings.ofList_eq_items, Settings.items_eq readable]
  cases Settings.heedAll {} ((Text.splitOn [','] t).map Settings.said) <;> rfl

/-- The spelling of a list does not matter to the annotation that it gives, and a list with short
numbers gives one or is malformed however it is spelled. -/
theorem spelling_irrelevant {t t' : Text} (legible : Legible (some t))
    (respelled : Relation.ReflTransGen Settings.Respelled t t') (defaults : Pragma Int) :
    ∃ r, ofList (some t) defaults = .ok r ∧ ofList (some t') defaults = .ok r := by
  have readable : ∀ i ∈ Text.splitOn [','] t, Settings.Readable i :=
    fun i hi => (legible i hi).readable
  obtain ⟨readable', same⟩ := Settings.amounts_run respelled readable
  refine ⟨_, ofList_readable readable defaults, ?_⟩
  rw [ofList_readable readable' defaults, same]

open Settings in
/-- A list and what it comes to after one change of each sort. -/
theorem sleepList_respelled :
    Legible (some "low=5,type='sleep',Low=7".toList) ∧ ∀ defaults, ∃ r,
      ofList (some "low=5,type='sleep',Low=7".toList) defaults = .ok r ∧
      ofList (some "x=1,LOW =7,type=' SLEEP'".toList) defaults = .ok r := by
  have legible : Legible (some "low=5,type='sleep',Low=7".toList) := by decide +kernel
  have replaced : Respelled "low=5,type='sleep',Low=7".toList "type='sleep',Low=7".toList :=
    @Respelled.repeated [] ["type='sleep'".toList, "Low=7".toList] "low=5".toList
      { low := some 5 } (by decide +kernel) (by decide +kernel) (by decide)
  have capitals : Respelled "type='sleep',Low=7".toList "type='SLEEP',Low=7".toList :=
    @Respelled.item [] ["Low=7".toList] _ _ (by decide +kernel)
      (@Restyled.type "type".toList "'sleep'".toList "'SLEEP'".toList (by decide) (by decide)
        (by simp [SameLetters]))
  have inside : Respelled "type='SLEEP',Low=7".toList "type=' SLEEP',Low=7".toList :=
    @Respelled.item [] ["Low=7".toList] _ _ (by decide +kernel)
      (@Restyled.quoted "type".toList [] [] " ".toList "SLEEP".toList [] '\'' '\'' (by decide)
        (by decide) (by decide) (by decide) (by decide) (by decide) (by decide) (by decide))
  have key : Respelled "type=' SLEEP',Low=7".toList "type=' SLEEP',LOW=7".toList :=
    @Respelled.item ["type=' SLEEP'".toList] [] _ _ (by decide +kernel)
      (@Restyled.key "Low".toList "LOW".toList "7".toList (by decide) (by simp [SameLetters]))
  have unknown : Respelled "type=' SLEEP',LOW=7".toList "type=' SLEEP',LOW=7,x=1".toList :=
    @Respelled.idle ["type=' SLEEP'".toList, "LOW=7".toList] [] "x=1".toList
      (by decide +kernel) (by decide)
  have turned : Respelled "type=' SLEEP',LOW=7,x=1".toList "x=1,LOW=7,type=' SLEEP'".toList :=
    @Respelled.order ["type=' SLEEP'".toList, "LOW=7".toList, "x=1".toList] _
      (by decide +kernel) (by decide +kernel) (List.reverse_perm _).symm
  have spaced : Respelled "x=1,LOW=7,type=' SLEEP'".toList "x=1,LOW =7,type=' SLEEP'".toList :=
    @Respelled.space "x=1,LOW".toList "=7,type=' SLEEP'".toList " ".toList (by decide)
      (.inr (.inr ⟨[], '=', "7,type=' SLEEP'".toList, rfl, nofun, .inr rfl⟩))
  have run := ((((((Relation.ReflTransGen.single replaced).tail capitals).tail inside).tail
    key).tail unknown).tail turned).tail spaced
  exact ⟨legible, fun defaults => spelling_irrelevant legible run defaults⟩

end Pragma

end SchedulingNoise
