import SchedulingNoise.Batch.Survey
import SchedulingNoise.Proofs.Declarations
import SchedulingNoise.Proofs.Spelling

namespace SchedulingNoise

namespace Text

theorem isBlank_of_isWord {c : Char} (word : isWord c = true) : isBlank c = false := by
  cases blank : isBlank c with
  | false => rfl
  | true =>
    have listed : c.toNat ∈ [9, 10, 11, 12, 13, 28, 29, 30, 31, 32, 0x85, 0xA0, 0x1680, 0x2000,
        0x2001, 0x2002, 0x2003, 0x2004, 0x2005, 0x2006, 0x2007, 0x2008, 0x2009, 0x200A, 0x2028,
        0x2029, 0x202F, 0x205F, 0x3000] := by
      simp only [isBlank, Bool.or_eq_true, Bool.and_eq_true, decide_eq_true_eq, beq_iff_eq] at blank
      simp only [List.mem_cons, List.not_mem_nil, or_false]
      omega
    have none : ([9, 10, 11, 12, 13, 28, 29, 30, 31, 32, 0x85, 0xA0, 0x1680, 0x2000,
        0x2001, 0x2002, 0x2003, 0x2004, 0x2005, 0x2006, 0x2007, 0x2008, 0x2009, 0x200A, 0x2028,
        0x2029, 0x202F, 0x205F, 0x3000].all fun n => !isWord (Char.ofNat n)) = true := by
      decide +kernel
    have other := List.all_eq_true.mp none _ listed
    rw [Char.ofNat_toNat, word] at other
    cases other

theorem skipBlanks1?_append {b t : Text} (blank : Blank b) (some : b ≠ []) (solid : Solid t) :
    skipBlanks1? (b ++ t) = .some t := by
  cases b with
  | nil => exact absurd rfl some
  | cons c b =>
    have first : isBlank c = true := blank c List.mem_cons_self
    have later : Blank b := fun d mem => blank d (List.mem_cons_of_mem c mem)
    rw [List.cons_append, skipBlanks1?, if_pos first, skipBlanks, (span_run later solid).2]

theorem skipBlanks1?_solid {t : Text} (solid : Solid t) : skipBlanks1? t = none := by
  cases t with
  | nil => rfl
  | cons c t => rw [skipBlanks1?, if_neg (by simp [solid c rfl])]

end Text

namespace Matcher

theorem found_or_covered {m : Matcher α} {front back : Text} {before : Option Char}
    {skip n : Nat} {a : α} (here : m (front.getLast?.or before) back = some (n, a))
    (some : back ≠ []) (pos : Nat) (passed : skip ≤ front.length) :
    ⟨pos + front.length, pos + front.length + n, a⟩ ∈ m.allFrom before pos skip (front ++ back) ∨
      ∃ inner before' n' a', inner ≠ [] ∧ inner <:+ front ∧
        m before' (inner ++ back) = .some (n', a') ∧ inner.length < n' := by
  induction front generalizing before pos skip with
  | nil =>
    obtain ⟨c, rest, rfl⟩ := List.exists_cons_of_ne_nil some
    cases Nat.le_zero.mp passed
    have match_ : m before (c :: rest) = .some (n, a) := here
    rw [List.nil_append, allFrom, match_]
    exact .inl List.mem_cons_self
  | cons c front ih =>
    have last : m (front.getLast?.or (.some c)) back = .some (n, a) := by
      rw [List.getLast?_cons] at here
      cases tail : front.getLast? with
      | none =>
        rw [tail] at here
        exact here
      | some d =>
        rw [tail] at here
        exact here
    have place : pos + (c :: front).length = pos + 1 + front.length := by
      rw [List.length_cons]
      omega
    -- What is found behind the first character is found, and what covers the place covers it.
    have step : ∀ skip', skip' ≤ front.length →
        ⟨pos + (c :: front).length, pos + (c :: front).length + n, a⟩ ∈
          m.allFrom (.some c) (pos + 1) skip' (front ++ back) ∨
        ∃ inner before' n' a', inner ≠ [] ∧ inner <:+ c :: front ∧
          m before' (inner ++ back) = .some (n', a') ∧ inner.length < n' := by
      intro skip' passed
      rcases ih last (pos + 1) passed with found | covered
      · rw [place]
        exact .inl found
      · obtain ⟨inner, before', n', a', some, suffix, hit, long⟩ := covered
        have whole := suffix.trans (List.suffix_cons c front)
        exact .inr ⟨inner, before', n', a', some, whole, hit, long⟩
    rw [List.cons_append]
    cases skip with
    | succ skip => exact step skip (Nat.le_of_succ_le_succ passed)
    | zero =>
      rw [allFrom]
      cases first : m before (c :: (front ++ back)) with
      | none => exact step 0 (Nat.zero_le _)
      | some hit =>
        obtain ⟨n', a'⟩ := hit
        by_cases beyond : (c :: front).length < n'
        · exact .inr ⟨c :: front, before, n', a', List.cons_ne_nil c front, List.suffix_rfl, first,
            beyond⟩
        · rw [List.length_cons] at beyond
          rcases step (n' - 1) (by omega) with found | covered
          · exact .inl (List.mem_cons_of_mem _ found)
          · exact .inr covered

end Matcher

namespace Java
open Text

theorem isBlank_of_isNameChar {c : Char} (h : isNameChar c = true) : isBlank c = false := by
  simp only [isNameChar, Bool.or_eq_true, decide_eq_true_eq] at h
  rcases h with word | rfl
  · exact isBlank_of_isWord word
  · rfl

structure DottedName (name : Text) : Prop where
  nonempty : name ≠ []
  chars : ∀ c ∈ name, isNameChar c = true

theorem DottedName.solid {name : Text} (h : DottedName name) :
    ∀ c ∈ name, isBlank c = false ∧ c ≠ ';' := by
  intro c mem
  have named := h.chars c mem
  refine ⟨isBlank_of_isNameChar named, ?_⟩
  rintro rfl
  cases named

/-- A statement of a keyword and a name: blanks and tabs before it, white space behind the keyword
and perhaps behind the name, and a semicolon. -/
def Spells (keyword name t : Text) : Prop :=
  ∃ indent gap space, (∀ c ∈ indent, c = ' ' ∨ c = '\t') ∧ Blank gap ∧ gap ≠ [] ∧ Blank space ∧
    t = indent ++ (keyword ++ (gap ++ (name ++ (space ++ [';']))))

section Reading

variable {name space back : Text}

theorem skipIndent_append {indent t : Text} (blanks : ∀ c ∈ indent, c = ' ' ∨ c = '\t')
    (ends : ∀ c ∈ t.head?, c ≠ ' ' ∧ c ≠ '\t') : skipIndent (indent ++ t) = t := by
  refine (span_run (fun c mem => ?_) fun c mem => ?_).2
  · simpa using blanks c mem
  · simpa using ends c mem

theorem afterName?_append (dotted : DottedName name)
    (ends : ∀ c ∈ back.head?, isNameChar c = false) : afterName? (name ++ back) = some back := by
  obtain ⟨nonempty, chars⟩ := dotted
  cases name with
  | nil => exact absurd rfl nonempty
  | cons c name =>
    have first : isNameChar c = true := chars c List.mem_cons_self
    have later : ∀ d ∈ name, isNameChar d = true := fun d mem =>
      chars d (List.mem_cons_of_mem c mem)
    rw [List.cons_append, afterName?, if_pos first, (span_run later ends).2]

theorem afterEnd?_append (blank : Blank space) : afterEnd? (space ++ ';' :: back) = some back := by
  have solid : Solid (';' :: back) := Solid.cons rfl back
  rw [afterEnd?, skipBlanks, (span_run blank solid).2]
  rfl

theorem ends_blank {gap : Text} (blank : Blank gap) (some : gap ≠ []) (t : Text) :
    ∀ c ∈ (gap ++ t).head?, isNameChar c = false := by
  intro c mem
  cases gap with
  | nil => exact absurd rfl some
  | cons d gap =>
    cases mem
    have first : isBlank c = true := blank c List.mem_cons_self
    rw [← Bool.not_eq_true]
    intro named
    rw [isBlank_of_isNameChar named] at first
    cases first

theorem ends_name (blank : Blank space) (t : Text) :
    ∀ c ∈ (space ++ ';' :: t).head?, isNameChar c = false := by
  by_cases none : space = []
  · subst none
    intro c mem
    cases mem
    rfl
  · exact ends_blank blank none _

theorem afterImported?_name (dotted : DottedName name) (blank : Blank space) :
    afterImported? (name ++ (space ++ ';' :: back)) = some back := by
  have read := afterName?_append dotted (ends_name blank back)
  simp only [afterImported?, read, afterEnd?_append blank, Option.bind_eq_bind, Option.bind_some]
  rfl

theorem afterImported?_star (dotted : DottedName name) (blank : Blank space) :
    afterImported? (name ++ (['.', '*'] ++ (space ++ ';' :: back))) = some back := by
  have stem : DottedName (name ++ ['.']) := by
    refine ⟨by simp, fun c mem => ?_⟩
    rcases List.mem_append.mp mem with mem | mem
    · exact dotted.chars c mem
    · rw [List.mem_singleton.mp mem]
      rfl
  have split : name ++ (['.', '*'] ++ (space ++ ';' :: back)) =
      name ++ ['.'] ++ '*' :: (space ++ ';' :: back) := by
    simp
  have read : afterName? (name ++ ['.'] ++ '*' :: (space ++ ';' :: back)) =
      some ('*' :: (space ++ ';' :: back)) :=
    afterName?_append stem (by simp [isNameChar, isWord])
  have taken : (name ++ ['.'] ++ '*' :: (space ++ ';' :: back)).take
      ((name ++ ['.'] ++ '*' :: (space ++ ';' :: back)).length -
        ('*' :: (space ++ ';' :: back)).length) = name ++ ['.'] := by
    rw [List.length_append, Nat.add_sub_cancel, List.take_left]
  have none : afterEnd? ('*' :: (space ++ ';' :: back)) = none := rfl
  have star : after? ['*'] ('*' :: (space ++ ';' :: back)) = some (space ++ ';' :: back) :=
    after?_eq_some.mpr rfl
  have long : 1 < (name ++ ['.']).length := by
    have some := List.length_pos_iff.mpr dotted.nonempty
    rw [List.length_append, List.length_singleton]
    omega
  rw [split]
  simp only [afterImported?, read, taken, none, star, afterEnd?_append blank, long,
    List.getLast?_concat, Option.bind_eq_bind, Option.bind_some, and_self, if_true]

/-- What an import may name: a type in a package, or all that is in a package. -/
inductive Importable : Text → Prop
  | type {name : Text} (dotted : DottedName name) (inside : '.' ∈ name) : Importable name
  | all {name : Text} (dotted : DottedName name) : Importable (name ++ ['.', '*'])

namespace Importable

theorem dot (h : Importable name) : '.' ∈ name := by
  cases h with
  | type _ inside => exact inside
  | all => simp

theorem solid (h : Importable name) : ∀ c ∈ name, isBlank c = false ∧ c ≠ ';' := by
  cases h with
  | type dotted _ => exact dotted.solid
  | all dotted =>
    refine List.forall_mem_append.mpr ⟨dotted.solid, ?_⟩
    simp only [List.forall_mem_cons]
    exact ⟨by decide, by decide, nofun⟩

theorem imported (h : Importable name) (blank : Blank space) :
    afterImported? (name ++ (space ++ ';' :: back)) = some back := by
  cases h with
  | type dotted _ => exact afterImported?_name dotted blank
  | all dotted =>
    rw [List.append_assoc]
    exact afterImported?_star dotted blank

theorem notStatic (h : Importable name) {t : Text}
    (word : after? "static".toList (name ++ back) = some t) : skipBlanks1? t = none := by
  have absent : '.' ∉ "static".toList := by decide
  rcases List.append_eq_append_iff.mp (after?_eq_some.mp word) with
    ⟨more, eq, _⟩ | ⟨more, eq, rfl⟩
  · exact absurd (eq ▸ List.mem_append_left more h.dot) absent
  · cases more with
    | nil => exact absurd (by simpa [eq] using h.dot) absent
    | cons c more => exact skipBlanks1?_solid (Solid.cons (h.solid c (by simp [eq])).1 _)

theorem solid_append (h : Importable name) (t : Text) : Solid (name ++ t) := by
  cases name with
  | nil => cases h.dot
  | cons c name => exact Solid.cons (h.solid c List.mem_cons_self).1 _

end Importable

theorem afterImport?_spells (importable : Importable name) {line : Text}
    (spells : Spells "import".toList name line) (back : Text) :
    afterImport? (line ++ back) = some back := by
  obtain ⟨indent, gap, space, blanks, blank, nonempty, blank', rfl⟩ := spells
  have indented : skipIndent (indent ++
      ("import".toList ++ (gap ++ (name ++ (space ++ ';' :: back))))) =
        "import".toList ++ (gap ++ (name ++ (space ++ ';' :: back))) :=
    skipIndent_append blanks (by simp)
  have word : after? "import".toList
      ("import".toList ++ (gap ++ (name ++ (space ++ ';' :: back)))) =
        some (gap ++ (name ++ (space ++ ';' :: back))) := after?_eq_some.mpr rfl
  have behind := skipBlanks1?_append blank nonempty (importable.solid_append (space ++ ';' :: back))
  simp only [List.append_assoc, List.cons_append, List.nil_append, afterImport?, indented, word,
    behind, Option.bind_eq_bind, Option.bind_some, importable.imported blank']
  split
  · rename_i rest static
    obtain ⟨t, word, h⟩ := Option.bind_eq_some_iff.mp static
    rw [importable.notStatic word] at h
    cases h
  · rfl

end Reading

def Inside (line t : Text) : Prop := ∃ front, t = front ++ '\n' :: line

section Inside

variable {line t rest : Text}

theorem Inside.dropWhile {p : Char → Bool} (h : Inside line t) (other : p '\n' = false) :
    Inside line (t.dropWhile p) := by
  obtain ⟨front, rfl⟩ := h
  induction front with
  | nil => exact ⟨[], by simp [other]⟩
  | cons c front ih =>
    rw [List.cons_append, List.dropWhile_cons]
    split
    · exact ih
    · exact ⟨c :: front, rfl⟩

theorem Inside.after? {w : Text} (h : Inside line t) (one : '\n' ∉ w)
    (read : Text.after? w t = some rest) : Inside line rest := by
  obtain ⟨front, rfl⟩ := h
  rcases List.append_eq_append_iff.mp (after?_eq_some.mp read) with
    ⟨more, eq, beyond⟩ | ⟨more, eq, rfl⟩
  · cases more with
    | nil => exact ⟨[], by simpa using beyond.symm⟩
    | cons c more =>
      cases beyond
      exact absurd (eq ▸ List.mem_append_right front List.mem_cons_self) one
  · exact ⟨more, rfl⟩

theorem Inside.skipBlanks (h : Inside line t) :
    Inside line (Text.skipBlanks t) ∨ Text.skipBlanks t = Text.skipBlanks line := by
  obtain ⟨front, rfl⟩ := h
  induction front with
  | nil => exact .inr rfl
  | cons c front ih =>
    unfold Text.skipBlanks at ih ⊢
    rw [List.cons_append, List.dropWhile_cons]
    split
    · exact ih
    · exact .inl ⟨c :: front, rfl⟩

theorem Inside.skipBlanks1? (h : Inside line t) (read : Text.skipBlanks1? t = some rest) :
    Inside line rest ∨ rest = Text.skipBlanks line := by
  have all : Text.skipBlanks1? t = some (Text.skipBlanks t) := by
    cases t with
    | nil => cases read
    | cons c t =>
      rw [Text.skipBlanks1?] at read ⊢
      split at read
      · rename_i blank
        rw [if_pos blank, Text.skipBlanks, Text.skipBlanks, List.dropWhile_cons, if_pos blank]
      · cases read
  cases all.symm.trans read
  exact h.skipBlanks

theorem Inside.afterName? (h : Inside line t) (read : Java.afterName? t = some rest) :
    Inside line rest := by
  cases t with
  | nil => cases read
  | cons c t =>
    rw [Java.afterName?] at read
    split at read
    · rename_i named
      cases read
      have all : t.dropWhile isNameChar = (c :: t).dropWhile isNameChar := by
        rw [List.dropWhile_cons, if_pos named]
      rw [all]
      exact h.dropWhile rfl
    · cases read

theorem Inside.afterEnd? (h : Inside line t) (unended : Java.afterEnd? line = none)
    (read : Java.afterEnd? t = some rest) : line <:+ rest := by
  unfold Java.afterEnd? at unended read
  rcases h.skipBlanks with inside | beyond
  · obtain ⟨front, rfl⟩ := inside.after? (by decide) read
    exact (List.suffix_cons '\n' line).trans (List.suffix_append front _)
  · rw [beyond, unended] at read
    cases read

theorem Inside.afterImported? (h : Inside line t) (unended : Java.afterEnd? line = none)
    (read : Java.afterImported? t = some rest) : line <:+ rest := by
  simp only [Java.afterImported?, Option.bind_eq_bind, Option.bind_eq_some_iff] at read
  obtain ⟨t₁, name, read⟩ := read
  have behind := h.afterName? name
  split at read
  · rename_i ended
    cases read
    exact behind.afterEnd? unended ended
  · split at read
    · obtain ⟨t₂, star, ended⟩ := Option.bind_eq_some_iff.mp read
      exact (behind.after? (by decide) star).afterEnd? unended ended
    · cases read

/-- A line that ends no import which began before it. -/
structure Fresh (line : Text) : Prop where
  unended : Java.afterEnd? line = none
  unnamed : Java.afterImported? (Text.skipBlanks line) = none
  notStatic : Text.after? "static".toList (Text.skipBlanks line) = none

theorem Inside.afterImport? (h : Inside line t) (fresh : Fresh line)
    (read : Java.afterImport? t = some rest) : line <:+ rest := by
  simp only [Java.afterImport?, Option.bind_eq_bind, Option.bind_eq_some_iff] at read
  obtain ⟨t₁, keyword, t₂, blanks, read⟩ := read
  have word := (h.dropWhile rfl).after? (by decide) keyword
  rcases word.skipBlanks1? blanks with inside | rfl
  · split at read
    · rename_i static
      cases read
      obtain ⟨t₃, marked, static⟩ := Option.bind_eq_some_iff.mp static
      obtain ⟨t₄, blanks', named⟩ := Option.bind_eq_some_iff.mp static
      rcases (inside.after? (by decide) marked).skipBlanks1? blanks' with inside | rfl
      · exact inside.afterImported? fresh.unended named
      · rw [fresh.unnamed] at named
        cases named
    · exact inside.afterImported? fresh.unended read
  · rw [fresh.notStatic, fresh.unnamed] at read
    cases read

theorem fresh_spells {name : Text} (importable : Importable name)
    (spells : Spells "import".toList name line) (back : Text) : Fresh (line ++ back) := by
  obtain ⟨indent, gap, space, blanks, blank, some, blank', rfl⟩ := spells
  have indented : Blank indent := by
    intro c mem
    rcases blanks c mem with rfl | rfl <;> rfl
  have first : Text.skipBlanks (indent ++
      ("import".toList ++ (gap ++ (name ++ (space ++ [';'])))) ++ back) =
        "import".toList ++ (gap ++ (name ++ (space ++ ';' :: back))) := by
    simp only [List.append_assoc, List.cons_append, List.nil_append]
    exact (span_run indented (Solid.cons rfl _)).2
  have keyword : DottedName "import".toList := ⟨by decide, List.all_eq_true.mp (by decide)⟩
  have word : Java.afterName? ("import".toList ++ (gap ++ (name ++ (space ++ ';' :: back)))) =
      .some (gap ++ (name ++ (space ++ ';' :: back))) :=
    afterName?_append keyword (ends_blank blank some _)
  have more : Java.afterEnd? (gap ++ (name ++ (space ++ ';' :: back))) = none := by
    rw [Java.afterEnd?, Text.skipBlanks,
      (span_run blank (importable.solid_append (space ++ ';' :: back))).2]
    cases name with
    | nil => cases importable.dot
    | cons c name =>
      have other := (importable.solid c List.mem_cons_self).2
      simp [Text.after?, Ne.symm other]
  have taken : ("import".toList ++ (gap ++ (name ++ (space ++ ';' :: back)))).take
      (("import".toList ++ (gap ++ (name ++ (space ++ ';' :: back)))).length -
        (gap ++ (name ++ (space ++ ';' :: back))).length) = "import".toList := by
    rw [List.length_append, Nat.add_sub_cancel, List.take_left]
  refine ⟨?_, ?_, ?_⟩
  · rw [Java.afterEnd?, first]
    rfl
  · rw [first]
    simp only [Java.afterImported?, word, taken, more, Option.bind_eq_bind, Option.bind_some]
    rfl
  · rw [first]
    rfl

end Inside

theorem exists_import {front line name : Text} (importable : Importable name)
    (spells : Spells "import".toList name line) (start : ∀ c ∈ front.getLast?, c = '\n')
    (back : Text) :
    ∃ m ∈ importStatement.all (front ++ (line ++ back)),
      m.text (front ++ (line ++ back)) = line := by
  have read := afterImport?_spells importable spells back
  have here : importStatement (front.getLast?.or none) (line ++ back) = some (line.length, ()) := by
    cases last : front.getLast? with
    | none => simp [importStatement, statement, Matcher.atLineStart, read]
    | some c =>
      cases start c last
      simp [importStatement, statement, Matcher.atLineStart, read]
  have nonempty : line ++ back ≠ [] := by
    obtain ⟨indent, gap, space, _, _, _, _, rfl⟩ := spells
    simp
  rcases Matcher.found_or_covered here nonempty 0 (Nat.zero_le _) with found | covered
  · refine ⟨_, found, ?_⟩
    simp only [Match.text, Nat.zero_add]
    rw [← List.append_assoc, ← List.length_append, List.take_left, List.drop_left]
  · obtain ⟨inner, before, n, _, some, suffix, hit, long⟩ := covered
    obtain ⟨rest, behind, made⟩ := Option.map_eq_some_iff.mp (Matcher.atLineStart_eq_some hit)
    cases made
    have inside : Inside (line ++ back) (inner ++ (line ++ back)) := by
      obtain ⟨more, rfl⟩ := suffix
      rcases List.eq_nil_or_concat inner with rfl | ⟨inner, c, rfl⟩
      · exact absurd rfl some
      · rw [List.concat_eq_append] at start ⊢
        have last : c = '\n' := start c (by simp)
        exact ⟨inner, by simp [last]⟩
    have left := (inside.afterImport? (fresh_spells importable spells back) behind).length_le
    rw [List.length_append] at long
    omega

end Java

end SchedulingNoise
