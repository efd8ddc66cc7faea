import SchedulingNoise.Proofs.Places
import SchedulingNoise.Proofs.Reassembly
import SchedulingNoise.Proofs.Statements

/-! Declarations that are seen. A file below the project's root is visible from every header that
has no package statement, that is in the package of the file, or that imports the type of the file
or all of its package. -/
namespace SchedulingNoise

theorem Text.join_append (sep : Text) {ps qs : List Text} (some : ps ≠ []) (some' : qs ≠ []) :
    join sep (ps ++ qs) = join sep ps ++ (sep ++ join sep qs) := by
  induction ps with
  | nil => exact absurd rfl some
  | cons p rest ih =>
    by_cases none : rest = []
    · subst none
      rw [List.singleton_append, join_cons sep p some']
      simp [join, List.intercalate]
    · rw [List.cons_append, join_cons sep p (by simp [none]), ih none, join_cons sep p none]
      simp

theorem Path.text_eq {p : Path} (some : anchorText p.anchor ++ Text.join ['/'] p.parts ≠ []) :
    p.text = anchorText p.anchor ++ Text.join ['/'] p.parts := by
  unfold Path.text
  split
  · rename_i empty
    exact absurd empty some
  · rfl

namespace Visibility
open Text Java

def unstarred (name : Text) : Text :=
  if ['.', '*'].isSuffixOf name then name.take (name.length - 2) else name

theorem unstarred_front (name : Text) : unstarred name <+: name := by
  unfold unstarred
  split
  · exact List.take_prefix _ name
  · exact List.prefix_rfl

theorem unstarred_star (name : Text) : unstarred (name ++ ['.', '*']) = name := by
  have star : ['.', '*'].isSuffixOf (name ++ ['.', '*']) = true :=
    List.isSuffixOf_iff_suffix.mpr (List.suffix_append name _)
  rw [unstarred, if_pos star, List.length_append]
  exact List.take_left

section Names

variable {keyword name space t : Text} (nonempty : name ≠ [])
  (solid : ∀ c ∈ name, isBlank c = false ∧ c ≠ ';')
include nonempty solid

omit nonempty in
theorem dropWord_static (blank : Blank space) :
    dropWord "static".toList (name ++ (space ++ [';'])) = name ++ (space ++ [';']) ∨
      dropWord "static".toList (name ++ (space ++ [';'])) = [';'] := by
  unfold dropWord
  cases found : afterWord? "static".toList (name ++ (space ++ [';'])) with
  | none => exact .inl rfl
  | some rest =>
    right
    obtain ⟨t, word, blanks⟩ := Option.bind_eq_some_iff.mp found
    have ended : skipBlanks1? (space ++ [';']) = some rest → rest = [';'] := by
      intro blanks
      cases space with
      | nil => cases blanks
      | cons c space =>
        rw [skipBlanks1?_append blank (List.cons_ne_nil c space) (Solid.cons rfl [])] at blanks
        exact (Option.some.inj blanks).symm
    rcases List.append_eq_append_iff.mp (after?_eq_some.mp word) with
      ⟨more, eq, beyond⟩ | ⟨more, eq, rfl⟩
    · cases more with
      | nil => exact ended (by simpa [beyond] using blanks)
      | cons c more =>
        have letters : "static".toList.all (fun c => !isBlank c && c ≠ ';') = true := by decide
        have letter := List.all_eq_true.mp letters c (by simp [eq])
        cases space with
        | nil =>
          simp only [List.nil_append, List.cons_append, List.cons.injEq] at beyond
          rw [← beyond.1] at letter
          cases letter
        | cons d space =>
          simp only [List.cons_append, List.cons.injEq] at beyond
          rw [← beyond.1, blank d List.mem_cons_self] at letter
          cases letter
    · cases more with
      | nil => exact ended blanks
      | cons c more =>
        have first := (solid c (by simp [eq])).1
        rw [List.cons_append, skipBlanks1?_solid (Solid.cons first _)] at blanks
        cases blanks

omit nonempty in
theorem trim_body (blank : Blank space) :
    trim (trimEndBy (· = ';') (name ++ (space ++ [';']))) = name := by
  have ended : trimEndBy (· = ';') (name ++ (space ++ [';'])) = name ++ space := by
    have turned : (name ++ (space ++ [';'])).reverse = [';'] ++ (name ++ space).reverse := by simp
    have other : ∀ c ∈ (name ++ space).reverse.head?, decide (c = ';') = false := by
      intro c mem
      rw [List.head?_reverse] at mem
      rcases List.mem_append.mp (List.mem_of_getLast? mem) with named | spaced
      · simpa using (solid c named).2
      · simp only [decide_eq_false_iff_not]
        rintro rfl
        cases blank _ spaced
    rw [trimEndBy, turned, (span_run (by simp) other).2, List.reverse_reverse]
  rw [ended]
  refine (trimBy_append_right blank name).trans (trimBy_of_ends (fun c mem => ?_) fun c mem => ?_)
  · exact (solid c (List.mem_of_head? mem)).1
  · exact (solid c (List.mem_of_getLast? mem)).1

theorem statementName_spells (begins : ∃ c rest, keyword = c :: rest ∧ isBlank c = false)
    (spells : Spells keyword name t) :
    statementName keyword t = unstarred name ∨ statementName keyword t = [] := by
  obtain ⟨indent, gap, space, blanks, blank, some, blank', rfl⟩ := spells
  obtain ⟨first, rest, rfl, firm⟩ := begins
  have indented : ∀ c ∈ indent, isBlank c = true := by
    intro c mem
    rcases blanks c mem with rfl | rfl <;> rfl
  have trimmed : trim (indent ++ (first :: rest ++ (gap ++ (name ++ (space ++ [';']))))) =
      first :: rest ++ (gap ++ (name ++ (space ++ [';']))) := by
    refine (trimBy_append_left indented _).trans (trimBy_of_ends ?_ ?_)
    · intro c mem
      cases mem
      exact firm
    · intro c mem
      have last : first :: rest ++ (gap ++ (name ++ (space ++ [';']))) =
          first :: rest ++ gap ++ name ++ space ++ [';'] := by
        simp
      rw [last, List.getLast?_concat] at mem
      cases mem
      rfl
  have begun : Solid (name ++ (space ++ [';'])) := by
    cases name with
    | nil => exact absurd rfl nonempty
    | cons c name => exact Solid.cons (solid c List.mem_cons_self).1 _
  have named : dropWord (first :: rest) (first :: rest ++ (gap ++ (name ++ (space ++ [';'])))) =
      name ++ (space ++ [';']) := by
    have word := after?_eq_some.mpr (Eq.refl (first :: rest ++ (gap ++ (name ++ (space ++ [';'])))))
    have behind := skipBlanks1?_append blank some begun
    simp only [dropWord, afterWord?, word, behind, Option.bind_eq_bind, Option.bind_some,
      Option.getD_some]
  have plain : (unstarred name).filter (fun c => !isBlank c) = unstarred name := by
    apply List.filter_eq_self.mpr
    intro c mem
    simp [(solid c ((unstarred_front name).subset mem)).1]
  unfold statementName
  rw [trimmed, named]
  rcases dropWord_static solid blank' with kept | gone
  · left
    dsimp only
    rw [kept, trim_body solid blank']
    exact plain
  · right
    rw [gone]
    rfl

theorem infix_of_spells (begins : ∃ c rest, keyword = c :: rest ∧ isBlank c = false)
    (spells : Spells keyword name t) {path : Text} (part : unstarred name <:+: path) :
    statementName keyword t <:+: path := by
  rcases statementName_spells nonempty solid begins spells with same | none
  · rw [same]
    exact part
  · rw [none]
    exact List.nil_infix

end Names

structure Word (w : Text) : Prop where
  nonempty : w ≠ []
  chars : ∀ c ∈ w, isWord c = true

/-- The text of a file below a root: its names behind the root's text and a slash, or as a path
puts them together. -/
def Below (root declaring : Text) (names : List Text) : Prop :=
  declaring = root ++ '/' :: Text.join ['/'] names ∨
    ∃ p : Path, root = p.text ∧ declaring = (p.descend names).text

/-- A header that sees a type of a package. -/
inductive Sees (package : List Text) (type header : Text) : Prop
  | noPackage (none : packageStatement.first header = none)
  | samePackage {m : Match Unit} (first : packageStatement.first header = some m)
      (spells : Spells "package".toList (Text.join ['.'] package) (m.text header))
  | imports {front line back name : Text} (parts : header = front ++ (line ++ back))
      (start : ∀ c ∈ front.getLast?, c = '\n') (spells : Spells "import".toList name line)
      (names : name = Text.join ['.'] (package ++ [type]) ∨
        name = Text.join ['.'] package ++ ['.', '*'])

section Candidate

variable {package : List Text} {type : Text}

theorem dottedPath_java (stem : Text) : dottedPath (stem ++ ".java".toList) = dotted stem := by
  have turned : (stem ++ ".java".toList).reverse = "avaj.".toList ++ stem.reverse := by simp
  unfold dottedPath
  rw [turned]
  simp [isSeparator]

theorem head_join {names : List Text} (some : names ≠ []) (words : ∀ w ∈ names, Word w) :
    ∃ c more, Text.join ['.'] names = c :: more ∧ isWord c = true := by
  cases names with
  | nil => exact absurd rfl some
  | cons w rest =>
    obtain ⟨nonempty, chars⟩ := words w List.mem_cons_self
    obtain ⟨c, w, rfl⟩ := List.exists_cons_of_ne_nil nonempty
    refine ⟨c, ?_, ?_, chars c List.mem_cons_self⟩
    · exact (Text.join ['.'] ((c :: w) :: rest)).tail
    · by_cases none : rest = []
      · subst none
        simp [Text.join, List.intercalate]
      · rw [Text.join_cons _ _ none]
        rfl

theorem dottedName_join {names : List Text} (some : names ≠ []) (words : ∀ w ∈ names, Word w) :
    DottedName (Text.join ['.'] names) := by
  obtain ⟨c, more, eq, _⟩ := head_join some words
  refine ⟨by simp [eq], ?_⟩
  clear eq some
  induction names with
  | nil => exact nofun
  | cons w rest ih =>
    obtain ⟨here, later⟩ := List.forall_mem_cons.mp words
    have named : ∀ c ∈ w, isNameChar c = true := by
      intro c mem
      simp [isNameChar, here.chars c mem]
    by_cases none : rest = []
    · subst none
      simpa [Text.join, List.intercalate] using named
    · rw [Text.join_cons _ _ none, List.append_assoc]
      refine List.forall_mem_append.mpr ⟨named, List.forall_mem_append.mpr ⟨?_, ih later⟩⟩
      intro c mem
      rw [List.mem_singleton.mp mem]
      rfl

theorem isSeparator_of_isWord {c : Char} (word : isWord c = true) : isSeparator c = false := by
  rw [← Bool.not_eq_true]
  intro separates
  simp only [isSeparator, Bool.or_eq_true, decide_eq_true_eq] at separates
  rcases separates with rfl | rfl <;> cases word

theorem dotted_join {names : List Text} (words : ∀ w ∈ names, Word w) :
    dotted (Text.join ['/'] names) = Text.join ['.'] names := by
  induction names with
  | nil => rfl
  | cons w rest ih =>
    obtain ⟨here, later⟩ := List.forall_mem_cons.mp words
    have same : dotted w = w := by
      refine (List.map_congr_left fun c mem => ?_).trans (List.map_id w)
      rw [isSeparator_of_isWord (here.chars c mem)]
      rfl
    by_cases none : rest = []
    · subst none
      simpa [Text.join, List.intercalate] using same
    · have others := ih later
      unfold dotted at same others ⊢
      rw [Text.join_cons _ _ none, Text.join_cons _ _ none, List.map_append, List.map_append, same,
        others]
      rfl

theorem contains_of_front (words : ∀ w ∈ package ++ [type], Word w) {root front : Text}
    (parts : dotted root <+: dotted front ∨ front = [] ∧ root = ['.']) :
    Text.join ['.'] (package ++ [type]) <:+:
      candidate (front ++ Text.join ['/'] (package ++ [type]) ++ ".java".toList) (some root) := by
  unfold candidate
  rw [dottedPath_java]
  have path : dotted (front ++ Text.join ['/'] (package ++ [type])) =
      dotted front ++ Text.join ['.'] (package ++ [type]) := by
    rw [← dotted_join words]
    exact List.map_append
  dsimp only
  rw [path]
  rcases parts with ⟨more, eq⟩ | ⟨rfl, rfl⟩
  · have after : after? (dotted root) (dotted front ++ Text.join ['.'] (package ++ [type])) =
        some (more ++ Text.join ['.'] (package ++ [type])) := by
      rw [after?_eq_some, ← eq, List.append_assoc]
    rw [after]
    exact (List.suffix_append more _).isInfix
  · cases found : after? (dotted ['.']) (dotted [] ++ Text.join ['.'] (package ++ [type])) with
    | none => exact List.infix_rfl
    | some rest =>
      obtain ⟨c, more, eq, word⟩ := head_join (by simp) words
      have begins : dotted [] ++ Text.join ['.'] (package ++ [type]) = '.' :: rest :=
        after?_eq_some.mp found
      rw [eq] at begins
      cases begins
      cases word

theorem contains_candidate (words : ∀ w ∈ package ++ [type], Word w) {root declaring : Text}
    (below : Below root declaring (package ++ [type ++ ".java".toList])) :
    Text.join ['.'] (package ++ [type]) <:+: candidate declaring (some root) := by
  unfold Below at below
  rw [Text.join_extend] at below
  rcases below with rfl | ⟨p, rfl, rfl⟩
  · have split : root ++ '/' :: (Text.join ['/'] (package ++ [type]) ++ ".java".toList) =
        root ++ ['/'] ++ Text.join ['/'] (package ++ [type]) ++ ".java".toList := by
      simp
    rw [split]
    apply contains_of_front words
    left
    exact ⟨['.'], by simp [dotted, isSeparator]⟩
  · obtain ⟨anchor, parts⟩ := p
    have spelled : ((Path.mk anchor parts).descend (package ++ [type ++ ".java".toList])).text =
        Path.anchorText anchor ++
          Text.join ['/'] (parts ++ (package ++ [type ++ ".java".toList])) := by
      apply Path.text_eq
      dsimp only [Path.descend]
      rw [← List.append_assoc, Text.join_extend]
      simp
    rw [spelled]
    by_cases top : parts = []
    · subst top
      rw [List.nil_append, Text.join_extend, ← List.append_assoc]
      apply contains_of_front words
      cases anchor with
      | relative => exact .inr ⟨rfl, rfl⟩
      | root => exact .inl List.prefix_rfl
      | doubleRoot => exact .inl List.prefix_rfl
    · have split : Path.anchorText anchor ++
          Text.join ['/'] (parts ++ (package ++ [type ++ ".java".toList])) =
            Path.anchorText anchor ++ Text.join ['/'] parts ++ ['/'] ++
              Text.join ['/'] (package ++ [type]) ++ ".java".toList := by
        rw [Text.join_append _ top (by simp), Text.join_extend]
        simp
      rw [split]
      apply contains_of_front words
      left
      by_cases bare : Path.anchorText anchor ++ Text.join ['/'] parts = []
      · have dot : (Path.mk anchor parts).text = ['.'] := by
          rw [Path.text, bare]
        rw [dot, bare]
        exact List.prefix_rfl
      · rw [Path.text_eq bare]
        exact ⟨['.'], by simp [dotted, isSeparator]⟩

end Candidate

/-- A type is visible from every header that sees it. -/
theorem visible_of_sees {package : List Text} (some : package ≠ []) {type : Text}
    (words : ∀ w ∈ package ++ [type], Word w) {root declaring header : Text}
    (below : Below root declaring (package ++ [type ++ ".java".toList]))
    (sees : Sees package type header) : visible declaring (.some header) (.some root) = true := by
  have whole := contains_candidate words below
  have inPackage : Text.join ['.'] package <+: Text.join ['.'] (package ++ [type]) := by
    rw [Text.join_append_singleton _ some, List.append_assoc]
    exact List.prefix_append ..
  have packageWords : ∀ w ∈ package, Word w := fun w mem => words w (List.mem_append_left _ mem)
  have packageName := dottedName_join some packageWords
  have typeName := dottedName_join (by simp) words
  unfold visible
  dsimp only [Option.getD_some]
  cases sees with
  | noPackage none => rw [none]
  | @samePackage m first spells =>
    rw [first]
    dsimp only
    rw [Bool.or_eq_true, Text.contains_iff]
    left
    have part : unstarred (Text.join ['.'] package) <:+: candidate declaring (.some root) :=
      ((unstarred_front _).trans inPackage).isInfix.trans whole
    exact infix_of_spells packageName.nonempty packageName.solid ⟨_, _, rfl, rfl⟩ spells part
  | @imports front line back name parts start spells names =>
    subst parts
    have importable : Importable name := by
      rcases names with rfl | rfl
      · refine .type typeName ?_
        rw [Text.join_append_singleton _ some]
        simp
      · exact .all packageName
    have part : unstarred name <:+: candidate declaring (.some root) := by
      rcases names with rfl | rfl
      · exact (unstarred_front _).isInfix.trans whole
      · rw [unstarred_star]
        exact inPackage.isInfix.trans whole
    have nonempty : name ≠ [] := List.ne_nil_of_mem importable.dot
    obtain ⟨m, found, text⟩ := exists_import importable spells start back
    split
    · rfl
    · rw [Bool.or_eq_true, List.any_eq_true]
      right
      refine ⟨m, found, ?_⟩
      rw [Text.contains_iff, text]
      exact infix_of_spells nonempty importable.solid ⟨_, _, rfl, rfl⟩ spells part

/-- An import that stands behind one that has no end. -/
def crowdedHeader : Text :=
  "package app;\nimport static\n\t import  org.util.*\n;import java.io.File;".toList

theorem crowdedHeader_sees :
    Sees ["org".toList, "util".toList] "Gate".toList crowdedHeader ∧
      visible "src/org/util/Gate.java".toList (some crowdedHeader) (some "src".toList) = true := by
  have start : ∀ c ∈ "package app;\nimport static\n".toList.getLast?, c = '\n' := by
    intro c mem
    cases mem
    rfl
  have spells : Spells "import".toList "org.util.*".toList "\t import  org.util.*\n;".toList :=
    ⟨"\t ".toList, "  ".toList, "\n".toList, by simp, by decide, by decide, by decide, rfl⟩
  have parts : crowdedHeader = "package app;\nimport static\n".toList ++
      ("\t import  org.util.*\n;".toList ++ "import java.io.File;".toList) := rfl
  have sees : Sees ["org".toList, "util".toList] "Gate".toList crowdedHeader :=
    .imports parts start spells (.inr rfl)
  have words : ∀ w ∈ ["org".toList, "util".toList] ++ ["Gate".toList], Word w := by
    simp only [List.cons_append, List.nil_append, List.forall_mem_cons]
    exact ⟨⟨by decide, List.all_eq_true.mp (by decide)⟩,
      ⟨by decide, List.all_eq_true.mp (by decide)⟩,
      ⟨by decide, List.all_eq_true.mp (by decide)⟩, nofun⟩
  exact ⟨sees, visible_of_sees (by decide) words (.inl rfl) sees⟩

end Visibility

end SchedulingNoise
