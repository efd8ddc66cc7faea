import SchedulingNoise.Proofs.Reassembly
import SchedulingNoise.Proofs.Updates
import SchedulingNoise.Batch.Survey

/-! What stops the reading of annotations. However malformed a comment is, reading it comes to an
answer; the one exception is a number with more digits than are read. -/
namespace SchedulingNoise

namespace Pragma

/-- A line with a number of so many digits, which are too many, in one of its comments. -/
def OverlongIn (line : Text) (n : Nat) : Prop := ∃ c ∈ comments line, Excessive c.value n

theorem answers_comment {line : Text} {c : Comment} (hc : c ∈ comments line)
    (defaults : Pragma Int) : Answers (OverlongIn line) (ofList c.value defaults) :=
  (answers_ofList c.value defaults).mono fun _ excess => ⟨c, hc, excess⟩

theorem answers_parse (line : Text) (defaults : Pragma Int) :
    Answers (OverlongIn line) (parse line defaults) := by
  unfold parse
  split
  · exact .ok none
  · rename_i c rest found
    apply answers_comment
    simp [found]

theorem answers_existsIn {long : Nat → Prop} {cs : List Comment}
    (each : ∀ c ∈ cs, Answers long (ofList c.value)) : Answers long (existsIn cs) := by
  induction cs with
  | nil => exact .ok false
  | cons c rest ih =>
    obtain ⟨here, later⟩ := List.forall_mem_cons.mp each
    apply here.bind
    intro r
    cases r with
    | none => exact ih later
    | some a => exact .ok true

theorem answers_lookupIn (q : Int) {long : Nat → Prop} {rs : List Reading}
    (each : ∀ r ∈ rs, Answers long r.result) : Answers long (lookupIn q rs) := by
  induction rs with
  | nil => exact .ok none
  | cons r rest ih =>
    obtain ⟨here, later⟩ := List.forall_mem_cons.mp each
    apply here.bind
    intro a
    cases a with
    | none => exact ih later
    | some a =>
      dsimp only
      split
      · exact .ok (some a)
      · exact ih later

theorem answers_readings (line : Text) (defaults : Pragma Int) :
    ∀ r ∈ readings line defaults, Answers (OverlongIn line) r.result := by
  intro r hr
  obtain ⟨c, hc, rfl⟩ := List.mem_map.mp hr
  exact answers_comment hc defaults

theorem answers_updateIn {a : Pragma Int} (sound : a.Sound) (line : Text) {long : Nat → Prop}
    {cs : List Comment} (each : ∀ c ∈ cs, Answers long (sequenceOf c)) :
    Answers long (updateIn a line cs) := by
  induction cs with
  | nil =>
    rw [updateIn, sound.write]
    exact .ok _
  | cons c rest ih =>
    obtain ⟨here, later⟩ := List.forall_mem_cons.mp each
    apply here.bind
    intro q
    split
    · rw [sound.write]
      exact .ok _
    · exact ih later

theorem answers_update {a : Pragma Int} (sound : a.Sound) (line : Text) :
    Answers (OverlongIn line) (a.update line) := by
  apply answers_updateIn sound
  intro c hc
  exact (answers_sequenceOf c).mono fun _ excess => ⟨c, hc, excess⟩

end Pragma

open Pragma (OverlongIn)

theorem answers_classifyLine (c : Catalogue) (line above : Text) (number : Int)
    (defaults : Pragma Int) :
    Answers (OverlongIn above) (classifyLine c line above number defaults) := by
  apply Answers.mapM
  intro o _
  apply (Pragma.answers_lookupIn o.sequence (Pragma.answers_readings above defaults)).bind
  intro a
  exact .ok _

theorem answers_pointsFrom (c : Catalogue) (above : Text) (number : Nat) (lines : List Text) :
    Answers (fun n => ∃ l ∈ above :: lines, OverlongIn l n) (pointsFrom c above number lines) := by
  induction lines generalizing above number with
  | nil => exact .ok []
  | cons line rest ih =>
    have here := answers_classifyLine c line above number .default
    apply (here.mono fun n excess => ⟨above, List.mem_cons_self, excess⟩).bind
    intro points
    apply ((ih line (number + 1)).mono fun n excess => ?_).bind
    · intro below
      exact .ok (points ++ below)
    · obtain ⟨l, hl, excess⟩ := excess
      exact ⟨l, List.mem_cons_of_mem above hl, excess⟩

theorem answers_ofUnit (u : SourceUnit) (c : Catalogue) :
    Answers (fun n => ∃ l ∈ u.lines, OverlongIn l n) (Survey.ofUnit u c) := by
  apply ((answers_pointsFrom (Survey.catalogueOr c) [] 1 u.lines).mono ?_).bind
  · intro points
    exact .ok _
  · rintro n ⟨l, hl, excess⟩
    rcases List.mem_cons.mp hl with rfl | hl
    · obtain ⟨_, nothing, _⟩ := excess
      cases nothing
    · exact ⟨l, hl, excess⟩

/-- Reading never fails but for a number with too many digits, on a line or in a batch. -/
theorem reading_answers (line : Text) (defaults : Pragma Int) (q : Int) :
    Answers (OverlongIn line) (Pragma.exists? line) ∧
    Answers (OverlongIn line) (Pragma.parse line defaults) ∧
    Answers (OverlongIn line) (Pragma.lookup line q defaults) ∧
    (∀ a : Pragma Int, a.Sound → Answers (OverlongIn line) (a.update line)) ∧
    (∀ (path : Path) (t : Text) (scope : Scope) (c : Catalogue),
      Answers (fun n => ∃ l ∈ (SourceUnit.ofText path t scope).lines, OverlongIn l n)
        (Survey.ofUnit (.ofText path t scope) c)) ∧
    ∀ b : Batch, Answers (fun n => ∃ u ∈ b.units, ∃ l ∈ u.lines, OverlongIn l n)
      (b.units.mapM fun u => Survey.ofUnit u (b.catalogueFor u)) := by
  refine ⟨?_, ?_, ?_, ?_, ?_, ?_⟩
  · exact Pragma.answers_existsIn fun c hc => Pragma.answers_comment hc .default
  · exact Pragma.answers_parse line defaults
  · exact Pragma.answers_lookupIn q (Pragma.answers_readings line defaults)
  · intro a sound
    exact Pragma.answers_update sound line
  · intro path t scope c
    exact answers_ofUnit _ c
  · intro b
    apply Answers.mapM
    intro u hu
    exact (answers_ofUnit u (b.catalogueFor u)).mono fun n excess => ⟨u, hu, excess⟩

/-- A digit that is none of ASCII's, delays the wrong way round, and a list without a key. -/
def oddLine : Text :=
  "/*@preemptionpoint(sequence=²)*/ a(); /* @PreemptionPoint (low = 9, high = 3) */".toList ++
    "/*@PreemptionPoint (sequence = 1, nap)*/".toList

theorem oddLine_answers :
    (∀ c ∈ Pragma.comments oddLine, Pragma.Legible c.value) ∧
    Pragma.exists? oddLine = .ok false ∧
    (∃ r, Pragma.parse oddLine = .ok r) ∧ (∃ r, Pragma.lookup oddLine 1 = .ok r) ∧
    (⟨1, ⟨30, .sleep 5 60⟩⟩ : Pragma Int).Sound ∧
    ∃ line, (⟨1, ⟨30, .sleep 5 60⟩⟩ : Pragma Int).update oddLine = .ok line := by
  have legible : ∀ c ∈ Pragma.comments oddLine, Pragma.Legible c.value := by decide +kernel
  have none : ∀ n, ¬ OverlongIn oddLine n := by
    rintro n ⟨c, hc, excess⟩
    exact (legible c hc).not_excessive n excess
  have sound : (⟨1, ⟨30, .sleep 5 60⟩⟩ : Pragma Int).Sound := by decide +kernel
  obtain ⟨_, parse, lookup, update, _⟩ := reading_answers oddLine .default 1
  exact ⟨legible, by decide +kernel, parse.exists_ok none, lookup.exists_ok none, sound,
    (update _ sound).exists_ok none⟩

section Refused

def numberedLine (digits : Text) : Text :=
  "/* @PreemptionPoint (".toList ++ ("sequence = ".toList ++ digits) ++ ") */".toList

variable {digits : Text} (all : ∀ c ∈ digits, c.isDigit = true)
include all

theorem foreign_to_number {c : Char} (foreign : c ∉ "sequence = ".toList)
    (nonDigit : c.isDigit = false) : c ∉ "sequence = ".toList ++ digits := by
  intro mem
  rcases List.mem_append.mp mem with mem | mem
  · exact foreign mem
  · simp [all c mem] at nonDigit

theorem oneLine_numberedLine : OneLine (numberedLine digits) := by
  have foreign (c : Char) (front : c ∉ "/* @PreemptionPoint (".toList)
      (key : c ∉ "sequence = ".toList) (back : c ∉ ") */".toList)
      (nonDigit : c.isDigit = false) : c ∉ numberedLine digits := by
    have number := foreign_to_number all key nonDigit
    intro mem
    rcases List.mem_append.mp mem with mem | mem
    · rcases List.mem_append.mp mem with mem | mem
      · exact front mem
      · exact number mem
    · exact back mem
  constructor
  · exact foreign '\r' (by decide) (by decide) (by decide) (by decide)
  · exact foreign '\n' (by decide) (by decide) (by decide) (by decide)

theorem comments_numberedLine : Pragma.comments (numberedLine digits) =
    [⟨0, (numberedLine digits).length, some ("sequence = ".toList ++ digits)⟩] := by
  apply Pragma.Spelled.comments
  apply Pragma.spelled_list
  exact foreign_to_number all (by decide) (by decide)

variable (many : Decimal.digitLimit < digits.length)
include many

theorem ofList_overlong (defaults : Pragma Int) :
    Pragma.ofList (some ("sequence = ".toList ++ digits)) defaults =
      .error (.tooManyDigits digits.length) := by
  have some : digits ≠ [] := by
    rintro rfl
    exact absurd many (by decide)
  have refused : Settings.number? (' ' :: digits) = .error (.tooManyDigits digits.length) := by
    rw [Settings.number?_digits some all, Decimal.read, if_pos many]
  have whole : Text.splitOn [','] ("sequence = ".toList ++ digits) =
      ["sequence = ".toList ++ digits] := by
    apply Text.splitOn_of_not_infix
    intro inside
    exact foreign_to_number all (by decide) (by decide) (inside.subset List.mem_cons_self)
  have item : Settings.item {} ("sequence = ".toList ++ digits) =
      .error (.tooManyDigits digits.length) := by
    have front : "sequence = ".toList = "sequence ".toList ++ ['=', ' '] := by decide +kernel
    have named : Settings.keyOf "sequence ".toList = Settings.Key.sequence.name := by decide +kernel
    have read := Settings.item_named {} (' ' :: digits) (by decide +kernel) named
    rw [Settings.Key.read, refused] at read
    rw [front, List.append_assoc]
    exact read
  have there : ("sequence = ".toList ++ digits).isEmpty = false := rfl
  rw [Pragma.ofList, Option.getD_some, Settings.ofList, there, whole, Settings.items, item]
  rfl

theorem refused_numberedLine (q : Int) (a : Pragma Int) :
    Pragma.exists? (numberedLine digits) = .error (.tooManyDigits digits.length) ∧
    Pragma.parse (numberedLine digits) = .error (.tooManyDigits digits.length) ∧
    Pragma.lookup (numberedLine digits) q = .error (.tooManyDigits digits.length) ∧
    a.update (numberedLine digits) = .error (.tooManyDigits digits.length) := by
  have refused := ofList_overlong all many .default
  unfold Pragma.exists? Pragma.parse Pragma.lookup Pragma.readings Pragma.update
  simp only [comments_numberedLine all, List.map_cons, Pragma.existsIn, Pragma.lookupIn,
    Pragma.updateIn, Pragma.sequenceOf, refused]
  exact ⟨rfl, trivial, rfl, rfl⟩

def numberedUnit (digits : Text) : SourceUnit where
  path := .ofText "A.java".toList
  lines := [numberedLine digits, "x.lock();".toList]

theorem refused_numberedUnit :
    Survey.ofUnit (.ofText (numberedUnit digits).path (numberedUnit digits).text) .default =
      .error (.tooManyDigits digits.length) := by
  have plain : ∀ l ∈ (numberedUnit digits).lines, OneLine l := by
    intro l hl
    rcases List.mem_cons.mp hl with rfl | hl
    · exact oneLine_numberedLine all
    · rw [List.mem_singleton.mp hl]
      constructor <;> decide
  have lines : (SourceUnit.ofText (numberedUnit digits).path (numberedUnit digits).text).lines =
      [numberedLine digits, "x.lock();".toList] :=
    (SourceUnit.faithful_plain rfl rfl (List.cons_ne_nil _ _) plain).lines_ofText _ _
  have nothing : ∀ n, ¬ OverlongIn [] n := by
    rintro n ⟨_, found, _⟩
    cases found
  obtain ⟨here, first⟩ :=
    (answers_classifyLine .default (numberedLine digits) [] (1 : Nat) .default).exists_ok nothing
  have second : classifyLine .default "x.lock();".toList (numberedLine digits) (2 : Nat) =
      .error (.tooManyDigits digits.length) := by
    have site : Catalogue.default.scanLine "x.lock();".toList =
        [⟨.mutualExclusion, ".lock(".toList, 1, 0⟩] := by decide +kernel
    have refused : Pragma.lookupIn ((0 : Nat) : Int) (Pragma.readings (numberedLine digits)) = _ :=
      (refused_numberedLine all many 0 .default).2.2.1
    simp only [classifyLine, site, List.mapM_cons, Occurrence.point, refused]
    rfl
  have points : pointsFrom .default [] 1 [numberedLine digits, "x.lock();".toList] =
      .error (.tooManyDigits digits.length) := by
    simp only [pointsFrom, first, second, bind, Except.bind]
  rw [Survey.ofUnit, lines]
  exact congrArg (· >>= _) points

end Refused

/-- Zeros count as digits, too. -/
def zeros : Text := List.replicate 4301 '0'

theorem zeros_refused :
    Pragma.exists? (numberedLine zeros) = .error (.tooManyDigits 4301) ∧
    Pragma.parse (numberedLine zeros) = .error (.tooManyDigits 4301) ∧
    Pragma.lookup (numberedLine zeros) 0 = .error (.tooManyDigits 4301) ∧
    (⟨0, ⟨50, .yield⟩⟩ : Pragma Int).update (numberedLine zeros) = .error (.tooManyDigits 4301) ∧
    Survey.ofUnit (.ofText (numberedUnit zeros).path (numberedUnit zeros).text) .default =
      .error (.tooManyDigits 4301) := by
  have all : ∀ c ∈ zeros, c.isDigit = true := by
    intro c hc
    rw [List.eq_of_mem_replicate hc]
    rfl
  have count : zeros.length = 4301 := List.length_replicate
  have many : Decimal.digitLimit < zeros.length := by
    rw [count]
    decide
  rw [← count]
  obtain ⟨noneExists, noParse, noLookup, noUpdate⟩ :=
    refused_numberedLine all many 0 (⟨0, ⟨50, .yield⟩⟩ : Pragma Int)
  exact ⟨noneExists, noParse, noLookup, noUpdate, refused_numberedUnit all many⟩

end SchedulingNoise
