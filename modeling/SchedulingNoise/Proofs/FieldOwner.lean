import SchedulingNoise.Proofs.HeadSearch
import SchedulingNoise.Proofs.LineNumbers
import SchedulingNoise.Proofs.Placement

/-! The type that declares the shared field. Noise refers to the field through the first type of the
lines; the field is declared in the first type of the text with noise. They are the same type if no
noise falls into the head of one, or makes a head of what is none. -/
namespace SchedulingNoise

section Statement

theorem Java.opensBody_behind {u : Text} (brace : '\x7b' ∉ u) (semicolon : ';' ∉ u) (v : Text) :
    opensBody (u ++ '\x7b' :: v) = true := by
  have passed : ∀ c ∈ u, (c ≠ '\x7b' && c ≠ ';') = true := by
    intro c hc
    have first : c ≠ '\x7b' := fun eq => brace (eq ▸ hc)
    have second : c ≠ ';' := fun eq => semicolon (eq ▸ hc)
    simp [first, second]
  unfold opensBody
  rw [List.dropWhile_append_of_pos passed]
  rfl

def conditionChar (c : Char) : Bool := Java.isNameChar c || c.isDigit || " ()<-".toList.contains c

theorem conditionChar_ofInt (n : Int) : ∀ c ∈ Decimal.ofInt n, conditionChar c = true := by
  intro c hc
  rcases Decimal.mem_ofInt hc with rfl | digit
  · decide
  · simp [conditionChar, digit]

variable {r : RandomField} (reference : ∀ c ∈ r.reference, Java.isNameChar c = true)
include reference

theorem noiseLike_statement {n : Noise Int} {t : Text} (h : n.statement r = .ok t) :
    Java.NoiseLike t := by
  have foreign : ∀ c, Java.isNameChar c = false → c ∉ r.reference := by
    intro c other mem
    rw [reference c mem] at other
    cases other
  have flat := (oneLine_statement ⟨foreign _ (by decide), foreign _ (by decide)⟩ h).2
  obtain ⟨action, _, h⟩ := bind_eq_ok.mp h
  obtain ⟨chance, likely, h⟩ := bind_eq_ok.mp h
  obtain ⟨_, rfl⟩ := Amount.write_int.mp likely
  cases h
  have condition : ∀ c ∈ "if (".toList ++ r.reference ++ ".nextInt(100) < ".toList ++
      Decimal.ofInt n.probability ++ ") ".toList, conditionChar c = true := by
    have named : ∀ c ∈ r.reference, conditionChar c = true := by
      intro c hc
      simp [conditionChar, reference c hc]
    have written : ∀ t : Text, t.all conditionChar = true → ∀ c ∈ t, conditionChar c = true :=
      fun _ => List.all_eq_true.mp
    simp only [List.forall_mem_append]
    exact ⟨⟨⟨⟨written _ (by decide), named⟩, written _ (by decide)⟩, conditionChar_ofInt _⟩,
      written _ (by decide)⟩
  refine ⟨⟨r.reference ++ ".nextInt(100".toList, Decimal.ofInt n.probability ++
    (") \x7b ".toList ++ action ++ " \x7d ".toList), by simp, ?_⟩, ?_, flat⟩
  · have absent := foreign ')' (by decide)
    simp [absent]
  · have opens := Java.opensBody_behind
      (fun mem => absurd (condition _ mem) (by decide))
      (fun mem => absurd (condition _ mem) (by decide)) (' ' :: action ++ " \x7d ".toList)
    simpa using opens

end Statement

theorem reference_randomField (s : Survey) :
    ∀ c ∈ (s.randomField {}).reference, Java.isNameChar c = true := by
  have field : ∀ c ∈ ({} : RandomField).field, Java.isNameChar c = true :=
    List.all_eq_true.mp (by decide)
  unfold Survey.randomField
  split
  · rename_i m found
    have words := Java.firstType?_name found
    unfold RandomField.reference
    dsimp only
    split
    · exact field
    · intro c hc
      rcases List.mem_append.mp hc with hc | hc
      · simp [Java.isNameChar, words c hc]
      · rcases List.mem_cons.mp hc with rfl | hc
        · decide
        · exact field c hc
  · exact field

namespace Survey

def placesFrom (s : Survey) (points : List (Point α)) :
    (number pos : Nat) → List Text → List Nat
  | _, _, [] => []
  | number, pos, line :: rest =>
    (points.filter (·.line = (number : Int))).map (fun p => pos + p.place line s.catalogue) ++
      s.placesFrom points (number + 1) (pos + line.length + 1) rest

def noisePlaces (s : Survey) (points : List (Point α)) : List Nat :=
  s.placesFrom points 1 0 s.unit.lines

theorem le_of_mem_placesFrom {s : Survey} {points : List (Point α)} {number pos : Nat}
    {lines : List Text} {i : Nat} (h : i ∈ s.placesFrom points number pos lines) : pos ≤ i := by
  induction lines generalizing number pos with
  | nil => cases h
  | cons line rest ih =>
    rcases List.mem_append.mp h with h | h
    · obtain ⟨p, _, rfl⟩ := List.mem_map.mp h
      exact Nat.le_add_right pos _
    · have later := ih h
      omega

section Inserts

variable {s : Survey} {points : List (Point Int)} {r : RandomField}
  (reference : ∀ c ∈ r.reference, Java.isNameChar c = true)
include reference

theorem interleavedLine_inserts {number : Nat} {line out : Text}
    (h : s.interleavedLine points r number line = .ok out) :
    ∃ inserts : Inserts, out = inserts.interleave 0 line ∧ (∀ i ∈ inserts, Java.NoiseLike i.2) ∧
      inserts.map (·.1) =
        (points.filter (·.line = (number : Int))).map (·.place line s.catalogue) := by
  unfold interleavedLine at h
  cases made : (points.filter (·.line = (number : Int))).mapM
      (Point.insertFor line s.catalogue r) with
  | error e =>
    rw [made] at h
    cases h
  | ok inserts =>
    rw [made] at h
    cases h
    have each := mapM_eq_ok.mp made
    refine ⟨inserts, rfl, fun i hi => ?_, ?_⟩
    · obtain ⟨p, _, put⟩ := exists_of_mem_right each hi
      obtain ⟨t, text, put⟩ := bind_eq_ok.mp put
      cases put
      unfold Point.noiseText at text
      cases noise : p.noise with
      | none =>
        rw [noise] at text
        cases text
      | some n =>
        rw [noise] at text
        exact noiseLike_statement reference text
    · clear made
      generalize points.filter (·.line = (number : Int)) = ps at each
      induction each with
      | nil => rfl
      | cons put _ ih =>
        obtain ⟨t, _, put⟩ := bind_eq_ok.mp put
        cases put
        rw [List.map_cons, List.map_cons, ih]

/-- Lines with noise put together are the lines put together, with the noise at its offsets. -/
theorem exists_inserts (pos : Nat) {number : Nat} {lines out : List Text}
    (h : (lines.zipIdx number).mapM (fun l => s.interleavedLine points r l.2 l.1) = .ok out) :
    ∃ ins : Inserts, ins.map (·.1) = s.placesFrom points number pos lines ∧
      (∀ i ∈ ins, Java.NoiseLike i.2) ∧
      ins.interleave pos (Text.join ['\n'] lines) = Text.join ['\n'] out := by
  induction lines generalizing number pos out with
  | nil =>
    cases h
    exact ⟨[], rfl, by simp, rfl⟩
  | cons line rest ih =>
    rw [List.zipIdx_cons, List.mapM_cons] at h
    obtain ⟨here, first, h⟩ := bind_eq_ok.mp h
    obtain ⟨below, others, h⟩ := bind_eq_ok.mp h
    cases h
    obtain ⟨inserts, rfl, noise, places⟩ := interleavedLine_inserts reference first
    obtain ⟨ins, places', noise', woven⟩ := ih (pos + line.length + 1) others
    -- The noise of the first line is in front of its line feed, that of the others behind it.
    have low : ∀ i ∈ inserts.map fun i => (pos + i.1, i.2), i.1 ≤ pos + line.length := by
      intro i hi
      obtain ⟨j, hj, rfl⟩ := List.mem_map.mp hi
      have mem : j.1 ∈ inserts.map (·.1) := List.mem_map_of_mem hj
      rw [places] at mem
      obtain ⟨p, _, eq⟩ := List.mem_map.mp mem
      rw [← eq]
      exact Nat.add_le_add_left (p.place_le line s.catalogue) pos
    have high : ∀ i ∈ ins, pos + line.length < i.1 := by
      intro i hi
      have mem : i.1 ∈ ins.map (·.1) := List.mem_map_of_mem hi
      rw [places'] at mem
      exact le_of_mem_placesFrom mem
    have shifted := Inserts.interleave_shift inserts pos 0 line
    refine ⟨inserts.map (fun i => (pos + i.1, i.2)) ++ ins, ?_, ?_, ?_⟩
    · rw [List.map_append, places', List.map_map, placesFrom]
      congr 1
      have moved := congrArg (List.map (pos + ·)) places
      rwa [List.map_map, List.map_map] at moved
    · intro i hi
      rcases List.mem_append.mp hi with hi | hi
      · obtain ⟨j, hj, rfl⟩ := List.mem_map.mp hi
        exact noise j hj
      · exact noise' i hi
    · cases rest with
      | nil =>
        cases others
        have none : ins = [] := List.map_eq_nil_iff.mp places'
        rw [none, List.append_nil]
        simpa [Text.join] using shifted
      | cons line' rest =>
        have some : below ≠ [] := by
          rintro rfl
          have empty := List.forall₂_nil_right_iff.mp (mapM_eq_ok.mp others)
          simp at empty
        rw [Text.join_cons _ _ (List.cons_ne_nil line' rest), Text.join_cons _ _ some,
          List.append_assoc, List.append_assoc, List.singleton_append, List.singleton_append,
          Inserts.interleave_append low high, woven]
        congr 1

end Inserts

end Survey

theorem Survey.ownOn {u : SourceUnit} {c : Catalogue} {s : Survey}
    (scanned : Survey.ofUnit u c = .ok s) {p : Point Int} {q : Point Int} {n : Noise Int}
    (found : q ∈ s.points) (eq : p = q.withNoise (some n)) {i : Nat} {line : Text}
    (at_ : u.lines[i]? = some line) (number : p.line = (1 + i : Nat)) :
    p.OwnOn s.catalogue line := by
  obtain ⟨i', line', o, at', number', mem, matched⟩ := Survey.own_of_survey scanned found
  have same : p.line = q.line := eq ▸ rfl
  have index : i = i' := by omega
  rw [index, at'] at at_
  cases at_
  exact ⟨o, mem, eq ▸ ⟨matched.sequence, matched.kind, matched.trigger⟩⟩

/-- The field is declared in the type that noise refers to it through. -/
theorem field_owner_kept {path : Path} {t : Text} {scope : Scope} {c : Catalogue} {s : Survey}
    (scanned : Survey.ofUnit (.ofText path t scope) c = .ok s) {points : List (Point Int)}
    (own : ∀ p ∈ points, ∃ q ∈ s.points, ∃ n, p = q.withNoise (some n)) {lines : List Text}
    (noisy : s.instrumentedLines points {} = .ok lines)
    (clear : Java.Clear (s.noisePlaces points) true 0 (Text.join ['\n'] s.unit.lines)) :
    (Java.firstType? (s.unit.assemble lines)).map (Java.declared (s.unit.assemble lines)) =
      (Java.firstType? (Text.join ['\n'] s.unit.lines)).map
        (Java.declared (Text.join ['\n'] s.unit.lines)) := by
  obtain ⟨unit, _, _⟩ := Survey.of_ofUnit scanned
  have lined := (SourceUnit.ofText_lines path t scope).1
  have each : s.instrumentedLines points {} = (s.unit.lines.zipIdx 1).mapM fun l =>
      s.interleavedLine points (s.randomField {}) l.2 l.1 := by
    refine (Survey.instrumentedFrom_eq (fun p hp => ?_) fun p hp i line at_ number => ?_).1
    · obtain ⟨q, _, n, rfl⟩ := own p hp
      rfl
    · obtain ⟨q, hq, n, eq⟩ := own p hp
      rw [unit] at at_
      exact Survey.ownOn scanned hq eq at_ number
  rw [each] at noisy
  obtain ⟨ins, places, noise, woven⟩ :=
    Survey.exists_inserts (reference_randomField s) 0 noisy
  rw [Survey.noisePlaces, ← places] at clear
  rw [← unit] at lined
  calc
    _ = Java.search true 0 (s.unit.assemble lines) := Java.firstType?_search _
    _ = Java.search true 0 (Text.join ['\n'] lines) :=
      Java.search_returned (Java.returned_assemble lined.newline lines) true 0
    _ = Java.search true 0 (Text.join ['\n'] s.unit.lines) := by
      rw [← woven]
      exact Java.search_interleave noise clear 0
    _ = _ := (Java.firstType?_search _).symm

/-- Noise in a comment, in a head behind the name, and in a body, with pairs at the ends of
lines. -/
def gateUnit : SourceUnit :=
  .ofText (.ofText "Gate.java".toList)
    ("/* take\r\nx.lock() first */\r\n@Tag(\x7b1, 2\x7d) public class Gate\r\n".toList ++
      "extends Base // y.lock()\r\n\x7b void f() \x7b z.lock(); \x7d \x7d\r\n".toList)

def gateNoise : List (Point Int) :=
  [⟨2, 0, .mutualExclusion, ".lock(".toList, some ⟨50, .yield⟩⟩,
    ⟨4, 0, .mutualExclusion, ".lock(".toList, some ⟨50, .sleep 5 9⟩⟩,
    ⟨5, 0, .mutualExclusion, ".lock(".toList, some ⟨50, .yield⟩⟩]

def gateSurvey : Survey := ⟨gateUnit, .default, gateNoise.map (·.withNoise none)⟩

theorem gateSurvey_owner :
    Survey.ofUnit gateUnit .default = .ok gateSurvey ∧
    Java.Clear (gateSurvey.noisePlaces gateNoise) true 0 (Text.join ['\n'] gateUnit.lines) ∧
    ∃ lines, gateSurvey.instrumentedLines gateNoise {} = .ok lines ∧
      (Java.firstType? (gateUnit.assemble lines)).map (Java.declared (gateUnit.assemble lines)) =
        some ("Gate".toList, 2) := by
  have found : pointsFrom .default [] 1 gateUnit.lines = .ok gateSurvey.points := by decide +kernel
  have scanned : Survey.ofUnit gateUnit .default = .ok gateSurvey :=
    bind_eq_ok.mpr ⟨_, found, rfl⟩
  have own : ∀ p ∈ gateNoise, ∃ q ∈ gateSurvey.points, ∃ n, p = q.withNoise (some n) := by
    simp [gateNoise, gateSurvey, Point.withNoise]
  have clear : Java.Clear (gateSurvey.noisePlaces gateNoise) true 0
      (Text.join ['\n'] gateUnit.lines) := by decide +kernel
  have owner : (Java.firstType? (Text.join ['\n'] gateUnit.lines)).map
      (Java.declared (Text.join ['\n'] gateUnit.lines)) = some ("Gate".toList, 2) := by
    decide +kernel
  have written : (gateSurvey.instrumentedLines gateNoise {}).isOk := by decide +kernel
  refine ⟨scanned, clear, ?_⟩
  cases noisy : gateSurvey.instrumentedLines gateNoise {} with
  | error e =>
    rw [noisy] at written
    cases written
  | ok lines => exact ⟨lines, rfl, (field_owner_kept scanned own noisy clear).trans owner⟩

def remarkUnit : SourceUnit :=
  .ofText (.ofText "A.java".toList) "class A // x.lock()\n\x7b \x7d\n".toList

def remarkNoise : List (Point Int) :=
  [⟨1, 0, .mutualExclusion, ".lock(".toList, some ⟨50, .yield⟩⟩]

def remarkSurvey : Survey := ⟨remarkUnit, .default, remarkNoise.map (·.withNoise none)⟩

/-- Noise in front of a head hides the type that it refers to. -/
theorem remarkSurvey_ownerless :
    pointsFrom .default [] 1 remarkUnit.lines = .ok remarkSurvey.points ∧
    (remarkSurvey.randomField {}).owner = some "A".toList ∧
    (remarkSurvey.instrumentedLines remarkNoise {}).map
      (fun lines => Java.firstType? (remarkUnit.assemble lines)) = .ok none := by
  decide +kernel

end SchedulingNoise
