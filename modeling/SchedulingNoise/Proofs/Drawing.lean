import SchedulingNoise.Proofs.Generation

/-! Draws and points. Units that share a generator take one draw for each of their points in
scope, in order, and no other, so that the draws decide the noise of all units. -/
namespace SchedulingNoise

namespace Generator

/-- Draws in order, and the generator after them. -/
inductive Gives : Generator → List Int → Generator → Prop
  | done (g : Generator) : Gives g [] g
  | next {g g₁ g₂ : Generator} {d : Int} {ds : List Int} (drawn : draw g = .ok d g₁)
      (later : Gives g₁ ds g₂) : Gives g (d :: ds) g₂

theorem Gives.split {g g₂ : Generator} {ds es : List Int} (h : Gives g (ds ++ es) g₂) :
    ∃ g₁, Gives g ds g₁ ∧ Gives g₁ es g₂ := by
  induction ds generalizing g with
  | nil => exact ⟨g, .done g, h⟩
  | cons d ds ih =>
    cases h with
    | next drawn later =>
      obtain ⟨g₁, first, second⟩ := ih later
      exact ⟨g₁, .next drawn first, second⟩

theorem gives_script (ds rest : List Int) : Gives (.script (ds ++ rest)) ds (.script rest) := by
  induction ds with
  | nil => exact .done _
  | cons d ds ih => exact .next rfl ih

end Generator

theorem exists_split {ds : List α} {n : Nat} (enough : n ≤ ds.length) :
    ∃ own others, ds = own ++ others ∧ own.length = n :=
  ⟨ds.take n, ds.drop n, (List.take_append_drop n ds).symm, List.length_take_of_le enough⟩

def Policy.noisy [Amount α] (p : Policy Int) (pt : Point β) (d : Int) : Point α where
  line := pt.line
  sequence := pt.sequence
  kind := pt.kind
  trigger := pt.trigger
  noise := some {
    probability := Amount.ofInt (p.probability pt.kind)
    action := if d < p.sleepProbability then
        .sleep (Amount.ofInt p.delayLow) (Amount.ofInt p.delayHigh)
      else .yield }

section Draws

open Generator

variable [Amount α] [IntegerAmount α] (p : Policy Int) {points : List (Point β)}
  {g g' : Generator} {ds : List Int}

omit [IntegerAmount α] in
theorem withNoise_kindOf (pt : Point β) (d : Int) :
    pt.withNoise (some ((p.map (Amount.ofInt : Int → α)).noise pt.kind (p.kindOf d))) =
      p.noisy pt d := by
  unfold Policy.kindOf Policy.noisy
  by_cases sleeps : d < p.sleepProbability
  · rw [if_pos sleeps, if_pos sleeps]
    rfl
  · rw [if_neg sleeps, if_neg sleeps]
    rfl

theorem drawNoise_gives (gives : Gives g ds g') (count : ds.length = points.length) :
    drawNoise (p.map (Amount.ofInt : Int → α)) points g =
      .ok (List.zipWith p.noisy points ds) g' := by
  induction points generalizing g ds with
  | nil =>
    cases gives with
    | done => rfl
    | next => cases count
  | cons pt rest ih =>
    cases gives with
    | done => cases count
    | next drawn later =>
      have others := ih later (Nat.succ.inj count)
      rw [drawNoise, bind_ok (p.chooseKind_eq drawn), bind_ok others, withNoise_kindOf]
      rfl

theorem drawNoise_short (few : ds.length < points.length) :
    drawNoise (p.map (Amount.ofInt : Int → α)) points (.script ds) =
      .error .outOfRange (.script []) := by
  induction points generalizing ds with
  | nil => cases few
  | cons pt rest ih =>
    cases ds with
    | nil => rfl
    | cons d ds =>
      have others := ih (Nat.lt_of_succ_lt_succ few)
      have drawn : draw (.script (d :: ds)) = .ok d (.script ds) := rfl
      rw [drawNoise, bind_ok (p.chooseKind_eq drawn), bind_error others]

end Draws

def Point.bare (p : Point α) : Point Int := p.withNoise none

theorem drawNoise_bare [Amount α] (p : Policy α) (points : List (Point β)) :
    drawNoise p (points.map Point.bare) = drawNoise p points := by
  induction points with
  | nil => rfl
  | cons pt rest ih =>
    rw [List.map_cons, drawNoise, drawNoise, ih]
    rfl

theorem pointsInScope_bare (u : SourceUnit) (points : List (Point α)) :
    u.pointsInScope (points.map Point.bare) = (u.pointsInScope points).map (·.map Point.bare) := by
  induction points with
  | nil => rfl
  | cons pt rest ih =>
    have line : pt.bare.line = pt.line := rfl
    rw [List.map_cons, SourceUnit.pointsInScope, SourceUnit.pointsInScope, ih, line]
    cases u.inScope pt.line with
    | error f => rfl
    | ok inside =>
      cases u.pointsInScope rest with
      | error f => rfl
      | ok others => cases inside <;> rfl

namespace Survey

def within (s : Survey) : List (Point Int) :=
  s.points.filter fun p => (s.unit.inScope p.line).toOption = some true

theorem inScope_eq {s : Survey} (numeric : s.unit.scope.Numeric) : s.inScope = .ok s.within := by
  unfold inScope within
  induction s.points with
  | nil => rfl
  | cons p rest ih =>
    obtain ⟨b, here⟩ := numeric.exists_contains s.unit.lines.length p.line
    have inside : s.unit.inScope p.line = .ok b := here
    rw [SourceUnit.pointsInScope, inside, ih]
    cases b with
    | false => simp [inside, Except.toOption, bind, Except.bind, pure, Except.pure]
    | true => simp [inside, Except.toOption, bind, Except.bind, pure, Except.pure]

def generateAll [Amount α] (p : Policy α) (surveys : List Survey) : Draws (List (List (Point α))) :=
  surveys.mapM (·.generate p)

section All

open Generator

variable [Amount α] [IntegerAmount α] (p : Policy Int)

omit [IntegerAmount α] in
theorem generate_eq {s : Survey} (numeric : s.unit.scope.Numeric) (p : Policy α) :
    s.generate p = drawNoise p s.within := by
  rw [generate, inScope_eq numeric]

theorem generateAll_gives {surveys : List Survey} (numeric : ∀ s ∈ surveys, s.unit.scope.Numeric)
    {g g' : Generator} {ds : List Int} (gives : Gives g ds g')
    (count : ds.length = (surveys.flatMap within).length) :
    ∃ parts, generateAll (p.map (Amount.ofInt : Int → α)) surveys g = .ok parts g' ∧
      parts.map List.length = surveys.map (·.within.length) ∧
      parts.flatten = List.zipWith p.noisy (surveys.flatMap within) ds := by
  induction surveys generalizing g ds with
  | nil =>
    cases gives with
    | done => exact ⟨[], rfl, rfl, rfl⟩
    | next => cases count
  | cons s rest ih =>
    obtain ⟨here, later⟩ := List.forall_mem_cons.mp numeric
    rw [List.flatMap_cons, List.length_append] at count
    have enough : s.within.length ≤ ds.length := by omega
    obtain ⟨own, others, rfl, first⟩ := exists_split enough
    rw [List.length_append] at count
    obtain ⟨g₁, before, after⟩ := gives.split
    obtain ⟨parts, run, sizes, noisy⟩ := ih later after (by omega)
    have drawn := drawNoise_gives (α := α) p before first
    rw [← generate_eq here] at drawn
    refine ⟨List.zipWith p.noisy s.within own :: parts, ?_, ?_, ?_⟩
    · unfold generateAll at run ⊢
      rw [List.mapM_cons, bind_ok drawn, bind_ok run]
      rfl
    · rw [List.map_cons, List.map_cons, sizes, List.length_zipWith, first, Nat.min_self]
    · rw [List.flatten_cons, noisy, List.flatMap_cons, List.zipWith_append first.symm]

theorem generateAll_short {surveys : List Survey} (numeric : ∀ s ∈ surveys, s.unit.scope.Numeric)
    {ds : List Int} (few : ds.length < (surveys.flatMap within).length) :
    generateAll (p.map (Amount.ofInt : Int → α)) surveys (.script ds) =
      .error .outOfRange (.script []) := by
  induction surveys generalizing ds with
  | nil => cases few
  | cons s rest ih =>
    obtain ⟨here, later⟩ := List.forall_mem_cons.mp numeric
    rw [List.flatMap_cons, List.length_append] at few
    unfold generateAll at ih ⊢
    rw [List.mapM_cons]
    by_cases short : ds.length < s.within.length
    · have failed := drawNoise_short (α := α) p short
      rw [← generate_eq here] at failed
      rw [bind_error failed]
    · obtain ⟨own, others, rfl, first⟩ := exists_split (Nat.le_of_not_lt short)
      rw [List.length_append] at few
      have drawn := drawNoise_gives (α := α) p (gives_script own others) first
      rw [← generate_eq here] at drawn
      rw [bind_ok drawn, bind_error (ih later (by omega))]

end All

/-- Surveys of one unit with the same points, whatever noise these carry. -/
structure Alike (s s' : Survey) : Prop where
  unit : s.unit = s'.unit
  points : s.points.map Point.bare = s'.points.map Point.bare

theorem Alike.inScope_bare {s s' : Survey} (alike : s.Alike s') :
    s.inScope.map (·.map Point.bare) = s'.inScope.map (·.map Point.bare) := by
  rw [inScope, inScope, ← pointsInScope_bare, ← pointsInScope_bare, alike.unit, alike.points]

theorem Alike.generate_eq {s s' : Survey} (alike : s.Alike s') [Amount α] (p : Policy α) :
    s.generate p = s'.generate p := by
  have same := alike.inScope_bare
  unfold generate
  cases inside : s.inScope with
  | error f =>
    cases inside' : s'.inScope with
    | error f' =>
      rw [inside, inside'] at same
      cases same
      rfl
    | ok points =>
      rw [inside, inside'] at same
      cases same
  | ok points =>
    cases inside' : s'.inScope with
    | error f =>
      rw [inside, inside'] at same
      cases same
    | ok points' =>
      rw [inside, inside'] at same
      have bare : points.map Point.bare = points'.map Point.bare := Except.ok.inj same
      calc drawNoise p points
          = drawNoise p (points.map Point.bare) := (drawNoise_bare p points).symm
        _ = drawNoise p (points'.map Point.bare) := by rw [bare]
        _ = drawNoise p points' := drawNoise_bare p points'

theorem generateAll_alike [Amount α] (p : Policy α) {surveys surveys' : List Survey}
    (alike : List.Forall₂ Alike surveys surveys') :
    generateAll p surveys = generateAll p surveys' := by
  unfold generateAll
  induction alike with
  | nil => rfl
  | cons first _ ih => rw [List.mapM_cons, List.mapM_cons, first.generate_eq, ih]

/-- For units that share a generator, the points in scope get the noise of one draw each, in order,
and no other draw is taken. Noise that they had before makes no difference. If there are too few
draws, the run fails at their end. -/
theorem one_draw_for_each_point [Amount α] [IntegerAmount α] (p : Policy Int)
    (surveys : List Survey) (numeric : ∀ s ∈ surveys, s.unit.scope.Numeric) (draws : List Int) :
    ((surveys.flatMap within).length ≤ draws.length →
      ∃ parts, generateAll (p.map (Amount.ofInt : Int → α)) surveys (.script draws) =
          .ok parts (.script (draws.drop (surveys.flatMap within).length)) ∧
        parts.map List.length = surveys.map (·.within.length) ∧
        parts.flatten = List.zipWith p.noisy (surveys.flatMap within) draws) ∧
    (draws.length < (surveys.flatMap within).length →
      generateAll (p.map (Amount.ofInt : Int → α)) surveys (.script draws) =
        .error .outOfRange (.script [])) ∧
    ∀ surveys' g, List.Forall₂ Alike surveys surveys' →
      generateAll (p.map (Amount.ofInt : Int → α)) surveys' g =
        generateAll (p.map (Amount.ofInt : Int → α)) surveys g := by
  refine ⟨fun enough => ?_, generateAll_short p numeric, fun surveys' g alike => ?_⟩
  · obtain ⟨ds, rest, rfl, count⟩ := exists_split enough
    obtain ⟨parts, run, sizes, noisy⟩ :=
      generateAll_gives (α := α) p numeric (Generator.gives_script ds rest) count
    refine ⟨parts, ?_, sizes, ?_⟩
    · rw [run, List.drop_left' count]
    · have whole : List.zipWith p.noisy (surveys.flatMap within ++ []) (ds ++ rest) =
          (List.zipWith p.noisy (surveys.flatMap within) ds ++ [] : List (Point α)) :=
        List.zipWith_append count.symm
      rw [List.append_nil, List.append_nil] at whole
      exact noisy.trans whole.symm
  · rw [generateAll_alike _ alike]

/-- Of the first unit the last point is out of scope; the point of the second carries noise. -/
def twoUnits : List Survey :=
  [{ unit := {
      path := .ofText "A.java".toList, lines := [[], [], []], scope := { upper := .int 70 } }
     catalogue := .default
     points := [⟨1, 0, .mutualExclusion, ".lock(".toList, none⟩,
       ⟨3, 0, .latch, ".countDown(".toList, none⟩] },
   { unit := { path := .ofText "B.java".toList, lines := [[]] }
     catalogue := .default
     points := [⟨1, 2, .barrier, ".reset(".toList, some ⟨5, .sleep 1 2⟩⟩] }]

def unevenPolicy : Policy Int where
  probability kind := if kind = .barrier then 30 else 60
  sleepProbability := 50
  delayLow := 5
  delayHigh := 60

theorem one_draw_for_each_point_twoUnits :
    (∃ parts, generateAll (unevenPolicy.map Json.int) twoUnits (.script [99, 49, 7]) =
        .ok parts (.script [7]) ∧ parts.map List.length = [1, 1] ∧
      parts.flatten = [
        ⟨1, 0, .mutualExclusion, ".lock(".toList, some ⟨.int 60, .yield⟩⟩,
        ⟨1, 2, .barrier, ".reset(".toList, some ⟨.int 30, .sleep (.int 5) (.int 60)⟩⟩]) ∧
    generateAll (unevenPolicy.map Json.int) twoUnits (.script [99]) =
      .error .outOfRange (.script []) := by
  have numeric : ∀ s ∈ twoUnits, s.unit.scope.Numeric := by
    simp only [twoUnits, List.forall_mem_cons]
    exact ⟨⟨(by decide : Nat.log2 0 < 1024), (by decide : Nat.log2 70 < 1024)⟩,
      ⟨(by decide : Nat.log2 0 < 1024), (by decide : Nat.log2 100 < 1024)⟩, nofun⟩
  have count : (twoUnits.flatMap within).length = 2 := by decide +kernel
  have all := one_draw_for_each_point (α := Json) unevenPolicy twoUnits numeric
  obtain ⟨parts, run, sizes, noisy⟩ := (all [99, 49, 7]).1 (by rw [count]; decide)
  rw [count] at run
  exact ⟨⟨parts, run, sizes, noisy⟩, (all [99]).2.1 (by rw [count]; decide)⟩

end Survey

end SchedulingNoise
