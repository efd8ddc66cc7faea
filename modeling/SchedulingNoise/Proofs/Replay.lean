import SchedulingNoise.Proofs.Freezing
import SchedulingNoise.Proofs.Generation
import SchedulingNoise.Proofs.Scanning

/-! Frozen noise is replayed. A scan of the text into which automatic noise was written finds the
points that the scan before found, and the noise that was written for them. -/
namespace SchedulingNoise

open Pragma (Annotated)

/-- The noise of a point below a line into which annotations were written. -/
def noiseAfter (q : Int) (before : Option (Noise Int)) (as : List (Pragma Int)) :
    Option (Noise Int) :=
  as.foldl (fun n a => if a.sequence = q then some a.noise else n) before

theorem noise_latest (q : Int) (r : Option (Pragma Int)) (as : List (Pragma Int)) :
    (Pragma.latest q r as).map (·.noise) = noiseAfter q (r.map (·.noise)) as := by
  induction as generalizing r with
  | nil => rfl
  | cons a rest ih =>
    rw [Pragma.latest, List.foldl_cons, noiseAfter, List.foldl_cons]
    by_cases own : a.sequence = q
    · rw [if_pos own, if_pos own]
      exact ih (some a)
    · rw [if_neg own, if_neg own]
      exact ih r

section Scan

theorem classifyLine_sites (c : Catalogue) (line above : Text) (number : Int) :
    classifyLine c line above number =
      (c.sites line).mapM fun o => o.point (Pragma.readings above) number := by
  unfold classifyLine Catalogue.sites
  rw [List.mapM_map]
  rfl

theorem exists_classifyLine {line line' above above' : Text} {as : List (Pragma Int)}
    (here : Renewed line line') (head : Annotated above above' as) (number number' : Int) :
    ∃ ps, classifyLine .default line above number = .ok ps ∧
      classifyLine .default line' above' number' =
        .ok (ps.map fun p =>
          { p with line := number', noise := noiseAfter p.sequence p.noise as }) := by
  have each : ∀ o : Occurrence, ∃ p, o.point (Pragma.readings above) number = .ok p ∧
      o.point (Pragma.readings above') number' =
        .ok { p with line := number', noise := noiseAfter p.sequence p.noise as } := by
    intro o
    obtain ⟨r, old, new⟩ := head.lookup o.sequence
    refine ⟨_, bind_eq_ok.mpr ⟨r, old, rfl⟩, bind_eq_ok.mpr ⟨_, new, ?_⟩⟩
    rw [noise_latest]
    rfl
  obtain ⟨ps, found, related⟩ := exists_mapM (Catalogue.default.sites line) fun o _ => each o
  refine ⟨ps, (classifyLine_sites ..).trans found, (classifyLine_sites ..).trans ?_⟩
  rw [here.sites]
  exact mapM_eq_ok.mpr (List.forall₂_map_right_iff.mpr related)

def Point.renoised (notes : Int → List (Pragma Int)) (k : Int) (p : Point Int) : Point Int :=
  { p with line := p.line + k, noise := noiseAfter p.sequence p.noise (notes p.line) }

theorem exists_pointsFrom (notes : Int → List (Pragma Int)) {above above' : Text}
    {number : Nat} (k : Nat) {lines lines' : List Text} (size : lines'.length = lines.length)
    (head : Annotated above above' (notes number))
    (each : ∀ (i : Nat) (h : i < lines.length) (h' : i < lines'.length),
      Annotated lines[i] lines'[i] (notes (number + i + 1))) :
    ∃ ps, pointsFrom .default above number lines = .ok ps ∧
      pointsFrom .default above' (number + k) lines' = .ok (ps.map (Point.renoised notes k)) := by
  induction lines generalizing above above' number lines' with
  | nil =>
    cases List.length_eq_zero_iff.mp size
    exact ⟨[], rfl, rfl⟩
  | cons line rest ih =>
    cases lines' with
    | nil => cases size
    | cons line' rest' =>
      have first := each 0 (Nat.zero_lt_succ _) (Nat.zero_lt_succ _)
      obtain ⟨here, old, new⟩ := exists_classifyLine first.renewed head number (number + k : Nat)
      obtain ⟨below, others, others'⟩ := @ih line line' (number + 1) rest' (by simpa using size)
        (by simpa using first) (fun i h h' => by
          have later := each (i + 1) (Nat.succ_lt_succ h) (Nat.succ_lt_succ h')
          have same : (number : Int) + (i + 1 : Nat) + 1 = (number + 1 : Nat) + i + 1 := by omega
          rw [same] at later
          exact later)
      refine ⟨here ++ below, bind_eq_ok.mpr ⟨here, old, bind_eq_ok.mpr ⟨below, others, rfl⟩⟩, ?_⟩
      have same : here.map (fun p => { p with
            line := ((number + k : Nat) : Int),
            noise := noiseAfter p.sequence p.noise (notes number) }) =
          here.map (Point.renoised notes k) := by
        refine List.map_congr_left fun p hp => ?_
        obtain ⟨line, _⟩ := mem_classifyLine old hp
        simp [Point.renoised, line]
      have down : number + k + 1 = number + 1 + k := by omega
      refine bind_eq_ok.mpr ⟨_, new, bind_eq_ok.mpr ⟨_, down ▸ others', ?_⟩⟩
      rw [same, List.map_append]
      rfl

end Scan

def Point.noiseFrom (generated : List (Point Int)) (p : Point Int) : Option (Noise Int) :=
  match generated.find? fun q => q.line = p.line ∧ q.sequence = p.sequence with
  | some q => q.noise
  | none => p.noise

/-- A point of the first scan as the second scan finds it. -/
def Point.replayed (generated : List (Point Int)) (p : Point Int) : Point Int :=
  { p with
    line := p.line + if generated.any (·.line = 1) then 1 else 0
    noise := p.noiseFrom generated }

theorem noiseAfter_notesOn {points : List (Point Int)} (ordered : points.Pairwise Point.Before)
    (noisy : ∀ p ∈ points, p.noise.isSome) (k q : Int) (before : Option (Noise Int)) :
    noiseAfter q before (notesOn points k) =
      match points.find? fun p => p.line = k ∧ p.sequence = q with
      | some p => p.noise
      | none => before := by
  induction points generalizing before with
  | nil => rfl
  | cons p rest ih =>
    obtain ⟨below, ordered⟩ := List.pairwise_cons.mp ordered
    obtain ⟨here, noisy⟩ := List.forall_mem_cons.mp noisy
    obtain ⟨n, noise⟩ := Option.isSome_iff_exists.mp here
    by_cases on : p.line = k
    · have notes : notesOn (p :: rest) k = ⟨p.sequence, n⟩ :: notesOn rest k := by
        simp [notesOn, on, noise]
      rw [notes, noiseAfter, List.foldl_cons]
      by_cases own : p.sequence = q
      · have others : rest.find? (fun p => p.line = k ∧ p.sequence = q) = none := by
          refine List.find?_eq_none.mpr fun p' hp' same => ?_
          have := of_decide_eq_true same
          rcases below p' hp' with after | ⟨_, after⟩ <;> omega
        have later := ih ordered noisy (some n)
        rw [others] at later
        rw [if_pos own, List.find?_cons_of_pos (by simp [on, own])]
        exact later.trans noise.symm
      · rw [if_neg own, List.find?_cons_of_neg (by simp [own])]
        exact ih ordered noisy before
    · have notes : notesOn (p :: rest) k = notesOn rest k := by simp [notesOn, on]
      rw [notes, List.find?_cons_of_neg (by simp [on])]
      exact ih ordered noisy before

/-- What a policy must be for its noise to be written. -/
structure Policy.Lawful (p : Policy Int) : Prop where
  likely : ∀ kind, 0 ≤ p.probability kind ∧ p.probability kind ≤ 100
  positive : 0 ≤ p.delayLow
  order : p.delayLow ≤ p.delayHigh
  short : Decimal.Short p.delayHigh

theorem Policy.Lawful.sound {p : Policy Int} (h : p.Lawful) (construct : ConstructKind)
    (kind : NoiseKind) {q : Int} (counted : 0 ≤ q) (short : Decimal.Short q) :
    (⟨q, p.noise construct kind⟩ : Pragma Int).Sound := by
  cases kind with
  | sleep =>
    refine ⟨counted, short, h.likely construct, fun low high action => ?_⟩
    cases action
    exact ⟨h.positive, h.order, h.short⟩
  | yield => exact ⟨counted, short, h.likely construct, fun low high action => by cases action⟩

theorem Survey.ofUnit_default {u : SourceUnit} {ps : List (Point Int)}
    (found : pointsFrom .default [] 1 u.lines = .ok ps) :
    ofUnit u .default = .ok ⟨u, .default, ps⟩ :=
  bind_eq_ok.mpr ⟨ps, found, rfl⟩

section Frozen

variable {lines : List Text} {generated : List (Point Int)} {st : Freeze.State}

theorem any_first_iff (noisy : ∀ p ∈ generated, p.noise.isSome) :
    generated.any (·.line = 1) = true ↔ notesOn generated 1 ≠ [] := by
  rw [List.any_eq_true]
  constructor
  · rintro ⟨p, hp, first⟩ none
    obtain ⟨n, noise⟩ := Option.isSome_iff_exists.mp (noisy p hp)
    have := List.filterMap_eq_nil_iff.mp none p hp
    simp [of_decide_eq_true first, noise] at this
  · intro some
    obtain ⟨a, ha⟩ := List.exists_mem_of_ne_nil _ some
    obtain ⟨p, hp, note⟩ := List.mem_filterMap.mp ha
    split at note
    · rename_i first
      exact ⟨p, hp, decide_eq_true first⟩
    · cases note

theorem scan_frozen (holds : Freeze.Holds lines generated st)
    (ordered : generated.Pairwise Point.Before) (noisy : ∀ p ∈ generated, p.noise.isSome)
    {ps : List (Point Int)} (found : pointsFrom .default [] 1 lines = .ok ps) :
    pointsFrom .default [] 1 (st.top.toList ++ st.lines) =
      .ok (ps.map (Point.replayed generated)) := by
  have each : ∀ (i : Nat) (h : i < lines.length) (h' : i < st.lines.length),
      Annotated lines[i] st.lines[i] (notesOn generated ((1 : Nat) + i + 1)) := by
    intro i h h'
    have same : ((1 : Nat) : Int) + i + 1 = i + 2 := by omega
    rw [same]
    exact holds.each i h h'
  have replayed : ∀ k : Int, k = (if generated.any (·.line = 1) then 1 else 0) →
      Point.renoised (notesOn generated) k = Point.replayed generated := by
    rintro k rfl
    funext p
    simp only [Point.renoised, Point.replayed, Point.noiseFrom,
      noiseAfter_notesOn ordered noisy]
  have first := any_first_iff noisy
  cases top : st.top with
  | none =>
    have nothing := holds.topless.mp top
    have head := holds.top
    rw [top] at head
    obtain ⟨ps', old, new⟩ := exists_pointsFrom (notesOn generated) 0 holds.size head each
    cases old.symm.trans found
    rw [replayed _ (by simpa [nothing] using first)] at new
    simpa using new
  | some t =>
    have there : notesOn generated 1 ≠ [] := fun none => by
      rw [holds.topless.mpr none] at top
      cases top
    have head := holds.top
    rw [top] at head
    obtain ⟨ps', old, new⟩ := exists_pointsFrom (notesOn generated) 1 holds.size head each
    cases old.symm.trans found
    rw [replayed _ (by simp [first.mpr there])] at new
    have above : classifyLine .default t [] (1 : Nat) = .ok [] := by
      have none : Catalogue.default.sites t = [] := head.renewed.sites
      rw [classifyLine_sites, none]
      rfl
    exact bind_eq_ok.mpr ⟨[], above, bind_eq_ok.mpr ⟨_, new, rfl⟩⟩

theorem faithful_frozen {path : Path} {t : Text} {scope : Scope}
    (holds : Freeze.Holds (SourceUnit.ofText path t scope).lines generated st)
    (some : st.top ≠ none → t ≠ []) :
    (SourceUnit.ofText path t scope).Faithful (st.top.toList ++ st.lines) := by
  have faithful := SourceUnit.faithful_ofText path t scope
  have each : List.Forall₂ SameEnds (SourceUnit.ofText path t scope).lines st.lines :=
    List.forall₂_iff_get.mpr ⟨holds.size.symm, fun i h h' =>
      (holds.each i h h').renewed.toSameEnds⟩
  cases top : st.top with
  | none => exact faithful.changed each
  | some first =>
    have there : (SourceUnit.ofText path t scope).assemble
        (SourceUnit.ofText path t scope).lines ≠ [] := by
      rw [SourceUnit.assemble_ofText]
      exact some (by simp [top])
    have head := holds.top
    rw [top] at head
    exact (faithful.padded there).changed (.cons head.renewed.toSameEnds each)

end Frozen

theorem writable_drawn {u : SourceUnit} {s : Survey} (scanned : Survey.ofUnit u .default = .ok s)
    {policy : Policy Int} (lawful : policy.Lawful) {inside generated : List (Point Int)}
    (within : s.inScope = .ok inside) (short : ∀ p ∈ inside, Decimal.Short p.sequence)
    (drawn : List.Forall₂ (Point.Drawn policy) inside generated) :
    (∀ p ∈ generated, ∃ n, p.Writable u.lines.length n) ∧ generated.Pairwise Point.Before := by
  have sub := sublist_pointsInScope within
  obtain ⟨_, _, found⟩ := Survey.of_ofUnit scanned
  constructor
  · intro q hq
    obtain ⟨p, hp, kind, rfl⟩ := exists_of_mem_right drawn hq
    obtain ⟨i, line, o, at_, number, _, own⟩ := Survey.own_of_survey scanned (sub.subset hp)
    have low : i < u.lines.length := (List.getElem?_eq_some_iff.mp at_).1
    have counted : 0 ≤ p.sequence := by
      rw [own.sequence]
      exact Int.natCast_nonneg _
    refine ⟨_, rfl, lawful.sound p.kind kind counted (short p hp), ?_, ?_⟩
    · change 1 ≤ p.line
      omega
    · change p.line ≤ _
      omega
  · refine pairwise_right drawn ((pairwise_pointsFrom found).sublist sub) ?_
    rintro p _ p' _ ⟨_, rfl⟩ ⟨_, rfl⟩ before
    exact before

/-- Frozen noise is replayed. Of a text with tidy lines, a scan finds points; generating noise for
those in scope, writing it into the lines and scanning the new text finds the same points in the
same order, one line further down if there is noise for the first line. Each has the noise that
was generated for it, and the noise that it had if none was. -/
theorem frozen_noise_replayed [Amount α] [IntegerAmount α] {path path' : Path} {t : Text}
    {scope scope' : Scope} {policy : Policy Int}
    (tidy : ∀ line ∈ (SourceUnit.ofText path t scope).lines, Pragma.Tidy line)
    (numeric : scope.Numeric) (lawful : policy.Lawful) :
    ∃ s inside, Survey.ofUnit (.ofText path t scope) .default = .ok s ∧ s.inScope = .ok inside ∧
      ∀ g : Generator, (∀ p ∈ inside, Decimal.Short p.sequence) →
        g.Has inside.length → ∃ generated g' lines s',
          s.generate (policy.map (Amount.ofInt : Int → α)) g =
            .ok (generated.map (·.map Amount.ofInt)) g' ∧
          freeze s.unit.lines (generated.map (·.map (Amount.ofInt : Int → α))) = .ok lines ∧
          Survey.ofUnit (.ofText path' (s.unit.assemble lines) scope') .default = .ok s' ∧
          s'.points = s.points.map (Point.replayed generated) := by
  have neat := fun l hl => (tidy l hl).exists_neat
  have blank := Freeze.Holds.start neat
  obtain ⟨ps, found, _⟩ := exists_pointsFrom (fun _ => []) 0 rfl blank.top blank.each
  have scanned := Survey.ofUnit_default found
  have bounded : (SourceUnit.ofText path t scope).scope.Numeric := by
    rw [SourceUnit.scope_ofText]
    exact numeric
  obtain ⟨inside, within⟩ := exists_pointsInScope bounded ps
  refine ⟨_, inside, scanned, within, fun g short enough => ?_⟩
  obtain ⟨generated, g', draws, drawn⟩ := exists_drawNoise (α := α) policy enough
  obtain ⟨writable, ordered⟩ := writable_drawn scanned lawful within short drawn
  have noisy : ∀ p ∈ generated, p.noise.isSome := by
    intro p hp
    obtain ⟨n, good⟩ := writable p hp
    exact good.noise ▸ rfl
  obtain ⟨st, frozen, holds⟩ := exists_freeze neat writable
  have some : st.top ≠ none → t ≠ [] := by
    rintro there rfl
    cases (found : Except.ok [] = Except.ok ps)
    cases List.sublist_nil.mp (sublist_pointsInScope within)
    cases drawn
    exact there (holds.topless.mpr rfl)
  have lines := (faithful_frozen holds some).lines_ofText path' scope'
  have again := scan_frozen holds ordered noisy found
  rw [← lines] at again
  refine ⟨generated, g', _, _, ?_, (freeze_map ..).trans frozen, Survey.ofUnit_default again, rfl⟩
  rw [Survey.generate, Survey.inScope, within]
  exact draws

/-- A malformed annotation on the first line, a well-formed one on the second. -/
def mixedText : Text :=
  "a.lock();/*@preemptionpoint(type=nap)*/\n".toList ++
    "b.reset();/* @PreemptionPoint(high=9999)*/\nc.await();".toList

def mixedSurvey : Survey where
  unit := .ofText (.ofText "A.java".toList) mixedText { upper := .int 70 }
  catalogue := .default
  points := [⟨1, 0, .mutualExclusion, ".lock(".toList, none⟩,
    ⟨2, 0, .barrier, ".reset(".toList, none⟩,
    ⟨3, 0, .latch, ".await(".toList, some ⟨100, .sleep 100 9999⟩⟩]

def mixedPolicy : Policy Int := ⟨fun _ => 75, 50, 5, 60⟩

set_option maxRecDepth 4000 in
theorem mixedText_replayed :
    (∀ line ∈ mixedSurvey.unit.lines, Pragma.Tidy line) ∧
    Survey.ofUnit mixedSurvey.unit .default = .ok mixedSurvey ∧
    ∃ generated g' lines s',
      mixedSurvey.generate (mixedPolicy.map Json.int) (.script [99, 0]) =
        .ok (generated.map (·.map Json.int)) g' ∧
      freeze mixedSurvey.unit.lines (generated.map (·.map Json.int)) = .ok lines ∧
      Survey.ofUnit (.ofText mixedSurvey.unit.path (mixedSurvey.unit.assemble lines)) .default =
        .ok s' ∧
      s'.points = mixedSurvey.points.map (Point.replayed generated) := by
  have tidy : ∀ line ∈ mixedSurvey.unit.lines, Pragma.Tidy line := by decide +kernel
  have lawful : mixedPolicy.Lawful :=
    ⟨fun _ => (by decide : 0 ≤ (75 : Int) ∧ (75 : Int) ≤ 100), by decide, by decide,
      by decide⟩
  have here : Survey.ofUnit mixedSurvey.unit .default = .ok mixedSurvey := by rfl
  have within : mixedSurvey.inScope = .ok (mixedSurvey.points.take 2) := by rfl
  have short : ∀ p ∈ mixedSurvey.points.take 2, Decimal.Short p.sequence := by decide
  have numeric : ({ upper := .int 70 } : Scope).Numeric :=
    ⟨(by decide : Nat.log2 0 < 1024), (by decide : Nat.log2 70 < 1024)⟩
  obtain ⟨s, inside, scanned, inScope, replays⟩ :=
    frozen_noise_replayed (α := Json) tidy numeric lawful
  cases scanned.symm.trans here
  cases inScope.symm.trans within
  exact ⟨tidy, here, replays (.script [99, 0]) short (Nat.le_refl 2)⟩

end SchedulingNoise
