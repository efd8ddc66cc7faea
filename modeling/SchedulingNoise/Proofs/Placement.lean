import SchedulingNoise.Proofs.Interleaving
import SchedulingNoise.Proofs.Scanning

namespace SchedulingNoise

def behindBoundary (t : Text) (offset : Nat) : Nat :=
  match ((List.range (offset + 1)).filter fun i => t[i]?.any isBoundary).getLast? with
  | some i => i + 1
  | none => 0

theorem statementStart_eq (t : Text) (offset : Nat) :
    statementStart t offset = behindBoundary t offset := by
  induction offset with
  | zero =>
    cases t with
    | nil => rfl
    | cons c rest =>
      unfold statementStart behindBoundary
      cases h : isBoundary c <;> simp [h]
  | succ offset ih =>
    unfold statementStart behindBoundary at *
    rw [List.range_succ, List.filter_append]
    cases h : t[offset + 1]? with
    | none =>
      have short : t.length ≤ offset + 1 := List.getElem?_eq_none_iff.mp h
      rw [List.take_of_length_le short] at ih
      rw [List.take_of_length_le (by omega), ih]
      simp [h]
    | some c =>
      rw [List.take_add_one, h]
      cases boundary : isBoundary c with
      | true =>
        have inside := (List.getElem?_eq_some_iff.mp h).1
        simp [h, boundary]
        omega
      | false => simpa [h, boundary] using ih

theorem statementStart_le (line : Text) (offset : Nat) :
    statementStart line offset ≤ line.length := by
  unfold statementStart
  have kept := (List.dropWhile_suffix (fun c => !isBoundary c)
    (l := (line.take (offset + 1)).reverse)).length_le
  simp only [List.length_reverse, List.length_take] at kept
  omega

namespace Point

def noiseText [Amount α] (p : Point α) (r : RandomField) : Except Fault Text :=
  match p.noise with
  | none => .error .missingNoise
  | some n => n.statement r

/-- Where the noise of a point goes: in front of the statement around the find with the point's
sequence number. -/
def place (p : Point α) (line : Text) (c : Catalogue) : Nat :=
  match (c.scanLine line)[p.sequence.toNat]? with
  | some o => behindBoundary line o.offset
  | none => 0

def insertFor [Amount α] (line : Text) (c : Catalogue) (r : RandomField) (p : Point α) :
    Except Fault (Nat × Text) := do
  return (p.place line c, ← p.noiseText r)

theorem place_le (p : Point α) (line : Text) (c : Catalogue) : p.place line c ≤ line.length := by
  unfold place
  split
  · rw [← statementStart_eq]
    exact statementStart_le _ _
  · exact Nat.zero_le _

/-- Is a point one of those that a scan of a line finds? -/
def OwnOn (p : Point α) (c : Catalogue) (line : Text) : Prop :=
  ∃ o ∈ c.scanLine line, p.Matches o

theorem OwnOn.insertionIn {p : Point α} {c : Catalogue} {line : Text} (own : p.OwnOn c line) :
    p.insertionIn line (c.scanLine line) = .ok (some (p.place line c)) := by
  obtain ⟨o, mem, made⟩ := own
  have at_ := Catalogue.getElem?_scanLine mem
  have inside := (List.getElem?_eq_some_iff.mp at_).1
  have index : itemIndex? (c.scanLine line).length p.sequence = some o.sequence := by
    rw [made.sequence]
    simp [itemIndex?, inside]
  have located : p.locateIn line (c.scanLine line) = .ok (some o.offset) := by
    unfold locateIn
    rw [if_pos (by rw [made.sequence]; exact_mod_cast inside), index]
    simp only [Option.bind_eq_bind, Option.bind_some, at_, made.trigger]
    rfl
  unfold Point.insertionIn place
  rw [located, made.sequence]
  simp only [Int.toNat_natCast, at_, ← statementStart_eq]
  rfl

theorem OwnOn.splice_eq [Amount α] {p : Point α} {c : Catalogue} {line : Text}
    (own : p.OwnOn c line) (r : RandomField) (order : Nat) :
    p.splice? line r (c.scanLine line) order =
      (p.insertFor line c r).map fun i => some ⟨i.1, i.2, order⟩ := by
  unfold Point.splice? Point.insertFor noiseText
  rw [own.insertionIn]
  cases p.noise with
  | none => rfl
  | some n =>
    simp only [bind, Except.bind]
    cases n.statement r <;> rfl

end Point

section Lines

variable [Amount α] {c : Catalogue} {line : Text}

def numbered (order : Nat) (inserts : Inserts) : List Splice :=
  (inserts.zipIdx order).map fun i => ⟨i.1.1, i.1.2, i.2⟩

theorem lineSplices_eq (r : RandomField) {ps : List (Point α)} (own : ∀ p ∈ ps, p.OwnOn c line)
    (order : Nat) :
    lineSplices line r (c.scanLine line) order ps =
      (ps.mapM (Point.insertFor line c r)).map (numbered order) := by
  induction ps generalizing order with
  | nil => rfl
  | cons p rest ih =>
    rw [lineSplices, (own p List.mem_cons_self).splice_eq,
      ih (fun q hq => own q (List.mem_cons_of_mem p hq)), List.mapM_cons]
    cases p.insertFor line c r with
    | error f => rfl
    | ok i =>
      cases rest.mapM (Point.insertFor line c r) with
      | error f => rfl
      | ok more => rfl

theorem rising_numbered (order : Nat) (inserts : Inserts) :
    (numbered order inserts).Pairwise fun a b => a.order < b.order := by
  induction inserts generalizing order with
  | nil => exact .nil
  | cons i rest ih =>
    refine List.pairwise_cons.mpr ⟨fun s hs => ?_, ih (order + 1)⟩
    obtain ⟨⟨j, k⟩, mem, rfl⟩ := List.mem_map.mp hs
    have later := List.le_snd_of_mem_zipIdx mem
    simp only at later ⊢
    omega

theorem toInsert_numbered (order : Nat) (inserts : Inserts) :
    (numbered order inserts).map Splice.toInsert = inserts := by
  have parts : ∀ i : (Nat × Text) × Nat, Splice.toInsert ⟨i.1.1, i.1.2, i.2⟩ = i.1 :=
    fun i => rfl
  simp only [numbered, List.map_map, Function.comp_def, parts, List.zipIdx_map_fst]

theorem applyAll_numbered {inserts : Inserts} (inside : ∀ i ∈ inserts, i.1 ≤ line.length)
    (order : Nat) : Splice.applyAll line (numbered order inserts) = inserts.interleave 0 line := by
  have bounds : ∀ s ∈ numbered order inserts, 0 ≤ s.offset ∧ s.offset ≤ line.length := by
    intro s hs
    have mem : s.toInsert ∈ inserts := by
      have := List.mem_map_of_mem (f := Splice.toInsert) hs
      rwa [toInsert_numbered] at this
    have bound := inside _ mem
    obtain ⟨i, _, rfl⟩ := List.mem_map.mp hs
    simp only [Splice.toInsert, Int.toNat_natCast] at bound ⊢
    omega
  rw [Splice.applyAll_eq bounds (rising_numbered order inserts), toInsert_numbered]

theorem instrumentLine_eq (r : RandomField) {ps : List (Point α)}
    (own : ∀ p ∈ ps, p.OwnOn c line) :
    instrumentLine line ps r c =
      (ps.mapM (Point.insertFor line c r)).map
        fun inserts => Inserts.interleave inserts 0 line := by
  unfold instrumentLine
  rw [lineSplices_eq r own]
  cases h : ps.mapM (Point.insertFor line c r) with
  | error f => rfl
  | ok inserts =>
    have inside : ∀ i ∈ inserts, i.1 ≤ line.length := by
      intro i hi
      obtain ⟨p, _, made⟩ := exists_of_mem_right (mapM_eq_ok.mp h) hi
      obtain ⟨t, _, made⟩ := bind_eq_ok.mp made
      cases made
      exact p.place_le line c
    exact congrArg Except.ok (applyAll_numbered inside 0)

theorem lineNotesIn_eq (r : RandomField) {ps : List (Point α)} (own : ∀ p ∈ ps, p.OwnOn c line) :
    lineNotesIn line r (c.scanLine line) ps = [] := by
  induction ps with
  | nil => rfl
  | cons p rest ih =>
    rw [lineNotesIn, (own p List.mem_cons_self).splice_eq]
    cases p.insertFor line c r with
    | error f => rfl
    | ok i => exact ih fun q hq => own q (List.mem_cons_of_mem p hq)

end Lines

namespace Survey

variable [Amount α] {s : Survey} {points : List (Point α)} {r : RandomField}

/-- A line of a unit interleaved with the noise of those of the points that are on it. -/
def interleavedLine (s : Survey) (points : List (Point α)) (r : RandomField) (number : Nat)
    (line : Text) : Except Fault Text :=
  ((points.filter fun p => p.line = (number : Int)).mapM
    (Point.insertFor line s.catalogue r)).map fun inserts => Inserts.interleave inserts 0 line

theorem instrumentedLine_eq {number : Nat} {line : Text} (noisy : ∀ p ∈ points, p.noise.isSome)
    (own : ∀ p ∈ points, p.line = number → p.OwnOn s.catalogue line) :
    s.instrumentedLine points r number line = s.interleavedLine points r number line ∧
      lineNotes line r s.catalogue (noisyOn points number) = [] := by
  have here : noisyOn points number = points.filter fun p => p.line = (number : Int) := by
    refine List.filter_congr fun p hp => ?_
    simp only [noisy p hp, Bool.true_and, beq_eq_decide]
  have ownHere :
      ∀ p ∈ points.filter fun p => p.line = (number : Int), p.OwnOn s.catalogue line := by
    intro p hp
    obtain ⟨mem, at_⟩ := List.mem_filter.mp hp
    exact own p mem (of_decide_eq_true at_)
  unfold instrumentedLine interleavedLine lineNotes
  rw [here]
  cases h : points.filter fun p => p.line = (number : Int) with
  | nil => exact ⟨congrArg Except.ok (Inserts.interleave_nil 0 line).symm, rfl⟩
  | cons p rest =>
    rw [h] at ownHere
    exact ⟨instrumentLine_eq r ownHere, lineNotesIn_eq r ownHere⟩

theorem instrumentedFrom_eq {number : Nat} {lines : List Text}
    (noisy : ∀ p ∈ points, p.noise.isSome)
    (own : ∀ p ∈ points, ∀ i line, lines[i]? = some line → p.line = (number + i : Nat) →
      p.OwnOn s.catalogue line) :
    s.instrumentedFrom points r number lines =
      (lines.zipIdx number).mapM (fun l => s.interleavedLine points r l.2 l.1) ∧
    s.instrumentedNotes points r number lines = [] := by
  induction lines generalizing number with
  | nil => exact ⟨rfl, rfl⟩
  | cons line rest ih =>
    obtain ⟨here, noNotes⟩ := instrumentedLine_eq (r := r) noisy fun p hp at_ =>
      own p hp 0 line rfl (by simpa using at_)
    have ownBelow : ∀ p ∈ points, ∀ i line', rest[i]? = some line' →
        p.line = (number + 1 + i : Nat) → p.OwnOn s.catalogue line' :=
      fun p hp i line' found at_ => own p hp (i + 1) line' (by simpa using found) (by omega)
    obtain ⟨below, noNotesBelow⟩ := ih ownBelow
    constructor
    · rw [instrumentedFrom, here, below, List.zipIdx_cons, List.mapM_cons]
    · rw [instrumentedNotes, noNotes, noNotesBelow]
      cases s.instrumentedLine points r number line <;> rfl

end Survey

/-- Whatever points of a survey get noise, and in whatever order they are given: each is found at
its own occurrence, every line is interleaved with the noise of its points, and no point is
skipped. -/
theorem instrumentedLines_eq_interleaved [Amount α] {u : SourceUnit} {c : Catalogue} {s : Survey}
    (scanned : Survey.ofUnit u c = .ok s) {points : List (Point α)}
    (own : ∀ p ∈ points, ∃ q ∈ s.points, ∃ n, p = q.withNoise (some n)) (r : RandomField) :
    (∀ p ∈ points, ∃ i line o, u.lines[i]? = some line ∧ p.line = (i + 1 : Nat) ∧
      (s.catalogue.scanLine line)[p.sequence.toNat]? = some o ∧ p.Matches o) ∧
    s.instrumentedLines points r =
      (u.lines.zipIdx 1).mapM (fun l => s.interleavedLine points (s.randomField r) l.2 l.1) ∧
    s.instrumentedNotes points (s.randomField r) 1 u.lines = [] := by
  have found : ∀ p ∈ points, p.noise.isSome ∧ ∃ i line o, u.lines[i]? = some line ∧
      p.line = (i + 1 : Nat) ∧ o ∈ s.catalogue.scanLine line ∧ p.Matches o := by
    intro p hp
    obtain ⟨q, hq, n, rfl⟩ := own p hp
    obtain ⟨i, line, o, at_, number, mem, matched⟩ := Survey.own_of_survey scanned hq
    exact ⟨rfl, i, line, o, at_, number, mem, matched.sequence, matched.kind, matched.trigger⟩
  have ownOn : ∀ p ∈ points, ∀ i line, u.lines[i]? = some line → p.line = (1 + i : Nat) →
      p.OwnOn s.catalogue line := by
    intro p hp i line at_ number
    obtain ⟨_, i', line', o, at', number', mem, matched⟩ := found p hp
    have same : i = i' := by omega
    rw [same, at'] at at_
    cases at_
    exact ⟨o, mem, matched⟩
  have unit : s.unit = u := (Survey.of_ofUnit scanned).1
  refine ⟨fun p hp => ?_, ?_⟩
  · obtain ⟨_, i, line, o, at_, number, mem, matched⟩ := found p hp
    refine ⟨i, line, o, at_, number, ?_, matched⟩
    rw [matched.sequence, Int.toNat_natCast]
    exact Catalogue.getElem?_scanLine mem
  · rw [Survey.instrumentedLines, unit]
    exact Survey.instrumentedFrom_eq (fun p hp => (found p hp).1) ownOn

/-- A line with three call sites, of which two are in one statement. -/
def threeSites : Survey where
  unit := .ofText (.ofText "A.java".toList) "run(); a.lock(b.await()); c.unlock();".toList
  catalogue := .default
  points := [⟨1, 0, .mutualExclusion, ".lock(".toList, none⟩,
    ⟨1, 1, .latch, ".await(".toList, none⟩,
    ⟨1, 2, .mutualExclusion, ".unlock(".toList, none⟩]

def threeNoises : List (Point Int) :=
  [⟨1, 2, .mutualExclusion, ".unlock(".toList, some ⟨20, .yield⟩⟩,
    ⟨1, 1, .latch, ".await(".toList, some ⟨30, .yield⟩⟩,
    ⟨1, 0, .mutualExclusion, ".lock(".toList, some ⟨40, .sleep 5 5⟩⟩]

theorem threeSites_interleaved :
    Survey.ofUnit threeSites.unit [] = .ok threeSites ∧
    (∀ p ∈ threeNoises, ∃ q ∈ threeSites.points, ∃ n, p = q.withNoise (some n)) ∧
    (threeSites.unit.lines.map fun line => threeNoises.map (·.place line .default)) = [[25, 6, 6]] ∧
    threeSites.instrumentedLines threeNoises {} = (threeSites.unit.lines.zipIdx 1).mapM
      fun l => threeSites.interleavedLine threeNoises (threeSites.randomField {}) l.2 l.1 := by
  have scanned : Survey.ofUnit threeSites.unit [] = .ok threeSites := by rfl
  have own : ∀ p ∈ threeNoises, ∃ q ∈ threeSites.points, ∃ n, p = q.withNoise (some n) := by
    simp [threeNoises, threeSites, Point.withNoise]
  exact ⟨scanned, own, by decide, (instrumentedLines_eq_interleaved scanned own {}).2.1⟩

end SchedulingNoise
