import SchedulingNoise.Proofs.Declarations
import SchedulingNoise.Proofs.Digits
import SchedulingNoise.Proofs.Newlines
import SchedulingNoise.Proofs.Scanning
import SchedulingNoise.Instrument.Unit

/-! Noise keeps line numbers: whatever is put into a text is put into its lines, so the text has
as many lines as before, and each still has all its characters in order. -/
namespace SchedulingNoise

/-- The pieces of the second text are those of the first with characters put in. -/
def Grown (sep x y : Text) : Prop :=
  List.Forall₂ List.Sublist (Text.splitOn sep x) (Text.splitOn sep y)

namespace Grown

variable {sep x y z i : Text}

theorem refl (sep x : Text) : Grown sep x x :=
  List.forall₂_same.mpr fun _ _ => List.Sublist.refl _

theorem trans (h : Grown sep x y) (h' : Grown sep y z) : Grown sep x z := by
  unfold Grown at *
  generalize Text.splitOn sep x = a, Text.splitOn sep y = b, Text.splitOn sep z = c at *
  induction h generalizing c with
  | nil =>
    cases h'
    exact .nil
  | cons first _ ih =>
    cases h' with
    | cons first' rest' => exact .cons (first.trans first') (ih _ rest')

theorem glue_single {as bs : List Text} (i : Text) (ha : as ≠ []) (hb : bs ≠ []) :
    List.Forall₂ List.Sublist (Text.glue as bs) (Text.glue as (Text.glue [i] bs)) := by
  induction as with
  | nil => exact absurd rfl ha
  | cons a rest ih =>
    cases rest with
    | nil =>
      obtain ⟨b, more, rfl⟩ := List.exists_cons_of_ne_nil hb
      refine .cons ?_ (List.forall₂_same.mpr fun _ _ => List.Sublist.refl _)
      exact List.Sublist.append_left (List.sublist_append_right i b) a
    | cons a' rest => exact .cons (List.Sublist.refl a) (ih (by simp))

theorem insert (newline : IsNewline sep) (plain : OneLine i) (apart : Text.Apart sep x y) :
    Grown sep (x ++ y) (x ++ i ++ y) := by
  by_cases empty : i = []
  · rw [empty, List.append_nil]
    exact refl sep _
  · have left : Text.Apart sep x (i ++ y) := by
      obtain ⟨c, i, rfl⟩ := List.exists_cons_of_ne_nil empty
      exact Text.Apart.of_not_mem_left (newline.foreign plain List.mem_cons_self) x (i ++ y)
    have right : Text.Apart sep i y := by
      obtain ⟨i, c, rfl⟩ := (List.eq_nil_or_concat i).resolve_left empty
      rw [List.concat_eq_append]
      exact Text.Apart.of_not_mem_right (newline.foreign plain (by simp)) i y
    unfold Grown
    rw [List.append_assoc, Text.splitOn_append newline.ne_nil x (i ++ y) left,
      Text.splitOn_append newline.ne_nil i y right,
      Text.splitOn_of_not_infix (newline.not_inside plain),
      Text.splitOn_append newline.ne_nil x y apart]
    exact glue_single i (Text.splitOn_ne_nil sep x) (Text.splitOn_ne_nil sep y)

theorem of_line (newline : IsNewline sep) (absent : ¬ sep <:+: x) (h : Grown sep x y) :
    x.Sublist y ∧ ¬ sep <:+: y := by
  unfold Grown at h
  rw [Text.splitOn_of_not_infix absent] at h
  obtain ⟨z, rest, sub, none, eq⟩ := List.forall₂_cons_left_iff.mp h
  cases none
  have whole : z = y := by
    have joined := Text.join_splitOn newline.ne_nil y
    rw [eq] at joined
    simpa [Text.join] using joined
  subst whole
  exact ⟨sub, Text.not_infix_of_mem_splitOn newline.ne_nil (eq ▸ List.mem_singleton_self z)⟩

end Grown

section OneLine

instance (t : Text) : Decidable (OneLine t) := inferInstanceAs (Decidable (_ ∧ _))

theorem OneLine.append {s t : Text} (hs : OneLine s) (ht : OneLine t) : OneLine (s ++ t) :=
  ⟨fun mem => (List.mem_append.mp mem).elim hs.1 ht.1,
    fun mem => (List.mem_append.mp mem).elim hs.2 ht.2⟩

theorem OneLine.cons {c : Char} {t : Text} (hc : OneLine [c]) (ht : OneLine t) : OneLine (c :: t) :=
  hc.append ht

theorem oneLine_ofInt (n : Int) : OneLine (Decimal.ofInt n) :=
  ⟨fun mem => absurd (Decimal.mem_ofInt mem) (by decide),
    fun mem => absurd (Decimal.mem_ofInt mem) (by decide)⟩

theorem oneLine_write {n : Int} {t : Text} (h : Amount.write n = .ok t) : OneLine t := by
  obtain ⟨_, rfl⟩ := Amount.write_int.mp h
  exact oneLine_ofInt n

theorem oneLine_difference {m n : Int} {t : Text} (h : Amount.difference m n = .ok t) :
    OneLine t := by
  obtain ⟨_, rfl⟩ := Quantity.write_whole.mp h
  exact oneLine_ofInt _

variable {r : RandomField}

theorem oneLine_delay (field : OneLine r.reference) {low high : Int} {t : Text}
    (h : Noise.delay r low high = .ok t) : OneLine t := by
  obtain ⟨above, _, h⟩ := bind_eq_ok.mp h
  split at h
  · obtain ⟨start, started, h⟩ := bind_eq_ok.mp h
    obtain ⟨range, difference, h⟩ := bind_eq_ok.mp h
    cases h
    exact ((((oneLine_write started).append (by decide)).append field).append (by decide)).append
      (oneLine_difference difference) |>.append (by decide)
  · exact oneLine_write h

theorem oneLine_action (field : OneLine r.reference) {a : NoiseAction Int} {t : Text}
    (h : Noise.actionStatement r a = .ok t) : OneLine t := by
  cases a with
  | yield =>
    cases h
    decide
  | sleep low high =>
    obtain ⟨delay, delayed, h⟩ := bind_eq_ok.mp h
    cases h
    exact (((by decide : OneLine "try \x7b Thread.sleep(".toList).append
      (oneLine_delay field delayed)).append (by decide)).append (by decide)

theorem oneLine_statement (field : OneLine r.reference) {n : Noise Int} {t : Text}
    (h : n.statement r = .ok t) : OneLine t := by
  obtain ⟨action, acts, h⟩ := bind_eq_ok.mp h
  obtain ⟨chance, written, h⟩ := bind_eq_ok.mp h
  cases h
  exact ((((((by decide : OneLine "if (".toList).append field).append (by decide)).append
    (oneLine_write written)).append (by decide)).append (oneLine_action field acts)).append
    (by decide)

end OneLine

section Lines

variable {sep : Text} {r : RandomField} {c : Catalogue}

theorem Splice.grown_insert (newline : IsNewline sep) {line : Text} (absent : ¬ sep <:+: line)
    {s : Splice} (plain : OneLine s.text) : Grown sep line (Splice.insert line s) := by
  have apart : Text.Apart sep (line.take (cutIndex line.length s.offset))
      (line.drop (cutIndex line.length s.offset)) :=
    IsNewline.apart_of_not_infix (by rwa [List.take_append_drop])
  have grown := Grown.insert newline plain apart
  rwa [List.take_append_drop] at grown

theorem Splice.grown_applyAll (newline : IsNewline sep) {line : Text} (absent : ¬ sep <:+: line)
    {ss : List Splice} (plain : ∀ s ∈ ss, OneLine s.text) :
    Grown sep line (Splice.applyAll line ss) := by
  have sorted : ∀ s ∈ sortBy Splice.before ss, OneLine s.text :=
    fun s hs => plain s ((sortBy_perm _ _).mem_iff.mp hs)
  unfold Splice.applyAll
  generalize sortBy Splice.before ss = rest at sorted
  induction rest generalizing line with
  | nil => exact Grown.refl sep line
  | cons s rest ih =>
    have first := grown_insert newline absent (sorted s List.mem_cons_self)
    have next := ih (first.of_line newline absent).2
      fun s' hs' => sorted s' (List.mem_cons_of_mem s hs')
    exact first.trans next

theorem mem_lineSplices [Amount α] {line : Text} {finds : List Occurrence} {order : Nat}
    {ps : List (Point α)} {ss : List Splice} (h : lineSplices line r finds order ps = .ok ss)
    {s : Splice} (hs : s ∈ ss) : ∃ p ∈ ps, ∃ n, p.noise = some n ∧ n.statement r = .ok s.text := by
  induction ps generalizing order ss with
  | nil =>
    cases h
    cases hs
  | cons p rest ih =>
    obtain ⟨s?, here, h⟩ := bind_eq_ok.mp h
    obtain ⟨more, others, h⟩ := bind_eq_ok.mp h
    cases h
    rcases List.mem_append.mp hs with hs | hs
    · obtain ⟨place, _, here⟩ := bind_eq_ok.mp here
      cases place with
      | none =>
        cases here
        cases hs
      | some o =>
        cases noise : p.noise with
        | none =>
          rw [noise] at here
          cases here
        | some n =>
          rw [noise] at here
          obtain ⟨t, rendered, here⟩ := bind_eq_ok.mp here
          cases here
          cases List.mem_singleton.mp hs
          exact ⟨p, List.mem_cons_self, n, noise, rendered⟩
    · obtain ⟨q, hq, found⟩ := ih others hs
      exact ⟨q, List.mem_cons_of_mem p hq, found⟩

theorem grown_instrumentLine (newline : IsNewline sep) (field : OneLine r.reference)
    {line out : Text} (absent : ¬ sep <:+: line) {ps : List (Point Int)}
    (h : instrumentLine line ps r c = .ok out) : Grown sep line out := by
  obtain ⟨ss, spliced, h⟩ := bind_eq_ok.mp h
  cases h
  refine Splice.grown_applyAll newline absent fun s hs => ?_
  obtain ⟨p, _, n, _, rendered⟩ := mem_lineSplices spliced hs
  exact oneLine_statement field rendered

theorem instrumentedFrom_lines (newline : IsNewline sep) (field : OneLine r.reference)
    {s : Survey} {points : List (Point Int)} {number : Nat} {lines out : List Text}
    (absent : ∀ l ∈ lines, ¬ sep <:+: l) (h : s.instrumentedFrom points r number lines = .ok out) :
    List.Forall₂ (fun l l' => l.Sublist l' ∧ ¬ sep <:+: l') lines out := by
  induction lines generalizing number out with
  | nil =>
    cases h
    exact .nil
  | cons line rest ih =>
    obtain ⟨here, first, h⟩ := bind_eq_ok.mp h
    obtain ⟨below, others, h⟩ := bind_eq_ok.mp h
    cases h
    have away := absent line List.mem_cons_self
    refine .cons ?_ (ih (fun l hl => absent l (List.mem_cons_of_mem line hl)) others)
    unfold Survey.instrumentedLine at first
    split at first
    · cases first
      exact ⟨List.Sublist.refl line, away⟩
    · exact (grown_instrumentLine newline field away first).of_line newline away

end Lines

section Header

variable {sep text : Text} {r : RandomField}

theorem IsNewline.apart_behind (newline : IsNewline sep) {c : Char} (other : c ≠ '\r')
    (x y : Text) : Text.Apart sep (x ++ [c]) y :=
  newline.apart fun _ ⟨⟨_, eq⟩, _⟩ =>
    other (List.singleton_inj.mp (List.append_inj' eq rfl).2).symm

theorem IsNewline.apart_field (newline : IsNewline sep) {front back : Text}
    (place : Java.FieldPlace front back) : Text.Apart sep front back := by
  rcases place with rfl | ⟨c, closer, first⟩ | ⟨x, rfl⟩
  · exact newline.apart fun _ => by simp
  · refine newline.apart fun _ ⟨_, begins⟩ => ?_
    obtain ⟨rest, rfl⟩ := begins
    cases first
    exact absurd closer (by decide)
  · exact newline.apart_behind (by decide) x back

theorem oneLine_declaration (field : OneLine r.field) : OneLine r.declaration :=
  ((by decide : OneLine "static final Random ".toList).append field).append (by decide)

theorem oneLine_fieldPlace (field : OneLine r.field) (text : Text) (m : Match Java.TypeHead) :
    OneLine (fieldPlace text m r).2 := by
  have declared : OneLine (' ' :: r.declaration) := .cons (by decide) (oneLine_declaration field)
  unfold fieldPlace
  dsimp only
  split
  · dsimp only
    split
    · exact .append (.cons (by decide) declared) (by decide)
    · exact declared
  · exact declared

theorem apart_fieldPlace (newline : IsNewline sep) {m : Match Java.TypeHead}
    (found : Java.firstType? text = some m) :
    Text.Apart sep (text.take (fieldPlace text m r).1) (text.drop (fieldPlace text m r).1) := by
  obtain ⟨front, rest, eq, stop⟩ := Matcher.split_at_stop found Java.typeDeclaration_reads
  unfold fieldPlace
  dsimp only
  split
  · refine newline.apart_field (Java.constantsEnd_place ?_)
    rw [stop, eq]
    simp
  · obtain ⟨taken, dropped⟩ := Text.take_drop_of_append eq stop
    dsimp only
    rw [taken, dropped]
    exact newline.apart_behind (by decide) front rest

theorem grown_addField (newline : IsNewline sep) (field : OneLine r.field) (text : Text) :
    Grown sep text (addField text r).1 ∧ OneLine (addField text r).2 := by
  unfold addField
  split
  · rename_i m found
    have grown := Grown.insert newline (oneLine_fieldPlace field text m)
      (apart_fieldPlace (r := r) newline found)
    rw [List.take_append_drop] at grown
    exact ⟨grown, (by decide : OneLine [])⟩
  · exact ⟨Grown.refl sep text, (by decide : OneLine (' ' :: missingTypeMarker))⟩

theorem importAnchor?_eq_some {o : Nat} (h : importAnchor? text = some o) :
    ∃ front rest, text = front ++ [';'] ++ rest ∧ o = (front ++ [';']).length := by
  unfold importAnchor? at h
  split at h
  · rename_i m found
    cases h
    exact Matcher.split_at_stop found
      (Java.statement_reads fun _ _ => Java.afterPackage?_suffix)
  · obtain ⟨m, found, rfl⟩ := Option.map_eq_some_iff.mp h
    exact Matcher.split_at_stop found (Java.statement_reads fun _ _ => Java.afterImport?_suffix)

theorem grown_addImport (newline : IsNewline sep) (text : Text) {marker : Text}
    (plain : OneLine marker) : Grown sep text (addImport text marker) := by
  have imports : OneLine (RandomField.importStatement ++ marker) := .append (by decide) plain
  unfold addImport
  split
  · rename_i o anchored
    obtain ⟨front, rest, eq, stop⟩ := importAnchor?_eq_some anchored
    obtain ⟨taken, dropped⟩ := Text.take_drop_of_append eq stop
    have grown := Grown.insert newline (OneLine.cons (c := ' ') (by decide) imports)
      (newline.apart_behind (by decide : ';' ≠ '\r') front rest)
    rw [taken, dropped]
    rw [← eq] at grown
    simpa using grown
  · have grown := Grown.insert newline (imports.append (by decide : OneLine [' ']))
      (newline.apart_nil_left (y := text))
    simpa using grown

theorem grown_addHeader (newline : IsNewline sep) (field : OneLine r.field) (text : Text) :
    Grown sep text (addHeader text r) := by
  obtain ⟨grown, plain⟩ := grown_addField newline field text
  exact grown.trans (grown_addImport newline _ plain)

end Header

section Answers

/-- A noise whose statement can be written: its probability, and the least delay and the range of
a sleep, have not too many digits. -/
structure Noise.Writable (n : Noise Int) : Prop where
  probability : Decimal.Short n.probability
  low : ∀ low high, n.action = .sleep low high → Decimal.Short low
  range : ∀ low high, n.action = .sleep low high → low < high → Decimal.Short (high - low)

theorem Noise.exists_delay {low high : Int} (short : Decimal.Short low)
    (range : low < high → Decimal.Short (high - low)) (r : RandomField) :
    ∃ t, Noise.delay r low high = .ok t := by
  have least := Amount.write_int.mpr ⟨short, rfl⟩
  by_cases above : low < high
  · have written := Quantity.write_whole.mpr ⟨range above, rfl⟩
    have compared : Amount.above high low = .ok true := by simp [Amount.above, above]
    exact ⟨_, bind_eq_ok.mpr ⟨true, compared,
      bind_eq_ok.mpr ⟨_, least, bind_eq_ok.mpr ⟨_, written, rfl⟩⟩⟩⟩
  · have compared : Amount.above high low = .ok false := by simp [Amount.above, above]
    exact ⟨_, bind_eq_ok.mpr ⟨false, compared, least⟩⟩

theorem Noise.Writable.statement {n : Noise Int} (h : n.Writable) (r : RandomField) :
    ∃ t, n.statement r = .ok t := by
  have acts : ∃ t, Noise.actionStatement r n.action = .ok t := by
    cases action : n.action with
    | yield => exact ⟨_, rfl⟩
    | sleep low high =>
      obtain ⟨t, delayed⟩ := exists_delay (h.low low high action) (h.range low high action) r
      exact ⟨_, bind_eq_ok.mpr ⟨t, delayed, rfl⟩⟩
  obtain ⟨t, made⟩ := acts
  have chance := Amount.write_int.mpr ⟨h.probability, rfl⟩
  exact ⟨_, bind_eq_ok.mpr ⟨t, made, bind_eq_ok.mpr ⟨_, chance, rfl⟩⟩⟩

theorem exists_item {xs : List β} {i : Int} (counted : 0 ≤ i) (inside : i < xs.length) :
    ∃ x, (itemIndex? xs.length i >>= (xs[·]?)) = some x := by
  have below : i.toNat < xs.length := by omega
  refine ⟨xs[i.toNat], ?_⟩
  simp [itemIndex?, counted, below]

theorem exists_counted {places : List Nat} {i : Int} (counted : 0 ≤ i) :
    ∃ o, (if i < places.length then
        match itemIndex? places.length i >>= (places[·]?) with
        | none => throw .outOfRange
        | some o => pure (some o)
      else pure none : Except Fault (Option Nat)) = .ok o := by
  split
  · rename_i inside
    obtain ⟨o, found⟩ := exists_item counted inside
    rw [found]
    exact ⟨_, rfl⟩
  · exact ⟨_, rfl⟩

theorem Point.exists_locateIn {p : Point α} (counted : 0 ≤ p.sequence) (line : Text)
    (finds : List Occurrence) : ∃ o, p.locateIn line finds = .ok o := by
  unfold locateIn
  split
  · rename_i inside
    obtain ⟨o, found⟩ := exists_item counted inside
    rw [found]
    by_cases same : o.trigger = p.trigger
    · simp only [same, if_true]
      exact ⟨_, rfl⟩
    · simp only [same, if_false]
      exact exists_counted counted
  · exact exists_counted counted

theorem exists_lineSplices (line : Text) (r : RandomField) (finds : List Occurrence)
    {ps : List (Point Int)} (order : Nat)
    (good : ∀ p ∈ ps, 0 ≤ p.sequence ∧ ∃ n, p.noise = some n ∧ n.Writable) :
    ∃ ss, lineSplices line r finds order ps = .ok ss := by
  induction ps generalizing order with
  | nil => exact ⟨[], rfl⟩
  | cons p rest ih =>
    obtain ⟨counted, n, noise, writable⟩ := good p List.mem_cons_self
    obtain ⟨more, others⟩ := ih (order + 1) fun q hq => good q (List.mem_cons_of_mem p hq)
    obtain ⟨o, located⟩ := p.exists_locateIn counted line finds
    obtain ⟨t, made⟩ := writable.statement r
    have here : ∃ s, p.splice? line r finds order = .ok s := by
      unfold Point.splice? Point.insertionIn
      rw [located, noise]
      cases o with
      | none => exact ⟨none, rfl⟩
      | some o =>
        refine ⟨some ⟨statementStart line o, t, order⟩, ?_⟩
        simp only [made, bind, Except.bind]
        rfl
    obtain ⟨s, here⟩ := here
    exact ⟨_, bind_eq_ok.mpr ⟨s, here, bind_eq_ok.mpr ⟨more, others, rfl⟩⟩⟩

theorem exists_instrumentedFrom {s : Survey} {points : List (Point Int)} {r : RandomField}
    (number : Nat) (lines : List Text)
    (good : ∀ p ∈ points, ∀ n, p.noise = some n → 0 ≤ p.sequence ∧ n.Writable) :
    ∃ out, s.instrumentedFrom points r number lines = .ok out := by
  induction lines generalizing number with
  | nil => exact ⟨[], rfl⟩
  | cons line rest ih =>
    have here : ∃ l, s.instrumentedLine points r number line = .ok l := by
      have noisy : ∀ p ∈ noisyOn points number, 0 ≤ p.sequence ∧
          ∃ n, p.noise = some n ∧ n.Writable := by
        intro p hp
        obtain ⟨mem, kept⟩ := List.mem_filter.mp hp
        obtain ⟨n, noise⟩ := Option.isSome_iff_exists.mp (Bool.and_eq_true _ _ ▸ kept).1
        exact ⟨(good p mem n noise).1, n, noise, (good p mem n noise).2⟩
      unfold Survey.instrumentedLine
      split
      · exact ⟨line, rfl⟩
      · obtain ⟨ss, spliced⟩ := exists_lineSplices line r (s.catalogue.scanLine line) 0 noisy
        exact ⟨_, bind_eq_ok.mpr ⟨ss, spliced, rfl⟩⟩
    obtain ⟨l, here⟩ := here
    obtain ⟨below, others⟩ := ih (number + 1)
    exact ⟨_, bind_eq_ok.mpr ⟨l, here, bind_eq_ok.mpr ⟨below, others, rfl⟩⟩⟩

end Answers

theorem oneLine_randomField (s : Survey) :
    OneLine (s.randomField {}).field ∧ OneLine (s.randomField {}).reference := by
  have field : OneLine ({} : RandomField).field := by decide
  unfold Survey.randomField
  split
  · rename_i m found
    have name : OneLine m.value.name := by
      have words := Java.firstType?_name found
      exact ⟨fun mem => absurd (words _ mem) (by decide),
        fun mem => absurd (words _ mem) (by decide)⟩
    refine ⟨field, ?_⟩
    unfold RandomField.reference
    dsimp only
    split
    · exact field
    · exact name.append (.cons (by decide) field)
  · exact ⟨field, field⟩

/-- Noise keeps line numbers: cut at the newlines of its unit, the text with noise has as many
pieces as the text without, and each has the characters of the old piece in order. Instrumenting
answers unless a point has a negative sequence number or noise that cannot be written. -/
theorem line_numbers_kept {path : Path} {t : Text} {scope : Scope} {c : Catalogue} {s : Survey}
    (scanned : Survey.ofUnit (.ofText path t scope) c = .ok s) (points : List (Point Int)) :
    (∀ out, s.instrument points = .ok out → List.Forall₂ List.Sublist
      (Text.splitOn s.unit.newline t) (Text.splitOn s.unit.newline out)) ∧
    ((∀ p ∈ points, ∀ n, p.noise = some n → 0 ≤ p.sequence ∧ n.Writable) →
      ∃ out, s.instrument points = .ok out) := by
  obtain ⟨unit, _, _⟩ := Survey.of_ofUnit scanned
  obtain ⟨lined, pieces⟩ := SourceUnit.ofText_lines path t scope
  rw [← unit] at lined pieces
  have name : s.unit.newline = SourceUnit.newlineOf t := by
    rw [unit]
    exact SourceUnit.newline_ofText path t scope
  rw [← name] at pieces
  obtain ⟨field, reference⟩ := oneLine_randomField s
  constructor
  · intro out instrumented
    obtain ⟨lines, noisy, instrumented⟩ := bind_eq_ok.mp instrumented
    have each := instrumentedFrom_lines lined.newline reference lined.absent noisy
    have some : lines ≠ [] := by
      rintro rfl
      exact lined.some (List.forall₂_nil_right_iff.mp each)
    have lined' : s.unit.Lined lines := by
      refine ⟨lined.newline, some, fun l hl => ?_⟩
      obtain ⟨_, _, _, absent⟩ := exists_of_mem_right each hl
      exact absent
    have grown : Grown s.unit.newline t (s.unit.assemble lines) := by
      unfold Grown
      rw [pieces, lined'.splitOn_assemble]
      exact List.rel_append (each.imp fun _ _ h => h.1)
        (List.forall₂_same.mpr fun _ _ => List.Sublist.refl _)
    cases instrumented
    split
    · exact grown.trans (grown_addHeader lined.newline field _)
    · exact grown
  · intro good
    obtain ⟨lines, noisy⟩ := exists_instrumentedFrom 1 s.unit.lines good
    exact ⟨_, bind_eq_ok.mpr ⟨lines, noisy, rfl⟩⟩

/-- An enum without a semicolon behind its constants, pairs at the ends of lines, and single
characters of such pairs. -/
def strayText : Text := "enum E \x7b A\r\n\n\x7d\r\r\n\rx.lock();".toList

def straySurvey : Survey where
  unit := .ofText (.ofText "E.java".toList) strayText
  catalogue := .default
  points := [⟨3, 0, .mutualExclusion, ".lock(".toList, none⟩]

def strayNoise : List (Point Int) :=
  [⟨3, 0, .mutualExclusion, ".lock(".toList, some ⟨50, .sleep 5 5⟩⟩]

theorem straySurvey_lines :
    Survey.ofUnit (.ofText (.ofText "E.java".toList) strayText) .default = .ok straySurvey ∧
    ∃ out, straySurvey.instrument strayNoise = .ok out ∧ List.Forall₂ List.Sublist
      (Text.splitOn straySurvey.unit.newline strayText)
      (Text.splitOn straySurvey.unit.newline out) := by
  have scanned : Survey.ofUnit (.ofText (.ofText "E.java".toList) strayText) .default =
      .ok straySurvey := by rfl
  have good : ∀ p ∈ strayNoise, ∀ n, p.noise = some n → 0 ≤ p.sequence ∧ n.Writable := by
    intro p hp n noise
    cases List.mem_singleton.mp hp
    cases noise
    exact ⟨by decide, by decide, fun low high action => by cases action; decide,
      fun low high action _ => by cases action; decide⟩
  obtain ⟨kept, answers⟩ := line_numbers_kept scanned strayNoise
  obtain ⟨out, instrumented⟩ := answers good
  exact ⟨scanned, out, instrumented, kept out instrumented⟩

end SchedulingNoise
