import SchedulingNoise.Proofs.Decommenting
import SchedulingNoise.Proofs.Freezing
import SchedulingNoise.Proofs.Generation

/-! Annotations that points leave in a source are comments: the text without comments is as it
was, up to white space. This holds of every annotation that goes behind code or into a line
comment, or over text that was all comment; one that goes into an open comment ends it. -/
namespace SchedulingNoise

theorem Text.solids_append (x y : Text) : (x ++ y).solids = x.solids ++ y.solids :=
  List.filter_append x y

theorem Text.solids_blank {t : Text} (blank : Blank t) : t.solids = [] := by
  apply List.filter_eq_nil_iff.mpr
  intro c hc
  simp [blank c hc]

namespace Pragma

theorem render_inner (a : Pragma Int) :
    ∃ inner, a.render = '/' :: '*' :: ' ' :: (inner ++ ['*', '/']) ∧ '*' ∉ inner := by
  refine ⟨"@PreemptionPoint".toList ++ ' ' :: '(' :: (a.writtenList ++ [')', ' ']), ?_, ?_⟩
  · rw [render_eq]
    simp
  · have list : '*' ∉ a.writtenList := fun mem => absurd (mem_writtenList mem) (by decide)
    simp [list]

end Pragma

namespace Java.Stand

theorem comment_plain {s : Stand} {last : Char}
    (stays : ∀ c, c ≠ last → s.next c = s ∧ s.keep c = []) {x : Text} (plain : last ∉ x) :
    s.after x = s ∧ s.kept x = [] := by
  induction x with
  | nil => exact ⟨rfl, rfl⟩
  | cons c x ih =>
    obtain ⟨other, plain⟩ := List.ne_and_not_mem_of_not_mem_cons plain
    obtain ⟨same, nothing⟩ := stays c (Ne.symm other)
    rw [after_cons, kept, same, nothing]
    exact ih plain

theorem block_plain {x : Text} (plain : '*' ∉ x) :
    (Stand.within .blockComment).after x = .within .blockComment ∧
      (Stand.within .blockComment).kept x = [] := by
  refine comment_plain (fun c other => ?_) plain
  exact ⟨if_neg other, rfl⟩

theorem line_plain {x : Text} (plain : '\n' ∉ x) :
    (Stand.within .lineComment).after x = .within .lineComment ∧
      (Stand.within .lineComment).kept x = [] := by
  refine comment_plain (fun c other => ?_) plain
  simp [next, keep, other]

theorem code_blank {x : Text} (blank : Text.Blank x) :
    (Stand.within .code).after x = .within .code ∧ (Stand.within .code).kept x = x := by
  induction x with
  | nil => exact ⟨rfl, rfl⟩
  | cons c x ih =>
    obtain ⟨here, blank⟩ := List.forall_mem_cons.mp blank
    have slash : c ≠ '/' := fun eq => absurd (eq ▸ here) (by decide)
    have quotes : ¬ (c = '"' ∨ c = '\'') := by
      rintro (eq | eq)
      · exact absurd (eq ▸ here) (by decide)
      · exact absurd (eq ▸ here) (by decide)
    have stays : next (.within .code) c = .within .code := by simp [next, inCode, slash, quotes]
    have all : keep (.within .code) c = [c] := if_neg slash
    rw [after_cons, kept, stays, all, (ih blank).1, (ih blank).2]
    exact ⟨rfl, rfl⟩

theorem solids_out_append {s : Stand} {x y y' : Text}
    (same : ((s.after x).out y').solids = ((s.after x).out y).solids) :
    (s.out (x ++ y')).solids = (s.out (x ++ y)).solids := by
  rw [out_append, out_append, Text.solids_append, Text.solids_append, same]

def pastNote? : Stand → Option Stand
  | .within .code | .within .blockComment => some (.within .code)
  | .slash | .within .lineComment => some (.within .lineComment)
  | _ => none

theorem through_note (a : Pragma Int) {s s' : Stand} (h : s.pastNote? = some s') :
    s.after a.render = s' ∧ s.kept a.render = [] := by
  obtain ⟨inner, eq, plain⟩ := a.render_inner
  have feed : '\n' ∉ a.render := (Pragma.oneLine_render a).2
  obtain ⟨stays, nothing⟩ := block_plain plain
  match s, h with
  | .within .code, h =>
    cases h
    simp [eq, next, kept, keep, after_append, kept_append, stays, nothing]
  | .within .blockComment, h =>
    cases h
    simp [eq, next, kept, keep, after_append, kept_append, stays, nothing]
  | .within .lineComment, h =>
    cases h
    exact line_plain feed
  | .slash, h =>
    cases h
    rw [eq] at feed ⊢
    exact line_plain (List.ne_and_not_mem_of_not_mem_cons feed).2

/-- May an annotation be written where a walk stands? One behind a line, if the walk is in code or
in a line comment; one over a text, if nothing of the text is kept but white space, and the walk
goes on as behind the annotation. -/
def Yields (s : Stand) : Option Text → Prop
  | none => s = .within .code ∨ s = .slash ∨ s = .within .lineComment
  | some old => (s.kept old).solids = [] ∧ s.pastNote? = some (s.after old)

instance (s : Stand) : (old : Option Text) → Decidable (s.Yields old)
  | none => inferInstanceAs (Decidable (_ ∨ _ ∨ _))
  | some _ => inferInstanceAs (Decidable (_ ∧ _))

theorem Yields.inPlace {s : Stand} {old : Text} (h : s.Yields (some old)) (a : Pragma Int)
    (y : Text) : (s.out (a.render ++ y)).solids = (s.out (old ++ y)).solids := by
  obtain ⟨nothing, past⟩ := h
  obtain ⟨same, nothing'⟩ := through_note a past
  rw [out_append, out_append, Text.solids_append, Text.solids_append, same, nothing, nothing']
  rfl

def EndsLine (y : Text) : Prop := y = [] ∨ ∃ c rest, y = c :: rest ∧ (c = '\r' ∨ c = '\n')

theorem Yields.behind {s : Stand} (h : s.Yields none) (a : Pragma Int) {y : Text}
    (ends : EndsLine y) : (s.out (' ' :: a.render ++ y)).solids = (s.out y).solids := by
  have through (s' : Stand) (into : s.next ' ' = s') (past : s'.pastNote? = some s') :
      s.out (' ' :: a.render ++ y) = s.keep ' ' ++ s'.out y := by
    obtain ⟨same, nothing⟩ := through_note a past
    rw [List.cons_append, out_cons, out_append, into, same, nothing]
    rfl
  rcases h with rfl | rfl | rfl
  · rw [through (.within .code) rfl rfl]
    rfl
  -- A slash at the end of the line is kept late, but no comment begins with it and a newline.
  · rw [through (.within .code) rfl rfl]
    rcases ends with rfl | ⟨c, rest, rfl, rfl | rfl⟩
    · rfl
    · rfl
    · rfl
  · rw [through (.within .lineComment) rfl rfl]
    rfl

end Java.Stand

namespace Pragma

open Text (Blank)

/-- A line of nothing but annotations, with white space between them. -/
structure Notes (line : Text) (bs : List Block) : Prop where
  laid : Laid line bs []
  each : ∀ b ∈ bs, ∃ code a, b = .ofPragma code a ∧ Blank code

theorem updateIn_placed_ok {a : Pragma Int} {bs : List Block} {front tail line' : Text}
    (h : updateIn a (front ++ spread tail bs) (placed front.length bs) = .ok line') :
    line' = front ++ spread [] (bs ++ [.ofPragma (tail ++ [' ']) a]) ∨
      ∃ xs b ys, bs = xs ++ b :: ys ∧
        line' = front ++ spread tail (xs ++ .ofPragma b.code a :: ys) := by
  induction bs generalizing front with
  | nil =>
    obtain ⟨t, written, h⟩ := bind_eq_ok.mp h
    cases h
    rw [write_eq_ok written]
    exact .inl (by simp [spread, Block.ofPragma])
  | cons b rest ih =>
    rw [placed] at h
    obtain ⟨number, _, h⟩ := bind_eq_ok.mp h
    split at h
    · obtain ⟨t, written, h⟩ := bind_eq_ok.mp h
      rw [take_start_placed, (cut_stop_placed front tail b rest).2] at h
      cases h
      rw [write_eq_ok written]
      exact .inr ⟨[], b, rest, rfl, by simp [spread, Block.ofPragma]⟩
    · rw [append_spread_cons, stop_placed] at h
      rcases ih h with rfl | ⟨xs, c, ys, rfl, rfl⟩
      · exact .inl (by simp [spread])
      · exact .inr ⟨b :: xs, c, ys, rfl, by simp [spread]⟩

namespace Notes

theorem single (a : Pragma Int) : Notes a.render [.ofPragma [] a] where
  laid :=
    { eq := (List.append_nil _).symm
      closed := fun b hb => List.mem_singleton.mp hb ▸ ⟨Quiet.nil, spelled_render a⟩
      quiet := Quiet.nil }
  each := fun b hb => ⟨[], a, List.mem_singleton.mp hb, by simp [Blank]⟩

theorem update {line line' : Text} {bs : List Block} (h : Notes line bs) {a : Pragma Int}
    (written : a.update line = .ok line') : ∃ bs', Notes line' bs' := by
  have placed : updateIn a ([] ++ spread [] bs) (placed ([] : Text).length bs) = .ok line' := by
    rw [Pragma.update, h.laid.row.comments, h.laid.eq] at written
    exact written
  -- Both ways to write add one block, whose code is white space.
  have sum : ∀ bs', (∀ b ∈ bs', b ∈ bs ∨ ∃ code, b = .ofPragma code a ∧ Quiet code ∧ Blank code) →
      Notes (spread [] bs') bs' := by
    intro bs' from_
    refine ⟨⟨rfl, fun b hb => ?_, Quiet.nil⟩, fun b hb => ?_⟩
    · rcases from_ b hb with old | ⟨code, rfl, quiet, _⟩
      · exact h.laid.closed b old
      · exact ⟨quiet, spelled_render a⟩
    · rcases from_ b hb with old | ⟨code, eq, _, blank⟩
      · exact h.each b old
      · exact ⟨code, a, eq, blank⟩
  rcases updateIn_placed_ok placed with rfl | ⟨xs, b, ys, rfl, rfl⟩
  · refine ⟨_, sum _ fun c hc => ?_⟩
    rcases List.mem_append.mp hc with old | new
    · exact .inl old
    · exact .inr ⟨[' '], List.mem_singleton.mp new, Quiet.nil.space, by decide⟩
  · have mem : b ∈ xs ++ b :: ys := by simp
    obtain ⟨code, _, eq, blank⟩ := h.each b mem
    refine ⟨_, sum _ fun c hc => ?_⟩
    rcases List.mem_append.mp hc with old | hc
    · exact .inl (List.mem_append_left _ old)
    · rcases List.mem_cons.mp hc with rfl | old
      · refine .inr ⟨b.code, rfl, (h.laid.closed b mem).quiet, ?_⟩
        rw [eq]
        exact blank
      · exact .inl (List.mem_append_right xs (List.mem_cons_of_mem b old))

theorem walk {line : Text} {bs : List Block} (h : Notes line bs) :
    (Java.Stand.within .code).after line = .within .code ∧
      ((Java.Stand.within .code).kept line).solids = [] := by
  have each := h.each
  rw [h.laid.eq]
  clear h
  induction bs with
  | nil => exact ⟨rfl, rfl⟩
  | cons b rest ih =>
    obtain ⟨⟨code, a, rfl, blank⟩, later⟩ := List.forall_mem_cons.mp each
    obtain ⟨ends, nothing⟩ := ih later
    obtain ⟨stays, all⟩ := Java.Stand.code_blank blank
    obtain ⟨past, none⟩ := Java.Stand.through_note a (s := .within .code) rfl
    rw [spread, Block.ofPragma, Java.Stand.after_append, Java.Stand.after_append,
      Java.Stand.kept_append, Java.Stand.kept_append, Java.Stand.after_append, stays, all, past,
      none, Text.solids_append, Text.solids_append, Text.solids_blank blank, nothing]
    exact ⟨ends, rfl⟩

end Notes

end Pragma

namespace SourceUnit

def front (newline : Text) (lines : List Text) : Text := lines.flatMap (· ++ newline)

theorem assemble_set {u : SourceUnit} (newline : IsNewline u.newline) {lines : List Text} {i : Nat}
    (inside : i < lines.length) :
    ∃ back, Java.Stand.EndsLine back ∧
      ∀ l, u.assemble (lines.set i l) = front u.newline (lines.take i) ++ (l ++ back) := by
  induction lines generalizing i with
  | nil => cases inside
  | cons first rest ih =>
    cases i with
    | zero =>
      refine ⟨_, ?_, fun l => u.assemble_cons l rest⟩
      have begins : ∀ y, Java.Stand.EndsLine (u.newline ++ y) := by
        intro y
        rcases newline with eq | eq
        · exact .inr ⟨'\n', y, by rw [eq]; rfl, .inr rfl⟩
        · exact .inr ⟨'\r', '\n' :: y, by rw [eq]; rfl, .inl rfl⟩
      split
      · split
        · exact List.append_nil u.newline ▸ begins []
        · exact .inl rfl
      · exact begins _
    | succ i =>
      obtain ⟨back, ends, whole⟩ := ih (Nat.lt_of_succ_lt_succ inside)
      have some : ∀ l, rest.set i l ≠ [] := by
        intro l
        rw [← List.length_pos_iff, List.length_set]
        exact Nat.lt_of_le_of_lt (Nat.zero_le i) (Nat.lt_of_succ_lt_succ inside)
      refine ⟨back, ends, fun l => ?_⟩
      rw [List.set_cons_succ, assemble_cons, if_neg (some l), whole]
      simp [front]

end SourceUnit

namespace Freeze

/-- May a point be written? Only where the line above it, as it stands, yields. -/
def Takes (newline : Text) (s : State) (p : Point Int) : Prop :=
  p.noise = none ∨ p.line = 1 ∨
    ∀ i ∈ itemIndex? s.lines.length (p.line - 2),
      ∀ g ∈ (Pragma.gap p.sequence (s.lines.getD i [])).toOption,
        ((Java.Stand.within .code).after (SourceUnit.front newline (s.lines.take i) ++ g.1)).Yields
          g.2

def Harmless (newline : Text) : State → List (Point Int) → Prop
  | _, [] => True
  | s, p :: rest => Takes newline s p ∧ ∀ s' ∈ (point s p).toOption, Harmless newline s' rest

instance (newline : Text) (s : State) (p : Point Int) : Decidable (Takes newline s p) :=
  inferInstanceAs (Decidable (_ ∨ _ ∨ _))

instance decidableHarmless (newline : Text) :
    (s : State) → (points : List (Point Int)) → Decidable (Harmless newline s points)
  | _, [] => inferInstanceAs (Decidable True)
  | _, _ :: rest =>
    have (s' : State) := decidableHarmless newline s' rest
    inferInstanceAs (Decidable (_ ∧ ∀ s' ∈ _, Harmless newline s' rest))

/-- Lines whose code is that of a text, and a top line of annotations. -/
structure Commented (u : SourceUnit) (t : Text) (s : State) : Prop where
  lined : s.lines ≠ []
  code : (Java.decomment (u.assemble s.lines)).solids = (Java.decomment t).solids
  top : ∀ top ∈ s.top, ∃ bs, Pragma.Notes top bs

theorem code_set {u : SourceUnit} (newline : IsNewline u.newline) {lines : List Text} {i : Nat}
    (inside : i < lines.length) {a : Pragma Int} {line' : Text}
    (written : a.update (lines.getD i []) = .ok line')
    (yields : ∀ g ∈ (Pragma.gap a.sequence (lines.getD i [])).toOption,
      ((Java.Stand.within .code).after
        (SourceUnit.front u.newline (lines.take i) ++ g.1)).Yields g.2) :
    (Java.decomment (u.assemble (lines.set i line'))).solids =
      (Java.decomment (u.assemble lines)).solids := by
  obtain ⟨back, ends, whole⟩ := SourceUnit.assemble_set newline inside
  have old : u.assemble lines =
      SourceUnit.front u.newline (lines.take i) ++ (lines.getD i [] ++ back) := by
    rw [← whole, List.getD_eq_getElem?_getD, List.getElem?_eq_getElem inside, Option.getD_some,
      List.set_getElem_self]
  rw [whole, old, Java.decomment_eq, Java.decomment_eq]
  generalize lines.getD i [] = line at written yields
  generalize SourceUnit.front u.newline (lines.take i) = front at yields
  rcases Pragma.update_gap written with ⟨place, rfl⟩ | ⟨x, old, y, place, rfl, rfl⟩
  · have behind := yields (line, none) (by rw [place]; rfl)
    have same := behind.behind a ends
    simpa using Java.Stand.solids_out_append same
  · have inPlace := yields (x, some old) (by rw [place]; rfl)
    have same := inPlace.inPlace a (y ++ back)
    simpa using Java.Stand.solids_out_append same

theorem itemIndex?_lt {n i : Nat} {k : Int} (h : itemIndex? n k = some i) : i < n := by
  unfold itemIndex? at h
  split at h
  · split at h
    · cases h
      assumption
    · cases h
  · split at h
    · cases h
      omega
    · cases h

theorem Commented.step {u : SourceUnit} (newline : IsNewline u.newline) {t : Text} {s s' : State}
    {p : Point Int} (h : Commented u t s) (takes : Takes u.newline s p)
    (written : point s p = .ok s') : Commented u t s' := by
  unfold point at written
  cases noise : p.noise with
  | none =>
    rw [noise] at written
    cases written
    exact h
  | some n =>
    rw [noise] at written
    dsimp only at written
    split at written
    -- A point on the first line is written on the top line, and no line of the text changes.
    · split at written
      · obtain ⟨top', spelled, written⟩ := bind_eq_ok.mp written
        cases written
        refine ⟨h.lined, h.code, fun top eq => ?_⟩
        cases eq
        rw [Pragma.write_eq_ok spelled]
        exact ⟨_, .single _⟩
      · rename_i top there
        obtain ⟨top', updated, written⟩ := bind_eq_ok.mp written
        cases written
        obtain ⟨bs, notes⟩ := h.top top there
        refine ⟨h.lined, h.code, fun top eq => ?_⟩
        cases eq
        exact notes.update updated
    · rename_i below
      split at written
      · cases written
      · rename_i i place
        obtain ⟨line', updated, written⟩ := bind_eq_ok.mp written
        cases written
        have yields := (takes.resolve_left (by simp [noise])).resolve_left below i place
        have same := code_set newline (itemIndex?_lt place) updated yields
        exact ⟨by simpa using h.lined, same.trans h.code, h.top⟩

theorem Commented.run {u : SourceUnit} (newline : IsNewline u.newline) {t : Text} {s s' : State}
    {points : List (Point Int)} (h : Commented u t s) (harmless : Harmless u.newline s points)
    (written : points.foldlM point s = .ok s') : Commented u t s' := by
  induction points generalizing s with
  | nil =>
    cases written
    exact h
  | cons p rest ih =>
    rw [List.foldlM_cons] at written
    obtain ⟨s₁, first, others⟩ := bind_eq_ok.mp written
    obtain ⟨takes, later⟩ := harmless
    exact ih (h.step newline takes first) (later s₁ (by rw [first]; rfl)) others

theorem Commented.code_top {u : SourceUnit} (newline : IsNewline u.newline) {t : Text} {s : State}
    (h : Commented u t s) :
    (Java.decomment (u.assemble (s.top.toList ++ s.lines))).solids = (Java.decomment t).solids := by
  cases there : s.top with
  | none => exact h.code
  | some top =>
    obtain ⟨bs, notes⟩ := h.top top there
    obtain ⟨stays, nothing⟩ := notes.walk
    have blank : Text.Blank u.newline := by rcases newline with eq | eq <;> rw [eq] <;> decide
    obtain ⟨past, all⟩ := Java.Stand.code_blank blank
    rw [← h.code, Option.toList_some, List.singleton_append, SourceUnit.assemble_cons,
      if_neg h.lined, Java.decomment_eq, Java.decomment_eq, Java.Stand.out_append, stays,
      Java.Stand.out_append, past, all, Text.solids_append, Text.solids_append, nothing,
      Text.solids_blank blank]
    rfl

end Freeze

/-- Freezing adds nothing but comments. -/
theorem freeze_keeps_code [Amount α] [IntegerAmount α] {path : Path} {t : Text} {scope : Scope}
    {points : List (Point Int)} {lines : List Text}
    (harmless : Freeze.Harmless (SourceUnit.newlineOf t)
      { lines := (SourceUnit.ofText path t scope).lines } points)
    (frozen : freeze (SourceUnit.ofText path t scope).lines
      (points.map (·.map (Amount.ofInt : Int → α))) = .ok lines) :
    (Java.decomment ((SourceUnit.ofText path t scope).assemble lines)).solids =
      (Java.decomment t).solids := by
  have lined := (SourceUnit.ofText_lines path t scope).1
  have start : Freeze.Commented (SourceUnit.ofText path t scope) t
      { lines := (SourceUnit.ofText path t scope).lines } := by
    refine ⟨lined.some, ?_, fun top eq => by cases eq⟩
    rw [SourceUnit.assemble_ofText]
  rw [freeze_map] at frozen
  obtain ⟨s, written, made⟩ := bind_eq_ok.mp frozen
  cases made
  rw [← SourceUnit.newline_ofText path t scope] at harmless
  exact (start.run lined.newline harmless written).code_top lined.newline

/-- Two triggers on the first line, one in a line comment, and an annotation that is malformed. -/
def remarkedText : Text :=
  "a.lock();b.lock();\nc(); // d.lock()\n".toList ++
    "e.lock(); /*@preemptionpoint(type=nap)*/ f();\ng.await();\n".toList

def remarkedPoints : List (Point Int) :=
  [⟨1, 0, .mutualExclusion, ".lock(".toList, some ⟨75, .sleep 5 60⟩⟩,
    ⟨1, 1, .mutualExclusion, ".lock(".toList, some ⟨75, .yield⟩⟩,
    ⟨2, 0, .mutualExclusion, ".lock(".toList, some ⟨75, .sleep 5 60⟩⟩,
    ⟨3, 0, .mutualExclusion, ".lock(".toList, some ⟨75, .yield⟩⟩,
    ⟨4, 0, .latch, ".await(".toList, some ⟨75, .sleep 5 60⟩⟩]

def remarkedUnit : SourceUnit := .ofText (.ofText "A.java".toList) remarkedText

def remarkedSurvey : Survey := ⟨remarkedUnit, .default, remarkedPoints.map (·.withNoise none)⟩

theorem remarkedText_code_kept :
    pointsFrom .default [] 1 remarkedUnit.lines = .ok remarkedSurvey.points ∧
    (remarkedSurvey.generate (α := Int) ⟨fun _ => 75, 50, 5, 60⟩).run' (.script [0, 99, 0, 99, 0]) =
      some remarkedPoints ∧
    ∃ lines, freeze remarkedUnit.lines remarkedPoints = .ok lines ∧
      (Java.decomment (remarkedUnit.assemble lines)).solids =
        "a.lock();b.lock();c();e.lock();f();g.await();".toList := by
  have harmless : Freeze.Harmless (SourceUnit.newlineOf remarkedText)
      { lines := remarkedUnit.lines } remarkedPoints := by decide +kernel
  have code : (Java.decomment remarkedText).solids =
      "a.lock();b.lock();c();e.lock();f();g.await();".toList := by decide +kernel
  have written : (freeze remarkedUnit.lines remarkedPoints).isOk := by decide +kernel
  refine ⟨by decide +kernel, by decide +kernel, ?_⟩
  cases frozen : freeze remarkedUnit.lines remarkedPoints with
  | error e =>
    rw [frozen] at written
    cases written
  | ok lines =>
    refine ⟨lines, rfl, code ▸ ?_⟩
    rw [← freeze_map (α := Int)] at frozen
    unfold remarkedUnit at harmless frozen ⊢
    exact freeze_keeps_code harmless frozen

def mutedText : Text := "/*\nx.lock();\n*/\n".toList

def mutedPoints : List (Point Int) :=
  [⟨2, 0, .mutualExclusion, ".lock(".toList, some ⟨50, .yield⟩⟩]

def mutedSurvey : Survey :=
  ⟨.ofText (.ofText "A.java".toList) mutedText, .default, mutedPoints.map (·.withNoise none)⟩

/-- The annotation ends the comment that it is written into. -/
theorem mutedText_code_found :
    pointsFrom .default [] 1 mutedSurvey.unit.lines = .ok mutedSurvey.points ∧
    (mutedSurvey.generate (α := Int) .default).run' (.script [99]) = some mutedPoints ∧
    (Java.decomment mutedText).solids = [] ∧
    (freeze mutedSurvey.unit.lines mutedPoints).map
      (fun lines => (Java.decomment (mutedSurvey.unit.assemble lines)).solids) =
        .ok "x.lock();*/".toList := by
  decide +kernel

end SchedulingNoise
