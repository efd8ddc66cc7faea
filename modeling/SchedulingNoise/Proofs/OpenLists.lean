import SchedulingNoise.Proofs.Updates

/-! Lists that are left open. A list that opens and does not close takes in whatever follows, up
to the next closing parenthesis, and an annotation that is written behind it is lost. Where no list
is left open in front of an annotation, a look-up finds what was written. -/
namespace SchedulingNoise.Pragma

open Text (Blank Solid)

/-- A text that begins as a comment does, and whose list is not closed. -/
def OpensList (t : Text) : Prop :=
  ∃ o b l, Opening o ∧ Blank b ∧ ')' ∉ l ∧ t = o ++ b ++ '(' :: l

def opensList (t : Text) : Bool :=
  (afterOpening? t).any fun rest =>
    match rest.drop (Text.countBlanks rest) with
    | '(' :: l => !l.contains ')'
    | _ => false

theorem opensList_iff {t : Text} : opensList t = true ↔ OpensList t := by
  simp only [opensList, Option.any_eq_true]
  constructor
  · rintro ⟨rest, opened, list⟩
    obtain ⟨o, opening, rfl⟩ := afterOpening?_eq_some.mp opened
    obtain ⟨b, rest, rfl, blank, solid⟩ := Text.split_blanks rest
    rw [Text.countBlanks_append blank solid, List.drop_left] at list
    split at list
    · exact ⟨o, b, _, opening, blank, by simpa using list, by simp⟩
    · cases list
  · rintro ⟨o, b, l, opening, blank, plain, rfl⟩
    refine ⟨b ++ '(' :: l, afterOpening?_eq_some.mpr ⟨o, opening, by simp⟩, ?_⟩
    rw [Text.countBlanks_append blank (Solid.cons (by decide) _), List.drop_left]
    simpa using plain

instance (t : Text) : Decidable (OpensList t) := decidable_of_iff _ opensList_iff

theorem not_opensList_nil : ¬ OpensList [] := by decide

/-- A text in which every list that is left open begins inside a comment. -/
def Shut (t : Text) : Prop :=
  ∀ i, OpensList (t.drop i) → ∃ c ∈ comments t, c.start ≤ i ∧ i < c.stop

instance (t : Text) : Decidable (Shut t) := decidable_of_iff _ (forall_drop_iff not_opensList_nil)

section Avoids

variable {P Q : Text → Prop} {tail : Text} {bs x y : List Block} {b : Block}

theorem Avoids.imp (h : Avoids P tail bs) (weaker : ∀ s, s ≠ [] → Q s → P s) :
    Avoids Q tail bs := by
  induction bs with
  | nil => exact fun s ends some has => h s ends some (weaker s some has)
  | cons b rest ih =>
    refine ⟨fun s ends some has => h.1 s ends some (weaker _ ?_ has), ih h.2⟩
    simp [some]

theorem Avoids.or (h : Avoids P tail bs) (h' : Avoids Q tail bs) :
    Avoids (fun s => P s ∨ Q s) tail bs := by
  induction bs with
  | nil => exact fun s ends some has => has.elim (h s ends some) (h' s ends some)
  | cons b rest ih =>
    exact ⟨fun s ends some has => has.elim (h.1 s ends some) (h'.1 s ends some), ih h.2 h'.2⟩

theorem avoids_split : Avoids P tail (x ++ b :: y) ↔
    Avoids (fun s => P (s ++ (b.text ++ spread tail y))) b.code x ∧ Avoids P tail y := by
  induction x with
  | nil => rfl
  | cons c x ih =>
    simp only [List.cons_append, Avoids, ih, spread_split, List.append_assoc, and_assoc]

theorem avoids_concat {c : Char} (alone : ¬ P [c]) :
    Avoids P (tail ++ [c]) bs ↔ Avoids (fun s => P (s ++ [c])) tail bs := by
  induction bs with
  | nil =>
    constructor
    · intro h s ends _
      exact h _ (List.suffix_concat_iff.mpr (.inr ⟨s, rfl, ends⟩)) (by simp)
    · intro h s ends some has
      rcases List.suffix_concat_iff.mp ends with rfl | ⟨s, rfl, within⟩
      · exact some rfl
      · by_cases none : s = []
        · subst none
          exact alone has
        · exact h s within none has
  | cons b rest ih => simp only [Avoids, ih, spread_append, List.append_assoc]

end Avoids

theorem shut_iff {t : Text} {bs : List Block} {tail : Text} (row : Row t bs tail) :
    Shut t ↔ Avoids OpensList tail bs := by
  rw [avoids_iff not_opensList_nil 0, ← row.eq, ← row.comments]
  simp only [Nat.zero_add]
  rfl

section Cuts

variable {s u : Text}

theorem Spelled.cut {list : Option Text} (some : s ≠ []) (h : Spelled (s ++ '/' :: u) list) :
    u = [] ∨ OpensList s := by
  have foreign {b : Text} (blank : Blank b) : '/' ∉ b := fun mem =>
    absurd (blank '/' mem) (by decide)
  obtain ⟨c, s, rfl⟩ := List.exists_cons_of_ne_nil some
  generalize eq : (c :: s) ++ '/' :: u = t at h
  cases h with
  | @bare o b opening blank =>
    obtain ⟨body, rfl, plain⟩ := opening.slash
    left
    apply Text.eq_nil_of_last (by simp [plain, foreign blank] : '/' ∉ body ++ b ++ ['*'])
    simpa using (List.cons.inj eq).2
  | @listed o b l b' opening blank closed blank' =>
    obtain ⟨body, rfl, plain⟩ := opening.slash
    obtain ⟨rfl, eq⟩ := List.cons.inj eq
    have behind : s ++ '/' :: u = (body ++ b ++ ['(']) ++ (l ++ ')' :: (b' ++ ['*', '/'])) := by
      simpa using eq
    obtain ⟨v, rfl, within⟩ := Text.behind_of_not_mem (by simp [plain, foreign blank]) behind
    -- The slash is inside the list, or it is the one at the end.
    rcases List.append_eq_append_iff.mp within with ⟨m, rfl, _⟩ | ⟨m, rfl, last⟩
    · right
      refine ⟨'/' :: body, b, v, opening, blank, ?_, by simp⟩
      exact fun mem => closed (List.mem_append_left m mem)
    · left
      apply Text.eq_nil_of_last (by simp [foreign blank'] : '/' ∉ ')' :: (b' ++ ['*']))
      simpa using last.symm

theorem Starts.cut (some : s ≠ []) (h : Starts (s ++ '/' :: u)) :
    Starts (s ++ ['/']) ∨ OpensList s := by
  obtain ⟨text, list, spelled, rest, eq⟩ := h
  rcases List.append_eq_append_iff.mp eq with ⟨m, rfl, _⟩ | ⟨m, rfl, behind⟩
  · exact .inl ⟨text, list, spelled, by simp⟩
  · cases m with
    | nil => exact .inl ⟨_, list, spelled, by simp⟩
    | cons c m =>
      cases behind
      rcases spelled.cut some with rfl | opens
      · exact .inl ⟨_, list, spelled, List.prefix_rfl⟩
      · exact .inr opens

theorem OpensList.starts (h : OpensList s) (a : Pragma Int) (rest : Text) :
    Starts (s ++ (a.render ++ rest)) := by
  obtain ⟨o, b, l, opening, blank, plain, rfl⟩ := h
  have taken : ')' ∉ l ++ ("/* @PreemptionPoint (".toList ++ a.writtenList) := by
    intro mem
    rcases List.mem_append.mp mem with mem | mem
    · exact plain mem
    · rcases List.mem_append.mp mem with mem | mem
      · exact absurd mem (by decide)
      · exact absurd (mem_writtenList mem) (by decide)
  have back : ") */".toList = ')' :: ([' '] ++ ['*', '/']) := rfl
  refine ⟨_, _, .listed opening blank taken (by decide : Blank [' ']), rest, ?_⟩
  rw [render_eq, back]
  simp

theorem Spelled.ends {text : Text} {list : Option Text} (h : Spelled text list) :
    ∃ inner, text = inner ++ ['*', '/'] := by
  cases h with
  | bare _ _ => exact ⟨_, rfl⟩
  | @listed o b l b' _ _ _ _ => exact ⟨o ++ b ++ '(' :: (l ++ ')' :: b'), by simp⟩

theorem Starts.of_space (h : Starts (s ++ [' '] ++ ['/'])) : Starts s := by
  obtain ⟨text, list, spelled, begins⟩ := h
  obtain ⟨inner, rfl⟩ := spelled.ends
  rcases List.prefix_concat_iff.mp begins with whole | begins
  · have ends : inner ++ ['*', '/'] = s ++ [' ', '/'] := by simpa using whole
    cases (List.append_inj' ends rfl).2
  · rcases List.prefix_concat_iff.mp begins with whole | begins
    · have ends : (inner ++ ['*']) ++ ['/'] = s ++ [' '] := by simpa using whole
      cases (List.append_inj' ends rfl).2
    · exact ⟨_, list, spelled, begins⟩

theorem opensList_space : OpensList (s ++ [' ']) ↔ OpensList s := by
  constructor
  · rintro ⟨o, b, l, opening, blank, plain, eq⟩
    rcases List.eq_nil_or_concat l with rfl | ⟨l, c, rfl⟩
    · cases (List.append_inj' eq rfl).2
    · have ends : s ++ [' '] = (o ++ b ++ '(' :: l) ++ [c] := by simpa using eq
      refine ⟨o, b, l, opening, blank, ?_, (List.append_inj' ends rfl).1⟩
      exact fun mem => plain (by simp [mem])
  · rintro ⟨o, b, l, opening, blank, plain, rfl⟩
    exact ⟨o, b, l ++ [' '], opening, blank, by simp [plain], by simp⟩

end Cuts

/-- A site for an annotation, between blocks: a slash there ends no comment. -/
structure Site (x : List Block) (code : Text) (y : List Block) (tail : Text) : Prop where
  spelled : ∀ b ∈ x, Spelled b.text b.list
  ready : Avoids (fun s => Starts (s ++ ['/'])) code x
  behind : Row (spread tail y) y tail

namespace Site

variable {x y : List Block} {code tail : Text} (site : Site x code y tail) (a : Pragma Int)
include site

theorem front : Row (spread code x) x code := by
  refine ⟨rfl, site.spelled, site.ready.imp ?_⟩
  intro s _ starts
  exact starts.append ['/']

theorem row (shut : Shut (spread code x)) :
    Row (spread code x ++ (a.render ++ spread tail y)) (x ++ .ofPragma code a :: y) tail := by
  have closed := (shut_iff site.front).mp shut
  constructor
  · rw [spread_split]
    rfl
  · intro b hb
    rcases List.mem_append.mp hb with hb | hb
    · exact site.spelled b hb
    · rcases List.mem_cons.mp hb with rfl | hb
      · exact spelled_render a
      · exact site.behind.spelled b hb
  · refine avoids_split.mpr ⟨(site.ready.or closed).imp ?_, site.behind.idle⟩
    intro s some starts
    obtain ⟨inner, slashes⟩ := (spelled_render a).slashes
    rw [Block.ofPragma, slashes] at starts
    exact Starts.cut some starts

/-- The search finds an annotation just if no list is left open in front of it. -/
theorem shut_iff_found : Shut (spread code x) ↔
    ∃ c ∈ comments (spread code x ++ (a.render ++ spread tail y)),
      c.start = (spread code x).length ∧
      c.text (spread code x ++ (a.render ++ spread tail y)) = a.render := by
  constructor
  · intro shut
    have row := site.row a shut
    refine ⟨_, row.comments ▸ mem_placed.mpr ⟨x, _, y, rfl, rfl⟩, ?_, ?_⟩
    · exact Nat.zero_add _
    · simp [Match.text, Block.ofPragma, List.take_length_add_append]
  · -- Whatever the row of the line is, it has a block where the annotation begins; a list that is
    -- left open in front of the block would have made a comment across it.
    rintro ⟨c, hc, start, _⟩
    obtain ⟨bs, tail', row⟩ := exists_row (spread code x ++ (a.render ++ spread tail y))
    rw [row.comments] at hc
    obtain ⟨x', b, y', rfl, rfl⟩ := mem_placed.mp hc
    have same := row.eq.trans (spread_split tail' x' b y')
    obtain ⟨text, after⟩ := List.append_inj same (start.symm.trans (Nat.zero_add _))
    have idle := (avoids_split.mp row.idle).1
    rw [← after] at idle
    have front : Row (spread code x) x' b.code := by
      refine ⟨text, fun d hd => row.spelled d (List.mem_append_left _ hd), idle.imp ?_⟩
      intro s _ starts
      exact starts.append _
    apply (shut_iff front).mpr
    apply idle.imp
    intro s _ opens
    exact opens.starts a _

end Site

section Places

variable {q : Int} {x y bs : List Block} {b : Block} {tail : Text}

theorem gapIn_first (readable : ∀ c ∈ x ++ b :: y, c.Readable)
    (before : ∀ c ∈ x, c.number ≠ some q) (own : b.number = some q) (front : Text) :
    gapIn q (front ++ spread tail (x ++ b :: y)) (placed front.length (x ++ b :: y)) =
      .ok (front ++ spread b.code x, some b.text) := by
  induction x generalizing front with
  | nil =>
    have here := readable b List.mem_cons_self
    rw [List.nil_append, placed, gapIn, here.numbered, own, take_start_placed, text_placed]
    exact if_pos rfl
  | cons c x ih =>
    obtain ⟨here, later⟩ := List.forall_mem_cons.mp readable
    obtain ⟨other, before⟩ := List.forall_mem_cons.mp before
    have next := ih later before (front ++ c.code ++ c.text)
    rw [← append_spread_cons, ← stop_placed] at next
    rw [List.cons_append, placed, gapIn, here.numbered]
    simp only [bind, Except.bind, if_neg other, next]
    simp [spread]

theorem gapIn_none (readable : ∀ c ∈ bs, c.Readable) (others : ∀ c ∈ bs, c.number ≠ some q)
    (line : Text) (pos : Nat) : gapIn q line (placed pos bs) = .ok (line, none) := by
  induction bs generalizing pos with
  | nil => rfl
  | cons b rest ih =>
    obtain ⟨here, later⟩ := List.forall_mem_cons.mp readable
    obtain ⟨other, others⟩ := List.forall_mem_cons.mp others
    rw [placed, gapIn, here.numbered]
    simp only [bind, Except.bind, if_neg other, ih later others]

end Places

def writtenAt (front : Text) (old : Option Text) : Nat :=
  front.length + if old.isSome then 0 else 1

theorem exists_site (a : Pragma Int) {line : Text} {bs : List Block} {tail : Text}
    (row : Row line bs tail) (readable : ∀ b ∈ bs, b.Readable) :
    ∃ front old x code y tail', gap a.sequence line = .ok (front, old) ∧ Site x code y tail' ∧
      renew a tail bs = (x ++ .ofPragma code a :: y, tail') ∧
      (spread code x).length = writtenAt front old ∧ (Shut (spread code x) ↔ Shut front) := by
  rcases split_at_number a.sequence bs with ⟨x, b, y, rfl, before, own⟩ | others
  · obtain ⟨idle, later⟩ := avoids_split.mp row.idle
    have site : Site x b.code y tail := by
      refine ⟨fun c hc => row.spelled c (by simp [hc]), idle.imp ?_,
        ⟨rfl, fun c hc => row.spelled c (by simp [hc]), later⟩⟩
      intro s _ starts
      obtain ⟨inner, slashes⟩ := (row.spelled b (by simp)).slashes
      simpa [slashes] using starts.append (inner ++ ['/'] ++ spread tail y)
    refine ⟨spread b.code x, some b.text, x, b.code, y, tail, ?_, site,
      renew_first before own tail, rfl, Iff.rfl⟩
    rw [gap, row.comments, row.eq]
    exact gapIn_first readable before own []
  · have site : Site bs (tail ++ [' ']) [] [] := by
      refine ⟨row.spelled, (avoids_concat ?_).mpr (row.idle.imp ?_), ⟨rfl, by simp, ?_⟩⟩
      · exact fun starts => absurd starts.opens (by decide)
      · intro s _ starts
        exact starts.of_space
      · simp [Avoids]
    refine ⟨line, none, bs, tail ++ [' '], [], [], ?_, site, renew_none others tail, ?_, ?_⟩
    · rw [gap, row.comments]
      exact gapIn_none readable others line 0
    · rw [spread_append, ← row.eq, List.length_append]
      rfl
    · rw [shut_iff site.front, shut_iff row, avoids_concat (by decide)]
      simp only [opensList_space]

/-- A look-up finds an annotation that was written where no list is left open. -/
theorem lookup_written {a : Pragma Int} (sound : a.Sound) {line : Text}
    (legible : ∀ c ∈ comments line, Legible c.value) :
    ∃ front old line', gap a.sequence line = .ok (front, old) ∧ a.update line = .ok line' ∧
      (Shut front → lookup line' a.sequence = .ok (some a)) ∧
      (Shut front ↔ ∃ c ∈ comments line', c.start = writtenAt front old ∧
        c.text line' = a.render) := by
  obtain ⟨bs, tail, row⟩ := exists_row line
  have readable := readable_row row legible
  obtain ⟨front, old, x, code, y, tail', place, site, renewed, start, shut⟩ :=
    exists_site a row readable
  refine ⟨front, old, spread code x ++ (a.render ++ spread tail' y), place, ?_, ?_, ?_⟩
  · rw [update_sound sound row readable, renewed, spread_split]
    rfl
  · intro closed
    have readable' : ∀ b ∈ (renew a tail bs).1, b.Readable := readable_renew sound readable
    have own : found a.sequence (renew a tail bs).1 = some a := by
      rw [found_renew sound readable, if_pos rfl]
    rw [renewed] at readable' own
    rw [lookup_row (site.row a (shut.mpr closed)) readable', own]
  · rw [← shut, ← start]
    exact site.shut_iff_found a

/-- A malformed comment for number 1, and behind it a list that is left open. -/
def fragmentLine : Text :=
  "/*@PreemptionPoint*/(/*@PreemptionPoint(sequence=1,nap)*/ /*@preemptionpoint (low".toList

theorem fragmentLine_lookup : (⟨1, ⟨30, .sleep 5 60⟩⟩ : Pragma Int).Sound ∧
    (∀ c ∈ comments fragmentLine, Legible c.value) ∧ ¬ Covered fragmentLine ∧
    ∃ line', (⟨1, ⟨30, .sleep 5 60⟩⟩ : Pragma Int).update fragmentLine = .ok line' ∧
      lookup line' 1 = .ok (some ⟨1, ⟨30, .sleep 5 60⟩⟩) := by
  have sound : (⟨1, ⟨30, .sleep 5 60⟩⟩ : Pragma Int).Sound := by decide +kernel
  have legible : ∀ c ∈ comments fragmentLine, Legible c.value := by decide +kernel
  obtain ⟨front, old, line', place, updated, found, _⟩ := lookup_written sound legible
  have shut : (gap 1 fragmentLine).map (fun p => decide (Shut p.1)) = .ok true := by
    decide +kernel
  rw [show gap 1 fragmentLine = .ok (front, old) from place] at shut
  exact ⟨sound, legible, by decide +kernel, line', updated,
    found (of_decide_eq_true (Except.ok.inj shut))⟩

/-- A list that is left open in front of everything that is written to the line. -/
def openLine : Text := "/* @PreemptionPoint (sequence = 0".toList

theorem openLine_lost : (⟨0, ⟨50, .yield⟩⟩ : Pragma Int).Sound ∧
    (∀ c ∈ comments openLine, Legible c.value) ∧
    ∃ line', (⟨0, ⟨50, .yield⟩⟩ : Pragma Int).update openLine = .ok line' ∧
      lookup line' 0 = .ok none :=
  ⟨by decide +kernel, by decide +kernel,
    openLine ++ ' ' :: (⟨0, ⟨50, .yield⟩⟩ : Pragma Int).render, by decide +kernel,
    by decide +kernel⟩

end SchedulingNoise.Pragma
