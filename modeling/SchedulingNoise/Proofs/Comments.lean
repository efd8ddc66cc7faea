import SchedulingNoise.Proofs.Outcomes
import SchedulingNoise.Proofs.Reading
import SchedulingNoise.Pragma.Basic

/-! The comments of a line. A line in which no comment is left open is a row of blocks, each some
code and a comment behind it, with more code at the end; the search finds the comments of the
blocks, and no others. -/
namespace SchedulingNoise.Pragma

open Text (Blank Solid)

theorem afterAnyCase?_eq_some {p t rest : Text} : afterAnyCase? p t = some rest ↔
    ∃ w, t = w ++ rest ∧ List.Forall₂ (fun p c => sameLetter p c = true) p w := by
  induction p generalizing t with
  | nil =>
    rw [afterAnyCase?]
    constructor
    · intro h
      cases h
      exact ⟨[], rfl, .nil⟩
    · rintro ⟨w, rfl, letters⟩
      cases letters
      rfl
  | cons p more ih =>
    cases t with
    | nil => simp [afterAnyCase?, List.forall₂_cons_left_iff]
    | cons c t =>
      rw [afterAnyCase?]
      constructor
      · intro h
        split at h
        · rename_i same
          obtain ⟨w, rfl, letters⟩ := ih.mp h
          exact ⟨c :: w, rfl, .cons same letters⟩
        · cases h
      · rintro ⟨w, eq, letters⟩
        cases letters with
        | cons same letters =>
          cases eq
          rw [if_pos same]
          exact ih.mpr ⟨_, rfl, letters⟩

/-- The beginning of a comment, up to the tag. -/
def Opening (o : Text) : Prop :=
  ∃ b w, o = '/' :: '*' :: (b ++ w) ∧ Blank b ∧
    List.Forall₂ (fun p c => sameLetter p c = true) tag w

def Opens (t : Text) : Prop := ∃ o, Opening o ∧ o <+: t

/-- A whole comment and its list. -/
inductive Spelled : Text → Option Text → Prop
  | bare {o b : Text} : Opening o → Blank b → Spelled (o ++ b ++ ['*', '/']) none
  | listed {o b l b' : Text} : Opening o → Blank b → ')' ∉ l → Blank b' →
      Spelled (o ++ b ++ '(' :: (l ++ ')' :: (b' ++ ['*', '/']))) (some l)

theorem eq_of_toLower_at {c : Char} (h : c.toLower = '@') : c = '@' := by
  unfold Char.toLower at h
  split at h
  · rename_i capital
    have low : 65 ≤ c.val.toNat := UInt32.le_iff_toNat_le.mp capital.1
    have high : c.val.toNat ≤ 90 := UInt32.le_iff_toNat_le.mp capital.2
    have sum : (c.val.toNat + 32) % 2 ^ 32 = 64 := congrArg (fun d : Char => d.val.toNat) h
    omega
  · exact h

section Letters

variable {w : Text} (letters : List.Forall₂ (fun p c => sameLetter p c = true) tag w)
include letters

theorem foreign_to_tag {c : Char} (foreign : tag.any (sameLetter · c) = false) : c ∉ w := by
  intro mem
  obtain ⟨p, hp, same⟩ := exists_of_mem_right letters mem
  exact List.any_eq_false.mp foreign p hp same

theorem solid_tag (rest : Text) : Solid (w ++ rest) := by
  have spelled : tag = '@' :: "PreemptionPoint".toList := rfl
  rw [spelled] at letters
  cases letters with
  | @cons _ c _ w same others =>
    have lower : c.toLower = '@' := by
      simp only [sameLetter, Bool.or_eq_true, beq_iff_eq, Bool.and_eq_true] at same
      rcases same with same | ⟨other, _⟩
      · exact same.symm
      · exact absurd other (by decide)
    rw [eq_of_toLower_at lower]
    exact Solid.cons (by decide) _

end Letters

theorem Opening.slash {o : Text} (h : Opening o) : ∃ body, o = '/' :: body ∧ '/' ∉ body := by
  obtain ⟨b, w, rfl, blank, letters⟩ := h
  refine ⟨_, rfl, fun mem => ?_⟩
  rcases List.mem_cons.mp mem with eq | mem
  · cases eq
  · rcases List.mem_append.mp mem with mem | mem
    · exact absurd (blank _ mem) (by decide)
    · exact foreign_to_tag letters (by decide) mem

theorem Opens.append {s : Text} (h : Opens s) (u : Text) : Opens (s ++ u) := by
  obtain ⟨o, opening, begins⟩ := h
  exact ⟨o, opening, begins.trans (List.prefix_append s u)⟩

theorem Opens.of_slash {s u : Text} (some : s ≠ []) (h : Opens (s ++ '/' :: u)) : Opens s := by
  obtain ⟨o, opening, begins⟩ := h
  obtain ⟨body, rfl, plain⟩ := opening.slash
  obtain ⟨c, s, rfl⟩ := List.exists_cons_of_ne_nil some
  obtain ⟨rfl, rest, eq⟩ := List.cons_prefix_cons.mp begins
  obtain ⟨more, rfl, _⟩ := Text.behind_of_not_mem plain eq.symm
  exact ⟨_, opening, List.prefix_append ('/' :: body) more⟩

theorem Opens.of_space {s : Text} (h : Opens (s ++ [' '])) : Opens s := by
  obtain ⟨o, opening, begins⟩ := h
  rcases List.prefix_concat_iff.mp begins with whole | begins
  · obtain ⟨b, w, eq, _, letters⟩ := opening
    have last : ' ' ∈ w := by
      rcases List.eq_nil_or_concat w with rfl | ⟨w, c, rfl⟩
      · cases letters
      · have ends : ('/' :: '*' :: (b ++ w)) ++ [c] = s ++ [' '] := by
          rw [← whole, eq]
          simp
        have same : c = ' ' := by simpa using (List.append_inj' ends rfl).2
        simp [same]
    exact absurd last (foreign_to_tag letters (by decide))
  · exact ⟨o, opening, begins⟩

theorem commentEnd?_eq_some {t : Text} {n : Nat} : commentEnd? t = some n ↔
    ∃ b rest, t = b ++ '*' :: '/' :: rest ∧ Blank b ∧ n = b.length + 2 := by
  obtain ⟨b, rest, rfl, blank, solid⟩ := Text.split_blanks t
  rw [commentEnd?, Text.countBlanks_append blank solid, List.drop_left]
  constructor
  · intro h
    split at h
    · rename_i closes
      obtain ⟨more, rfl⟩ := List.isPrefixOf_iff_prefix.mp closes
      cases h
      exact ⟨b, more, rfl, blank, rfl⟩
    · cases h
  · rintro ⟨b', more, eq, blank', rfl⟩
    have solid' : Solid ('*' :: '/' :: more) := Solid.cons (by decide) _
    have long : b.length = b'.length := by
      rw [← Text.countBlanks_append blank solid, eq, Text.countBlanks_append blank' solid']
    obtain ⟨rfl, rfl⟩ := List.append_inj eq long
    simp

/-- What is read behind the tag, and behind white space that ends at `head`. -/
def behindTag (head : Nat) : Text → Option (Nat × Option Text)
  | '(' :: rest => do
    let (list, rest) ← Text.partition? ')' rest
    let close ← commentEnd? rest
    pure (head + 1 + list.length + 1 + close, some list)
  | rest => do
    let close ← commentEnd? rest
    pure (head + close, none)

theorem comment?_opening {o b rest : Text} (opening : Opening o) (blank : Blank b)
    (solid : Solid rest) : comment? (o ++ b ++ rest) = behindTag (o.length + b.length) rest := by
  obtain ⟨lead, w, rfl, leading, letters⟩ := opening
  have front : Text.after? ['/', '*'] ('/' :: '*' :: (lead ++ w) ++ b ++ rest) =
      some (lead ++ (w ++ (b ++ rest))) := Text.after?_eq_some.mpr (by simp)
  have tagged : afterAnyCase? tag (w ++ (b ++ rest)) = some (b ++ rest) :=
    afterAnyCase?_eq_some.mpr ⟨w, rfl, letters⟩
  have long : ('/' :: '*' :: (lead ++ w)).length = 2 + lead.length + tag.length := by
    simp only [List.length_cons, List.length_append, letters.length_eq]
    omega
  have led : Text.countBlanks (lead ++ (w ++ (b ++ rest))) = lead.length :=
    Text.countBlanks_append leading (solid_tag letters _)
  rw [comment?, front, long]
  simp only [Option.bind_eq_bind, Option.bind_some, led, List.drop_left, tagged,
    Text.countBlanks_append blank solid]
  rfl

def afterOpening? (t : Text) : Option Text := do
  let t ← Text.after? ['/', '*'] t
  afterAnyCase? tag (t.drop (Text.countBlanks t))

theorem afterOpening?_eq_some {t rest : Text} :
    afterOpening? t = some rest ↔ ∃ o, Opening o ∧ t = o ++ rest := by
  simp only [afterOpening?, Option.bind_eq_bind, Option.bind_eq_some_iff]
  constructor
  · rintro ⟨t₁, front, tagged⟩
    obtain ⟨lead, t₁, rfl, leading, solid⟩ := Text.split_blanks t₁
    rw [Text.countBlanks_append leading solid, List.drop_left] at tagged
    obtain ⟨w, rfl, letters⟩ := afterAnyCase?_eq_some.mp tagged
    refine ⟨'/' :: '*' :: (lead ++ w), ⟨lead, w, rfl, leading, letters⟩, ?_⟩
    rw [Text.after?_eq_some.mp front]
    simp
  · rintro ⟨o, ⟨lead, w, rfl, leading, letters⟩, rfl⟩
    refine ⟨lead ++ (w ++ rest), Text.after?_eq_some.mpr (by simp), ?_⟩
    rw [Text.countBlanks_append leading (solid_tag letters rest), List.drop_left]
    exact afterAnyCase?_eq_some.mpr ⟨w, rfl, letters⟩

theorem afterOpening?_isSome {t : Text} : (afterOpening? t).isSome = true ↔ Opens t := by
  rw [Option.isSome_iff_exists]
  constructor
  · rintro ⟨rest, h⟩
    obtain ⟨o, opening, rfl⟩ := afterOpening?_eq_some.mp h
    exact ⟨o, opening, List.prefix_append o rest⟩
  · rintro ⟨o, opening, rest, rfl⟩
    exact ⟨rest, afterOpening?_eq_some.mpr ⟨o, opening, rfl⟩⟩

instance (t : Text) : Decidable (Opens t) := decidable_of_iff _ afterOpening?_isSome

theorem exists_opening {t : Text} {r : Nat × Option Text} (h : comment? t = some r) :
    ∃ o b rest, t = o ++ b ++ rest ∧ Opening o ∧ Blank b ∧ Solid rest := by
  simp only [comment?, Option.bind_eq_bind, Option.bind_eq_some_iff] at h
  obtain ⟨t₁, front, t₂, tagged, _⟩ := h
  have opened : afterOpening? t = some t₂ := Option.bind_eq_some_iff.mpr ⟨t₁, front, tagged⟩
  obtain ⟨o, opening, rfl⟩ := afterOpening?_eq_some.mp opened
  obtain ⟨b, rest, rfl, blank, solid⟩ := Text.split_blanks t₂
  exact ⟨o, b, rest, by simp, opening, blank, solid⟩

theorem exists_spelled {t : Text} {n : Nat} {list : Option Text} (h : comment? t = some (n, list)) :
    ∃ text rest, t = text ++ rest ∧ n = text.length ∧ Spelled text list := by
  obtain ⟨o, b, rest, rfl, opening, blank, solid⟩ := exists_opening h
  rw [comment?_opening opening blank solid] at h
  unfold behindTag at h
  split at h
  · simp only [Option.bind_eq_bind, Option.bind_eq_some_iff] at h
    obtain ⟨⟨l, back⟩, parted, close, closed, h⟩ := h
    cases h
    obtain ⟨rfl, plain⟩ := Text.partition?_eq_some.mp parted
    obtain ⟨b', more, rfl, blank', rfl⟩ := commentEnd?_eq_some.mp closed
    refine ⟨_, more, ?_, ?_, .listed opening blank plain blank'⟩
    · simp
    · simp only [List.length_append, List.length_cons, List.length_nil]
      omega
  · simp only [Option.bind_eq_bind, Option.bind_eq_some_iff] at h
    obtain ⟨close, closed, h⟩ := h
    cases h
    obtain ⟨b', more, rfl, blank', rfl⟩ := commentEnd?_eq_some.mp closed
    have both : Blank (b ++ b') := fun c hc => (List.mem_append.mp hc).elim (blank c) (blank' c)
    refine ⟨_, more, ?_, ?_, .bare opening both⟩
    · simp
    · simp only [List.length_append, List.length_cons, List.length_nil]
      omega

theorem Spelled.comment? {text : Text} {list : Option Text} (h : Spelled text list) (rest : Text) :
    comment? (text ++ rest) = some (text.length, list) := by
  cases h with
  | bare opening blank =>
    rename_i o b
    have solid : Solid ('*' :: '/' :: rest) := Solid.cons (by decide) _
    have closed : commentEnd? ('*' :: '/' :: rest) = some 2 :=
      commentEnd?_eq_some.mpr ⟨[], rest, rfl, by simp [Blank], rfl⟩
    have whole : Pragma.comment? (o ++ b ++ '*' :: '/' :: rest) =
        (commentEnd? ('*' :: '/' :: rest)).bind fun close =>
          some (o.length + b.length + close, none) := comment?_opening opening blank solid
    rw [closed] at whole
    simpa [Nat.add_assoc] using whole
  | listed opening blank plain blank' =>
    rename_i o b l b'
    have solid : Solid ('(' :: (l ++ ')' :: (b' ++ '*' :: '/' :: rest))) :=
      Solid.cons (by decide) _
    have parted := Text.partition?_eq_some.mpr
      ⟨(rfl : l ++ ')' :: (b' ++ '*' :: '/' :: rest) = _), plain⟩
    have closed : commentEnd? (b' ++ '*' :: '/' :: rest) = some (b'.length + 2) :=
      commentEnd?_eq_some.mpr ⟨b', rest, rfl, blank', rfl⟩
    have long : o.length + b.length + 1 + l.length + 1 + (b'.length + 2) =
        (o ++ b ++ '(' :: (l ++ ')' :: (b' ++ ['*', '/']))).length := by
      simp only [List.length_append, List.length_cons, List.length_nil]
      omega
    have whole := comment?_opening opening blank solid
    simp only [behindTag, parted, closed, Option.bind_eq_bind, Option.bind_some, long] at whole
    simpa using whole

theorem comment?_eq_some {t : Text} {n : Nat} {list : Option Text} :
    comment? t = some (n, list) ↔
      ∃ text rest, t = text ++ rest ∧ n = text.length ∧ Spelled text list := by
  constructor
  · exact exists_spelled
  · rintro ⟨text, rest, rfl, rfl, spelled⟩
    exact spelled.comment? rest

theorem Spelled.slashes {text : Text} {list : Option Text} (h : Spelled text list) :
    ∃ inner, text = '/' :: (inner ++ ['/']) := by
  cases h with
  | @bare _ b opening _ =>
    obtain ⟨body, rfl, _⟩ := opening.slash
    exact ⟨body ++ b ++ ['*'], by simp⟩
  | @listed _ b l b' opening _ _ _ =>
    obtain ⟨body, rfl, _⟩ := opening.slash
    exact ⟨body ++ b ++ '(' :: (l ++ ')' :: (b' ++ ['*'])), by simp⟩

theorem Spelled.ne_nil {text : Text} {list : Option Text} (h : Spelled text list) : text ≠ [] := by
  obtain ⟨inner, rfl⟩ := h.slashes
  exact List.cons_ne_nil _ _

def Starts (t : Text) : Prop := ∃ text list, Spelled text list ∧ text <+: t

theorem comment?_eq_none {t : Text} : Pragma.comment? t = none ↔ ¬ Starts t := by
  constructor
  · rintro none ⟨text, list, spelled, rest, rfl⟩
    simp [spelled.comment? rest] at none
  · intro missing
    rw [Option.eq_none_iff_forall_ne_some]
    rintro ⟨n, list⟩ found
    obtain ⟨text, rest, rfl, _, spelled⟩ := comment?_eq_some.mp found
    exact missing ⟨text, list, spelled, List.prefix_append text rest⟩

theorem Starts.append {s : Text} (h : Starts s) (u : Text) : Starts (s ++ u) := by
  obtain ⟨text, list, spelled, begins⟩ := h
  exact ⟨text, list, spelled, begins.trans (List.prefix_append s u)⟩

theorem Starts.opens {t : Text} (h : Starts t) : Opens t := by
  obtain ⟨text, list, spelled, rest, rfl⟩ := h
  cases spelled with
  | bare opening _ => exact ⟨_, opening, by simp [List.append_assoc]⟩
  | listed opening _ _ _ => exact ⟨_, opening, by simp [List.append_assoc]⟩

/-- Code in which no comment opens. -/
def Quiet (code : Text) : Prop := ∀ s, s <:+ code → ¬ Opens s

theorem Quiet.nil : Quiet [] := by
  rintro s ends ⟨o, opening, begins⟩
  obtain ⟨body, rfl, _⟩ := opening.slash
  rw [List.suffix_nil.mp ends] at begins
  cases List.prefix_nil.mp begins

theorem Quiet.space {code : Text} (h : Quiet code) : Quiet (code ++ [' ']) := by
  intro s ends opens
  rcases List.suffix_concat_iff.mp ends with rfl | ⟨s, rfl, within⟩
  · exact h [] List.nil_suffix opens
  · exact h s within opens.of_space

structure Block where
  code : Text
  text : Text
  list : Option Text

structure Block.Closed (b : Block) : Prop where
  quiet : Quiet b.code
  spelled : Spelled b.text b.list

def spread (tail : Text) : List Block → Text
  | [] => tail
  | b :: rest => b.code ++ b.text ++ spread tail rest

theorem spread_append (tail more : Text) (bs : List Block) :
    spread (tail ++ more) bs = spread tail bs ++ more := by
  induction bs with
  | nil => rfl
  | cons b rest ih => simp [spread, ih]

theorem spread_split (tail : Text) (x : List Block) (b : Block) (y : List Block) :
    spread tail (x ++ b :: y) = spread b.code x ++ (b.text ++ spread tail y) := by
  induction x with
  | nil => simp [spread]
  | cons c x ih => simp [spread, ih]

def placed (pos : Nat) : List Block → List (Match (Option Text))
  | [] => []
  | b :: rest =>
    let start := pos + b.code.length
    let stop := start + b.text.length
    ⟨start, stop, b.list⟩ :: placed stop rest

/-- At no place of the code of blocks, or of the code at the end, does a text begin that has the
property. -/
def Avoids (P : Text → Prop) (tail : Text) : List Block → Prop
  | [] => ∀ s, s <:+ tail → s ≠ [] → ¬ P s
  | b :: rest => (∀ s, s <:+ b.code → s ≠ [] → ¬ P (s ++ (b.text ++ spread tail rest))) ∧
      Avoids P tail rest

/-- A line as the search goes through it: blocks with the comments that it finds. -/
structure Row (line : Text) (bs : List Block) (tail : Text) : Prop where
  eq : line = spread tail bs
  spelled : ∀ b ∈ bs, Spelled b.text b.list
  idle : Avoids Starts tail bs

theorem allFrom_spread {tail : Text} {bs : List Block}
    (spelled : ∀ b ∈ bs, Spelled b.text b.list) (idle : Avoids Starts tail bs) (pos : Nat) :
    Matcher.allFrom (fun _ => comment?) none pos 0 (spread tail bs) = placed pos bs := by
  induction bs generalizing pos with
  | nil =>
    have nothing : ∀ s, s <:+ tail → s ≠ [] → comment? (s ++ []) = none := by
      intro s ends some
      rw [List.append_nil]
      exact comment?_eq_none.mpr (idle s ends some)
    have passed : Matcher.allFrom (fun _ => comment?) none pos 0 (tail ++ []) = _ :=
      Matcher.allFrom_gap nothing
    simpa [Matcher.allFrom, spread, placed] using passed
  | cons b rest ih =>
    obtain ⟨here, later⟩ := List.forall_mem_cons.mp spelled
    have passed : ∀ s, s <:+ b.code → s ≠ [] →
        comment? (s ++ (b.text ++ spread tail rest)) = none := by
      intro s ends some
      exact comment?_eq_none.mpr (idle.1 s ends some)
    rw [spread, List.append_assoc, Matcher.allFrom_gap passed,
      Matcher.allFrom_match (here.comment? _) here.ne_nil, ih later idle.2]
    rfl

theorem Row.comments {line : Text} {bs : List Block} {tail : Text} (h : Row line bs tail) :
    comments line = placed 0 bs := by
  rw [h.eq]
  exact allFrom_spread h.spelled h.idle 0

theorem Spelled.comments {text : Text} {list : Option Text} (h : Spelled text list) :
    comments text = [⟨0, text.length, list⟩] := by
  have row : Row text [⟨[], text, list⟩] [] := by
    constructor
    · simp [spread]
    · exact List.forall_mem_singleton.mpr h
    · simp [Avoids]
  simpa [placed] using row.comments

theorem Row.cons {c : Char} {t : Text} {bs : List Block} {tail : Text} (h : Row t bs tail)
    (first : ¬ Starts (c :: t)) : ∃ bs tail, Row (c :: t) bs tail := by
  obtain ⟨rfl, spelled, idle⟩ := h
  cases bs with
  | nil =>
    refine ⟨[], c :: tail, rfl, spelled, ?_⟩
    intro s ends some
    rcases List.suffix_cons_iff.mp ends with rfl | ends
    · exact first
    · exact idle s ends some
  | cons b rest =>
    obtain ⟨here, later⟩ := List.forall_mem_cons.mp spelled
    refine ⟨⟨c :: b.code, b.text, b.list⟩ :: rest, tail, by simp [spread], ?_, ?_, idle.2⟩
    · exact List.forall_mem_cons.mpr ⟨here, later⟩
    · intro s ends some
      rcases List.suffix_cons_iff.mp ends with rfl | ends
      · simpa [spread] using first
      · exact idle.1 s ends some

theorem exists_row (line : Text) : ∃ bs tail, Row line bs tail := by
  -- Strong induction: a comment takes several characters away at once.
  induction hn : line.length using Nat.strongRecOn generalizing line with
  | ind n ih =>
    cases found : comment? line with
    | some r =>
      obtain ⟨text, rest, rfl, _, spelled⟩ := comment?_eq_some.mp (found : _ = some (r.1, r.2))
      have shorter : rest.length < n := by
        have := List.length_pos_iff.mpr spelled.ne_nil
        simp only [List.length_append] at hn
        omega
      obtain ⟨bs, tail, rfl, later, idle⟩ := ih _ shorter rest rfl
      refine ⟨⟨[], text, r.2⟩ :: bs, tail, by simp [spread], ?_, by simp, idle⟩
      exact List.forall_mem_cons.mpr ⟨spelled, later⟩
    | none =>
      cases line with
      | nil => exact ⟨[], [], rfl, by simp, by simp [Avoids]⟩
      | cons c rest =>
        obtain ⟨bs, tail, row⟩ := ih rest.length (by simp at hn; omega) rest rfl
        exact row.cons (comment?_eq_none.mp found)

/-- A line as blocks with code at the end. -/
structure Laid (line : Text) (bs : List Block) (tail : Text) : Prop where
  eq : line = spread tail bs
  closed : ∀ b ∈ bs, b.Closed
  quiet : Quiet tail

theorem Laid.row {line : Text} {bs : List Block} {tail : Text} (h : Laid line bs tail) :
    Row line bs tail := by
  obtain ⟨rfl, closed, quiet⟩ := h
  refine ⟨rfl, fun b hb => (closed b hb).spelled, ?_⟩
  induction bs with
  | nil => exact fun s ends _ starts => quiet s ends starts.opens
  | cons b rest ih =>
    obtain ⟨here, later⟩ := List.forall_mem_cons.mp closed
    refine ⟨fun s ends some starts => here.quiet s ends ?_, ih later⟩
    obtain ⟨inner, slashes⟩ := here.spelled.slashes
    have opens := starts.opens
    rw [slashes] at opens
    exact opens.of_slash some

section

variable (front tail : Text) (b : Block) (rest : List Block)

theorem append_spread_cons :
    front ++ spread tail (b :: rest) = front ++ b.code ++ b.text ++ spread tail rest := by
  simp [spread]

theorem drop_spread_cons (k : Nat) :
    (spread tail (b :: rest)).drop (b.code.length + b.text.length + k) =
      (spread tail rest).drop k := by
  rw [spread, ← List.length_append, List.drop_length_add_append]

theorem stop_placed :
    front.length + b.code.length + b.text.length = (front ++ b.code ++ b.text).length := by
  rw [List.length_append, List.length_append]

theorem take_start_placed :
    (front ++ spread tail (b :: rest)).take (front.length + b.code.length) = front ++ b.code :=
  have line := (append_spread_cons front tail b rest).trans (List.append_assoc _ b.text _)
  (Text.take_drop_of_append line List.length_append.symm).1

theorem cut_stop_placed :
    (front ++ spread tail (b :: rest)).take (front.length + b.code.length + b.text.length) =
        front ++ b.code ++ b.text ∧
      (front ++ spread tail (b :: rest)).drop (front.length + b.code.length + b.text.length) =
        spread tail rest :=
  Text.take_drop_of_append (append_spread_cons front tail b rest) (stop_placed front b)

theorem text_placed : Match.text ⟨front.length + b.code.length,
    front.length + b.code.length + b.text.length, b.list⟩ (front ++ spread tail (b :: rest)) =
      b.text := by
  rw [Match.text, (cut_stop_placed front tail b rest).1]
  exact (Text.take_drop_of_append rfl List.length_append.symm).2

end

theorem reported_placed (front tail : Text) (bs : List Block) :
    (placed front.length bs).map (fun c => (c.text (front ++ spread tail bs), c.value)) =
      bs.map fun b => (b.text, b.list) := by
  induction bs generalizing front with
  | nil => rfl
  | cons b rest ih =>
    have later := ih (front ++ b.code ++ b.text)
    rw [← append_spread_cons, ← stop_placed] at later
    simp only [placed, List.map_cons, text_placed, later]

theorem Row.reported {line : Text} {bs : List Block} {tail : Text} (h : Row line bs tail) :
    (Pragma.comments line).map (fun c => (c.text line, c.value)) =
      bs.map fun b => (b.text, b.list) := by
  rw [h.comments, h.eq]
  exact reported_placed [] tail bs

theorem Row.exists_block {line : Text} {bs : List Block} {tail : Text} (h : Row line bs tail)
    {c : Match (Option Text)} (hc : c ∈ Pragma.comments line) :
    ∃ b ∈ bs, b.text = c.text line ∧ b.list = c.value := by
  have there := List.mem_map_of_mem (f := fun c => (c.text line, c.value)) hc
  rw [h.reported] at there
  simpa using there

theorem Row.exists_comment {line : Text} {bs : List Block} {tail : Text} (h : Row line bs tail)
    {b : Block} (hb : b ∈ bs) :
    ∃ c ∈ Pragma.comments line, c.text line = b.text ∧ c.value = b.list := by
  have there := List.mem_map_of_mem (f := fun b : Block => (b.text, b.list)) hb
  rw [← h.reported] at there
  simpa using there

theorem mem_placed {pos : Nat} {bs : List Block} {c : Match (Option Text)} :
    c ∈ placed pos bs ↔ ∃ x b y, bs = x ++ b :: y ∧
      c = ⟨pos + (spread b.code x).length, pos + (spread b.code x).length + b.text.length,
        b.list⟩ := by
  induction bs generalizing pos with
  | nil => simp [placed]
  | cons b rest ih =>
    rw [placed, List.mem_cons, ih]
    constructor
    · rintro (rfl | ⟨x, d, y, rfl, rfl⟩)
      · exact ⟨[], b, rest, rfl, rfl⟩
      · exact ⟨b :: x, d, y, rfl, by simp [spread, Nat.add_assoc]⟩
    · rintro ⟨x, d, y, eq, rfl⟩
      cases x with
      | nil =>
        cases eq
        exact .inl rfl
      | cons e x =>
        cases eq
        exact .inr ⟨x, d, y, rfl, by simp [spread, Nat.add_assoc]⟩

theorem avoids_iff {P : Text → Prop} (empty : ¬ P []) {tail : Text} {bs : List Block} (pos : Nat) :
    Avoids P tail bs ↔ ∀ i, P ((spread tail bs).drop i) →
      ∃ c ∈ placed pos bs, c.start ≤ pos + i ∧ pos + i < c.stop := by
  induction bs generalizing pos with
  | nil =>
    constructor
    · intro avoids i has
      have some : tail.drop i ≠ [] := fun none => empty (none ▸ has)
      exact absurd has (avoids _ (List.drop_suffix i tail) some)
    · rintro inside s ⟨front, rfl⟩ _ has
      obtain ⟨_, nothing, _⟩ := inside front.length (by simpa [spread] using has)
      cases nothing
  | cons b rest ih =>
    rw [Avoids, ih (pos + b.code.length + b.text.length)]
    constructor
    · rintro ⟨here, later⟩ i has
      by_cases early : i < b.code.length
      · have some : b.code.drop i ≠ [] := by simpa using early
        rw [spread, List.append_assoc, List.drop_append_of_le_length (Nat.le_of_lt early)] at has
        exact absurd has (here _ (List.drop_suffix i b.code) some)
      · by_cases within : i < b.code.length + b.text.length
        · refine ⟨_, List.mem_cons_self, ?_⟩
          simp only
          omega
        · obtain ⟨k, rfl⟩ := Nat.exists_eq_add_of_le (Nat.le_of_not_lt within)
          rw [drop_spread_cons] at has
          obtain ⟨c, hc, inside⟩ := later k has
          exact ⟨c, List.mem_cons_of_mem _ hc, by omega⟩
    · intro inside
      constructor
      · rintro s ⟨front, code⟩ some has
        have long := List.length_pos_iff.mpr some
        have far : b.code.length = front.length + s.length := by rw [← code, List.length_append]
        have cut : (spread tail (b :: rest)).drop front.length =
            s ++ (b.text ++ spread tail rest) := by simp [spread, ← code]
        obtain ⟨c, hc, first, _⟩ := inside front.length (cut ▸ has)
        have behind : pos + b.code.length ≤ c.start := by
          rcases List.mem_cons.mp hc with rfl | hc
          · exact Nat.le_refl _
          · obtain ⟨x, d, y, _, rfl⟩ := mem_placed.mp hc
            simp only
            omega
        omega
      · intro k has
        rw [← drop_spread_cons tail b] at has
        obtain ⟨c, hc, first, last⟩ := inside _ has
        rcases List.mem_cons.mp hc with rfl | hc
        · simp only at last
          omega
        · exact ⟨c, hc, by omega⟩

/-- A line in which every comment that opens is inside one that the search finds. -/
def Covered (line : Text) : Prop :=
  ∀ i, Opens (line.drop i) → ∃ c ∈ comments line, c.start ≤ i ∧ i < c.stop

theorem not_opens_nil : ¬ Opens [] := Quiet.nil [] List.suffix_rfl

theorem forall_drop_iff {P : Text → Prop} (empty : ¬ P []) {t : Text} {Q : Nat → Prop} :
    (∀ i < t.length, P (t.drop i) → Q i) ↔ ∀ i, P (t.drop i) → Q i := by
  constructor
  · intro h i has
    apply h i _ has
    apply Nat.lt_of_not_le
    intro beyond
    rw [List.drop_eq_nil_of_le beyond] at has
    exact empty has
  · exact fun h i _ => h i

instance (line : Text) : Decidable (Covered line) :=
  decidable_of_iff _ (forall_drop_iff not_opens_nil)

theorem closed_of_avoids {tail : Text} {bs : List Block} (h : Avoids Opens tail bs)
    (spelled : ∀ b ∈ bs, Spelled b.text b.list) : (∀ b ∈ bs, b.Closed) ∧ Quiet tail := by
  induction bs with
  | nil =>
    refine ⟨by simp, fun s ends opens => ?_⟩
    by_cases some : s = []
    · exact not_opens_nil (some ▸ opens)
    · exact h s ends some opens
  | cons b rest ih =>
    obtain ⟨here, later⟩ := List.forall_mem_cons.mp spelled
    obtain ⟨closed, quiet⟩ := ih h.2 later
    refine ⟨List.forall_mem_cons.mpr ⟨⟨fun s ends opens => ?_, here⟩, closed⟩, quiet⟩
    by_cases some : s = []
    · exact not_opens_nil (some ▸ opens)
    · exact h.1 s ends some (opens.append _)

theorem Covered.exists_laid {line : Text} (h : Covered line) : ∃ bs tail, Laid line bs tail := by
  obtain ⟨bs, tail, row⟩ := exists_row line
  have avoids : Avoids Opens tail bs := by
    apply (avoids_iff not_opens_nil 0).mpr
    rw [← row.eq, ← row.comments]
    simpa only [Nat.zero_add] using fun i => h i
  obtain ⟨closed, quiet⟩ := closed_of_avoids avoids row.spelled
  exact ⟨bs, tail, row.eq, closed, quiet⟩

end SchedulingNoise.Pragma
