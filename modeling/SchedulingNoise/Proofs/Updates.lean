import SchedulingNoise.Proofs.Annotations

namespace SchedulingNoise.Pragma

theorem spelled_list {list : Text} (plain : ')' ∉ list) :
    Spelled ("/* @PreemptionPoint (".toList ++ list ++ ") */".toList) (some list) := by
  have opening : Opening "/* @PreemptionPoint".toList := by
    refine ⟨[' '], tag, rfl, by decide, List.forall₂_same.mpr fun p _ => ?_⟩
    simp [sameLetter]
  have spelled : Spelled _ (some list) :=
    .listed opening (by decide : Text.Blank [' ']) plain (by decide : Text.Blank [' '])
  have front : "/* @PreemptionPoint (".toList = "/* @PreemptionPoint".toList ++ [' ', '('] := rfl
  have back : ") */".toList = [')', ' ', '*', '/'] := rfl
  rw [front, back]
  simpa only [List.append_assoc, List.cons_append, List.nil_append] using spelled

theorem spelled_render (a : Pragma Int) : Spelled a.render (some a.writtenList) := by
  rw [render_eq]
  apply spelled_list
  intro mem
  exact absurd (mem_writtenList mem) (by decide)

namespace Block

def meaning (b : Block) : Option (Pragma Int) := (ofList b.list).toOption.getD none

/-- The sequence number that a block means, also if it is malformed. -/
def number (b : Block) : Option Int := (sequenceOf ⟨0, 0, b.list⟩).toOption.getD none

structure Readable (b : Block) : Prop where
  list : ofList b.list = .ok b.meaning
  sequence : sequenceOf ⟨0, 0, b.list⟩ = .ok b.number

theorem Readable.of_ok {b : Block} {r : Option (Pragma Int)} {q : Option Int}
    (list : ofList b.list = .ok r) (sequence : sequenceOf ⟨0, 0, b.list⟩ = .ok q) : b.Readable := by
  constructor
  · rw [meaning, list]
    rfl
  · rw [number, sequence]
    rfl

theorem Readable.numbered {b : Block} (h : b.Readable) (start stop : Nat) :
    sequenceOf ⟨start, stop, b.list⟩ = .ok b.number := h.sequence

theorem Readable.number_eq {b : Block} (h : b.Readable) {a : Pragma Int}
    (well : b.meaning = some a) : b.number = some a.sequence := by
  have read : sequenceOf ⟨0, 0, b.list⟩ = .ok (some a.sequence) := by
    rw [sequenceOf, h.list, well]
    rfl
  rw [h.sequence] at read
  exact Except.ok.inj read

def ofPragma (code : Text) (a : Pragma Int) : Block := ⟨code, a.render, some a.writtenList⟩

variable {a : Pragma Int} (sound : a.Sound) (code : Text)
include sound

theorem meaning_ofPragma : (ofPragma code a).meaning = some a := by
  unfold meaning ofPragma
  rw [ofList_writtenList sound]
  rfl

theorem readable_ofPragma : (ofPragma code a).Readable := by
  have list := ofList_writtenList sound
  have sequence : sequenceOf ⟨0, 0, some a.writtenList⟩ = .ok (some a.sequence) := by
    rw [sequenceOf, list]
    rfl
  exact Readable.of_ok list sequence

end Block

def annotations (line : Text) : List (Pragma Int) :=
  (comments line).filterMap fun c => (ofList c.value).toOption.getD none

theorem lookupIn_eq {cs : List Comment} (readable : ∀ c ∈ cs, ∃ r, ofList c.value = .ok r)
    (q : Int) : lookupIn q (cs.map fun c => ⟨c, ofList c.value⟩) =
      .ok ((cs.filterMap fun c => (ofList c.value).toOption.getD none).find? (·.sequence = q)) := by
  induction cs with
  | nil => rfl
  | cons c rest ih =>
    obtain ⟨⟨r, read⟩, later⟩ := List.forall_mem_cons.mp readable
    have next := ih later
    cases r with
    | none =>
      simp only [List.map_cons, lookupIn, read, bind, Except.bind, next]
      simp [read, Except.toOption]
    | some a =>
      simp only [List.map_cons, lookupIn, read, bind, Except.bind, next]
      by_cases own : a.sequence = q
      · simp [read, Except.toOption, own, pure, Except.pure]
      · simp [read, Except.toOption, own]

theorem lookup_eq {line : Text} (readable : ∀ c ∈ comments line, ∃ r, ofList c.value = .ok r)
    (q : Int) : lookup line q = .ok ((annotations line).find? (·.sequence = q)) :=
  lookupIn_eq readable q

/-- The blocks and the code at the end of a line into which an annotation is written. -/
def renew (a : Pragma Int) (tail : Text) : List Block → List Block × Text
  | [] => ([.ofPragma (tail ++ [' ']) a], [])
  | b :: rest =>
    if b.number = some a.sequence then (.ofPragma b.code a :: rest, tail)
    else (b :: (renew a tail rest).1, (renew a tail rest).2)

theorem renew_first {a : Pragma Int} {x y : List Block} {b : Block}
    (before : ∀ c ∈ x, c.number ≠ some a.sequence) (own : b.number = some a.sequence)
    (tail : Text) : renew a tail (x ++ b :: y) = (x ++ .ofPragma b.code a :: y, tail) := by
  induction x with
  | nil => rw [List.nil_append, renew, if_pos own, List.nil_append]
  | cons c x ih =>
    obtain ⟨other, before⟩ := List.forall_mem_cons.mp before
    rw [List.cons_append, renew, if_neg other, ih before, List.cons_append]

theorem renew_none {a : Pragma Int} {bs : List Block}
    (others : ∀ c ∈ bs, c.number ≠ some a.sequence) (tail : Text) :
    renew a tail bs = (bs ++ [.ofPragma (tail ++ [' ']) a], []) := by
  induction bs with
  | nil => rfl
  | cons c rest ih =>
    obtain ⟨other, others⟩ := List.forall_mem_cons.mp others
    rw [renew, if_neg other, ih others, List.cons_append]

theorem split_at_number (q : Int) (bs : List Block) :
    (∃ x b y, bs = x ++ b :: y ∧ (∀ c ∈ x, c.number ≠ some q) ∧ b.number = some q) ∨
      ∀ c ∈ bs, c.number ≠ some q := by
  induction bs with
  | nil => exact .inr (by simp)
  | cons b rest ih =>
    by_cases own : b.number = some q
    · exact .inl ⟨[], b, rest, rfl, by simp, own⟩
    · rcases ih with ⟨x, c, y, rfl, before, own'⟩ | others
      · exact .inl ⟨b :: x, c, y, rfl, List.forall_mem_cons.mpr ⟨own, before⟩, own'⟩
      · exact .inr (List.forall_mem_cons.mpr ⟨own, others⟩)

/-- Where an annotation with the number goes in a line: the text in front, and the comment that
it is written over, none if it goes behind the line. -/
def gapIn (number : Int) (line : Text) : List Comment → Except Fault (Text × Option Text)
  | [] => .ok (line, none)
  | c :: rest => do
    if (← sequenceOf c) = some number then pure (line.take c.start, some (c.text line))
    else gapIn number line rest

def gap (number : Int) (line : Text) : Except Fault (Text × Option Text) :=
  gapIn number line (comments line)

theorem updateIn_gap {a : Pragma Int} {line line' : Text} {cs : List Comment}
    (ordered : ∀ c ∈ cs, c.start ≤ c.stop) (h : updateIn a line cs = .ok line') :
    (gapIn a.sequence line cs = .ok (line, none) ∧ line' = line ++ ' ' :: a.render) ∨
      ∃ x old y, gapIn a.sequence line cs = .ok (x, some old) ∧ line = x ++ (old ++ y) ∧
        line' = x ++ (a.render ++ y) := by
  induction cs with
  | nil =>
    obtain ⟨t, written, h⟩ := bind_eq_ok.mp h
    cases h
    exact .inl ⟨rfl, by rw [write_eq_ok written]⟩
  | cons c rest ih =>
    obtain ⟨number, read, h⟩ := bind_eq_ok.mp h
    rw [gapIn, read]
    simp only [bind, Except.bind]
    split at h
    · rename_i own
      obtain ⟨t, written, h⟩ := bind_eq_ok.mp h
      cases h
      rw [if_pos own, write_eq_ok written]
      have order := ordered c List.mem_cons_self
      refine .inr ⟨line.take c.start, c.text line, line.drop c.stop, rfl, ?_, by simp⟩
      have front : line.take c.start ++ c.text line = line.take c.stop := by
        have cut := List.take_append_drop c.start (line.take c.stop)
        rwa [List.take_take, Nat.min_eq_left order] at cut
      rw [← List.append_assoc, front, List.take_append_drop]
    · rename_i other
      rw [if_neg other]
      exact ih (fun c hc => ordered c (List.mem_cons_of_mem _ hc)) h

theorem update_gap {a : Pragma Int} {line line' : Text} (h : a.update line = .ok line') :
    (gap a.sequence line = .ok (line, none) ∧ line' = line ++ ' ' :: a.render) ∨
      ∃ x old y, gap a.sequence line = .ok (x, some old) ∧ line = x ++ (old ++ y) ∧
        line' = x ++ (a.render ++ y) :=
  updateIn_gap (fun _ hc => Matcher.start_le_stop_of_mem_allFrom hc) h

section Renew

variable {a : Pragma Int} {bs : List Block} {tail : Text}

theorem updateIn_placed (readable : ∀ b ∈ bs, b.Readable) (front : Text) :
    updateIn a (front ++ spread tail bs) (placed front.length bs) =
      a.write.map fun _ => front ++ spread (renew a tail bs).2 (renew a tail bs).1 := by
  induction bs generalizing front with
  | nil =>
    rw [placed, updateIn, write_then]
    simp [spread, renew, Block.ofPragma]
  | cons b rest ih =>
    rw [placed, updateIn, (readable b List.mem_cons_self).numbered, renew, ok_bind]
    split
    · rw [write_then, take_start_placed, (cut_stop_placed front tail b rest).2]
      simp [spread, Block.ofPragma]
    · have later := ih (fun c hc => readable c (List.mem_cons_of_mem b hc))
        (front ++ b.code ++ b.text)
      rw [append_spread_cons, stop_placed, later]
      simp [spread]

theorem update_row {line : Text} (row : Row line bs tail) (readable : ∀ b ∈ bs, b.Readable) :
    a.update line = a.write.map fun _ => spread (renew a tail bs).2 (renew a tail bs).1 := by
  rw [update, row.comments, row.eq]
  exact updateIn_placed readable []

theorem update_sound (sound : a.Sound) {line : Text} (row : Row line bs tail)
    (readable : ∀ b ∈ bs, b.Readable) :
    a.update line = .ok (spread (renew a tail bs).2 (renew a tail bs).1) := by
  rw [update_row row readable, sound.write]
  rfl

theorem closed_renew (closed : ∀ b ∈ bs, b.Closed) (quiet : Quiet tail) :
    (∀ b ∈ (renew a tail bs).1, b.Closed) ∧ Quiet (renew a tail bs).2 := by
  induction bs with
  | nil =>
    refine ⟨fun b hb => ?_, Quiet.nil⟩
    cases List.mem_singleton.mp hb
    exact ⟨quiet.space, spelled_render a⟩
  | cons b rest ih =>
    obtain ⟨here, later⟩ := List.forall_mem_cons.mp closed
    rw [renew]
    split
    · exact ⟨List.forall_mem_cons.mpr ⟨⟨here.quiet, spelled_render a⟩, later⟩, quiet⟩
    · exact ⟨List.forall_mem_cons.mpr ⟨here, (ih later).1⟩, (ih later).2⟩

theorem mem_renew {b : Block} (h : b ∈ (renew a tail bs).1) :
    b ∈ bs ∨ ∃ code, b = .ofPragma code a := by
  rcases split_at_number a.sequence bs with ⟨x, c, y, rfl, before, own⟩ | others
  · rw [renew_first before own] at h
    rcases List.mem_append.mp h with h | h
    · exact .inl (List.mem_append_left _ h)
    · rcases List.mem_cons.mp h with rfl | h
      · exact .inr ⟨_, rfl⟩
      · exact .inl (List.mem_append_right x (List.mem_cons_of_mem c h))
  · rw [renew_none others] at h
    rcases List.mem_append.mp h with h | h
    · exact .inl h
    · exact .inr ⟨_, List.mem_singleton.mp h⟩

theorem spread_renew (a : Pragma Int) (tail : Text) (bs : List Block) :
    (∃ x y, ∃ b ∈ bs, spread tail bs = x ++ b.text ++ y ∧
      spread (renew a tail bs).2 (renew a tail bs).1 = x ++ a.render ++ y) ∨
    spread (renew a tail bs).2 (renew a tail bs).1 = spread tail bs ++ ' ' :: a.render := by
  rcases split_at_number a.sequence bs with ⟨x, b, y, rfl, before, own⟩ | others
  · rw [renew_first before own]
    refine .inl ⟨spread b.code x, spread tail y, b, by simp, ?_, ?_⟩
    · rw [spread_split, List.append_assoc]
    · rw [spread_split, List.append_assoc]
      rfl
  · rw [renew_none others, spread_split]
    exact .inr (by simp [Block.ofPragma, spread, spread_append])

def found (q : Int) (bs : List Block) : Option (Pragma Int) :=
  (bs.filterMap Block.meaning).find? (·.sequence = q)

theorem found_cons_none {b : Block} (malformed : b.meaning = none) (q : Int)
    (rest : List Block) : found q (b :: rest) = found q rest := by
  simp [found, malformed]

theorem found_cons_some {b : Block} {x : Pragma Int} (well : b.meaning = some x) (q : Int)
    (rest : List Block) :
    found q (b :: rest) = if x.sequence = q then some x else found q rest := by
  by_cases own : x.sequence = q
  · simp [found, well, own]
  · simp [found, well, own]

theorem found_renew (sound : a.Sound) (readable : ∀ b ∈ bs, b.Readable) (q : Int) :
    found q (renew a tail bs).1 = if a.sequence = q then some a else found q bs := by
  have fresh := fun code => found_cons_some (Block.meaning_ofPragma sound code) q
  induction bs with
  | nil => exact fresh _ []
  | cons b rest ih =>
    obtain ⟨here, later⟩ := List.forall_mem_cons.mp readable
    rw [renew]
    split
    · rename_i means
      rw [fresh]
      by_cases own : a.sequence = q
      · rw [if_pos own, if_pos own]
      · rw [if_neg own, if_neg own]
        cases read : b.meaning with
        | none => rw [found_cons_none read]
        | some x =>
          have same : some x.sequence = some a.sequence := here.number_eq read ▸ means
          have other : ¬ x.sequence = q := Option.some.inj same ▸ own
          rw [found_cons_some read, if_neg other]
    · rename_i means
      cases read : b.meaning with
      | none => rw [found_cons_none read, found_cons_none read, ih later]
      | some x =>
        rw [here.number_eq read] at means
        rw [found_cons_some read, found_cons_some read, ih later]
        by_cases own : x.sequence = q
        · have other : ¬ a.sequence = q := fun eq => means (by rw [own, eq])
          rw [if_pos own, if_pos own, if_neg other]
        · rw [if_neg own, if_neg own]

theorem annotations_row {line : Text} (row : Row line bs tail) :
    annotations line = bs.filterMap Block.meaning := by
  have read := congrArg (List.filterMap fun r : Text × Option Text =>
    (ofList r.2).toOption.getD none) row.reported
  rw [List.filterMap_map, List.filterMap_map] at read
  exact read

theorem lookup_row {line : Text} (row : Row line bs tail) (readable : ∀ b ∈ bs, b.Readable)
    (q : Int) : lookup line q = .ok (found q bs) := by
  rw [lookup_eq, annotations_row row, found]
  intro c hc
  obtain ⟨b, hb, _, list⟩ := row.exists_block hc
  exact ⟨b.meaning, list ▸ (readable b hb).list⟩

theorem readable_row {line : Text} (row : Row line bs tail)
    (legible : ∀ c ∈ comments line, Legible c.value) : ∀ b ∈ bs, b.Readable := by
  intro b hb
  obtain ⟨c, hc, _, value⟩ := row.exists_comment hb
  have short : Legible b.list := value ▸ legible c hc
  obtain ⟨r, list⟩ := short.exists_ofList
  obtain ⟨q, sequence⟩ := short.exists_sequenceOf
  exact Block.Readable.of_ok list sequence

theorem readable_renew (sound : a.Sound) (readable : ∀ b ∈ bs, b.Readable) :
    ∀ b ∈ (renew a tail bs).1, b.Readable := by
  intro b hb
  rcases mem_renew hb with hb | ⟨code, rfl⟩
  · exact readable b hb
  · exact Block.readable_ofPragma sound code

end Renew

end SchedulingNoise.Pragma
