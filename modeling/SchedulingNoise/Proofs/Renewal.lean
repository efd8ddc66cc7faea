import SchedulingNoise.Proofs.Finds
import SchedulingNoise.Proofs.Reassembly
import SchedulingNoise.Proofs.Updates

namespace SchedulingNoise

/-- A line that has the finds and the ends of another one. -/
structure Renewed (line line' : Text) : Prop extends SameEnds line line' where
  sites : Catalogue.default.sites line' = Catalogue.default.sites line

namespace Renewed

theorem refl (line : Text) : Renewed line line := ⟨⟨fun _ _ => id, id, id⟩, rfl⟩

theorem trans {x y z : Text} (h : Renewed x y) (h' : Renewed y z) : Renewed x z where
  absent sep newline outside := h'.absent sep newline (h.absent sep newline outside)
  ending ends := h.ending (h'.ending ends)
  some none := h.some (h'.some none)
  sites := h'.sites.trans h.sites

theorem ending_slashed {x m : Text} (slashed : Slashed m) : ¬ ['\r'] <:+ x ++ m := by
  obtain ⟨inner, rfl⟩ := slashed
  rintro ⟨y, eq⟩
  have ends : y ++ ['\r'] = (x ++ '/' :: inner) ++ ['/'] := eq.trans (by simp)
  cases (List.append_inj' ends rfl).2

variable {m m' : Text} (new : Slashed m') (silent' : ∀ e ∈ Catalogue.default, ¬ e.trigger <:+: m')
  (plain : OneLine m')
include new silent' plain

theorem inPlace (old : Slashed m) (silent : ∀ e ∈ Catalogue.default, ¬ e.trigger <:+: m)
    (x y : Text) : Renewed (x ++ m ++ y) (x ++ m' ++ y) where
  sites := Catalogue.sites_over (by decide) old new silent silent' x y
  absent sep newline outside inside := by
    have foreign : '/' ∉ sep := by rcases newline with rfl | rfl <;> decide
    obtain ⟨before, behind⟩ := new.apart foreign x y
    rcases behind.infix_append inside with inside | inside
    · rcases before.infix_append inside with inside | inside
      · exact outside (inside.trans ⟨[], m ++ y, by simp⟩)
      · exact newline.not_inside plain inside
    · exact outside (inside.trans (List.suffix_append _ y).isInfix)
  ending ends := by
    by_cases last : y = []
    · rw [last, List.append_nil] at ends
      exact absurd ends (ending_slashed new)
    · have tail : ['\r'] <:+ y := List.suffix_of_suffix_length_le ends (List.suffix_append _ y)
        (List.length_pos_iff.mpr last)
      exact tail.trans (List.suffix_append _ y)
  some none := by
    obtain ⟨inner, rfl⟩ := new
    simp at none

theorem behind (line : Text) : Renewed line (line ++ ' ' :: m') where
  sites := Catalogue.sites_behind (by decide) (by decide) new silent' line
  absent sep newline outside inside := by
    have foreign : ' ' ∉ sep := by rcases newline with rfl | rfl <;> decide
    have apart := Text.Apart.of_not_mem_left foreign line m'
    rcases apart.infix_append inside with inside | inside
    · exact outside inside
    · refine newline.not_inside ?_ inside
      exact ⟨fun mem => plain.1 (by simpa using mem), fun mem => plain.2 (by simpa using mem)⟩
  ending ends := by
    have far : ¬ ['\r'] <:+ line ++ [' '] ++ m' := ending_slashed new
    exact absurd (by simpa using ends) far
  some none := by simp at none

end Renewed

namespace Pragma

theorem oneLine_render (a : Pragma Int) : OneLine a.render :=
  ⟨fun mem => absurd (mem_render mem) (by decide), fun mem => absurd (mem_render mem) (by decide)⟩

theorem silent_render (a : Pragma Int) : ∀ e ∈ Catalogue.default, ¬ e.trigger <:+: a.render := by
  have marks : ∀ e ∈ Catalogue.default, '.' ∈ e.trigger ∨ 'z' ∈ e.trigger := by decide
  intro e he inside
  rcases marks e he with mark | mark
  · exact absurd (mem_render (inside.subset mark)) (by decide)
  · exact absurd (mem_render (inside.subset mark)) (by decide)

/-- A line whose comments can be read, and hold no triggers. -/
structure Neat (line : Text) (bs : List Block) (tail : Text) : Prop extends Laid line bs tail where
  readable : ∀ b ∈ bs, b.Readable
  silent : ∀ b ∈ bs, ∀ e ∈ Catalogue.default, ¬ e.trigger <:+: b.text

theorem Neat.update {line : Text} {bs : List Block} {tail : Text} (neat : Neat line bs tail)
    {a : Pragma Int} (sound : a.Sound) : ∃ line' bs' tail', a.update line = .ok line' ∧
      Neat line' bs' tail' ∧ Renewed line line' ∧
      ∀ q, found q bs' = if a.sequence = q then some a else found q bs := by
  have updated := update_sound sound neat.row neat.readable
  obtain ⟨closed, quiet⟩ := closed_renew (a := a) neat.closed neat.quiet
  refine ⟨_, (renew a tail bs).1, (renew a tail bs).2, updated,
    ⟨⟨rfl, closed, quiet⟩, readable_renew sound neat.readable, ?_⟩, ?_,
    found_renew sound neat.readable⟩
  · intro b hb
    rcases mem_renew hb with hb | ⟨code, rfl⟩
    · exact neat.silent b hb
    · exact silent_render a
  · have new : Slashed a.render := (spelled_render a).slashes
    rw [neat.eq]
    rcases spread_renew a tail bs with ⟨x, y, b, hb, old, eq⟩ | eq
    · rw [old, eq]
      exact Renewed.inPlace new (silent_render a) (oneLine_render a)
        (neat.closed b hb).spelled.slashes (neat.silent b hb) x y
    · rw [eq]
      exact Renewed.behind new (silent_render a) (oneLine_render a) _

/-- A line in which every comment that opens is one that is found, or inside one, and in whose
comments no trigger stands and no number has too many digits. -/
structure Tidy (line : Text) : Prop where
  covered : Covered line
  silent : ∀ c ∈ comments line, ∀ e ∈ Catalogue.default, ¬ e.trigger <:+: c.text line
  legible : ∀ c ∈ comments line, Legible c.value

instance (line : Text) : Decidable (Tidy line) :=
  decidable_of_iff (Covered line ∧
      (∀ c ∈ comments line, ∀ e ∈ Catalogue.default, ¬ Text.contains e.trigger (c.text line)) ∧
      ∀ c ∈ comments line, Legible c.value) <| by
    constructor
    · rintro ⟨covered, silent, legible⟩
      exact ⟨covered, fun c hc e he inside => silent c hc e he (Text.contains_iff.mpr inside),
        legible⟩
    · intro h
      exact ⟨h.covered, fun c hc e he inside => h.silent c hc e he (Text.contains_iff.mp inside),
        h.legible⟩

theorem Tidy.exists_neat {line : Text} (h : Tidy line) : ∃ bs tail, Neat line bs tail := by
  obtain ⟨bs, tail, laid⟩ := h.covered.exists_laid
  refine ⟨bs, tail, laid, readable_row laid.row h.legible, fun b hb => ?_⟩
  obtain ⟨c, hc, text, _⟩ := laid.row.exists_comment hb
  rw [← text]
  exact h.silent c hc

/-- What a look-up finds after annotations were written: the last of them with the number. -/
def latest (q : Int) (before : Option (Pragma Int)) (as : List (Pragma Int)) :
    Option (Pragma Int) :=
  as.foldl (fun r a => if a.sequence = q then some a else r) before

structure Annotated (line line' : Text) (as : List (Pragma Int)) : Prop where
  renewed : Renewed line line'
  neat : ∃ bs tail, Neat line' bs tail
  lookup : ∀ q, ∃ r, lookup line q = .ok r ∧ lookup line' q = .ok (latest q r as)

theorem Neat.annotated {line : Text} {bs : List Block} {tail : Text} (neat : Neat line bs tail) :
    Annotated line line [] := by
  refine ⟨Renewed.refl line, ⟨bs, tail, neat⟩, fun q => ⟨found q bs, ?_, ?_⟩⟩
  · exact lookup_row neat.row neat.readable q
  · exact lookup_row neat.row neat.readable q

theorem Annotated.update {line line' : Text} {as : List (Pragma Int)} (h : Annotated line line' as)
    {a : Pragma Int} (sound : a.Sound) :
    ∃ line'', a.update line' = .ok line'' ∧ Annotated line line'' (as ++ [a]) := by
  obtain ⟨bs, tail, neat⟩ := h.neat
  obtain ⟨line'', bs', tail', updated, neat', renewed, founds⟩ := neat.update sound
  refine ⟨line'', updated, h.renewed.trans renewed, ⟨bs', tail', neat'⟩, fun q => ?_⟩
  obtain ⟨r, old, new⟩ := h.lookup q
  refine ⟨r, old, ?_⟩
  rw [lookup_row neat.row neat.readable q] at new
  rw [lookup_row neat'.row neat'.readable q, founds q, Except.ok.inj new, latest, latest,
    List.foldl_concat]

theorem annotated_render {a : Pragma Int} (sound : a.Sound) : Annotated [] a.render [a] := by
  have slashed : Slashed a.render := (spelled_render a).slashes
  have neat : Neat a.render [.ofPragma [] a] [] := by
    refine ⟨⟨by simp [spread, Block.ofPragma], ?_, Quiet.nil⟩, ?_, ?_⟩
    · exact List.forall_mem_singleton.mpr ⟨Quiet.nil, spelled_render a⟩
    · exact List.forall_mem_singleton.mpr (Block.readable_ofPragma sound [])
    · exact List.forall_mem_singleton.mpr (silent_render a)
  refine ⟨⟨⟨?_, ?_, fun _ => rfl⟩, ?_⟩, ⟨_, _, neat⟩, fun q => ⟨none, rfl, ?_⟩⟩
  · exact fun sep newline _ => newline.not_inside (oneLine_render a)
  · exact fun ends => absurd ends (Renewed.ending_slashed (x := []) slashed)
  · exact Catalogue.sites_silent (silent_render a)
  · rw [lookup_row neat.row neat.readable q,
      found_cons_some (Block.meaning_ofPragma sound [])]
    rfl

end Pragma

end SchedulingNoise
