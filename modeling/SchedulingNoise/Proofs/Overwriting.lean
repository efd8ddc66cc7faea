import SchedulingNoise.Proofs.Updates

namespace SchedulingNoise.Pragma

/-- What is reported of a line: the text of each comment, and what its list comes to. -/
def reported (line : Text) : List (Text × Except Fault (Option (Pragma Int))) :=
  (readings line).map fun r => (r.comment.text line, r.result)

section Written

variable {p q : Pragma Int} (sound : p.Sound)
include sound

theorem number_ofPragma (code : Text) : (Block.ofPragma code p).number = some p.sequence := by
  apply (Block.readable_ofPragma sound code).number_eq
  exact Block.meaning_ofPragma sound code

theorem renew_renew (same : q.sequence = p.sequence) (tail : Text) (bs : List Block) :
    renew q (renew p tail bs).2 (renew p tail bs).1 = renew q tail bs := by
  have written (code : Text) : (Block.ofPragma code p).number = some q.sequence := by
    rw [same]
    exact number_ofPragma sound code
  rcases split_at_number q.sequence bs with ⟨x, b, y, rfl, before, own⟩ | others
  · have first := renew_first (a := p) (y := y) (same ▸ before) (same ▸ own) tail
    rw [first, renew_first before (written b.code), renew_first before own]
    rfl
  · have first := renew_none (a := p) (same ▸ others) tail
    rw [first, renew_first others (written _), renew_none others]
    rfl

end Written

section Rows

variable {line : Text} {bs : List Block} {tail : Text}

theorem reported_row (row : Row line bs tail) :
    reported line = bs.map fun b => (b.text, ofList b.list) := by
  have entries := congrArg (List.map fun e : Text × Option Text => (e.1, ofList e.2)) row.reported
  simpa [reported, readings, Function.comp_def] using entries

theorem reported_renew {p : Pragma Int} (sound : p.Sound) {line' : Text} (row : Row line bs tail)
    (row' : Row line' (renew p tail bs).1 (renew p tail bs).2) :
    (∃ x e y, reported line = x ++ e :: y ∧
      reported line' = x ++ (p.render, .ok (some p)) :: y) ∨
    reported line' = reported line ++ [(p.render, .ok (some p))] := by
  have means := ofList_writtenList sound
  rw [reported_row row, reported_row row']
  rcases split_at_number p.sequence bs with ⟨x, b, y, rfl, before, own⟩ | others
  · rw [renew_first before own]
    exact .inl ⟨_, _, _, List.map_append, by simp [Block.ofPragma, means]⟩
  · rw [renew_none others]
    exact .inr (by simp [Block.ofPragma, means])

end Rows

/-- In a line where every comment that opens is found, annotations are written in place. -/
theorem update_overwrites {line : Text} (covered : Covered line)
    (legible : ∀ c ∈ comments line, Legible c.value) {p q : Pragma Int} (sound : p.Sound)
    (same : p.sequence = q.sequence) :
    ∃ line', p.update line = .ok line' ∧ q.update line' = q.update line ∧
      (q.Sound → ∃ line'', q.update line = .ok line'') ∧
      (∀ s, s ≠ p.sequence → ∃ r, lookup line s = .ok r ∧ lookup line' s = .ok r) ∧
      ((∃ x e y, reported line = x ++ e :: y ∧
        reported line' = x ++ (p.render, .ok (some p)) :: y) ∨
      reported line' = reported line ++ [(p.render, .ok (some p))]) := by
  obtain ⟨bs, tail, laid⟩ := covered.exists_laid
  have readable := readable_row laid.row legible
  obtain ⟨closed, quiet⟩ := closed_renew (a := p) laid.closed laid.quiet
  have laid' : Laid _ (renew p tail bs).1 (renew p tail bs).2 := ⟨rfl, closed, quiet⟩
  have readable' : ∀ b ∈ (renew p tail bs).1, b.Readable := readable_renew sound readable
  refine ⟨_, update_sound sound laid.row readable, ?_, ?_, ?_, ?_⟩
  · rw [update_row laid'.row readable', update_row laid.row readable, renew_renew sound same.symm]
  · intro sound'
    exact ⟨_, update_sound sound' laid.row readable⟩
  · intro s other
    refine ⟨found s bs, lookup_row laid.row readable s, ?_⟩
    rw [lookup_row laid'.row readable' s, found_renew sound readable, if_neg other.symm]
  · exact reported_renew sound laid.row laid'.row

/-- Comments that touch one another: one that is malformed, one without a list, and one more. -/
def crowdedLine : Text :=
  "/*@PreemptionPoint(sequence=1,nap)*//*@preemptionPoint */a();/*@PreemptionPoint(".toList ++
    "sequence=2,type=yield)*/".toList

theorem crowdedLine_overwritten : Covered crowdedLine ∧
    (∀ c ∈ comments crowdedLine, Legible c.value) ∧
    (⟨1, ⟨30, .sleep 5 60⟩⟩ : Pragma Int).Sound ∧
    ∃ line' line'', (⟨1, ⟨30, .sleep 5 60⟩⟩ : Pragma Int).update crowdedLine = .ok line' ∧
      (⟨1, ⟨50, .yield⟩⟩ : Pragma Int).update crowdedLine = .ok line'' ∧
      (⟨1, ⟨50, .yield⟩⟩ : Pragma Int).update line' = .ok line'' ∧
      lookup line' 2 = .ok (some ⟨2, ⟨100, .yield⟩⟩) := by
  have covered : Covered crowdedLine := by decide +kernel
  have legible : ∀ c ∈ comments crowdedLine, Legible c.value := by decide +kernel
  have sound : (⟨1, ⟨30, .sleep 5 60⟩⟩ : Pragma Int).Sound := by decide +kernel
  obtain ⟨line', first, both, returns, others, _⟩ :=
    update_overwrites covered legible sound (rfl : _ = (⟨1, ⟨50, .yield⟩⟩ : Pragma Int).sequence)
  obtain ⟨line'', second⟩ := returns (by decide +kernel)
  obtain ⟨r, before, after⟩ := others 2 (by decide)
  have two : lookup crowdedLine 2 = .ok (some ⟨2, ⟨100, .yield⟩⟩) := by decide +kernel
  rw [two] at before
  exact ⟨covered, legible, sound, line', line'', first, second, both.trans second,
    after.trans before.symm⟩

end SchedulingNoise.Pragma
