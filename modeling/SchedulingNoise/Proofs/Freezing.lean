import SchedulingNoise.Proofs.Renewal
import SchedulingNoise.Pragma.Line

namespace SchedulingNoise

open Pragma (Annotated)

def notesOn (points : List (Point Int)) (number : Int) : List (Pragma Int) :=
  points.filterMap fun p => if p.line = number then p.noise.map (⟨p.sequence, ·⟩) else none

/-- A point on one of so many lines, with noise that can be written. -/
structure Point.Writable (p : Point Int) (lines : Nat) (n : Noise Int) : Prop where
  noise : p.noise = some n
  sound : (⟨p.sequence, n⟩ : Pragma Int).Sound
  first : 1 ≤ p.line
  last : p.line ≤ lines

namespace Freeze

/-- The lines and the top line when some points have been written. -/
structure Holds (lines : List Text) (points : List (Point Int)) (s : State) : Prop where
  top : Annotated [] (s.top.getD []) (notesOn points 1)
  topless : s.top = none ↔ notesOn points 1 = []
  size : s.lines.length = lines.length
  each : ∀ (i : Nat) (h : i < lines.length) (h' : i < s.lines.length),
    Annotated lines[i] s.lines[i] (notesOn points (i + 2))

variable {lines : List Text} {points : List (Point Int)} {s : State} {p : Point Int} {n : Noise Int}

theorem notesOn_own (noise : p.noise = some n) :
    notesOn (points ++ [p]) p.line = notesOn points p.line ++ [⟨p.sequence, n⟩] := by
  simp [notesOn, noise]

theorem notesOn_other {k : Int} (other : p.line ≠ k) :
    notesOn (points ++ [p]) k = notesOn points k := by
  simp [notesOn, other]

theorem Holds.start (neat : ∀ l ∈ lines, ∃ bs tail, Pragma.Neat l bs tail) :
    Holds lines [] { lines } := by
  have blank : Pragma.Neat [] [] [] := ⟨⟨rfl, by simp, Pragma.Quiet.nil⟩, by simp, by simp⟩
  refine ⟨blank.annotated, by simp [notesOn], rfl, fun i h _ => ?_⟩
  obtain ⟨bs, tail, neat⟩ := neat lines[i] (List.getElem_mem h)
  exact neat.annotated

theorem Holds.write_top (h : Holds lines points s) (noise : p.noise = some n) (first : p.line = 1)
    {top : Text} (annotated : Annotated [] top (notesOn points 1 ++ [⟨p.sequence, n⟩])) :
    Holds lines (points ++ [p]) { s with top := some top } := by
  have own : notesOn (points ++ [p]) 1 = notesOn points 1 ++ [⟨p.sequence, n⟩] :=
    first ▸ notesOn_own noise
  refine ⟨own ▸ annotated, by simp [own], h.size, fun i hi hi' => ?_⟩
  rw [notesOn_other (by omega)]
  exact h.each i hi hi'

theorem Holds.write_line (h : Holds lines points s) (noise : p.noise = some n) {i : Nat}
    (line : p.line = i + 2) (inside : i < lines.length) {l : Text}
    (annotated : Annotated lines[i] l (notesOn points (i + 2) ++ [⟨p.sequence, n⟩])) :
    Holds lines (points ++ [p]) { s with lines := s.lines.set i l } := by
  have own : notesOn (points ++ [p]) (i + 2) = notesOn points (i + 2) ++ [⟨p.sequence, n⟩] :=
    line ▸ notesOn_own noise
  have above : notesOn (points ++ [p]) 1 = notesOn points 1 := notesOn_other (by omega)
  refine ⟨above ▸ h.top, above ▸ h.topless, by simp [h.size], fun j hj hj' => ?_⟩
  by_cases same : i = j
  · subst same
    simp only [List.getElem_set_self]
    rw [own]
    exact annotated
  · simp only [List.getElem_set_ne same]
    rw [notesOn_other (by omega)]
    exact h.each j hj (by simpa using hj')

theorem Holds.step (h : Holds lines points s) (good : p.Writable lines.length n) :
    ∃ s', point s p = .ok s' ∧ Holds lines (points ++ [p]) s' := by
  unfold Freeze.point
  rw [good.noise]
  dsimp only
  split
  · rename_i first
    split
    · rename_i none
      refine ⟨_, by rw [good.sound.write]; rfl, h.write_top good.noise first ?_⟩
      rw [h.topless.mp none]
      exact Pragma.annotated_render good.sound
    · rename_i top there
      have before := h.top
      rw [there, Option.getD_some] at before
      obtain ⟨top', updated, annotated⟩ := before.update good.sound
      refine ⟨{ s with top := some top' }, ?_, h.write_top good.noise first annotated⟩
      rw [updated]
      rfl
  · rename_i later
    have low := good.first
    have high := good.last
    obtain ⟨i, line⟩ : ∃ i : Nat, p.line = i + 2 := ⟨(p.line - 2).toNat, by omega⟩
    have inside : i < s.lines.length := by
      rw [h.size]
      omega
    have place : itemIndex? s.lines.length (p.line - 2) = some i := by
      rw [itemIndex?, if_pos (by omega), if_pos (by omega)]
      congr 1
      omega
    obtain ⟨l, updated, annotated⟩ := (h.each i (h.size ▸ inside) inside).update good.sound
    refine ⟨_, ?_, h.write_line good.noise line (h.size ▸ inside) annotated⟩
    rw [place]
    simp only [List.getD_eq_getElem?_getD, List.getElem?_eq_getElem inside, Option.getD_some,
      updated]
    rfl

theorem Holds.run {more : List (Point Int)} (h : Holds lines points s)
    (good : ∀ p ∈ more, ∃ n, p.Writable lines.length n) :
    ∃ s', more.foldlM Freeze.point s = .ok s' ∧ Holds lines (points ++ more) s' := by
  induction more generalizing points s with
  | nil => exact ⟨s, rfl, by simpa using h⟩
  | cons p rest ih =>
    obtain ⟨⟨n, here⟩, later⟩ := List.forall_mem_cons.mp good
    obtain ⟨s', written, holds⟩ := h.step here
    obtain ⟨s'', others, holds⟩ := ih holds later
    refine ⟨s'', ?_, by simpa using holds⟩
    rw [List.foldlM_cons, written]
    exact others

end Freeze

theorem exists_freeze {lines : List Text} {points : List (Point Int)}
    (neat : ∀ l ∈ lines, ∃ bs tail, Pragma.Neat l bs tail)
    (good : ∀ p ∈ points, ∃ n, p.Writable lines.length n) :
    ∃ s, freeze lines points = .ok (s.top.toList ++ s.lines) ∧ Freeze.Holds lines points s := by
  obtain ⟨s, written, holds⟩ := (Freeze.Holds.start neat).run good
  refine ⟨s, ?_, by simpa using holds⟩
  rw [freeze, written]
  rfl

end SchedulingNoise
