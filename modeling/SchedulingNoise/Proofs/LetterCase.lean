import Mathlib.Data.List.Forall2
import SchedulingNoise.Text.Basic
import SchedulingNoise.Text.Lowercase

namespace SchedulingNoise.Text

/-- The same text but for the case of ASCII letters. -/
def SameLetters (t t' : Text) : Prop := List.Forall₂ (fun c d => c.toLower = d.toLower) t t'

def Letter (c : Char) : Prop := 65 ≤ c.toNat ∧ c.toNat ≤ 90 ∨ 97 ≤ c.toNat ∧ c.toNat ≤ 122

instance (c : Char) : Decidable (Letter c) := inferInstanceAs (Decidable (_ ∨ _))

theorem letters_cased : ∀ n < 123, 65 ≤ n ∧ n ≤ 90 ∨ 97 ≤ n ∧ n ≤ 122 →
    inFlips n casedFlips = true ∧ inFlips n ignorableFlips = false := by decide +kernel

section Characters

variable {c d : Char}

theorem letter_of_toLower_ne (changed : c.toLower ≠ c) : Letter c ∧ Letter c.toLower := by
  unfold Char.toLower at changed ⊢
  split
  · rename_i capital
    have low : 65 ≤ c.toNat := UInt32.le_iff_toNat_le.mp capital.1
    have high : c.toNat ≤ 90 := UInt32.le_iff_toNat_le.mp capital.2
    have small : (c.val + 32).toNat = c.toNat + 32 := by
      rw [UInt32.toNat_add]
      exact Nat.mod_eq_of_lt (by simp; omega)
    refine ⟨.inl ⟨low, high⟩, .inr ?_⟩
    change 97 ≤ (c.val + 32).toNat ∧ (c.val + 32).toNat ≤ 122
    omega
  · rename_i other
    rw [dif_neg other] at changed
    exact absurd rfl changed

theorem eq_or_letters (same : c.toLower = d.toLower) : c = d ∨ Letter c ∧ Letter d := by
  by_cases left : c.toLower = c
  · by_cases right : d.toLower = d
    · exact .inl (left.symm.trans (same.trans right))
    · have letters := letter_of_toLower_ne right
      exact .inr ⟨by rw [← left, same]; exact letters.2, letters.1⟩
  · have letters := letter_of_toLower_ne left
    by_cases right : d.toLower = d
    · exact .inr ⟨letters.1, by rw [← right, ← same]; exact letters.2⟩
    · exact .inr ⟨letters.1, (letter_of_toLower_ne right).1⟩

theorem Letter.below (h : Letter c) : c.toNat < 123 := by
  unfold Letter at h
  omega

theorem Letter.isBlank (h : Letter c) : Text.isBlank c = false := by
  unfold Letter at h
  simp only [Text.isBlank, Bool.or_eq_false_iff, Bool.and_eq_false_iff, decide_eq_false_iff_not,
    beq_eq_false_iff_ne]
  omega

theorem Letter.lowerChar (h : Letter c) : Text.lowerChar c = [c.toLower] := by
  have small : c.toNat < 128 := Nat.lt_trans h.below (by decide)
  simp only [Text.lowerChar, if_pos small]

theorem Letter.ne {x : Char} (h : Letter c) (other : ¬ Letter x) : c ≠ x := by
  rintro rfl
  exact other h

theorem agree {p : Char → Bool} (outside : ∀ c, Letter c → p c = false)
    (same : c.toLower = d.toLower) : p c = p d := by
  rcases eq_or_letters same with rfl | ⟨hc, hd⟩
  · rfl
  · rw [outside c hc, outside d hd]

end Characters

namespace SameLetters

variable {t t' : Text}

theorem mem {c : Char} (other : ¬ Letter c) (h : SameLetters t t') : c ∈ t ↔ c ∈ t' := by
  induction h with
  | nil => simp
  | @cons a b _ _ same _ ih =>
    have first : c = a ↔ c = b := by
      rcases eq_or_letters same with rfl | ⟨ha, hb⟩
      · rfl
      · simp [(ha.ne other).symm, (hb.ne other).symm]
    rw [List.mem_cons, List.mem_cons, ih, first]

theorem dropWhile {p : Char → Bool} (outside : ∀ c, Letter c → p c = false)
    (h : SameLetters t t') : SameLetters (t.dropWhile p) (t'.dropWhile p) := by
  induction h with
  | nil => exact .nil
  | @cons a b rest rest' same later ih =>
    have first := agree outside same
    rw [List.dropWhile_cons, List.dropWhile_cons, ← first]
    split
    · exact ih
    · exact .cons same later

theorem trimBy {p : Char → Bool} (outside : ∀ c, Letter c → p c = false)
    (h : SameLetters t t') : SameLetters (Text.trimBy p t) (Text.trimBy p t') := by
  have back := List.forall₂_reverse_iff.mpr (dropWhile outside h)
  exact List.forall₂_reverse_iff.mpr (dropWhile outside back)

theorem trim (h : SameLetters t t') : SameLetters (Text.trim t) (Text.trim t') :=
  h.trimBy fun _ hc => hc.isBlank

theorem casedAhead (h : SameLetters t t') : Text.casedAhead t = Text.casedAhead t' := by
  have ignorable : ∀ c, Letter c → isIgnorable c = false := fun c hc =>
    (letters_cased c.toNat hc.below hc).2
  have ahead := dropWhile ignorable h
  unfold Text.casedAhead
  generalize t.dropWhile isIgnorable = s at ahead ⊢
  generalize t'.dropWhile isIgnorable = s' at ahead ⊢
  cases ahead with
  | nil => rfl
  | cons same _ =>
    rcases eq_or_letters same with rfl | ⟨hc, hd⟩
    · rfl
    · have left := (letters_cased _ hc.below hc).1
      have right := (letters_cased _ hd.below hd).1
      simp [isCased, left, right]

theorem lowerFrom (h : SameLetters t t') (inWord : Bool) :
    Text.lowerFrom inWord t = Text.lowerFrom inWord t' := by
  induction h generalizing inWord with
  | nil => rfl
  | @cons c d rest rest' same later ih =>
    have ahead : Text.casedAhead rest = Text.casedAhead rest' := casedAhead later
    unfold Text.lowerFrom
    rcases eq_or_letters same with rfl | ⟨hc, hd⟩
    · rw [ahead, ih]
    · have foreign : ¬ Letter capitalSigma := by decide
      have left := letters_cased _ hc.below hc
      have right := letters_cased _ hd.below hd
      simp only [hc.ne foreign, hd.ne foreign, if_false, hc.lowerChar, hd.lowerChar, same,
        isIgnorable, isCased, left, right, ih]

theorem lower (h : SameLetters t t') : Text.lower t = Text.lower t' := h.lowerFrom false

end SameLetters

theorem mem_lower {c : Char} (own : lowerChar c = [c]) (other : c ≠ capitalSigma) {t : Text}
    (mem : c ∈ t) : c ∈ lower t := by
  have all : ∀ inWord, c ∈ lowerFrom inWord t := by
    induction t with
    | nil => cases mem
    | cons d rest ih =>
      intro inWord
      unfold lowerFrom
      rcases List.mem_cons.mp mem with rfl | mem
      · simp [other, own]
      · exact List.mem_append_right _ (ih mem _)
  exact all false

end SchedulingNoise.Text
