import SchedulingNoise.Json.Reader
import SchedulingNoise.Proofs.Outcomes

namespace SchedulingNoise.Json

/-- `n` ASCII digits in a row, too many for a number. -/
structure LongRun (t : Text) (n : Nat) : Prop where
  many : Decimal.digitLimit < n
  run : ∃ digits, digits <:+: t ∧ digits.all Char.isDigit = true ∧ digits.length = n

def opens (c : Char) : Bool := c = '[' || c = '\x7b'

/-- What a reader may answer about a text inside `depth` lists and objects: a value with what is
left of the text, or a refusal for which the text has given cause. -/
def Within (most : Nat) (t : Text) (depth : Nat) : Except Refusal (α × Text) → Prop
  | .ok (_, rest) => rest <:+ t
  | .error (.malformed _ _) => True
  | .error (.digitLimit n) => LongRun t n
  | .error (.tooDeep _) => most < depth + t.countP opens

variable {most : Nat}

namespace Within

variable {t s : Text} {depth : Nat} {x : Except Refusal (α × Text)}

theorem of_ending {level : Nat} (h : Within most s level x) (ends : s <:+ t)
    (levels : level + s.countP opens ≤ depth + t.countP opens) : Within most t depth x := by
  unfold Within at h ⊢
  split
  · exact h.trans ends
  · trivial
  · obtain ⟨digits, inside, all⟩ := h.run
    exact ⟨h.many, digits, inside.trans ends.isInfix, all⟩
  · exact Nat.lt_of_lt_of_le h levels

theorem of_suffix (h : Within most s depth x) (ends : s <:+ t) : Within most t depth x :=
  h.of_ending ends (Nat.add_le_add_left ends.sublist.countP_le depth)

theorem of_opened {c : Char} (h : Within most t (depth + 1) x) (opening : opens c = true) :
    Within most (c :: t) depth x := by
  apply h.of_ending (List.suffix_cons c t)
  rw [List.countP_cons_of_pos opening]
  omega

theorem bind {f : α × Text → Except Refusal (β × Text)} (h : Within most t depth x)
    (next : ∀ a rest, rest <:+ t → Within most rest depth (f (a, rest))) :
    Within most t depth (x >>= f) := by
  cases x with
  | ok p =>
    obtain ⟨a, rest⟩ := p
    exact (next a rest h).of_suffix h
  | error r =>
    cases r with
    | malformed => trivial
    | digitLimit n => exact h
    | tooDeep nest => exact h

theorem fail (problem : Problem) (rest : Text) :
    Within most t depth (Json.fail problem rest : Except Refusal (α × Text)) := trivial

end Within

theorem skipGap_suffix (t : Text) : skipGap t <:+ t := List.dropWhile_suffix isGap

theorem suffix_of_skipGap {t rest : Text} {c : Char} (h : skipGap t = c :: rest) : rest <:+ t :=
  (List.suffix_cons c rest).trans (h ▸ skipGap_suffix t)

theorem Within.of_skipped {t rest : Text} {c : Char} {depth : Nat} {x : Except Refusal (α × Text)}
    (h : Within most (skipGap rest) depth x) (gap : skipGap t = c :: rest) :
    Within most t depth x :=
  h.of_suffix ((skipGap_suffix rest).trans (suffix_of_skipGap gap))

theorem hexUnit?_suffix {t rest : Text} {n : Nat} (h : hexUnit? t = some (n, rest)) :
    rest <:+ t := by
  unfold hexUnit? at h
  split at h
  · rename_i a b c d e more
    simp only [bind, Option.bind_eq_some_iff, pure, Option.some.injEq, Prod.mk.injEq] at h
    obtain ⟨_, _, _, _, _, _, _, _, _, rfl⟩ := h
    exact ⟨[a, b, c, d], rfl⟩
  · cases h

theorem within_unicodeEscape (t : Text) (depth : Nat) : Within most t depth (unicodeEscape t) := by
  unfold unicodeEscape
  split
  · trivial
  · rename_i n rest unit
    have ends := hexUnit?_suffix unit
    split
    · rename_i more _
      split
      · exact ends
      · split
        · trivial
        · rename_i low behind second
          split
          · have inner := hexUnit?_suffix second
            exact (inner.trans ⟨['\\', 'u'], rfl⟩).trans ends
          · exact ends
    · exact ends

theorem within_readChars (start fuel depth : Nat) (t : Text) :
    Within most t depth (readChars start fuel t) := by
  induction fuel generalizing t with
  | zero => trivial
  | succ fuel ih =>
    cases t with
    | nil => trivial
    | cons c rest =>
      unfold readChars
      split
      · exact List.suffix_cons c rest
      · split
        · split
          · trivial
          · rename_i more
            have behind : Within most more depth _ := within_unicodeEscape more depth
            refine Within.of_suffix (s := more) ?_ ⟨[c, 'u'], rfl⟩
            exact behind.bind fun d left _ => (ih left).bind fun ds last _ => List.suffix_rfl
          · rename_i e more _
            split
            · trivial
            · refine Within.of_suffix (s := more) ?_ ⟨[c, e], rfl⟩
              exact (ih more).bind fun ds last _ => List.suffix_rfl
        · split
          · trivial
          · refine Within.of_suffix (s := rest) ?_ (List.suffix_cons c rest)
            exact (ih rest).bind fun ds last _ => List.suffix_rfl

theorem within_readText (t : Text) (depth : Nat) : Within most t depth (readText t) :=
  within_readChars _ _ depth t

theorem exponent?_suffix {t rest : Text} {x : Int} (h : exponent? t = some (x, rest)) :
    rest <:+ t := by
  unfold exponent? at h
  split at h
  · rename_i c more
    split at h
    · split at h
      rename_i negative body signed
      have ends : body <:+ more := by
        split at signed <;> cases signed
        · exact List.suffix_cons _ _
        · exact List.suffix_cons _ _
        · exact List.suffix_rfl
      dsimp only at h
      split at h
      · cases h
      · cases h
        exact (List.dropWhile_suffix _).trans (ends.trans (List.suffix_cons c more))
    · cases h
  · cases h

theorem fraction?_suffix {t digits rest : Text} (h : fraction? t = some (digits, rest)) :
    rest <:+ t := by
  unfold fraction? at h
  split at h
  · dsimp only at h
    split at h
    · cases h
    · cases h
      exact (List.dropWhile_suffix _).trans (List.suffix_cons _ _)
  · cases h

theorem wholeDigits?_eq_some {t digits rest : Text} (h : wholeDigits? t = some (digits, rest)) :
    t = digits ++ rest ∧ digits.all Char.isDigit = true := by
  unfold wholeDigits? at h
  split at h
  · cases h
    exact ⟨rfl, by decide⟩
  · dsimp only at h
    split at h
    · cases h
    · cases h
      exact ⟨List.takeWhile_append_dropWhile.symm, List.all_takeWhile⟩

theorem within_readNumber (t : Text) (depth : Nat) : Within most t depth (readNumber t) := by
  unfold readNumber
  split
  rename_i negative body signed
  have ends : body <:+ t := by
    split at signed <;> cases signed
    · exact List.suffix_cons _ _
    · exact List.suffix_rfl
  split
  · trivial
  · rename_i whole rest found
    obtain ⟨rfl, digits⟩ := wholeDigits?_eq_some found
    have behind : rest <:+ t := (List.suffix_append whole rest).trans ends
    cases part : fraction? rest with
    | none =>
      cases power : exponent? rest with
      | none =>
        simp only [power, Option.map_none, Option.getD_none]
        cases read : Decimal.read whole with
        | ok n => exact behind
        | error n =>
          unfold Decimal.read at read
          split at read
          · rename_i many
            cases read
            have inside := (List.prefix_append whole rest).isInfix.trans ends.isInfix
            exact ⟨many, whole, inside, digits, rfl⟩
          · cases read
      | some p =>
        simp only [power, Option.map_none, Option.getD_none]
        exact (exponent?_suffix power).trans behind
    | some p =>
      have behindPoint := (fraction?_suffix part).trans behind
      simp only [Option.map_some, Option.getD_some]
      cases power : exponent? p.2 with
      | none => exact behindPoint
      | some q => exact (exponent?_suffix power).trans behindPoint

theorem within_readScalar (t : Text) (depth : Nat) : Within most t depth (readScalar t) := by
  unfold readScalar
  split
  · exact List.drop_suffix _ t
  · exact within_readNumber t depth

section Values

variable {fuel : Nat}

theorem within_readItems_succ
    (values : ∀ depth t, Within most t depth (readValue most fuel depth t))
    (items : ∀ depth t, Within most t depth (readItems most fuel depth t))
    (depth : Nat) (t : Text) : Within most t depth (readItems most (fuel + 1) depth t) := by
  unfold readItems
  refine (values depth t).bind fun v rest _ => ?_
  dsimp only
  split
  · rename_i left gap
    exact suffix_of_skipGap gap
  · rename_i left gap
    refine Within.of_skipped ?_ gap
    exact (items depth _).bind fun vs last _ => List.suffix_rfl
  · exact Within.fail _ _

theorem within_readMembers_succ
    (values : ∀ depth t, Within most t depth (readValue most fuel depth t))
    (members : ∀ depth t, Within most t depth (readMembers most fuel depth t))
    (depth : Nat) (t : Text) :
    Within most t depth (readMembers most (fuel + 1) depth t) := by
  unfold readMembers
  split
  · exact Within.fail _ _
  · rename_i depth _ _ _ _ more same
    cases same
    refine Within.of_suffix (s := more) ?_ (List.suffix_cons _ _)
    refine (within_readText more depth).bind fun k rest _ => ?_
    dsimp only
    split
    · rename_i left colon
      refine Within.of_skipped ?_ colon
      refine (values depth _).bind fun v rest _ => ?_
      dsimp only
      split
      · rename_i last brace
        exact suffix_of_skipGap brace
      · rename_i last comma
        refine Within.of_skipped ?_ comma
        exact (members depth _).bind fun ms behind _ => List.suffix_rfl
      · exact Within.fail _ _
    · exact Within.fail _ _
  · exact Within.fail _ _

theorem within_readValue_succ
    (items : ∀ depth t, Within most t depth (readItems most fuel depth t))
    (members : ∀ depth t, Within most t depth (readMembers most fuel depth t))
    (depth : Nat) (t : Text) :
    Within most t depth (readValue most (fuel + 1) depth t) := by
  cases t with
  | nil => exact Within.fail _ _
  | cons c rest =>
    unfold readValue
    split
    · refine Within.of_suffix (s := rest) ?_ (List.suffix_cons c rest)
      exact (within_readText rest depth).bind fun t last _ => List.suffix_rfl
    · split
      · rename_i bracket
        have opening : opens c = true := by simp [opens, bracket]
        split
        · rename_i deep
          exact Within.of_opened (t := rest) (by unfold Within; omega) opening
        · refine Within.of_opened (t := rest) ?_ opening
          split
          · rename_i left gap
            exact suffix_of_skipGap gap
          · refine Within.of_suffix (s := skipGap rest) ?_ (skipGap_suffix rest)
            exact (items (depth + 1) _).bind fun vs last _ => List.suffix_rfl
      · split
        · rename_i brace
          have opening : opens c = true := by simp [opens, brace]
          split
          · rename_i deep
            exact Within.of_opened (t := rest) (by unfold Within; omega) opening
          · refine Within.of_opened (t := rest) ?_ opening
            split
            · rename_i left gap
              exact suffix_of_skipGap gap
            · refine Within.of_suffix (s := skipGap rest) ?_ (skipGap_suffix rest)
              exact (members (depth + 1) _).bind fun ms last _ => List.suffix_rfl
        · exact within_readScalar (c :: rest) depth

end Values

/-- Values, items and members one after the other, by induction on the fuel that they share. -/
theorem within_readers (fuel : Nat) :
    (∀ depth t, Within most t depth (readValue most fuel depth t)) ∧
    (∀ depth t, Within most t depth (readItems most fuel depth t)) ∧
    ∀ depth t, Within most t depth (readMembers most fuel depth t) := by
  induction fuel with
  | zero =>
    refine ⟨fun depth t => ?_, fun depth t => ?_, fun depth t => ?_⟩
    · unfold readValue
      exact Within.fail _ _
    · unfold readItems
      exact Within.fail _ _
    · unfold readMembers
      exact Within.fail _ _
  | succ fuel ih =>
    obtain ⟨values, items, members⟩ := ih
    exact ⟨within_readValue_succ items members, within_readItems_succ values items,
      within_readMembers_succ values members⟩

theorem cause_of_read {t : Text} {levels : Levels} {r : Refusal} (h : read t levels = .error r) :
    (∃ problem place, r = .malformed problem place) ∨ (∃ n, r = .digitLimit n ∧ LongRun t n) ∨
      ∃ nest, r = .tooDeep nest ∧ levels.most < t.countP opens := by
  unfold read at h
  split at h
  · cases h
    exact .inl ⟨_, _, rfl⟩
  · unfold readWhole at h
    split at h
    · cases h
      exact .inl ⟨_, _, rfl⟩
    · have whole : Within levels.most (skipGap t) 0 _ :=
        (within_readers (2 * t.length + 2)).1 0 (skipGap t)
      have value := whole.of_suffix (skipGap_suffix t)
      cases found : readValue levels.most (2 * t.length + 2) 0 (skipGap t) with
      | error r' =>
        rw [found] at h value
        cases h
        cases r with
        | malformed problem place => exact .inl ⟨problem, place, rfl⟩
        | digitLimit n => exact .inr (.inl ⟨n, rfl, value⟩)
        | tooDeep nest => exact .inr (.inr ⟨nest, rfl, by simpa [Within] using value⟩)
      | ok p =>
        rw [found] at h
        dsimp only [bind, Except.bind] at h
        split at h
        · cases h
        · cases h
          exact .inl ⟨_, _, rfl⟩

end SchedulingNoise.Json
