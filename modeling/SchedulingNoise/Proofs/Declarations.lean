import SchedulingNoise.Proofs.Reading
import SchedulingNoise.Instrument.Unit

namespace SchedulingNoise

namespace Matcher

/-- A match that reads up to a known character ends behind it. -/
theorem split_at_stop {m : Matcher α} {t : Text} {found : Match α} (h : m.first t = some found)
    (reads : ∀ before back n a, m before back = some (n, a) →
      ∃ rest, n = back.length - rest.length ∧ c :: rest <:+ back) :
    ∃ front rest, t = front ++ [c] ++ rest ∧ found.stop = (front ++ [c]).length := by
  obtain ⟨front, back, before, n, rfl, start, here, stop⟩ := firstFrom_eq_some h
  obtain ⟨rest, rfl, ⟨more, rfl⟩⟩ := reads before back n found.value here
  refine ⟨front ++ more, rest, by simp, ?_⟩
  simp only [stop, start, List.length_append, List.length_cons, List.length_nil]
  omega

theorem atLineStart_eq_some {m : Text → Option (Nat × α)} {before : Option Char} {t : Text}
    {r : Nat × α} (h : Matcher.atLineStart m before t = some r) : m t = some r := by
  cases before with
  | none => exact h
  | some c =>
    simp only [atLineStart] at h
    split at h
    · exact h
    · cases h

end Matcher

namespace Java

variable {t rest : Text}

theorem after?_suffix {w : Text} (h : Text.after? w t = some rest) : rest <:+ t :=
  ⟨w, (Text.after?_eq_some.mp h).symm⟩

theorem afterName?_suffix (h : afterName? t = some rest) : rest <:+ t := by
  cases t with
  | nil => cases h
  | cons c t =>
    rw [afterName?] at h
    split at h
    · cases h
      exact (List.dropWhile_suffix _).trans (List.suffix_cons c t)
    · cases h

theorem afterEnd?_suffix (h : afterEnd? t = some rest) : ';' :: rest <:+ t := by
  have eq := Text.after?_eq_some.mp h
  have blanks : Text.skipBlanks t <:+ t := List.dropWhile_suffix _
  rw [eq] at blanks
  exact blanks

theorem afterPackage?_suffix (h : afterPackage? t = some rest) : ';' :: rest <:+ t := by
  simp only [afterPackage?, Option.bind_eq_bind, Option.bind_eq_some_iff] at h
  obtain ⟨t₁, keyword, t₂, blanks, t₃, name, h⟩ := h
  exact (afterEnd?_suffix h).trans <| (afterName?_suffix name).trans <|
    (Text.skipBlanks1?_suffix blanks).trans <| (after?_suffix keyword).trans <|
    List.dropWhile_suffix _

theorem afterImported?_suffix (h : afterImported? t = some rest) : ';' :: rest <:+ t := by
  simp only [afterImported?, Option.bind_eq_bind, Option.bind_eq_some_iff] at h
  obtain ⟨t₁, name, h⟩ := h
  split at h
  · rename_i ended
    cases h
    exact (afterEnd?_suffix ended).trans (afterName?_suffix name)
  · split at h
    · obtain ⟨t₂, star, h⟩ := Option.bind_eq_some_iff.mp h
      exact (afterEnd?_suffix h).trans ((after?_suffix star).trans (afterName?_suffix name))
    · cases h

theorem afterImport?_suffix (h : afterImport? t = some rest) : ';' :: rest <:+ t := by
  simp only [afterImport?, Option.bind_eq_bind, Option.bind_eq_some_iff] at h
  obtain ⟨t₁, keyword, t₂, blanks, h⟩ := h
  have inner : t₂ <:+ t := (Text.skipBlanks1?_suffix blanks).trans <|
    (after?_suffix keyword).trans (List.dropWhile_suffix _)
  split at h
  · rename_i static
    cases h
    obtain ⟨t₃, word, t₄, blanks', imported⟩ := by
      simpa only [Option.bind_eq_some_iff] using static
    exact (afterImported?_suffix imported).trans <| (Text.skipBlanks1?_suffix blanks').trans <|
      (after?_suffix word).trans inner
  · exact (afterImported?_suffix h).trans inner

theorem statement_reads {after : Text → Option Text}
    (ends : ∀ t rest, after t = some rest → ';' :: rest <:+ t) (before : Option Char) (back : Text)
    (n : Nat) (a : Unit) (h : statement after before back = some (n, a)) :
    ∃ rest, n = back.length - rest.length ∧ ';' :: rest <:+ back := by
  obtain ⟨rest, found, made⟩ := Option.map_eq_some_iff.mp (Matcher.atLineStart_eq_some h)
  cases made
  exact ⟨rest, rfl, ends back rest found⟩

theorem repeated_suffix {step : Text → Option Text}
    (steps : ∀ t rest, step t = some rest → rest <:+ t) (fuel : Nat) (t : Text) :
    repeated step fuel t <:+ t := by
  induction fuel generalizing t with
  | zero => exact List.suffix_rfl
  | succ fuel ih =>
    rw [repeated]
    split
    · exact List.suffix_rfl
    · rename_i rest found
      exact (ih rest).trans (steps t rest found)

theorem afterAttribute?_suffix (h : afterAttribute? t = some rest) : rest <:+ t := by
  unfold afterAttribute? at h
  split at h
  · rename_i t'
    obtain ⟨t₁, name, h⟩ := Option.bind_eq_some_iff.mp h
    have inner : t₁ <:+ '@' :: t' := (afterName?_suffix name).trans (List.suffix_cons _ _)
    split at h
    · rename_i opened eq
      have blanks : Text.skipBlanks t₁ <:+ t₁ := List.dropWhile_suffix _
      rw [eq] at blanks
      obtain ⟨p, closed, h⟩ := Option.bind_eq_some_iff.mp h
      exact (Text.skipBlanks1?_suffix h).trans <| (Text.partition?_suffix closed).trans <|
        (List.suffix_cons _ _).trans <| blanks.trans inner
    · exact (Text.skipBlanks1?_suffix h).trans inner
  · cases h

theorem afterWord?_suffix {w : Text} (h : afterWord? w t = some rest) : rest <:+ t := by
  obtain ⟨t₁, word, blanks⟩ := Option.bind_eq_some_iff.mp h
  exact (Text.skipBlanks1?_suffix blanks).trans (after?_suffix word)

theorem afterModifier?_suffix (h : afterModifier? t = some rest) : rest <:+ t := by
  obtain ⟨w, _, found⟩ := List.exists_of_findSome?_eq_some h
  exact afterWord?_suffix found

theorem afterTypeKind?_suffix {k : TypeKind} (h : afterTypeKind? t = some (k, rest)) :
    rest <:+ t := by
  obtain ⟨⟨w, k'⟩, _, found⟩ := List.exists_of_findSome?_eq_some h
  obtain ⟨rest', word, made⟩ := Option.map_eq_some_iff.mp found
  cases made
  exact afterWord?_suffix word

theorem typeHead?_eq_some {head : TypeHead} (h : typeHead? t = some (head, rest)) :
    '\x7b' :: rest <:+ t ∧ ∀ c ∈ head.name, Text.isWord c = true := by
  unfold typeHead? at h
  simp only [Option.bind_eq_bind, Option.bind_eq_some_iff] at h
  obtain ⟨⟨kind, t₁⟩, declared, h⟩ := h
  split at h
  · cases h
  · split at h
    · rename_i opened eq
      cases h
      refine ⟨?_, fun c hc => List.all_eq_true.mp List.all_takeWhile c hc⟩
      have named : (t₁.dropWhile Text.isWord).dropWhile (fun c => c ≠ '\x7b' && c ≠ ';') <:+ t₁ :=
        (List.dropWhile_suffix _).trans (List.dropWhile_suffix _)
      rw [eq] at named
      exact named.trans <| (afterTypeKind?_suffix declared).trans <|
        (repeated_suffix (fun _ _ => afterModifier?_suffix) _ _).trans <|
        (repeated_suffix (fun _ _ => afterAttribute?_suffix) _ _).trans (List.dropWhile_suffix _)
    · cases h

theorem typeDeclaration_reads (before : Option Char) (back : Text) (n : Nat) (head : TypeHead)
    (h : typeDeclaration before back = some (n, head)) :
    ∃ rest, n = back.length - rest.length ∧ '\x7b' :: rest <:+ back := by
  obtain ⟨⟨head', rest⟩, found, made⟩ := Option.map_eq_some_iff.mp (Matcher.atLineStart_eq_some h)
  cases made
  exact ⟨rest, rfl, (typeHead?_eq_some found).1⟩

theorem firstType?_name {m : Match TypeHead} (h : firstType? t = some m) :
    ∀ c ∈ m.value.name, Text.isWord c = true := by
  obtain ⟨_, back, _, n, _, _, here, _⟩ := Matcher.firstFrom_eq_some h
  obtain ⟨⟨head, rest⟩, found, made⟩ :=
    Option.map_eq_some_iff.mp (Matcher.atLineStart_eq_some here)
  cases made
  exact (typeHead?_eq_some found).2

/-- Where a field may go: at the end, in front of a closing bracket, or behind a semicolon. -/
def FieldPlace (front back : Text) : Prop :=
  back = [] ∨ (∃ c, isCloser c = true ∧ back.head? = some c) ∨ [';'] <:+ front

theorem FieldPlace.behind {front back : Text} (x : Text) (h : FieldPlace front back) :
    FieldPlace (x ++ front) back := by
  rcases h with h | h | h
  · exact .inl h
  · exact .inr (.inl h)
  · exact .inr (.inr (h.trans (List.suffix_append x front)))

def EndsAt (pos : Nat) (t : Text) (offset : Nat) : Prop :=
  ∃ front back, t = front ++ back ∧ FieldPlace front back ∧ offset = pos + front.length

theorem EndsAt.cons {pos offset : Nat} {t : Text} (c : Char) (h : EndsAt (pos + 1) t offset) :
    EndsAt pos (c :: t) offset := by
  obtain ⟨front, back, rfl, place, eq⟩ := h
  refine ⟨c :: front, back, rfl, place.behind [c], ?_⟩
  rw [eq, List.length_cons]
  omega

theorem constantsEndFrom_place {total pos skip depth : Nat} {zone : Zone} {t : Text}
    (all : total = pos + t.length) :
    EndsAt pos t (constantsEndFrom total pos skip depth zone t).offset := by
  fun_induction constantsEndFrom total pos skip depth zone t with
  | case1 => exact ⟨[], [], rfl, .inl rfl, by simpa using all⟩
  | case7 =>
    rename_i pos c rest _ _ _ _ closer
    exact ⟨[], c :: rest, rfl, .inr (.inl ⟨c, closer, rfl⟩), rfl⟩
  | case9 =>
    rename_i pos depth c rest _ _ _ _ _ semicolon
    exact ⟨[c], rest, rfl, .inr (.inr (semicolon.1 ▸ List.suffix_rfl)), rfl⟩
  -- Everywhere else the walk goes on behind the first character.
  | _ =>
    rename_i ih
    exact (ih (by rw [all, List.length_cons]; omega)).cons _

theorem constantsEnd_place {t : Text} {start : Nat} (inside : start ≤ t.length) :
    FieldPlace (t.take (constantsEnd t start).offset) (t.drop (constantsEnd t start).offset) := by
  have all : t.length = start + (t.drop start).length := by
    rw [List.length_drop]
    omega
  have ends : EndsAt start (t.drop start) (constantsEnd t start).offset :=
    constantsEndFrom_place all
  obtain ⟨front, back, eq, place, offset⟩ := ends
  have whole : t = t.take start ++ front ++ back := by
    rw [List.append_assoc, ← eq, List.take_append_drop]
  have here : (constantsEnd t start).offset = (t.take start ++ front).length := by
    rw [offset, List.length_append, List.length_take]
    omega
  obtain ⟨taken, dropped⟩ := Text.take_drop_of_append whole here
  rw [taken, dropped]
  exact place.behind _

end Java

end SchedulingNoise
