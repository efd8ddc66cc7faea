import SchedulingNoise.Proofs.HeadReading
import SchedulingNoise.Proofs.Interleaving
import SchedulingNoise.Proofs.Reassembly

namespace SchedulingNoise.Java

open HeadState

def declared (t : Text) (m : Match TypeHead) : Text × Nat :=
  (m.value.name, (t.take m.start).count '\n')

/-- The first type from a place on. `fresh` says whether a line starts there, `feeds` counts the
line feeds in front. -/
def search (fresh : Bool) (feeds : Nat) : Text → Option (Text × Nat)
  | [] => none
  | c :: rest =>
    match if fresh then (indent.after (c :: rest)).found else none with
    | some h => some (h.name, feeds)
    | none => search (c = '\n') (if c = '\n' then feeds + 1 else feeds) rest

theorem search_passed {fresh : Bool} {c : Char} {rest : Text} (feeds : Nat)
    (nothing : fresh = true → (indent.after (c :: rest)).found = none) :
    search fresh feeds (c :: rest) =
      search (c = '\n') (if c = '\n' then feeds + 1 else feeds) rest := by
  rw [search]
  split
  · rename_i h found
    cases fresh with
    | true =>
      rw [if_pos rfl, nothing rfl] at found
      cases found
    | false => cases found
  · rfl

def freshBehind : Option Char → Bool
  | none => true
  | some c => c = '\n'

theorem firstFrom_search (front t : Text) (before : Option Char) :
    (typeDeclaration.firstFrom before front.length t).map (declared (front ++ t)) =
      search (freshBehind before) (front.count '\n') t := by
  induction t generalizing front before with
  | nil => rfl
  | cons c t ih =>
    have here : (typeDeclaration before (c :: t)).map (·.2) =
        if freshBehind before then (indent.after (c :: t)).found else none := by
      rw [found_indent]
      cases before with
      | none => simp [typeDeclaration, Matcher.atLineStart, freshBehind, Function.comp_def]
      | some d =>
        by_cases feed : d = '\n'
        · simp [typeDeclaration, Matcher.atLineStart, freshBehind, Function.comp_def, feed]
        · simp [typeDeclaration, Matcher.atLineStart, freshBehind, feed]
    rw [Matcher.firstFrom, search, ← here]
    cases typeDeclaration before (c :: t) with
    | some found => simp [declared]
    | none =>
      have later := ih (front ++ [c]) (some c)
      by_cases feed : c = '\n'
      · simpa [freshBehind, feed] using later
      · simpa [freshBehind, feed] using later

theorem firstType?_search (t : Text) : (firstType? t).map (declared t) = search true 0 t :=
  firstFrom_search [] t none

section Returns

/-- The second text is the first one with carriage returns in front of line feeds, and perhaps a
newline at its end. -/
inductive Returned : Text → Text → Prop
  | nil : Returned [] []
  | ending {sep : Text} : IsNewline sep → Returned [] sep
  | cons {x y : Text} (c : Char) : Returned x y → Returned (c :: x) (c :: y)
  | feed {x y : Text} : Returned x y → Returned ('\n' :: x) ('\r' :: '\n' :: y)

theorem next_behindWord (w : Text) : (behindWord w).next '\n' = behindWord w := by
  unfold behindWord
  split
  · rfl
  · split <;> rfl

theorem next_return (s : HeadState) : (s.next '\r').next '\n' = s.next '\n' := by
  cases s with
  | word w => exact next_behindWord w
  | _ => rfl

theorem found_feed (s : HeadState) : (s.next '\n').found = s.found := by
  cases s with
  | word w =>
    change (behindWord w).found = none
    unfold behindWord
    split
    · rfl
    · split <;> rfl
  | _ => rfl

theorem found_returned {x y : Text} (h : Returned x y) (s : HeadState) :
    (s.after y).found = (s.after x).found := by
  induction h generalizing s with
  | nil => rfl
  | ending newline =>
    rcases newline with rfl | rfl
    · exact found_feed s
    · exact (congrArg found (next_return s)).trans (found_feed s)
  | cons c _ ih => exact ih (s.next c)
  | feed _ ih =>
    rw [after_cons, after_cons, after_cons, next_return]
    exact ih _

theorem search_returned {x y : Text} (h : Returned x y) (fresh : Bool) (feeds : Nat) :
    search fresh feeds y = search fresh feeds x := by
  induction h generalizing fresh feeds with
  | nil => rfl
  | ending newline =>
    rcases newline with rfl | rfl
    · cases fresh <;> rfl
    · cases fresh <;> rfl
  | cons c h ih => rw [search, search, found_returned (.cons c h), ih]
  | @feed x y h ih =>
    -- No head begins at a line end, and the carriage return does not count as one.
    have past : ∀ b n z, search b n ('\n' :: z) = search true (n + 1) z :=
      fun _ n z => search_passed n fun _ => congrArg found (after_failed z)
    have return_ : search fresh feeds ('\r' :: '\n' :: y) = search false feeds ('\n' :: y) :=
      search_passed feeds fun _ => congrArg found (after_failed ('\n' :: y))
    rw [return_, past, past, ih]

theorem Returned.behind {x y : Text} (h : Returned x y) (l : Text) :
    Returned (l ++ x) (l ++ y) := by
  induction l with
  | nil => exact h
  | cons c l ih => exact .cons c ih

theorem returned_assemble {u : SourceUnit} (newline : IsNewline u.newline) (lines : List Text) :
    Returned (Text.join ['\n'] lines) (u.assemble lines) := by
  induction lines with
  | nil => simpa [SourceUnit.assemble, Text.join] using Returned.nil
  | cons l rest ih =>
    rw [SourceUnit.assemble_cons]
    cases rest with
    | nil =>
      have ends : Returned [] (if u.trailing then u.newline else []) := by
        split
        · exact .ending newline
        · exact .nil
      simpa [Text.join] using ends.behind l
    | cons l' rest =>
      rw [if_neg (List.cons_ne_nil l' rest), Text.join_cons _ _ (List.cons_ne_nil l' rest),
        List.append_assoc]
      apply Returned.behind
      rcases newline with eq | eq
      · rw [eq]
        exact .cons '\n' ih
      · rw [eq]
        exact .feed ih

end Returns

section Noise

/-- What the search has to know of a text that is put in: it begins with a condition, opens a brace
before any semicolon, and is on one line. -/
structure NoiseLike (n : Text) : Prop where
  begins : ∃ a rest, n = "if (".toList ++ (a ++ ')' :: ' ' :: '<' :: ' ' :: rest) ∧ ')' ∉ a
  opens : opensBody n = true
  flat : '\n' ∉ n

def HeadState.begun : HeadState → Bool
  | .keyword _ | .name _ _ | .body _ => true
  | _ => false

def HeadState.named : HeadState → Bool
  | .body _ | .done _ => true
  | _ => false

theorem opensBody_append {x : Text} (opens : opensBody x = true) (y : Text) :
    opensBody (x ++ y) = true := by
  obtain ⟨rest, eq⟩ := List.head?_eq_some_iff.mp (of_decide_eq_true opens)
  unfold opensBody
  rw [List.dropWhile_append, eq]
  rfl

theorem arguments_plain {a : Text} (plain : ')' ∉ a) : arguments.after a = arguments := by
  induction a with
  | nil => rfl
  | cons c a ih =>
    obtain ⟨other, plain⟩ := List.ne_and_not_mem_of_not_mem_cons plain
    rw [after_cons, next, if_neg (Ne.symm other), ih plain]

theorem behindWord_if (w : Text) : behindWord (w ++ ['i'] ++ ['f']) = failed := by
  have ends : ∀ m ∈ modifiers, m.getLast? ≠ some 'f' := by decide
  have ends' : ∀ k ∈ typeKinds, k.1.getLast? ≠ some 'f' := by decide
  have last : (w ++ ['i'] ++ ['f']).getLast? = some 'f' := by simp
  have other : kindOf? (w ++ ['i'] ++ ['f']) = none := by
    unfold kindOf?
    rw [Option.map_eq_none_iff, List.find?_eq_none]
    intro k hk same
    exact ends' k hk (of_decide_eq_true same ▸ last)
  rw [behindWord, if_neg fun mem => ends _ (List.contains_iff_mem.mp mem) last, other]

theorem NoiseLike.breaks {n : Text} (h : NoiseLike n) {s : HeadState} (early : s.begun = false)
    (unfound : s.found = none) (y : Text) : s.after (n ++ y) = failed := by
  obtain ⟨a, rest, rfl, plain⟩ := h.begins
  have listed : arguments.after (a ++ ')' :: ' ' :: '<' :: ' ' :: rest ++ y) = failed := by
    rw [after_append, after_append, arguments_plain plain]
    exact (congrArg (after · y) (after_failed rest)).trans (after_failed y)
  rw [List.append_assoc, after_append]
  -- The parenthesis that opens the condition may be taken for that of an attribute's arguments;
  -- then the comparison sign behind the closing one breaks the head off.
  cases s with
  | indent => exact after_failed _
  | sign => exact listed
  | label => exact listed
  | behindName => exact after_failed _
  | arguments => exact listed
  | closed => exact after_failed _
  | between attributes => cases attributes <;> exact after_failed _
  | word w =>
    have broken : (word w).after "if (".toList = failed :=
      (congrArg (after · ['(']) (behindWord_if w)).trans (after_failed ['('])
    rw [broken, after_failed]
  | failed => exact after_failed _
  | keyword kind => cases early
  | name kind w => cases early
  | body h => cases early
  | done h => cases unfound

theorem NoiseLike.opened {n : Text} (h : NoiseLike n) (head : TypeHead) (y : Text) :
    ((body head).after (n ++ y)).found = some head := by
  rw [found_body, opensBody_append h.opens, if_pos rfl]

/-- May noise stand at an offset of a text? In the head of a type, behind the name; in any other
text, not behind a keyword as it would begin a head. -/
def Fits (t : Text) (k : Nat) : Prop :=
  if (typeHead? t).isSome then (indent.after (t.take k)).named = true
  else (indent.after (t.take k)).begun = false

instance (t : Text) (k : Nat) : Decidable (Fits t k) := inferInstanceAs (Decidable (ite _ _ _))

theorem Fits.found {n u v : Text} (fits : Fits (u ++ v) u.length) (noise : NoiseLike n) (y : Text) :
    (indent.after (u ++ (n ++ y))).found = (indent.after (u ++ v)).found := by
  unfold Fits at fits
  have some : (typeHead? (u ++ v)).isSome = ((indent.after (u ++ v)).found).isSome := by
    rw [found_indent, Option.isSome_map]
  rw [some, List.take_left] at fits
  rw [after_append] at fits ⊢
  rw [after_append indent u v]
  -- All that the noise can change is what follows from where the head stands at its place.
  generalize indent.after u = s at fits
  split at fits
  · rename_i declared
    cases s with
    | body h =>
      rw [noise.opened]
      rw [found_body] at declared ⊢
      split at declared
      · rename_i opens
        rw [if_pos opens]
      · cases declared
    | done h => rw [after_done, after_done]
    | _ => cases fits
  · rename_i undeclared
    have unfound : s.found = none := by
      cases s with
      | done h =>
        rw [after_done] at undeclared
        exact absurd rfl undeclared
      | _ => rfl
    rw [noise.breaks fits unfound, Option.not_isSome_iff_eq_none.mp undeclared]
    rfl

def FirstFits (places : List Nat) (pos : Nat) (t : Text) : Prop :=
  ∀ i ∈ places, pos ≤ i → (∀ j ∈ places, pos ≤ j → i ≤ j) → Fits t (i - pos)

instance (places : List Nat) (pos : Nat) (t : Text) : Decidable (FirstFits places pos t) :=
  inferInstanceAs (Decidable (∀ i ∈ places, _))

/-- The places leave the heads of types alone: at the start of each line, up to the first that
declares a type, the first place behind it fits. -/
def Clear (places : List Nat) : (fresh : Bool) → (pos : Nat) → Text → Prop
  | _, _, [] => True
  | fresh, pos, c :: rest =>
    (fresh = true → FirstFits places pos (c :: rest)) ∧
      (fresh = true ∧ (typeHead? (c :: rest)).isSome ∨ Clear places (c = '\n') (pos + 1) rest)

instance decidableClear (places : List Nat) :
    (fresh : Bool) → (pos : Nat) → (t : Text) → Decidable (Clear places fresh pos t)
  | _, _, [] => inferInstanceAs (Decidable True)
  | _, pos, c :: rest =>
    have := decidableClear places (c = '\n') (pos + 1) rest
    inferInstanceAs (Decidable (_ ∧ (_ ∨ Clear places (c = '\n') (pos + 1) rest)))

theorem interleave_first (ins : Inserts) (pos : Nat) (x : Text) :
    ins.interleave pos x = x ∨ ∃ u v y, x = u ++ v ∧ ins.textAt (pos + u.length) ≠ [] ∧
      (∀ j < u.length, ins.textAt (pos + j) = []) ∧
      ins.interleave pos x = u ++ (ins.textAt (pos + u.length) ++ y) := by
  induction x generalizing pos with
  | nil =>
    by_cases none : ins.textAt pos = []
    · exact .inl none
    · exact .inr ⟨[], [], [], rfl, none, by simp, by simp [Inserts.interleave]⟩
  | cons c x ih =>
    by_cases none : ins.textAt pos = []
    · rw [Inserts.interleave, none, List.nil_append]
      rcases ih (pos + 1) with same | ⟨u, v, y, rfl, some, before, eq⟩
      · exact .inl (by rw [same])
      · have place : pos + (c :: u).length = pos + 1 + u.length := by
          rw [List.length_cons]
          omega
        refine .inr ⟨c :: u, v, y, rfl, place ▸ some, fun j hj => ?_, ?_⟩
        · cases j with
          | zero => exact none
          | succ j =>
            have later := before j (Nat.lt_of_succ_lt_succ hj)
            rwa [Nat.add_assoc, Nat.add_comm 1 j] at later
        · rw [eq, place]
          rfl
    · exact .inr ⟨[], c :: x, c :: ins.interleave (pos + 1) x, rfl, none, by simp,
        by simp [Inserts.interleave]⟩

section Inserts

variable {ins : Inserts} (noise : ∀ i ∈ ins, NoiseLike i.2)
include noise

theorem textAt_ne_nil {i : Nat × Text} (hi : i ∈ ins) : ins.textAt i.1 ≠ [] := by
  intro none
  have own : i ∈ ins.filter (·.1 = i.1) := List.mem_filter.mpr ⟨hi, decide_eq_true rfl⟩
  obtain ⟨a, rest, eq, _⟩ := (noise i hi).begins
  have empty := List.flatMap_eq_nil_iff.mp none i own
  rw [eq] at empty
  cases empty

theorem textAt_noise {pos : Nat} (some : ins.textAt pos ≠ []) :
    pos ∈ ins.map (·.1) ∧ ∃ n y, ins.textAt pos = n ++ y ∧ NoiseLike n := by
  unfold Inserts.textAt at some ⊢
  cases here : ins.filter (·.1 = pos) with
  | nil =>
    rw [here] at some
    exact absurd rfl some
  | cons i rest =>
    have mem : i ∈ ins.filter (·.1 = pos) := here ▸ List.mem_cons_self
    obtain ⟨hi, at_⟩ := List.mem_filter.mp mem
    refine ⟨List.mem_map.mpr ⟨i, hi, of_decide_eq_true at_⟩, i.2, rest.flatMap (·.2), rfl,
      noise i hi⟩

theorem textAt_flat (pos : Nat) : '\n' ∉ ins.textAt pos := by
  intro mem
  obtain ⟨i, hi, inside⟩ := List.mem_flatMap.mp mem
  exact (noise i (List.mem_filter.mp hi).1).flat inside

theorem found_interleave {pos : Nat} {x : Text} (fits : FirstFits (ins.map (·.1)) pos x) :
    (indent.after (ins.interleave pos x)).found = (indent.after x).found := by
  rcases interleave_first ins pos x with same | ⟨u, v, y, rfl, some, before, eq⟩
  · rw [same]
  · obtain ⟨place, n, z, text, noisy⟩ := textAt_noise noise some
    have first : ∀ j ∈ ins.map (·.1), pos ≤ j → pos + u.length ≤ j := by
      intro j hj behind
      obtain ⟨i, hi, rfl⟩ := List.mem_map.mp hj
      by_contra earlier
      have nothing := before (i.1 - pos) (by omega)
      rw [Nat.add_sub_cancel' behind] at nothing
      exact textAt_ne_nil noise hi nothing
    have fit := fits (pos + u.length) place (Nat.le_add_right pos _) first
    rw [Nat.add_sub_cancel_left] at fit
    rw [eq, text, List.append_assoc]
    exact fit.found noisy (z ++ y)

end Inserts

theorem search_found {t : Text} {h : TypeHead} (found : (indent.after t).found = some h)
    (feeds : Nat) : search true feeds t = some (h.name, feeds) := by
  cases t with
  | nil => cases found
  | cons c t => rw [search, if_pos rfl, found]

theorem search_flat {n : Text} (flat : '\n' ∉ n) (some : n ≠ []) {fresh : Bool} (feeds : Nat)
    {y : Text} (nothing : fresh = true → (indent.after (n ++ y)).found = none) :
    search fresh feeds (n ++ y) = search false feeds y := by
  induction n generalizing fresh with
  | nil => exact absurd rfl some
  | cons c n ih =>
    obtain ⟨other, flat⟩ := List.ne_and_not_mem_of_not_mem_cons flat
    rw [List.cons_append] at nothing ⊢
    rw [search_passed feeds nothing, decide_eq_false (Ne.symm other), if_neg (Ne.symm other)]
    cases n with
    | nil => rfl
    | cons d n => exact ih flat (List.cons_ne_nil d n) fun h => by cases h

/-- Noise that leaves the heads alone leaves the search alone. -/
theorem search_interleave {ins : Inserts} (noise : ∀ i ∈ ins, NoiseLike i.2) {fresh : Bool}
    {pos : Nat} {x : Text} (clear : Clear (ins.map (·.1)) fresh pos x) (feeds : Nat) :
    search fresh feeds (ins.interleave pos x) = search fresh feeds x := by
  have flat := textAt_flat noise pos
  induction x generalizing fresh pos feeds with
  | nil =>
    by_cases none : ins.textAt pos = []
    · rw [Inserts.interleave, none]
    · obtain ⟨_, n, z, text, noisy⟩ := textAt_noise noise none
      have nothing : fresh = true → (indent.after (ins.textAt pos ++ [])).found = Option.none := by
        intro _
        rw [text, List.append_assoc, noisy.breaks rfl rfl]
        rfl
      have passed := search_flat flat none feeds nothing
      rwa [List.append_nil] at passed
  | cons c x ih =>
    obtain ⟨fits, onward⟩ := clear
    have same := fun h => found_interleave noise (fits h)
    by_cases declares : fresh = true ∧ (typeHead? (c :: x)).isSome
    · obtain ⟨rfl, some⟩ := declares
      have found : ((indent.after (c :: x)).found).isSome := by
        rwa [found_indent, Option.isSome_map]
      obtain ⟨h, found⟩ := Option.isSome_iff_exists.mp found
      -- The search ends here in both texts; noise further on does not matter.
      rw [search_found found, search_found ((same rfl).trans found)]
    · have nothing : fresh = true → (indent.after (c :: x)).found = none := by
        intro h
        have undeclared : (typeHead? (c :: x)) = none := by
          simpa [h] using declares
        rw [found_indent, undeclared]
        rfl
      have nothing' := fun h => (same h).trans (nothing h)
      have later := ih (onward.resolve_left declares) (if c = '\n' then feeds + 1 else feeds)
        (textAt_flat noise (pos + 1))
      rw [search_passed feeds nothing, ← later]
      rw [Inserts.interleave] at nothing' ⊢
      by_cases none : ins.textAt pos = []
      · rw [none] at nothing' ⊢
        exact search_passed feeds nothing'
      · rw [search_flat flat none feeds nothing']
        exact search_passed feeds fun h => by cases h

end Noise

end SchedulingNoise.Java
