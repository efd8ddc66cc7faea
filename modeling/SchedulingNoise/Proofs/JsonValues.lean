import SchedulingNoise.Proofs.Digits
import SchedulingNoise.Proofs.JsonTexts
import SchedulingNoise.Proofs.Loading
import SchedulingNoise.Proofs.Reading

namespace SchedulingNoise

namespace Json

/-- What may stand behind a value: nothing, a comma or a line end. -/
def Stops (rest : Text) : Prop := ∀ c ∈ rest.head?, c = ',' ∨ c = '\n'

section Numbers

variable {rest : Text} (stops : Stops rest)
include stops

theorem wholeDigits?_ofNat (n : Nat) :
    wholeDigits? (Decimal.ofNat n ++ rest) = some (Decimal.ofNat n, rest) := by
  have ends : ∀ c ∈ rest.head?, c.isDigit = false := by
    intro c mem
    rcases stops c mem with rfl | rfl <;> rfl
  obtain ⟨taken, left⟩ := Text.span_run (fun c mem => Decimal.isDigit_of_mem (n := n) mem) ends
  obtain ⟨c, more, split, _⟩ := Decimal.exists_first n
  by_cases zero : n = 0
  · subst zero
    rfl
  · have first := Decimal.head?_ofNat (Nat.pos_of_ne_zero zero)
    rw [split] at first taken left ⊢
    unfold wholeDigits?
    split
    · rename_i eq
      cases eq
      exact absurd rfl first
    · dsimp only
      rw [taken, left]
      rfl

theorem fraction?_stops : fraction? rest = none := by
  unfold fraction?
  split
  · rcases stops _ rfl with eq | eq <;> cases eq
  · rfl

theorem exponent?_stops : exponent? rest = none := by
  unfold exponent?
  split
  · rcases stops _ rfl with rfl | rfl <;> rfl
  · rfl

theorem readNumber_ofInt {n : Int} (short : Decimal.Short n) :
    readNumber (Decimal.ofInt n ++ rest) = .ok (.int n, rest) := by
  have whole := wholeDigits?_ofNat stops n.natAbs
  have value : Decimal.read (Decimal.ofNat n.natAbs) = .ok n.natAbs := Decimal.Short.read short
  have part := fraction?_stops stops
  have power := exponent?_stops stops
  unfold readNumber Decimal.ofInt
  by_cases negative : n < 0
  · have amount : -(n.natAbs : Int) = n := by omega
    rw [if_pos negative]
    simp only [List.cons_append, whole, part, power, value, Option.map_none, Option.getD_none,
      if_true, amount]
  · have amount : (n.natAbs : Int) = n := by omega
    obtain ⟨c, more, first, digit⟩ := Decimal.exists_first n.natAbs
    rw [if_neg negative]
    split
    rename_i sign body eq
    split at eq
    · rename_i signed
      rw [first] at signed
      cases signed
      cases digit
    · cases eq
      simp only [whole, part, power, value, Option.map_none, Option.getD_none, amount]
      rfl

theorem readScalar_ofInt {n : Int} (short : Decimal.Short n) :
    readScalar (Decimal.ofInt n ++ rest) = .ok (.int n, rest) := by
  have number := readNumber_ofInt stops short
  obtain ⟨c, more, first, digit⟩ := Decimal.exists_first n.natAbs
  have foreign : ∀ d : Char, d.isDigit = false → d ≠ c := by
    rintro d other rfl
    rw [digit] at other
    cases other
  have none : words.find? (fun w => w.1.isPrefixOf (Decimal.ofInt n ++ rest)) = none := by
    unfold Decimal.ofInt
    by_cases negative : n < 0
    · simp [words, negative, first, foreign 'I' rfl]
    · simp [words, negative, first, foreign 'n' rfl, foreign 't' rfl, foreign 'f' rfl,
        foreign 'N' rfl, foreign 'I' rfl, foreign '-' rfl]
  rw [readScalar, none]
  exact number

end Numbers

/-- A value that indented text keeps and that is nested at most `depth` deep. -/
inductive Kept : (depth : Nat) → Json → Prop
  | null {depth : Nat} : Kept depth .null
  | bool {depth : Nat} (b : Bool) : Kept depth (.bool b)
  | int {depth : Nat} {n : Int} (short : Decimal.Short n) : Kept depth (.int n)
  | str {depth : Nat} {t : RawText} (settled : Settled t) : Kept depth (.str t)
  | list {depth : Nat} {items : List Json} (each : ∀ v ∈ items, Kept depth v) :
      Kept (depth + 1) (.list items)
  | object {depth : Nat} {ms : Members} (distinct : (ms.map (·.1)).Nodup)
      (names : ∀ m ∈ ms, Settled m.1) (each : ∀ m ∈ ms, Kept depth m.2) :
      Kept (depth + 1) (.object ms)

/-- The text of a value at a level is read again inside so many lists and objects. -/
def Reads (most level depth : Nat) (v : Json) : Prop :=
  ∀ fuel rest, (indentedAt level v).length ≤ fuel → Stops rest →
    readValue most fuel depth (indentedAt level v ++ rest) = .ok (v, rest)

theorem skipGap_newLine (level : Nat) {t : Text} (solid : ∀ c ∈ t.head?, isGap c = false) :
    skipGap (newLine level ++ t) = t := by
  refine (Text.span_run (fun c mem => ?_) solid).2
  rcases List.mem_cons.mp mem with rfl | mem
  · rfl
  · rw [List.eq_of_mem_replicate mem]
    rfl

theorem skipGap_solid {t : Text} (solid : ∀ c ∈ t.head?, isGap c = false) : skipGap t = t :=
  (Text.span_run (x := []) nofun solid).2

theorem Kept.exists_first {depth : Nat} {v : Json} (kept : Kept depth v) (level : Nat) :
    ∃ c more, indentedAt level v = c :: more ∧ isGap c = false ∧ c ≠ ']' := by
  cases kept with
  | null => exact ⟨_, _, rfl, rfl, by decide⟩
  | bool b => cases b <;> exact ⟨_, _, rfl, rfl, by decide⟩
  | @int _ n short =>
    obtain ⟨c, more, first, digit⟩ := Decimal.exists_first n.natAbs
    by_cases negative : n < 0
    · exact ⟨'-', c :: more, by simp [indentedAt, writeScalar, Decimal.ofInt, negative, first], rfl,
        by decide⟩
    · refine ⟨c, more, by simp [indentedAt, writeScalar, Decimal.ofInt, negative, first], ?_, ?_⟩
      · rw [← Bool.not_eq_true]
        intro gap
        simp [isGap] at gap
        rcases gap with ((rfl | rfl) | rfl) | rfl <;> cases digit
      · rintro rfl
        cases digit
  | str settled => exact ⟨_, _, rfl, rfl, by decide⟩
  | @list _ items each =>
    cases items with
    | nil => exact ⟨_, _, rfl, rfl, by decide⟩
    | cons v items => exact ⟨'[', _, by simp [indentedAt]; rfl, rfl, by decide⟩
  | @object _ ms distinct names each =>
    cases ms with
    | nil => exact ⟨_, _, rfl, rfl, by decide⟩
    | cons m ms => exact ⟨'\x7b', _, by simp [indentedAt]; rfl, rfl, by decide⟩

theorem Kept.solid {depth : Nat} {v : Json} (kept : Kept depth v) (level : Nat) (rest : Text) :
    ∀ c ∈ (indentedAt level v ++ rest).head?, isGap c = false := by
  obtain ⟨c, more, first, gap, _⟩ := kept.exists_first level
  rw [first]
  intro d mem
  cases mem
  exact gap

theorem stops_newLine (outer : Nat) (rest : Text) : Stops (newLine outer ++ rest) := by
  intro c mem
  cases mem
  exact .inr rfl

theorem stops_comma (rest : Text) : Stops (',' :: rest) := by
  intro c mem
  cases mem
  exact .inl rfl

theorem skipGap_comma (rest : Text) : skipGap (',' :: rest) = ',' :: rest := rfl

section Parts

variable {most level outer depth nest fuel : Nat} {rest : Text}

theorem readItems_indented {v : Json} {vs : List Json} (kept : ∀ u ∈ v :: vs, Kept nest u)
    (reads : ∀ u ∈ v :: vs, Reads most level depth u)
    (enough : (indentedAt level v).length + (indentedItems level vs).length < fuel) :
    readItems most fuel depth (indentedAt level v ++ (indentedItems level vs ++
      (newLine outer ++ ']' :: rest))) = .ok (v :: vs, rest) := by
  induction vs generalizing v fuel with
  | nil =>
    obtain ⟨fuel, rfl⟩ := Nat.exists_eq_succ_of_ne_zero (Nat.ne_of_gt (Nat.zero_lt_of_lt enough))
    have first := reads v List.mem_cons_self fuel _ (by omega) (stops_newLine outer (']' :: rest))
    have bracket : skipGap (newLine outer ++ ']' :: rest) = ']' :: rest :=
      skipGap_newLine outer (by simp [isGap])
    rw [readItems, indentedItems, List.nil_append, first]
    simp only [bind, Except.bind, bracket]
    rfl
  | cons u vs ih =>
    obtain ⟨fuel, rfl⟩ := Nat.exists_eq_succ_of_ne_zero (Nat.ne_of_gt (Nat.zero_lt_of_lt enough))
    simp only [indentedItems, List.length_cons, List.length_append] at enough
    have others : ∀ x ∈ u :: vs, x ∈ v :: u :: vs := fun x mem => List.mem_cons_of_mem v mem
    have first := reads v List.mem_cons_self fuel _ (by omega) (stops_comma
      (newLine level ++ (indentedAt level u ++ (indentedItems level vs ++
        (newLine outer ++ ']' :: rest)))))
    have gap : skipGap (newLine level ++ (indentedAt level u ++ (indentedItems level vs ++
        (newLine outer ++ ']' :: rest)))) = _ :=
      skipGap_newLine level ((kept u (others u List.mem_cons_self)).solid level _)
    have later := ih (fun x mem => kept x (others x mem)) (fun x mem => reads x (others x mem))
      (by omega : _ < fuel)
    rw [readItems]
    simp only [indentedItems, List.cons_append, List.append_assoc, first, bind, Except.bind,
      skipGap_comma, gap, later]
    rfl

theorem readMembers_first {k : RawText} {v : Json} (settled : Settled k) (kept : Kept nest v)
    (reads : Reads most level depth v) (enough : (indentedAt level v).length ≤ fuel)
    (stops : Stops rest) :
    readMembers most (fuel + 1) depth
        (writeText k ++ (": ".toList ++ (indentedAt level v ++ rest))) =
      match skipGap rest with
      | '\x7d' :: rest => pure ([(k, v)], rest)
      | ',' :: rest => do
        let (ms, rest) ← readMembers most fuel depth (skipGap rest)
        pure ((k, v) :: ms, rest)
      | rest => fail .comma rest := by
  have name := readText_written settled (": ".toList ++ (indentedAt level v ++ rest))
  have value := reads fuel rest enough stops
  have colon : skipGap (": ".toList ++ (indentedAt level v ++ rest)) =
      ':' :: ' ' :: (indentedAt level v ++ rest) := rfl
  have blank : skipGap (' ' :: (indentedAt level v ++ rest)) = indentedAt level v ++ rest :=
    skipGap_solid (kept.solid level rest)
  have quoted : writeText k ++ (": ".toList ++ (indentedAt level v ++ rest)) =
      '"' :: (k.flatMap escape ++ '"' :: (": ".toList ++ (indentedAt level v ++ rest))) := by
    simp [writeText]
  have opened := readMembers.eq_def most (fuel + 1) depth
    ('"' :: (k.flatMap escape ++ '"' :: (": ".toList ++ (indentedAt level v ++ rest))))
  simp only [name, bind, Except.bind, colon, blank, value] at opened
  rw [quoted]
  exact opened

theorem readMembers_indented {k : RawText} {v : Json} {ms : Members}
    (names : ∀ m ∈ (k, v) :: ms, Settled m.1) (kept : ∀ m ∈ (k, v) :: ms, Kept nest m.2)
    (reads : ∀ m ∈ (k, v) :: ms, Reads most level depth m.2)
    (enough : (indentedAt level v).length + (indentedMembers level ms).length < fuel) :
    readMembers most fuel depth (writeText k ++ (": ".toList ++ (indentedAt level v ++
      (indentedMembers level ms ++ (newLine outer ++ '\x7d' :: rest))))) =
        .ok ((k, v) :: ms, rest) := by
  induction ms generalizing k v fuel with
  | nil =>
    obtain ⟨fuel, rfl⟩ := Nat.exists_eq_succ_of_ne_zero (Nat.ne_of_gt (Nat.zero_lt_of_lt enough))
    have brace : skipGap (newLine outer ++ '\x7d' :: rest) = '\x7d' :: rest :=
      skipGap_newLine outer (by simp [isGap])
    have room : (indentedAt level v).length ≤ fuel := by omega
    have first := readMembers_first (names _ List.mem_cons_self) (kept _ List.mem_cons_self)
      (reads _ List.mem_cons_self) room (stops_newLine outer ('\x7d' :: rest))
    rw [brace] at first
    exact first
  | cons m ms ih =>
    obtain ⟨fuel, rfl⟩ := Nat.exists_eq_succ_of_ne_zero (Nat.ne_of_gt (Nat.zero_lt_of_lt enough))
    obtain ⟨k', v'⟩ := m
    simp only [indentedMembers, List.length_cons, List.length_append] at enough
    have others : ∀ x ∈ (k', v') :: ms, x ∈ (k, v) :: (k', v') :: ms :=
      fun x mem => List.mem_cons_of_mem (k, v) mem
    have gap : skipGap (newLine level ++ (writeText k' ++ (": ".toList ++ (indentedAt level v' ++
        (indentedMembers level ms ++ (newLine outer ++ '\x7d' :: rest)))))) = _ :=
      skipGap_newLine level (by simp [writeText, isGap])
    have later := ih (fun x mem => names x (others x mem)) (fun x mem => kept x (others x mem))
      (fun x mem => reads x (others x mem)) (by omega : _ < fuel)
    have room : (indentedAt level v).length ≤ fuel := by omega
    have first := readMembers_first (names _ List.mem_cons_self) (kept _ List.mem_cons_self)
      (reads _ List.mem_cons_self) room (stops_comma (newLine level ++
        (writeText k' ++ (": ".toList ++ (indentedAt level v' ++ (indentedMembers level ms ++
          (newLine outer ++ '\x7d' :: rest)))))))
    simp only [skipGap_comma, gap, later, bind, Except.bind] at first
    simp only [indentedMembers, List.cons_append, List.append_assoc]
    exact first

end Parts

end Json

namespace Members

theorem set_absent {ms : Members} {name : RawText} (absent : name ∉ ms.map (·.1)) (v : Json) :
    set ms name v = ms ++ [(name, v)] := by
  induction ms with
  | nil => rfl
  | cons m rest ih =>
    rw [List.map_cons, List.mem_cons, not_or] at absent
    rw [set, if_neg fun eq => absent.1 eq.symm, ih absent.2]
    rfl

theorem update_absent {old new : Members} (distinct : ((old ++ new).map (·.1)).Nodup) :
    update old new = old ++ new := by
  induction new generalizing old with
  | nil => simp [update]
  | cons m rest ih =>
    have absent : m.1 ∉ old.map (·.1) := by
      intro mem
      rw [List.map_append, List.nodup_append] at distinct
      exact distinct.2.2 m.1 mem m.1 List.mem_cons_self rfl
    have step : update old (m :: rest) = update (set old m.1 m.2) rest := rfl
    rw [step, set_absent absent, ih (by simpa using distinct)]
    simp

end Members

namespace Json

section Values

variable {most fuel depth : Nat} {t left : Text}

theorem readValue_scalar {c : Char} (quote : c ≠ '"') (bracket : c ≠ '[') (brace : c ≠ '\x7b') :
    readValue most (fuel + 1) depth (c :: t) = readScalar (c :: t) := by
  rw [readValue, if_neg quote, if_neg bracket, if_neg brace]

theorem readValue_items {items : List Json} (shallow : depth < most)
    (some : ∀ more, skipGap t ≠ ']' :: more)
    (read : readItems most fuel (depth + 1) (skipGap t) = .ok (items, left)) :
    readValue most (fuel + 1) depth ('[' :: t) = .ok (.list items, left) := by
  rw [readValue, if_neg (by decide), if_pos rfl, if_neg (Nat.not_le.mpr shallow)]
  split
  · rename_i more closed
    exact absurd closed (some more)
  · rw [read]
    rfl

theorem readValue_members {ms : Members} (shallow : depth < most)
    (some : ∀ more, skipGap t ≠ '\x7d' :: more) (distinct : (ms.map (·.1)).Nodup)
    (read : readMembers most fuel (depth + 1) (skipGap t) = .ok (ms, left)) :
    readValue most (fuel + 1) depth ('\x7b' :: t) = .ok (.object ms, left) := by
  have whole : Members.update [] ms = ms := Members.update_absent distinct
  rw [readValue, if_neg (by decide), if_neg (by decide), if_pos rfl,
    if_neg (Nat.not_le.mpr shallow)]
  split
  · rename_i more closed
    exact absurd closed (some more)
  · simp only [read, bind, Except.bind, whole]
    rfl

end Values

section Reads

variable {most level depth nest : Nat}

theorem reads_int {n : Int} (short : Decimal.Short n) : Reads most level depth (.int n) := by
  intro fuel rest enough stops
  obtain ⟨c, more, first, digit⟩ := Decimal.exists_first n.natAbs
  have scalar := readScalar_ofInt stops short
  simp only [indentedAt, writeScalar] at enough ⊢
  unfold Decimal.ofInt at enough scalar ⊢
  by_cases negative : n < 0
  · rw [if_pos negative] at enough scalar ⊢
    obtain ⟨fuel, rfl⟩ := Nat.exists_eq_add_of_le' (Nat.le_of_add_left_le enough)
    exact (readValue_scalar (by decide) (by decide) (by decide)).trans scalar
  · rw [if_neg negative, first] at enough scalar ⊢
    obtain ⟨fuel, rfl⟩ := Nat.exists_eq_add_of_le' (Nat.le_of_add_left_le enough)
    refine (readValue_scalar ?_ ?_ ?_).trans scalar <;> rintro rfl <;> cases digit

theorem reads_str {t : RawText} (settled : Settled t) : Reads most level depth (.str t) := by
  intro fuel rest enough stops
  have text := readText_written settled rest
  cases fuel with
  | zero => cases enough
  | succ fuel =>
    simp only [indentedAt, writeScalar, writeText, List.cons_append, List.append_assoc,
      List.nil_append]
    rw [readValue, if_pos rfl, text]
    rfl

theorem reads_list {items : List Json} (shallow : depth < most)
    (kept : ∀ v ∈ items, Kept nest v) (reads : ∀ v ∈ items, Reads most (level + 1) (depth + 1) v) :
    Reads most level depth (.list items) := by
  intro fuel rest enough stops
  cases fuel with
  | zero => cases items <;> cases enough
  | succ fuel =>
    cases items with
    | nil =>
      have brackets : indentedAt level (.list []) ++ rest = '[' :: ']' :: rest := rfl
      rw [brackets, readValue, if_neg (by decide), if_pos rfl, if_neg (Nat.not_le.mpr shallow)]
      rfl
    | cons v vs =>
      simp only [indentedAt, List.length_cons, List.length_append] at enough
      have first := kept v List.mem_cons_self
      obtain ⟨c, more, begins, _, notClosed⟩ := first.exists_first (level + 1)
      have gap := skipGap_newLine (level + 1) (first.solid (level + 1)
        (indentedItems (level + 1) vs ++ (newLine level ++ ']' :: rest)))
      simp only [indentedAt, List.cons_append, List.append_assoc, List.nil_append]
      apply readValue_items shallow
      · intro more' closed
        rw [gap, begins] at closed
        cases closed
        exact notClosed rfl
      · rw [gap]
        exact readItems_indented kept reads (by omega)

theorem reads_object {ms : Members} (shallow : depth < most)
    (distinct : (ms.map (·.1)).Nodup) (names : ∀ m ∈ ms, Settled m.1)
    (kept : ∀ m ∈ ms, Kept nest m.2) (reads : ∀ m ∈ ms, Reads most (level + 1) (depth + 1) m.2) :
    Reads most level depth (.object ms) := by
  intro fuel rest enough stops
  cases fuel with
  | zero => cases ms <;> cases enough
  | succ fuel =>
    cases ms with
    | nil =>
      rw [indentedAt, List.cons_append, readValue, if_neg (by decide), if_neg (by decide),
        if_pos rfl, if_neg (Nat.not_le.mpr shallow)]
      rfl
    | cons m ms =>
      obtain ⟨k, v⟩ := m
      simp only [indentedAt, List.length_cons, List.length_append] at enough
      have gap : skipGap (newLine (level + 1) ++ (writeText k ++ (": ".toList ++
          (indentedAt (level + 1) v ++ (indentedMembers (level + 1) ms ++
            (newLine level ++ '\x7d' :: rest)))))) = _ :=
        skipGap_newLine (level + 1) (by simp [writeText, isGap])
      simp only [indentedAt, List.cons_append, List.append_assoc, List.nil_append]
      apply readValue_members shallow _ distinct
      · rw [gap]
        exact readMembers_indented names kept reads (by omega)
      · intro more closed
        rw [gap] at closed
        cases closed

end Reads

theorem Kept.reads {most nest : Nat} {v : Json} (kept : Kept nest v) (level : Nat) {depth : Nat}
    (shallow : depth + nest ≤ most) : Reads most level depth v := by
  induction kept generalizing level depth with
  | null =>
    intro fuel rest enough stops
    cases fuel with
    | zero => cases enough
    | succ fuel => rfl
  | bool b =>
    intro fuel rest enough stops
    cases fuel with
    | zero => cases b <;> cases enough
    | succ fuel => cases b <;> rfl
  | int short => exact reads_int short
  | str settled => exact reads_str settled
  | list each ih =>
    exact reads_list (by omega) each fun v mem => ih v mem (level + 1) (by omega)
  | object distinct names each ih =>
    exact reads_object (by omega) distinct names each fun m mem => ih m mem (level + 1) (by omega)

def Shown (t : Text) : Prop := ∀ c ∈ t, c = '\n' ∨ Printable c

instance (t : Text) : Decidable (Shown t) :=
  decidable_of_iff (t.all fun c => c = '\n' ∨ Printable c) (by simp [Shown])

section Shown

theorem shown_append {s t : Text} : Shown (s ++ t) ↔ Shown s ∧ Shown t := List.forall_mem_append

theorem shown_cons {c : Char} (h : Printable c) {t : Text} (rest : Shown t) : Shown (c :: t) :=
  List.forall_mem_cons.mpr ⟨.inr h, rest⟩

theorem shown_newLine (level : Nat) : Shown (newLine level) := by
  refine List.forall_mem_cons.mpr ⟨.inl rfl, fun c mem => ?_⟩
  rw [List.eq_of_mem_replicate mem]
  exact .inr (by decide)

theorem shown_writeText {t : RawText} (settled : Settled t) : Shown (writeText t) := by
  have escapes : Shown (t.flatMap escape) := by
    intro c mem
    obtain ⟨p, hp, hc⟩ := List.mem_flatMap.mp mem
    exact .inr ((settled.written hp).printable c hc)
  exact shown_cons (by decide) (shown_append.mpr ⟨escapes, by decide⟩)

theorem shown_ofInt (n : Int) : Shown (Decimal.ofInt n) := by
  intro c mem
  rcases Decimal.mem_ofInt mem with rfl | digit
  · exact .inr (by decide)
  · simp only [Char.isDigit, Bool.and_eq_true, decide_eq_true_eq] at digit
    have low : 48 ≤ c.toNat := digit.1
    have high : c.toNat ≤ 57 := digit.2
    exact .inr ⟨by omega, by omega⟩

variable {level : Nat}

theorem shown_items {vs : List Json} (each : ∀ v ∈ vs, Shown (indentedAt level v)) :
    Shown (indentedItems level vs) := by
  induction vs with
  | nil => exact nofun
  | cons v vs ih =>
    have later := ih fun u mem => each u (List.mem_cons_of_mem v mem)
    simp only [indentedItems, shown_append]
    exact ⟨⟨shown_cons (by decide) (shown_newLine level), each v List.mem_cons_self⟩, later⟩

theorem shown_members {ms : Members} (names : ∀ m ∈ ms, Settled m.1)
    (each : ∀ m ∈ ms, Shown (indentedAt level m.2)) : Shown (indentedMembers level ms) := by
  induction ms with
  | nil => exact nofun
  | cons m ms ih =>
    obtain ⟨k, v⟩ := m
    have others : ∀ x ∈ ms, x ∈ (k, v) :: ms := fun x mem => List.mem_cons_of_mem (k, v) mem
    have later := ih (fun x mem => names x (others x mem)) fun x mem => each x (others x mem)
    have name := shown_writeText (names _ List.mem_cons_self)
    simp only [indentedMembers, shown_append]
    exact ⟨⟨⟨⟨shown_cons (by decide) (shown_newLine level), name⟩, by decide⟩,
      each _ List.mem_cons_self⟩, later⟩

theorem Kept.shown {nest : Nat} {v : Json} (kept : Kept nest v) : Shown (indentedAt level v) := by
  induction kept generalizing level with
  | null => exact (by decide : Shown "null".toList)
  | bool b =>
    cases b with
    | false => exact (by decide : Shown "false".toList)
    | true => exact (by decide : Shown "true".toList)
  | @int _ n short => exact shown_ofInt n
  | str settled => exact shown_writeText settled
  | @list _ items each ih =>
    cases items with
    | nil => exact (by decide : Shown "[]".toList)
    | cons v vs =>
      have later : Shown (indentedItems (level + 1) vs) :=
        shown_items fun u mem => ih u (List.mem_cons_of_mem v mem)
      simp only [indentedAt, shown_append]
      exact ⟨⟨⟨⟨shown_cons (by decide) (shown_newLine _), ih v List.mem_cons_self⟩, later⟩,
        shown_newLine level⟩, by decide⟩
  | @object _ ms distinct names each ih =>
    cases ms with
    | nil => exact (by decide : Shown ['\x7b', '\x7d'])
    | cons m ms =>
      obtain ⟨k, v⟩ := m
      have others : ∀ x ∈ ms, x ∈ (k, v) :: ms := fun x mem => List.mem_cons_of_mem (k, v) mem
      have name := shown_writeText (names _ List.mem_cons_self)
      have later : Shown (indentedMembers (level + 1) ms) :=
        shown_members (fun x mem => names x (others x mem)) fun x mem => ih x (others x mem)
      simp only [indentedAt, shown_append]
      exact ⟨⟨⟨⟨⟨⟨shown_cons (by decide) (shown_newLine _), name⟩, by decide⟩,
        ih (k, v) List.mem_cons_self⟩, later⟩, shown_newLine level⟩, by decide⟩

end Shown

theorem read_indented {nest : Nat} {v : Json} {levels : Levels} (kept : Kept nest v)
    (shallow : nest ≤ levels.most) : read v.indented levels = .ok v := by
  obtain ⟨c, more, first, gap, _⟩ := kept.exists_first 0
  have mark : (indentedAt 0 v).head? ≠ some (Char.ofNat 0xFEFF) := by
    intro eq
    have shown := kept.shown (Char.ofNat 0xFEFF) (List.mem_of_head? eq)
    revert shown
    decide
  have solid := skipGap_solid (kept.solid 0 [])
  rw [List.append_nil] at solid
  have reads : Reads levels.most 0 0 v := kept.reads 0 (by omega)
  have value := reads (2 * (indentedAt 0 v).length + 2) [] (by omega) nofun
  rw [List.append_nil] at value
  rw [read, readWhole, indented, if_neg mark, solid, value]
  rfl

end Json
end SchedulingNoise
