import SchedulingNoise.Config.File
import SchedulingNoise.Proofs.Files
import SchedulingNoise.Proofs.Reading

namespace SchedulingNoise
open Style (escape)

def Plain (t : Text) : Prop := escape ∉ t

theorem plain_append {s t : Text} : Plain (s ++ t) ↔ Plain s ∧ Plain t := by
  simp [Plain]

namespace Plain

variable {s t : Text} {c : Char}

theorem nil : Plain [] := List.not_mem_nil

theorem append (hs : Plain s) (ht : Plain t) : Plain (s ++ t) := plain_append.mpr ⟨hs, ht⟩

theorem cons (hc : c ≠ escape) (ht : Plain t) : Plain (c :: t) := by
  simpa [Plain, eq_comm] using ⟨hc, ht⟩

theorem replicate (hc : c ≠ escape) (n : Nat) : Plain (List.replicate n c) :=
  fun mem => hc (List.eq_of_mem_replicate mem).symm

theorem of_subset (ht : Plain t) (sub : s ⊆ t) : Plain s := fun mem => ht (sub mem)

theorem trimEndBy (ht : Plain t) (p : Char → Bool) : Plain (Text.trimEndBy p t) := by
  apply ht.of_subset
  intro c mem
  exact List.mem_reverse.mp ((List.dropWhile_suffix p).subset (List.mem_reverse.mp mem))

theorem join {parts : List Text} (sep : Plain s) (all : ∀ p ∈ parts, Plain p) :
    Plain (Text.join s parts) := by
  intro mem
  rcases Text.mem_join mem with mem | ⟨p, hp, mem⟩
  · exact sep mem
  · exact all p hp mem

theorem flatMap {α : Type} {f : α → Text} {xs : List α} (all : ∀ x ∈ xs, Plain (f x)) :
    Plain (xs.flatMap f) := by
  intro mem
  obtain ⟨x, hx, mem⟩ := List.mem_flatMap.mp mem
  exact all x hx mem

end Plain

instance (t : Text) : Decidable (Plain t) := inferInstanceAs (Decidable (¬ escape ∈ t))

theorem digitChar_ne_escape (d : Nat) : d.digitChar ≠ escape := by
  by_cases small : d < 16
  · have known : ∀ d < 16, Nat.digitChar d ≠ escape := by decide
    exact known d small
  · have star : d.digitChar = '*' := by
      unfold Nat.digitChar
      repeat rw [if_neg (by omega)]
    rw [star]
    decide

theorem plain_toDigits {base : Nat} (many : 1 < base) (n : Nat) : Plain (Nat.toDigits base n) := by
  induction n using Nat.strongRecOn with
  | ind n ih =>
    by_cases small : n < base
    · rw [Nat.toDigits_of_lt_base small]
      exact .cons (digitChar_ne_escape n) .nil
    · have positive : 0 < n := by omega
      rw [Nat.toDigits_of_base_le many (Nat.le_of_not_lt small)]
      exact (ih _ (Nat.div_lt_self positive many)).append (.cons (digitChar_ne_escape _) .nil)

theorem plain_ofNat (n : Nat) : Plain (Decimal.ofNat n) := plain_toDigits (by decide) n

theorem plain_ofInt (n : Int) : Plain (Decimal.ofInt n) := by
  unfold Decimal.ofInt
  split
  · exact .cons (by decide) (plain_ofNat _)
  · exact plain_ofNat _

section Values

theorem plain_hex (width n : Nat) : Plain (Text.hex width n) :=
  (Plain.replicate (by decide) _).append (plain_toDigits (by decide) n)

theorem plain_quotedChar {q : Char} (quote : q ≠ escape) (c : Char) :
    Plain (Text.quotedChar q c) := by
  unfold Text.quotedChar
  split
  · rename_i here
    simp only [Bool.or_eq_true, decide_eq_true_eq] at here
    have other : c ≠ escape := by
      rcases here with rfl | rfl
      · exact quote
      · decide
    exact .cons (by decide) (.cons other .nil)
  · split
    · decide
    · split
      · decide
      · split
        · decide
        · split
          · rename_i printable
            have other : c ≠ escape := by
              rintro rfl
              exact absurd printable (by decide)
            exact .cons other .nil
          · split
            · exact .cons (by decide) (.cons (by decide) (plain_hex _ _))
            · split
              · exact .cons (by decide) (.cons (by decide) (plain_hex _ _))
              · exact .cons (by decide) (.cons (by decide) (plain_hex _ _))

theorem plain_quoted (t : RawText) : Plain t.quoted := by
  have quote : Text.quoteFor t.toText ≠ escape := by
    unfold Text.quoteFor
    split <;> decide
  refine (Plain.cons quote (.flatMap fun p _ => ?_)).append (.cons quote .nil)
  cases p with
  | char c => exact plain_quotedChar quote c
  | half n => exact .cons (by decide) (.cons (by decide) (plain_hex 4 n))

theorem plain_positional {digits : Text} (plain : Plain digits) (point : Int) :
    Plain (Binary64.positional digits point) := by
  unfold Binary64.positional
  split
  · exact .append (.cons (by decide) (.cons (by decide) (.replicate (by decide) _))) plain
  · dsimp only
    split
    · exact (plain.append (.replicate (by decide) _)).append (by decide)
    · have front := plain.of_subset (List.take_subset point.toNat digits)
      exact front.append (.cons (by decide) (plain.of_subset (List.drop_subset _ _)))

theorem plain_scientific {digits : Text} (plain : Plain digits) (point : Int) :
    Plain (Binary64.scientific digits point) := by
  have power : ∀ x : Int, Plain ['e', if x < 0 then '-' else '+'] := by
    intro x
    split <;> decide
  unfold Binary64.scientific
  dsimp only
  refine ((Plain.append ?_ (power _)).append (.replicate (by decide) _)).append (plain_ofNat _)
  cases digits with
  | nil => exact plain
  | cons d rest =>
    cases rest with
    | nil => exact plain
    | cons d' rest => simpa [Plain, escape] using plain

theorem plain_float (x : Binary64) : Plain x.text := by
  cases x with
  | notANumber => exact (by decide : Plain "nan".toList)
  | infinite s => cases s <;> decide
  | finite s m e =>
    have sign : Plain (if s then ['-'] else []) := by cases s <;> decide
    have digits : Plain (Binary64.shortest m e).1 := by
      unfold Binary64.shortest
      exact (plain_ofNat _).trimEndBy _
    unfold Binary64.text
    dsimp only
    split
    · exact sign.append (by decide)
    · refine sign.append ?_
      split
      · exact plain_positional digits _
      · exact plain_scientific digits _

mutual

theorem plain_shown : ∀ v : Json, Plain v.shown
  | .null => by decide
  | .bool b => by cases b <;> decide
  | .int n => plain_ofInt n
  | .float x => plain_float x
  | .str t => plain_quoted t
  | .list items => (Plain.cons (by decide) (plain_shownItems items)).append (by decide)
  | .object members => (Plain.cons (by decide) (plain_shownMembers members)).append (by decide)

theorem plain_shownItems : ∀ vs : List Json, Plain (Json.shownItems vs)
  | [] => .nil
  | [v] => plain_shown v
  | v :: w :: rest =>
    ((plain_shown v).append (by decide)).append (plain_shownItems (w :: rest))

theorem plain_shownMembers : ∀ ms : List (RawText × Json), Plain (Json.shownMembers ms)
  | [] => .nil
  | [(k, v)] => ((plain_quoted k).append (by decide)).append (plain_shown v)
  | (k, v) :: m :: rest =>
    ((((plain_quoted k).append (by decide)).append (plain_shown v)).append (by decide)).append
      (plain_shownMembers (m :: rest))

end

end Values

section Strings

theorem plain_nat (n : Nat) : Plain (toString n).toList := by
  change Plain n.repr.toList
  rw [Nat.toList_repr]
  exact plain_toDigits (by decide) n

theorem plain_int (n : Int) : Plain (toString n).toList := by
  cases n with
  | ofNat n => exact plain_nat n
  | negSucc n =>
    change Plain ("-" ++ toString (n + 1)).toList
    rw [String.toList_append]
    exact .cons (by decide) (plain_nat (n + 1))

theorem plain_lines {lines : List String} (all : ∀ l ∈ lines, Plain l.toList) :
    Plain ("\n".intercalate lines).toList := by
  rw [String.toList_intercalate]
  apply Plain.join (s := "\n".toList) (by decide)
  intro p hp
  obtain ⟨l, hl, rfl⟩ := List.mem_map.mp hp
  exact all l hl

theorem plain_str {t : Text} (plain : Plain t) : Plain (toString (Text.str t)).toList := by
  change Plain (String.ofList t).toList
  rw [String.toList_ofList]
  exact plain

end Strings

namespace Config

theorem plain_typeName (v : Json) : Plain v.typeName.toList := by
  cases v with
  | null => exact (by decide : Plain "NoneType".toList)
  | bool b => exact (by decide : Plain "bool".toList)
  | int n => exact (by decide : Plain "int".toList)
  | float x => exact (by decide : Plain "float".toList)
  | str t => exact (by decide : Plain "str".toList)
  | list items => exact (by decide : Plain "list".toList)
  | object members => exact (by decide : Plain "dict".toList)

theorem plain_valueLines {key : Text} (named : Plain key) {lines : List String}
    (all : ∀ l ∈ lines, Plain l.toList) : Plain (valueLines key lines).toList := by
  apply plain_lines
  simp only [List.forall_mem_append, List.forall_mem_cons, String.toList_append, plain_append]
  exact ⟨⟨by decide, ⟨by decide, plain_str named⟩, nofun⟩, all⟩

theorem plain_notInteger {f : NumberField} (named : Plain f.key) (v : Json) :
    Plain (Complaint.notInteger f v).message.toList := by
  apply plain_valueLines named
  simp only [List.forall_mem_cons, String.toList_append, plain_append, and_assoc]
  exact ⟨by decide, plain_str (plain_shown v), by decide, plain_typeName v, by decide, by decide,
    by decide, plain_int _, by decide, plain_int _, by decide, plain_int _, nofun⟩

theorem plain_outside {f : NumberField} (named : Plain f.key) (n : Int) :
    Plain (Complaint.outside f n).message.toList := by
  apply plain_valueLines named
  simp only [List.forall_mem_cons, String.toList_append, plain_append, and_assoc]
  exact ⟨by decide, plain_int n, by decide, plain_int _, by decide, plain_int _, by decide,
    plain_int _, nofun⟩

theorem plain_unordered {lowKey highKey : Text} {low high : Json} (named : Plain lowKey)
    (named' : Plain highKey) (first : Plain low.plain) (second : Plain high.plain) :
    Plain (Complaint.unordered lowKey highKey low high).message.toList := by
  apply plain_lines
  simp only [List.forall_mem_cons, String.toList_append, plain_append, and_assoc]
  exact ⟨by decide, by decide, plain_str named, by decide, plain_str named', by decide,
    plain_str first, by decide, plain_str second, by decide, plain_str named, by decide,
    plain_str named', nofun⟩

theorem plain_extensionsNoList (v : Json) :
    Plain (Complaint.extensionsNoList v).message.toList := by
  apply plain_valueLines (by decide)
  simp only [List.forall_mem_cons, String.toList_append, plain_append, and_assoc]
  exact ⟨by decide, plain_str (plain_shown v), by decide, plain_typeName v, by decide, by decide,
    by decide, nofun⟩

theorem plain_suffix (v : Json) : Plain (Complaint.suffix v).message.toList := by
  apply plain_valueLines (by decide)
  simp only [List.forall_mem_cons, String.toList_append, plain_append, and_assoc]
  exact ⟨by decide, plain_str (plain_shown v), by decide, by decide, nofun⟩

theorem plain_logFolder {typeName : String} (plain : Plain typeName.toList) :
    Plain (Complaint.logFolder typeName).message.toList := by
  have whole : Plain ("log_folder must be a string, got " ++ typeName).toList := by
    rw [String.toList_append]
    exact .append (by decide) plain
  exact whole

theorem plain_notObject {typeName : String} (plain : Plain typeName.toList) :
    Plain (Complaint.notObject typeName).message.toList := by
  apply plain_lines
  simp only [List.forall_mem_cons, String.toList_append, plain_append, and_assoc]
  exact ⟨by decide, by decide, plain, by decide, nofun⟩

theorem plain_of_integer? {v : Json} {n : Int} (h : integer? v = some n) : Plain v.plain := by
  cases v with
  | bool b => exact plain_shown (.bool b)
  | int n => exact plain_shown (.int n)
  | _ => cases h

/-- Names in messages are those of the program, and all that a value holds is shown in quotes. -/
theorem plain_message {v : Json} {e : Complaint} (h : e ∈ complaints v) :
    Plain e.message.toList := by
  cases v with
  | object ms =>
    simp only [complaints, List.mem_append, List.mem_flatMap] at h
    rcases h with (((⟨f, hf, h⟩ | ⟨keys, hkeys, h⟩) | h) | h) | h
    · have named : ∀ f ∈ numberFields, Plain f.key := by decide
      unfold checkNumber at h
      split at h
      · cases h
      · split at h
        · cases List.mem_singleton.mp h
          exact plain_outside (named f hf) _
        · cases h
      · cases List.mem_singleton.mp h
        exact plain_notInteger (named f hf) _
    · have named : ∀ keys ∈ orderedPairs, Plain keys.1 ∧ Plain keys.2 := by decide
      unfold checkPair at h
      dsimp only at h
      split at h
      · rename_i a b first second
        split at h
        · cases List.mem_singleton.mp h
          obtain ⟨low, high⟩ := named keys hkeys
          exact plain_unordered low high (plain_of_integer? first) (plain_of_integer? second)
        · cases h
      · cases h
    · unfold checkExtensions at h
      split at h
      · cases h
      · split at h
        · cases List.mem_singleton.mp h
          exact plain_valueLines (by decide) (by decide)
        · split at h
          · cases List.mem_singleton.mp h
            exact plain_valueLines (by decide) (by decide)
          · cases h
      · cases List.mem_singleton.mp h
        exact plain_extensionsNoList _
    · unfold checkSuffix at h
      split at h
      · cases h
      · cases h
      · cases List.mem_singleton.mp h
        exact plain_suffix _
    · unfold checkLogFolder at h
      split at h
      · cases h
      · cases h
      · cases List.mem_singleton.mp h
        exact plain_logFolder (plain_typeName _)
  | _ =>
    cases List.mem_singleton.mp h
    exact plain_notObject (plain_typeName _)

end Config

namespace Workspace

/-- A text that can be printed: colours are wanted, or it has no codes. -/
def Showable (coloured : Bool) (s : String) : Prop := coloured = true ∨ Plain s.toList

/-- A step that cannot fail and leaves it as it is whether colours are wanted. -/
def Prints (coloured : Bool) (a : Act Unit) : Prop :=
  Ends (·.coloured = coloured) a (fun _ w => w.coloured = coloured) fun _ _ => False

variable {coloured : Bool}

theorem Prints.next {a b : Act Unit} (first : Prints coloured a) (second : Prints coloured b) :
    Prints coloured (do a; b) :=
  Ends.bind first fun _ => second

theorem Prints.exists_ok {a : Act Unit} {w : Workspace} (h : Prints w.coloured a) :
    ∃ w', a w = .ok () w' := by
  have told := h w rfl
  cases done : a w with
  | ok x w' => exact ⟨w', rfl⟩
  | error f w' =>
    rw [done] at told
    exact told.elim

theorem prints_print {s : String} (h : Showable coloured s) : Prints coloured (print s) := by
  intro w hw
  have asIs : (w.coloured || !s.toList.contains Style.escape) = true := by
    rcases h with wanted | plain
    · rw [hw, wanted]
      rfl
    · rw [Bool.or_eq_true, Bool.not_eq_true', List.contains_eq_mem, decide_eq_false_iff_not]
      exact .inr plain
  unfold print
  rw [bind_ok (get_eq w), if_pos asIs]
  exact hw

theorem prints_printLine {s : String} (h : Showable coloured s) : Prints coloured (printLine s) :=
  (prints_print h).next (prints_print (.inr (by decide)))

theorem Prints.forM {α : Type} {f : α → Act Unit} {xs : List α}
    (each : ∀ x ∈ xs, Prints coloured (f x)) : Prints coloured (xs.forM f) := by
  induction xs with
  | nil => exact fun w hw => hw
  | cons x rest ih =>
    have later := ih fun y hy => each y (List.mem_cons_of_mem x hy)
    exact (each x List.mem_cons_self).next later

theorem prints_printLines {lines : List String} (all : ∀ l ∈ lines, Showable coloured l) :
    Prints coloured (printLines lines) :=
  .forM fun l hl => prints_printLine (all l hl)

theorem prints_note (r : LogRecord) : Prints coloured (note r) := by
  intro w hw
  change (if w.threshold.rank ≤ r.level.rank then { w with log := w.log ++ [r] }
    else w).coloured = _
  split <;> exact hw

end Workspace

end SchedulingNoise
