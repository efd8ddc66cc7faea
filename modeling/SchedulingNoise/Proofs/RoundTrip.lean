import SchedulingNoise.Proofs.Entries
import SchedulingNoise.Proofs.Updates

namespace SchedulingNoise

def Counted (n : Int) : Prop := 0 ≤ n ∧ Decimal.Short n

namespace Settings

theorem counted_of_number? {value : Text} {n : Int} (h : number? value = .ok (some n)) :
    Counted n := by
  unfold number? at h
  dsimp only at h
  split at h
  · cases h
  · rename_i digits
    simp only [Bool.or_eq_true, Bool.not_eq_true', not_or, Bool.not_eq_false,
      List.all_eq_true] at digits
    unfold Decimal.read at h
    split at h
    · rename_i k read
      split at read
      · cases read
      · rename_i few
        cases read
        cases h
        exact ⟨Int.natCast_nonneg _, Decimal.short_value digits.2 (Nat.le_of_not_lt few)⟩
    · cases h

/-- Every number that is set is one that can be written down and read again. -/
structure Sound (s : Settings) : Prop where
  sequence : ∀ n ∈ s.sequence, Counted n
  probability : ∀ n ∈ s.probability, Counted n
  low : ∀ n ∈ s.low, Counted n
  high : ∀ n ∈ s.high, Counted n

theorem Sound.start : ({} : Settings).Sound := by
  constructor <;> simp

theorem Sound.put {s : Settings} {e : Entry} (h : s.Sound)
    (counted : ∀ n, e.number? = some n → Counted n) : (s.put e).Sound := by
  have own : ∀ n ∈ e.number?, Counted n := counted
  cases e with
  | sequence n => exact { h with sequence := own }
  | low n => exact { h with low := own }
  | high n => exact { h with high := own }
  | probability n => exact { h with probability := own }
  | kind k => exact ⟨h.sequence, h.probability, h.low, h.high⟩

theorem Sound.item {s s' : Settings} {t : Text} (h : s.Sound)
    (read : item s t = .ok (some s')) : s'.Sound := by
  rw [item_eq] at read
  cases said : saying t with
  | error f =>
    rw [said] at read
    cases read
  | ok m =>
    rw [said] at read
    cases m with
    | nothing =>
      cases read
      exact h
    | malformed => cases read
    | sets e =>
      cases read
      obtain ⟨key, value, _, _, _, valued⟩ := saying_eq_sets said
      apply h.put
      intro n number
      exact counted_of_number? ((valued_eq_sets valued).2 n number)

theorem Sound.items {s s' : Settings} {ts : List Text} (h : s.Sound)
    (read : items s ts = .ok (some s')) : s'.Sound := by
  induction ts generalizing s with
  | nil =>
    cases read
    exact h
  | cons t rest ih =>
    obtain ⟨r, first, others⟩ := bind_eq_ok.mp read
    cases r with
    | none => cases others
    | some s₁ => exact ih (h.item first) others

end Settings

namespace Pragma

theorem Sound.numbers {d : Pragma Int} (h : d.Sound) :
    Counted d.sequence ∧ Counted d.noise.probability ∧ Counted d.noise.low ∧
      Counted d.noise.high := by
  have percent : Decimal.Short 100 := by decide
  refine ⟨⟨h.counted, h.short⟩, ⟨h.likely.1, percent.of_le h.likely.1 h.likely.2⟩, ?_⟩
  unfold Noise.low Noise.high
  cases action : d.noise.action with
  | yield => exact ⟨⟨by decide, by decide⟩, by decide, by decide⟩
  | sleep low high =>
    obtain ⟨positive, order, short⟩ := h.delays low high action
    exact ⟨⟨positive, short.of_le positive order⟩, Int.le_trans positive order, short⟩

theorem counted_getD {x : Option Int} {n : Int} (given : ∀ k ∈ x, Counted k)
    (otherwise : Counted n) :
    Counted (x.getD n) := by
  cases x with
  | none => exact otherwise
  | some k => exact given k rfl

theorem sound_apply {s : Settings} (sound : s.Sound) {d q : Pragma Int} (valid : d.Sound)
    (made : s.apply d = some q) : q.Sound := by
  obtain ⟨dSequence, dProbability, dLow, dHigh⟩ := valid.numbers
  have sequence := counted_getD sound.sequence dSequence
  have probability := counted_getD sound.probability dProbability
  have low := counted_getD sound.low dLow
  have high := counted_getD sound.high dHigh
  unfold Settings.apply at made
  dsimp only at made
  generalize s.kind.getD d.noise.kind = kind at made
  split at made
  · cases made
  · rename_i fits
    split at made
    · cases made
    · rename_i order
      cases made
      cases kind with
      | yield =>
        exact ⟨sequence.1, sequence.2, ⟨probability.1, Int.not_lt.mp fits⟩,
          fun _ _ eq => nomatch eq⟩
      | sleep =>
        refine ⟨sequence.1, sequence.2, ⟨probability.1, Int.not_lt.mp fits⟩, ?_⟩
        intro l h action
        cases action
        refine ⟨low.1, Int.not_lt.mp fun wrong => order ?_, high.2⟩
        exact Bool.and_eq_true_iff.mpr ⟨rfl, decide_eq_true wrong⟩

theorem sound_ofList {list : Option Text} {d q : Pragma Int} (valid : d.Sound)
    (read : ofList list d = .ok (some q)) : q.Sound := by
  obtain ⟨r, settings, read⟩ := bind_eq_ok.mp read
  cases r with
  | none => cases read
  | some s =>
    rw [Settings.ofList_eq_items] at settings
    exact sound_apply (Settings.Sound.start.items settings) valid (Except.ok.inj read)

theorem sound_default : default.Sound := by decide

theorem parse_render {p : Pragma Int} (sound : p.Sound) (d : Pragma Int) :
    parse p.render d = .ok (some p) := by
  rw [parse, (spelled_render p).comments]
  exact ofList_writtenList sound d

theorem sound_parse {line : Text} {d q : Pragma Int} (valid : d.Sound)
    (read : parse line d = .ok (some q)) : q.Sound := by
  unfold parse at read
  split at read
  · cases read
  · exact sound_ofList valid read

/-- Every sound annotation can be written and is read again as it was written. With sound defaults,
whatever is read from a text is sound, and is read again from what is written for it. -/
theorem annotations_round_trip :
    (∀ p : Pragma Int, p.Sound → p.write = .ok p.render ∧ ∀ d, parse p.render d = .ok (some p)) ∧
    ∀ (text : Text) (d q : Pragma Int), d.Sound → parse text d = .ok (some q) →
      q.Sound ∧ q.write = .ok q.render ∧ parse q.render d = .ok (some q) := by
  constructor
  · exact fun p sound => ⟨sound.write, fun d => parse_render sound d⟩
  · intro text d q valid read
    have sound := sound_parse valid read
    exact ⟨sound, sound.write, parse_render sound d⟩

/-- A yield with the largest number that can be read, and defaults that are out of range. -/
theorem longest_round_trip :
    (⟨Nat.pow 10 4300 - 1, ⟨0, .yield⟩⟩ : Pragma Int).Sound ∧
    (⟨Nat.pow 10 4300 - 1, ⟨0, .yield⟩⟩ : Pragma Int).write =
      .ok (⟨Nat.pow 10 4300 - 1, ⟨0, .yield⟩⟩ : Pragma Int).render ∧
    parse (⟨Nat.pow 10 4300 - 1, ⟨0, .yield⟩⟩ : Pragma Int).render ⟨-1, ⟨200, .sleep 9 3⟩⟩ =
      .ok (some ⟨Nat.pow 10 4300 - 1, ⟨0, .yield⟩⟩) ∧
    (⟨7, ⟨0, .yield⟩⟩ : Pragma Int).Sound ∧
    parse "x(); /* @preemptionpoint (TYPE = 'Sleep', low = 007) */".toList ⟨7, ⟨0, .yield⟩⟩ =
      .ok (some ⟨7, ⟨0, .sleep 7 1000⟩⟩) ∧
    parse (⟨7, ⟨0, .sleep 7 1000⟩⟩ : Pragma Int).render ⟨7, ⟨0, .yield⟩⟩ =
      .ok (some ⟨7, ⟨0, .sleep 7 1000⟩⟩) := by
  have short : Decimal.Short (Nat.pow 10 4300 - 1) :=
    (Nat.length_toDigits_le_iff (by decide) (by decide)).mpr (by decide +kernel)
  have longest : (⟨Nat.pow 10 4300 - 1, ⟨0, .yield⟩⟩ : Pragma Int).Sound :=
    ⟨by decide +kernel, short, by decide, fun _ _ eq => nomatch eq⟩
  have valid : (⟨7, ⟨0, .yield⟩⟩ : Pragma Int).Sound := by decide
  have read : parse "x(); /* @preemptionpoint (TYPE = 'Sleep', low = 007) */".toList
      ⟨7, ⟨0, .yield⟩⟩ = .ok (some ⟨7, ⟨0, .sleep 7 1000⟩⟩) := by decide +kernel
  exact ⟨longest, (annotations_round_trip.1 _ longest).1, (annotations_round_trip.1 _ longest).2 _,
    valid, read, (annotations_round_trip.2 _ _ _ valid read).2.2⟩

end Pragma

end SchedulingNoise
