import SchedulingNoise.Proofs.Comments
import SchedulingNoise.Proofs.Digits
import SchedulingNoise.Pragma.Line

namespace SchedulingNoise

namespace Text

variable {p : Char → Bool} {t : Text}

theorem trimBy_of_ends (first : ∀ c ∈ t.head?, p c = false)
    (last : ∀ c ∈ t.getLast?, p c = false) : trimBy p t = t := by
  have kept : ∀ s : Text, (∀ c ∈ s.head?, p c = false) → s.dropWhile p = s := by
    intro s hs
    cases s with
    | nil => rfl
    | cons c s => simp [hs c rfl]
  have back : ∀ c ∈ t.reverse.head?, p c = false := by
    rw [List.head?_reverse]
    exact last
  rw [trimBy, kept t first, kept t.reverse back, List.reverse_reverse]

theorem trimBy_eq_self (h : ∀ c ∈ t, p c = false) : trimBy p t = t :=
  trimBy_of_ends (fun c hc => h c (List.mem_of_mem_head? hc))
    fun c hc => h c (List.mem_of_getLast? hc)

theorem mem_dropWhile {c : Char} (mem : c ∈ t) (other : p c = false) : c ∈ t.dropWhile p := by
  rw [← List.takeWhile_append_dropWhile (p := p) (l := t)] at mem
  rcases List.mem_append.mp mem with mem | mem
  · have := List.all_eq_true.mp List.all_takeWhile c mem
    rw [other] at this
    cases this
  · exact mem

theorem mem_trimBy {c : Char} (mem : c ∈ t) (other : p c = false) : c ∈ trimBy p t := by
  rw [trimBy, List.mem_reverse]
  exact mem_dropWhile (List.mem_reverse.mpr (mem_dropWhile mem other)) other

end Text

/-- A closed inclusion is decided character by character, and not excess all characters. -/
theorem Text.subset_of_all {s t : Text} (h : s.all (· ∈ t) = true) : s ⊆ t :=
  fun c hc => of_decide_eq_true (List.all_eq_true.mp h c hc)

namespace Settings

theorem isBlank_of_isDigit {c : Char} (h : c.isDigit = true) : Text.isBlank c = false := by
  rw [Char.isDigit, Bool.and_eq_true, decide_eq_true_eq, decide_eq_true_eq] at h
  have low : 48 ≤ c.toNat := UInt32.le_iff_toNat_le.mp h.1
  have high : c.toNat ≤ 57 := UInt32.le_iff_toNat_le.mp h.2
  simp only [Text.isBlank, Bool.or_eq_false_iff, Bool.and_eq_false_iff, decide_eq_false_iff_not,
    beq_eq_false_iff_ne]
  omega

theorem isQuote_of_isDigit {c : Char} (h : c.isDigit = true) : isQuote c = false := by
  rw [isQuote, Bool.or_eq_false_iff, decide_eq_false_iff_not, decide_eq_false_iff_not]
  constructor
  · rintro rfl
    cases h
  · rintro rfl
    cases h

theorem bare_digits {digits : Text} (all : ∀ c ∈ digits, c.isDigit = true) :
    bare (' ' :: digits) = digits := by
  have solid : Text.trim digits = digits :=
    Text.trimBy_eq_self fun c hc => isBlank_of_isDigit (all c hc)
  have unquoted : Text.trimBy isQuote digits = digits :=
    Text.trimBy_eq_self fun c hc => isQuote_of_isDigit (all c hc)
  have led : Text.trim (' ' :: digits) = Text.trim digits := rfl
  rw [bare, led, solid, unquoted, solid]

theorem number?_digits {digits : Text} (some : digits ≠ [])
    (all : ∀ c ∈ digits, c.isDigit = true) :
    number? (' ' :: digits) = match Decimal.read digits with
      | .ok n => .ok (.some n)
      | .error n => .error (.tooManyDigits n) := by
  simp only [number?, bare_digits all, List.isEmpty_eq_false_iff.mpr some,
    List.all_eq_true.mpr all]
  cases Decimal.read digits <;> rfl

theorem number?_ofNat {n : Nat} (short : Decimal.Short n) :
    number? (' ' :: Decimal.ofNat n) = .ok (some n) := by
  have some : Decimal.ofNat n ≠ [] := Nat.toDigits_ne_nil
  simp [number?_digits some fun c hc => Decimal.isDigit_of_mem hc, short.read]

theorem number?_ofInt {n : Int} (counted : 0 ≤ n) (short : Decimal.Short n) :
    number? (' ' :: Decimal.ofInt n) = .ok (some n) := by
  obtain ⟨k, rfl⟩ := Int.eq_ofNat_of_zero_le counted
  have text : Decimal.ofInt k = Decimal.ofNat k := if_neg (by omega)
  rw [text, number?_ofNat short]

theorem Key.ofName?_eq_some {name : Text} {k : Key} : ofName? name = some k ↔ k.name = name := by
  constructor
  · intro h
    simpa using List.find?_some h
  · rintro rfl
    cases k <;> decide

def numberKeys : List Text := [Key.sequence, .low, .high, .probability].map Key.name

def Short (t : Text) : Prop :=
  ∀ key value, Text.partition? '=' t = some (key, value) → keyOf key ∈ numberKeys →
    (bare value).all Char.isDigit → (bare value).length ≤ Decimal.digitLimit

instance (t : Text) : Decidable (Short t) :=
  match parted : Text.partition? '=' t with
  | none => isTrue fun key value h => by
    rw [parted] at h
    cases h
  | some (key, value) =>
    decidable_of_iff (keyOf key ∈ numberKeys → (bare value).all Char.isDigit →
        (bare value).length ≤ Decimal.digitLimit) <| by
      constructor
      · intro short key' value' h
        cases parted.symm.trans h
        exact short
      · exact fun short => short key value parted

/-- A value of digits that are too many for a number. -/
structure Overlong (value : Text) (n : Nat) : Prop where
  digits : (bare value).all Char.isDigit
  count : (bare value).length = n
  many : Decimal.digitLimit < n

def Excess (t : Text) (n : Nat) : Prop :=
  ∃ key value, Text.partition? '=' t = some (key, value) ∧ keyOf key ∈ numberKeys ∧
    Overlong value n

theorem Short.not_excess {t : Text} (short : Short t) (n : Nat) : ¬ Excess t n := by
  rintro ⟨key, value, parted, known, digits, rfl, many⟩
  exact Nat.not_lt.mpr (short key value parted known digits) many

theorem answers_number? (value : Text) : Answers (Overlong value) (number? value) := by
  unfold number?
  dsimp only
  split
  · exact .ok none
  · rename_i digits
    simp only [Bool.or_eq_true, Bool.not_eq_true', not_or, Bool.not_eq_false] at digits
    unfold Decimal.read
    by_cases many : Decimal.digitLimit < (bare value).length
    · rw [if_pos many]
      exact .inr ⟨_, ⟨digits.2, rfl, many⟩, rfl⟩
    · rw [if_neg many]
      exact .ok _

theorem Key.answers_read (k : Key) (value : Text) :
    Answers (fun n => k.name ∈ numberKeys ∧ Overlong value n) (k.read value) := by
  cases k with
  | kind => exact .ok _
  | _ => exact ((answers_number? value).mono fun n long => ⟨by decide, long⟩).map _

theorem answers_item (s : Settings) (t : Text) : Answers (Excess t) (item s t) := by
  unfold item
  split
  · exact .ok _
  · split
    · exact .ok _
    · rename_i key value parted
      split
      · exact .ok _
      · rename_i k known
        have named := Key.ofName?_eq_some.mp known
        apply ((k.answers_read value).mono fun n long => ?_).map
        exact ⟨key, value, parted, named ▸ long.1, long.2⟩

theorem answers_items (s : Settings) (ts : List Text) :
    Answers (fun n => ∃ t ∈ ts, Excess t n) (items s ts) := by
  induction ts generalizing s with
  | nil => exact .ok (some s)
  | cons t rest ih =>
    apply ((answers_item s t).mono fun n excess => ⟨t, List.mem_cons_self, excess⟩).bind
    intro r
    cases r with
    | none => exact .ok none
    | some s' =>
      apply (ih s').mono
      rintro n ⟨t', ht', excess⟩
      exact ⟨t', List.mem_cons_of_mem t ht', excess⟩

theorem item_named (s : Settings) {k : Key} {key : Text} (value : Text) (plain : '=' ∉ key)
    (named : keyOf key = k.name) :
    item s (key ++ '=' :: value) = (k.read value).map (·.map s.put) := by
  have there : (Text.trim (key ++ '=' :: value)).isEmpty = false := by
    have mem : '=' ∈ Text.trim (key ++ '=' :: value) := Text.mem_trimBy (by simp) (by decide)
    exact List.isEmpty_eq_false_iff.mpr (List.ne_nil_of_mem mem)
  have parts : Text.partition? '=' (key ++ '=' :: value) = some (key, value) :=
    Text.partition?_eq_some.mpr ⟨rfl, plain⟩
  simp only [item, there, parts, Key.ofName?_eq_some.mpr named.symm]
  rfl

theorem item_number (s : Settings) {k : Key} {entry : Int → Entry}
    (numeric : ∀ value, k.read value = (number? value).map (·.map entry)) (key : Text)
    {text : Text} (spelled : text = key ++ ['=', ' ']) (plain : '=' ∉ key)
    (named : keyOf key = k.name) {n : Int} (counted : 0 ≤ n) (short : Decimal.Short n) :
    item s (text ++ Decimal.ofInt n) = .ok (some (s.put (entry n))) := by
  have read := item_named s (' ' :: Decimal.ofInt n) plain named
  rw [numeric, number?_ofInt counted short] at read
  rw [spelled, List.append_assoc]
  exact read

theorem items_cons {s s' : Settings} {t : Text} (h : item s t = .ok (some s')) (rest : List Text) :
    items s (t :: rest) = items s' rest := by
  rw [items, h]
  rfl

end Settings

namespace Pragma

def Legible (list : Option Text) : Prop :=
  ∀ t ∈ Text.splitOn [','] (list.getD []), Settings.Short t

instance (list : Option Text) : Decidable (Legible list) :=
  inferInstanceAs (Decidable (∀ t ∈ Text.splitOn [','] (list.getD []), Settings.Short t))

/-- A list with a number that has so many digits, which are too many. -/
def Excessive (list : Option Text) (n : Nat) : Prop :=
  ∃ t ∈ Text.splitOn [','] (list.getD []), Settings.Excess t n

theorem Legible.not_excessive {list : Option Text} (h : Legible list) (n : Nat) :
    ¬ Excessive list n := by
  rintro ⟨t, ht, excess⟩
  exact (h t ht).not_excess n excess

theorem answers_ofList (list : Option Text) (defaults : Pragma Int) :
    Answers (Excessive list) (ofList list defaults) := by
  have read : Answers (Excessive list) (Settings.ofList (list.getD [])) := by
    unfold Settings.ofList
    split
    · exact .ok _
    · exact Settings.answers_items {} _
  apply read.bind
  intro r
  cases r with
  | none => exact .ok none
  | some s => exact .ok (s.apply defaults)

theorem answers_ownSequence (ts : List Text) :
    Answers (fun n => ∃ t ∈ ts, Settings.Excess t n) (ownSequence ts) := by
  induction ts with
  | nil => exact .ok _
  | cons t rest ih =>
    have later : Answers (fun n => ∃ t' ∈ t :: rest, Settings.Excess t' n) (ownSequence rest) := by
      apply ih.mono
      rintro n ⟨t', ht', excess⟩
      exact ⟨t', List.mem_cons_of_mem t ht', excess⟩
    unfold ownSequence
    split
    · rename_i key value parted
      split
      · rename_i named
        apply (Settings.answers_number? value).mono
        intro n excess
        exact ⟨t, List.mem_cons_self, key, value, parted, by rw [named]; decide, excess⟩
      · exact later
    · exact later

theorem answers_sequenceOf (c : Comment) : Answers (Excessive c.value) (sequenceOf c) := by
  apply (answers_ofList c.value default).bind
  intro r
  cases r with
  | none => exact answers_ownSequence _
  | some a => exact .ok (some a.sequence)

theorem Legible.exists_ofList {list : Option Text} (h : Legible list) :
    ∃ r, ofList list = .ok r :=
  (answers_ofList list default).exists_ok h.not_excessive

theorem Legible.exists_sequenceOf {list : Option Text} (h : Legible list) :
    ∃ q, sequenceOf ⟨0, 0, list⟩ = .ok q :=
  (answers_sequenceOf ⟨0, 0, list⟩).exists_ok h.not_excessive

/-- An annotation that can be written down and read again. -/
structure Sound (a : Pragma Int) : Prop where
  counted : 0 ≤ a.sequence
  short : Decimal.Short a.sequence
  likely : 0 ≤ a.noise.probability ∧ a.noise.probability ≤ 100
  delays : ∀ low high, a.noise.action = .sleep low high →
    0 ≤ low ∧ low ≤ high ∧ Decimal.Short high

instance (a : Pragma Int) : Decidable a.Sound :=
  decidable_of_iff (0 ≤ a.sequence ∧ Decimal.Short a.sequence ∧
      (0 ≤ a.noise.probability ∧ a.noise.probability ≤ 100) ∧
      (a.noise.kind = .sleep → 0 ≤ a.noise.low ∧ a.noise.low ≤ a.noise.high ∧
        Decimal.Short a.noise.high)) <| by
    obtain ⟨sequence, probability, action⟩ := a
    constructor
    · rintro ⟨counted, short, likely, delays⟩
      refine ⟨counted, short, likely, ?_⟩
      rintro low high rfl
      exact delays rfl
    · intro h
      refine ⟨h.counted, h.short, h.likely, fun kind => ?_⟩
      cases action with
      | sleep low high => exact h.delays low high rfl
      | yield => cases kind

section Writing

variable {α β : Type} [Amount α]

theorem write_cases (a : Pragma α) : a.write = .ok a.render ∨ a.write = .error .unwritable := by
  unfold write
  split
  · exact .inl rfl
  · exact .inr rfl

theorem write_eq_ok {a : Pragma α} {t : Text} (h : a.write = .ok t) : t = a.render := by
  rcases a.write_cases with written | refused
  · exact Except.ok.inj (h.symm.trans written)
  · rw [refused] at h
    cases h

theorem write_then (a : Pragma α) (f : Text → β) :
    (a.write >>= fun t => pure (f t)) = a.write.map fun _ => f a.render := by
  rcases a.write_cases with written | refused
  · rw [written]
    rfl
  · rw [refused]
    rfl

theorem Sound.percent {a : Pragma Int} (sound : a.Sound) : Decimal.Short a.noise.probability :=
  (by decide : Decimal.Short 100).of_le sound.likely.1 sound.likely.2

theorem Sound.write {a : Pragma Int} (sound : a.Sound) : a.write = .ok a.render := by
  have noise : a.noise.short = true := by
    unfold Noise.short
    rw [Amount.short_int.mpr sound.percent]
    cases action : a.noise.action with
    | yield => rfl
    | sleep low high =>
      obtain ⟨positive, order, limit⟩ := sound.delays low high action
      simp [Amount.short_int.mpr limit, Amount.short_int.mpr (limit.of_le positive order)]
  unfold Pragma.write
  rw [Decimal.isShort_iff.mpr sound.short, noise]
  rfl

end Writing

def written (a : Pragma Int) : List Text :=
  ("sequence = ".toList ++ Decimal.ofInt a.sequence) :: (match a.noise.action with
    | .yield => [" type = \"yield\"".toList]
    | .sleep low high => [" type = \"sleep\"".toList, " low = ".toList ++ Decimal.ofInt low,
        " high = ".toList ++ Decimal.ofInt high]) ++
    [" probability = ".toList ++ Decimal.ofInt a.noise.probability]

def writtenList (a : Pragma Int) : Text := Text.join [','] a.written

theorem render_eq (a : Pragma Int) :
    a.render = "/* @PreemptionPoint (".toList ++ a.writtenList ++ ") */".toList := by
  unfold render writtenList written
  cases a.noise.action with
  | yield => simp [Text.join, List.intercalate, Amount.text]
  | sleep low high => simp [Text.join, List.intercalate, Amount.text]

theorem items_written {a : Pragma Int} (sound : a.Sound) :
    Settings.items {} a.written = .ok (some {
      sequence := some a.sequence
      kind := some a.noise.kind
      probability := some a.noise.probability
      low := match a.noise.action with
        | .yield => none
        | .sleep low _ => some low
      high := match a.noise.action with
        | .yield => none
        | .sleep _ high => some high }) := by
  have percent := sound.percent
  obtain ⟨counted, short, likely, delays⟩ := sound
  have first : Settings.item {} ("sequence = ".toList ++ Decimal.ofInt a.sequence) =
      .ok (some { sequence := some a.sequence }) :=
    Settings.item_number {} (k := .sequence) (fun _ => rfl) "sequence ".toList (by decide +kernel)
      (by decide +kernel) (by decide +kernel) counted short
  have last : ∀ s, Settings.item s (" probability = ".toList ++ Decimal.ofInt a.noise.probability) =
      .ok (some { s with probability := some a.noise.probability }) := fun s =>
    Settings.item_number s (k := .probability) (fun _ => rfl) " probability ".toList
      (by decide +kernel) (by decide +kernel) (by decide +kernel) likely.1 percent
  unfold written Noise.kind
  cases action : a.noise.action with
  | yield =>
    have kind : ∀ s, Settings.item s " type = \"yield\"".toList =
        .ok (some { s with kind := some .yield }) := fun _ => rfl
    dsimp only [List.cons_append, List.nil_append]
    rw [Settings.items_cons first, Settings.items_cons (kind _), Settings.items_cons (last _)]
    rfl
  | sleep low high =>
    obtain ⟨positive, order, limit⟩ := delays low high action
    have kind : ∀ s, Settings.item s " type = \"sleep\"".toList =
        .ok (some { s with kind := some .sleep }) := fun _ => rfl
    have lowRead : ∀ s, Settings.item s (" low = ".toList ++ Decimal.ofInt low) =
        .ok (some { s with low := some low }) := fun s =>
      Settings.item_number s (k := .low) (fun _ => rfl) " low ".toList (by decide +kernel)
        (by decide +kernel) (by decide +kernel) positive (limit.of_le positive order)
    have highRead : ∀ s, Settings.item s (" high = ".toList ++ Decimal.ofInt high) =
        .ok (some { s with high := some high }) := fun s =>
      Settings.item_number s (k := .high) (fun _ => rfl) " high ".toList (by decide +kernel)
        (by decide +kernel) (by decide +kernel) (Int.le_trans positive order) limit
    dsimp only [List.cons_append, List.nil_append]
    rw [Settings.items_cons first, Settings.items_cons (kind _), Settings.items_cons (lowRead _),
      Settings.items_cons (highRead _), Settings.items_cons (last _)]
    rfl

def letters : Text := "sequence = type\"sleepyieldlowhighprobability-".toList

theorem mem_numbered {front : Text} (plain : front.all (· ∈ letters) = true) {n : Int} {c : Char}
    (h : c ∈ front ++ Decimal.ofInt n) : c.isDigit ∨ c ∈ letters := by
  rcases List.mem_append.mp h with h | h
  · exact .inr (Text.subset_of_all plain h)
  · rcases Decimal.mem_ofInt h with rfl | digit
    · exact .inr (by decide)
    · exact .inl digit

theorem mem_written {a : Pragma Int} {t : Text} {c : Char} (ht : t ∈ a.written) (hc : c ∈ t) :
    c.isDigit ∨ c ∈ letters := by
  have yields : " type = \"yield\"".toList ⊆ letters := Text.subset_of_all (by decide)
  have sleeps : " type = \"sleep\"".toList ⊆ letters := Text.subset_of_all (by decide)
  unfold written at ht
  split at ht
  · simp only [List.cons_append, List.nil_append, List.mem_cons, List.not_mem_nil, or_false] at ht
    rcases ht with rfl | rfl | rfl
    · exact mem_numbered (by decide) hc
    · exact .inr (yields hc)
    · exact mem_numbered (by decide) hc
  · simp only [List.cons_append, List.nil_append, List.mem_cons, List.not_mem_nil, or_false] at ht
    rcases ht with rfl | rfl | rfl | rfl | rfl
    · exact mem_numbered (by decide) hc
    · exact .inr (sleeps hc)
    · exact mem_numbered (by decide) hc
    · exact mem_numbered (by decide) hc
    · exact mem_numbered (by decide) hc

theorem mem_writtenList {a : Pragma Int} {c : Char} (h : c ∈ a.writtenList) :
    c.isDigit ∨ c ∈ ',' :: letters := by
  rcases Text.mem_join h with comma | ⟨t, ht, hc⟩
  · exact .inr (List.mem_singleton.mp comma ▸ List.mem_cons_self)
  · exact (mem_written ht hc).imp_right (List.mem_cons_of_mem ',')

theorem mem_render {a : Pragma Int} {c : Char} (h : c ∈ a.render) :
    c.isDigit ∨ c ∈ "/* @PreemptionPoint (),".toList ++ letters := by
  have before : "/* @PreemptionPoint (".toList ⊆ "/* @PreemptionPoint (),".toList ++ letters :=
    Text.subset_of_all (by decide)
  have list : ',' :: letters ⊆ "/* @PreemptionPoint (),".toList ++ letters :=
    Text.subset_of_all (by decide)
  have behind : ") */".toList ⊆ "/* @PreemptionPoint (),".toList ++ letters :=
    Text.subset_of_all (by decide)
  rw [render_eq] at h
  rcases List.mem_append.mp h with mem | mem
  · rcases List.mem_append.mp mem with mem | mem
    · exact .inr (before mem)
    · exact (mem_writtenList mem).imp_right (list ·)
  · exact .inr (behind mem)

theorem ofList_writtenList {a : Pragma Int} (sound : a.Sound)
    (defaults : Pragma Int := default) : ofList (some a.writtenList) defaults = .ok (some a) := by
  have cut : Text.splitOn [','] a.writtenList = a.written := by
    refine (Text.Separates.char ',').splitOn_join (by simp [written]) fun t ht inside => ?_
    exact absurd (mem_written ht (inside.subset List.mem_cons_self)) (by decide)
  have some : a.writtenList.isEmpty = false := by
    have mem : 's' ∈ a.writtenList :=
      Text.mem_join_of_mem [','] (List.mem_cons_self : _ ∈ a.written) (by simp)
    exact List.isEmpty_eq_false_iff.mpr (List.ne_nil_of_mem mem)
  have read := items_written sound
  obtain ⟨sequence, ⟨probability, action⟩⟩ := a
  rw [ofList, Option.getD_some, Settings.ofList, some, cut]
  simp only [Bool.false_eq_true, if_false, read, bind, Except.bind]
  have likely : ¬ 100 < probability := Int.not_lt.mpr sound.likely.2
  cases action with
  | yield =>
    simp [Settings.apply, Noise.make, Noise.kind, likely]
    rfl
  | sleep low high =>
    have order : ¬ high < low := Int.not_lt.mpr (sound.delays low high rfl).2.1
    simp [Settings.apply, Noise.make, Noise.kind, Noise.low, Noise.high, likely, order]
    rfl

end Pragma

end SchedulingNoise
