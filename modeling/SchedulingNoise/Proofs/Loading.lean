import SchedulingNoise.Config.File
import SchedulingNoise.Proofs.Discovery

/-! Configurations that were loaded from files, one after the other. Every value is of its kind
and in its range after every call, and a value that is refused changes nothing. Two values that
are ordered are checked against the defaults and not against what was loaded before, so they stay
in order exactly as long as a value for one of them alone fits the other as it stands. -/
namespace SchedulingNoise

namespace Members

theorem keys_set (ms : Members) (name : RawText) (v : Json) :
    (set ms name v).map (·.1) =
      if name ∈ ms.map (·.1) then ms.map (·.1) else ms.map (·.1) ++ [name] := by
  induction ms with
  | nil => rfl
  | cons m rest ih =>
    unfold set
    by_cases here : m.1 = name
    · simp [here]
    · have there : ¬ name = m.1 := fun eq => here eq.symm
      simp only [if_neg here, List.map_cons, List.mem_cons, there, false_or, ih]
      split <;> rfl

theorem nodup_update {old : Members} (distinct : (old.map (·.1)).Nodup) (new : Members) :
    ((update old new).map (·.1)).Nodup := by
  induction new generalizing old with
  | nil => exact distinct
  | cons m rest ih =>
    apply ih
    rw [keys_set]
    split
    · exact distinct
    · rename_i absent
      rw [List.nodup_append]
      refine ⟨distinct, by simp, fun a ha b hb eq => ?_⟩
      exact absent (List.mem_singleton.mp hb ▸ eq ▸ ha)

end Members

namespace Json

theorem readNumber_ne_object {t rest : Text} {ms : Members} :
    readNumber t ≠ .ok (.object ms, rest) := by
  intro h
  unfold readNumber at h
  dsimp only at h
  split at h
  · cases h
  · split at h
    · split at h
      · cases h
      · cases h
    · cases h

theorem readScalar_ne_object {t rest : Text} {ms : Members} :
    readScalar t ≠ .ok (.object ms, rest) := by
  intro h
  unfold readScalar at h
  split at h
  · rename_i w v found
    have mem := List.mem_of_find?_eq_some found
    have plain : ∀ w ∈ words, ∀ ms, w.2 ≠ .object ms := by simp [words]
    simp only [Except.ok.injEq, Prod.mk.injEq] at h
    exact plain _ mem ms h.1
  · exact readNumber_ne_object h

theorem distinct_of_readValue {most fuel depth : Nat} {t rest : Text} {ms : Members}
    (h : readValue most fuel depth t = .ok (.object ms, rest)) : (ms.map (·.1)).Nodup := by
  unfold readValue at h
  split at h
  · cases h
  · cases h
  · split at h
    · obtain ⟨_, _, same⟩ := bind_eq_ok.mp h
      cases same
    · split at h
      · split at h
        · cases h
        · split at h
          · cases h
          · obtain ⟨_, _, same⟩ := bind_eq_ok.mp h
            cases same
      · split at h
        · split at h
          · cases h
          · split at h
            · cases h
              exact List.nodup_nil
            · obtain ⟨_, _, same⟩ := bind_eq_ok.mp h
              cases same
              have empty : (([] : Members).map (·.1)).Nodup := List.nodup_nil
              exact Members.nodup_update empty _
        · exact absurd h readScalar_ne_object

theorem distinct_of_read {t : Text} {levels : Levels} {ms : Members}
    (h : read t levels = .ok (.object ms)) : (ms.map (·.1)).Nodup := by
  have whole : readWhole levels.most t = .ok (.object ms) := by
    unfold read at h
    split at h
    · cases h
    · exact h
  unfold readWhole at whole
  split at whole
  · cases whole
  · obtain ⟨⟨v, rest⟩, value, last⟩ := bind_eq_ok.mp whole
    dsimp only at last
    split at last
    · cases last
      exact distinct_of_readValue value
    · cases last

end Json

namespace Config
open Workspace

def documented : List (Text × Int × Int) :=
  [(sleepKey, 0, 100), (kindKey .mutualExclusion, 0, 100), (kindKey .barrier, 0, 100),
    (kindKey .latch, 0, 100), (kindKey .semaphore, 0, 100), (delayLowKey, 0, 600000),
    (delayHighKey, 0, 600000), (lowerKey, 0, 100), (upperKey, 0, 100), (maxLogsKey, 1, 100)]

def InRange (low high : Int) (v : Option Json) : Prop :=
  ∃ n, v = some (.int n) ∧ low ≤ n ∧ n ≤ high

/-- Every value is of its kind and in its range. -/
structure Sound (c : Config) : Prop where
  numbers : ∀ key low high, (key, low, high) ∈ documented → InRange low high (c.get? key)
  extensions : ∃ items, c.get? extensionsKey = some (.list items) ∧
    ∀ v ∈ items, ∃ rest, v = .str (.char '.' :: rest)
  suffix : ∃ x rest, c.get? suffixKey = some (.str (.char '.' :: x :: rest))
  logFolder : ∃ t, c.get? logFolderKey = some (.str t)

def Ordered (c : Config) (lowKey highKey : Text) : Prop :=
  ∃ low high, c.get? lowKey = some (.int low) ∧ c.get? highKey = some (.int high) ∧ low ≤ high

/-- A value that gives one of two keys alone is in order with the other as it stands. -/
def Meets (c : Config) (ms : Members) (lowKey highKey : Text) : Prop :=
  (∀ low high, Members.get? ms lowKey = some (.int low) → Members.get? ms highKey = none →
    c.get? highKey = some (.int high) → low ≤ high) ∧
  (∀ low high, Members.get? ms highKey = some (.int high) → Members.get? ms lowKey = none →
    c.get? lowKey = some (.int low) → low ≤ high)

theorem get?_update {ms : Members} (distinct : (ms.map (·.1)).Nodup) (c : Config)
    (key : Text) : (c.update ms).get? key = (Members.get? ms key).or (c.get? key) :=
  Members.get?_update distinct c.members key

theorem sound_default : default.Sound where
  numbers := by
    intro key low high h
    have all : ∀ e ∈ documented, ∃ n, Members.get? default.members e.1 = some (.int n) ∧
        e.2.1 ≤ n ∧ n ≤ e.2.2 := by
      simp only [documented, List.forall_mem_cons]
      refine ⟨⟨50, rfl, by decide⟩, ⟨50, rfl, by decide⟩, ⟨50, rfl, by decide⟩,
        ⟨50, rfl, by decide⟩, ⟨50, rfl, by decide⟩, ⟨100, rfl, by decide⟩,
        ⟨1000, rfl, by decide⟩, ⟨0, rfl, by decide⟩,
        ⟨100, rfl, by decide⟩, ⟨5, rfl, by decide⟩, by simp⟩
    exact all _ h
  extensions := ⟨[.text ".java".toList], rfl, fun v hv => ⟨_, List.mem_singleton.mp hv⟩⟩
  suffix := ⟨.char 'c', _, rfl⟩
  logFolder := ⟨_, rfl⟩

theorem documented_pair {lowKey highKey : Text} (pair : (lowKey, highKey) ∈ orderedPairs) :
    (∃ a b, (lowKey, a, b) ∈ documented) ∧ ∃ a b, (highKey, a, b) ∈ documented := by
  rcases List.mem_cons.mp pair with same | pair
  · cases same
    exact ⟨⟨0, 600000, by simp [documented]⟩, 0, 600000, by simp [documented]⟩
  · cases List.mem_singleton.mp pair
    exact ⟨⟨0, 100, by simp [documented]⟩, 0, 100, by simp [documented]⟩

section Accepted

variable {ms : Members} (accepted : complaints (.object ms) = [])
include accepted

theorem checks_of_accepted :
    (∀ f ∈ numberFields, checkNumber ms f = []) ∧ (∀ keys ∈ orderedPairs, checkPair ms keys = []) ∧
      checkExtensions ms = [] ∧ checkSuffix ms = [] ∧ checkLogFolder ms = [] := by
  simp only [complaints, List.append_eq_nil_iff, List.flatMap_eq_nil_iff] at accepted
  obtain ⟨⟨⟨⟨numbers, pairs⟩, extensions⟩, suffix⟩, logFolder⟩ := accepted
  exact ⟨numbers, pairs, extensions, suffix, logFolder⟩

theorem inRange_of_accepted {key : Text} {low high : Int} (h : (key, low, high) ∈ documented)
    {v : Json} (given : Members.get? ms key = some v) : InRange low high (some v) := by
  have listed : ∀ e ∈ documented, ∃ f ∈ numberFields,
      f.key = e.1 ∧ f.low = e.2.1 ∧ f.high = e.2.2 := by decide
  obtain ⟨f, mem, rfl, rfl, rfl⟩ := listed _ h
  have checked := (checks_of_accepted accepted).1 f mem
  unfold checkNumber at checked
  rw [given] at checked
  split at checked
  · rename_i none
    cases none
  · rename_i n found
    cases found
    split at checked
    · cases checked
    · rename_i inside
      simp only [Bool.or_eq_true, decide_eq_true_eq, not_or, Int.not_lt] at inside
      exact ⟨n, rfl, inside.1, inside.2⟩
  · cases checked

theorem sound_update (distinct : (ms.map (·.1)).Nodup) {c : Config} (sound : c.Sound) :
    (c.update ms).Sound := by
  obtain ⟨_, _, extensions, suffix, logFolder⟩ := checks_of_accepted accepted
  refine ⟨fun key low high h => ?_, ?_, ?_, ?_⟩
  · rw [get?_update distinct]
    cases given : Members.get? ms key with
    | none => exact sound.numbers key low high h
    | some v => exact inRange_of_accepted accepted h given
  · rw [get?_update distinct]
    unfold checkExtensions at extensions
    split at extensions
    · rename_i none
      rw [none]
      exact sound.extensions
    · rename_i items given
      rw [given]
      split at extensions
      · cases extensions
      · split at extensions
        · cases extensions
        · rename_i dots
          simp only [Bool.not_eq_true', Bool.not_eq_false, List.all_eq_true] at dots
          refine ⟨items, rfl, fun v hv => ?_⟩
          have dotted := dots v hv
          unfold startsWithDot at dotted
          split at dotted
          · exact ⟨_, rfl⟩
          · cases dotted
    · cases extensions
  · rw [get?_update distinct]
    unfold checkSuffix at suffix
    split at suffix
    · rename_i none
      rw [none]
      exact sound.suffix
    · rename_i x rest given
      rw [given]
      exact ⟨x, rest, rfl⟩
    · cases suffix
  · rw [get?_update distinct]
    unfold checkLogFolder at logFolder
    split at logFolder
    · rename_i none
      rw [none]
      exact sound.logFolder
    · rename_i t given
      rw [given]
      exact ⟨t, rfl⟩
    · cases logFolder

theorem ordered_default_update (distinct : (ms.map (·.1)).Nodup) {lowKey highKey : Text}
    (pair : (lowKey, highKey) ∈ orderedPairs) : (default.update ms).Ordered lowKey highKey := by
  obtain ⟨⟨_, _, first⟩, _, _, second⟩ := documented_pair pair
  have sound := sound_update accepted distinct sound_default
  obtain ⟨low, isLow, _⟩ := sound.numbers _ _ _ first
  obtain ⟨high, isHigh, _⟩ := sound.numbers _ _ _ second
  refine ⟨low, high, isLow, isHigh, ?_⟩
  have checked := (checks_of_accepted accepted).2.1 _ pair
  simp only [checkPair, Config.get, isLow, isHigh, Option.getD_some, integer?] at checked
  split at checked
  · cases checked
  · rename_i inOrder
    exact Int.not_lt.mp inOrder

omit accepted in
theorem ordered_default {lowKey highKey : Text} (pair : (lowKey, highKey) ∈ orderedPairs) :
    default.Ordered lowKey highKey := by
  have plain : complaints (.object []) = [] := rfl
  exact ordered_default_update plain List.nodup_nil pair

theorem ordered_update_iff (distinct : (ms.map (·.1)).Nodup) {c : Config} (sound : c.Sound)
    {lowKey highKey : Text} (pair : (lowKey, highKey) ∈ orderedPairs)
    (ordered : c.Ordered lowKey highKey) :
    (c.update ms).Ordered lowKey highKey ↔ c.Meets ms lowKey highKey := by
  obtain ⟨⟨_, _, first⟩, _, _, second⟩ := documented_pair pair
  obtain ⟨oldLow, isLow, _⟩ := sound.numbers _ _ _ first
  obtain ⟨oldHigh, isHigh, _⟩ := sound.numbers _ _ _ second
  have merged := ordered_default_update accepted distinct pair
  unfold Ordered at merged ordered ⊢
  rw [get?_update distinct, get?_update distinct] at merged ⊢
  cases low : Members.get? ms lowKey with
  | none =>
    cases high : Members.get? ms highKey with
    | none =>
      simp only [Option.none_or, Meets, low, high, reduceCtorEq, false_implies, implies_true,
        and_self, iff_true]
      exact ordered
    | some v =>
      obtain ⟨n, isInt, _⟩ := inRange_of_accepted accepted second high
      cases isInt
      simp [Meets, low, high, isLow]
  | some v =>
    obtain ⟨n, isInt, _⟩ := inRange_of_accepted accepted first low
    cases isInt
    cases high : Members.get? ms highKey with
    | none => simp [Meets, low, high, isHigh]
    | some v =>
      simp only [low, high, Option.some_or] at merged
      simp only [Option.some_or, Meets, low, high, reduceCtorEq, false_implies, implies_true,
        and_self, iff_true]
      exact merged

theorem meets_default (distinct : (ms.map (·.1)).Nodup) {lowKey highKey : Text}
    (pair : (lowKey, highKey) ∈ orderedPairs) : default.Meets ms lowKey highKey := by
  rw [← ordered_update_iff accepted distinct sound_default pair (ordered_default pair)]
  exact ordered_default_update accepted distinct pair

end Accepted

section File

variable {c c' : Config} {file : Path} {w w' : Workspace}

theorem object_of_accepted {v : Json} (accepted : complaints v = []) : ∃ ms, v = .object ms := by
  cases v with
  | object ms => exact ⟨ms, rfl⟩
  | _ => cases accepted

theorem eq_of_reported {report : Act Unit}
    (h : (do report; pure c : Act Config) w = .ok c' w') : c' = c := by
  cases told : report w with
  | ok _ w₁ =>
    rw [bind_ok told] at h
    cases h
    rfl
  | error f w₁ =>
    rw [bind_error told] at h
    cases h

theorem accept_accepted {ms : Members} (accepted : complaints (.object ms) = []) :
    c.accept file (.object ms) w = .ok (c.update ms) w := by
  simp only [accept, accepted]
  rfl

theorem loadText_eq (c : Config) (file : Path) (t : Text) (w : Workspace) :
    c.loadText file t w = match Json.read t w.levels with
      | .ok v => c.accept file v w
      | .error (.malformed problem offset) =>
        (do reportMalformed file t problem offset; pure c : Act Config) w
      | .error (.digitLimit digits) => .error (.tooManyDigits digits) w
      | .error (.tooDeep nest) => .error (.tooDeep nest) w := by
  unfold loadText
  rw [bind_ok (get_eq w)]
  cases Json.read t w.levels with
  | ok v => rfl
  | error e => cases e <;> rfl

theorem eq_of_refused {v : Json} (refused : complaints v ≠ [])
    (h : c.accept file v w = .ok c' w') : c' = c := by
  cases found : complaints v with
  | nil => exact absurd found refused
  | cons e rest =>
    simp only [accept, found] at h
    exact eq_of_reported h

end File

end Config

structure Loading where
  file : Path
  workspace : Workspace

namespace Loading
open Workspace

/-- The text of the file is that of a value. -/
def Gives (l : Loading) (v : Json) : Prop :=
  ∃ bs w t, readBytes l.file l.workspace = .ok bs w ∧ Utf8.decode bs = .ok t ∧
    Json.read t.unixLines w.levels = .ok v

/-- The configuration after a call. One that fails leaves it as it was. -/
def after (c : Config) (l : Loading) : Config :=
  match c.load l.file l.workspace with
  | .ok c' _ => c'
  | .error _ _ => c

theorem load_gives {l : Loading} {v : Json} (gives : l.Gives v) (c : Config) :
    ∃ w, c.load l.file l.workspace = c.accept l.file v w := by
  obtain ⟨bs, w, t, read, decoded, value⟩ := gives
  have fetched : (some <$> readBytes l.file) l.workspace = .ok (some bs) w := by
    simp only [Functor.map, EStateM.map, read]
  refine ⟨w, ?_⟩
  unfold Config.load
  rw [bind_ok (orOnRefusal_ok fetched _)]
  simp only [decoded, Config.loadText_eq, value]

theorem after_of_refused {l : Loading} {v : Json} (gives : l.Gives v)
    (refused : Config.complaints v ≠ []) (c : Config) : l.after c = c := by
  obtain ⟨w, load⟩ := load_gives gives c
  unfold after
  split
  · rename_i c' w' done
    exact Config.eq_of_refused refused (load ▸ done)
  · rfl

theorem after_of_accepted {l : Loading} {ms : Members} (gives : l.Gives (.object ms))
    (accepted : Config.complaints (.object ms) = []) (c : Config) : l.after c = c.update ms := by
  obtain ⟨w, load⟩ := load_gives gives c
  unfold after
  rw [load, Config.accept_accepted accepted]

theorem after_of_no_value {l : Loading} (none : ∀ v, ¬ l.Gives v) (c : Config) :
    l.after c = c := by
  unfold after
  split
  · rename_i c' w' done
    unfold Config.load at done
    cases read : readBytes l.file l.workspace with
    | error f w =>
      have failed : (some <$> readBytes l.file) l.workspace = .error f w := by
        simp only [Functor.map, EStateM.map, read]
      unfold orOnRefusal at done
      rw [bind_assoc, bind_ok (attempt_error failed)] at done
      dsimp only at done
      split at done
      · cases told : Config.reportUnreadable l.file f w with
        | ok _ w₁ =>
          rw [bind_assoc, bind_ok told] at done
          cases done
          rfl
        | error g w₁ =>
          rw [bind_assoc, bind_error told] at done
          cases done
      · cases done
    | ok bs w =>
      have fetched : (some <$> readBytes l.file) l.workspace = .ok (some bs) w := by
        simp only [Functor.map, EStateM.map, read]
      rw [bind_ok (orOnRefusal_ok fetched _)] at done
      dsimp only at done
      cases decoded : Utf8.decode bs with
      | error r =>
        rw [decoded] at done
        cases done
      | ok t =>
        simp only [decoded, Config.loadText_eq] at done
        cases value : Json.read t.unixLines w.levels with
        | ok v => exact absurd ⟨bs, w, t, read, decoded, value⟩ (none v)
        | error e =>
          rw [value] at done
          cases e with
          | malformed problem offset => exact Config.eq_of_reported done
          | digitLimit digits => cases done
          | tooDeep nest => cases done
  · rfl

theorem after_cases (l : Loading) (c : Config) : l.after c = c ∨ ∃ ms, l.Gives (.object ms) ∧
    Config.complaints (.object ms) = [] ∧ l.after c = c.update ms := by
  by_cases gives : ∃ v, l.Gives v
  · obtain ⟨v, gives⟩ := gives
    by_cases accepted : Config.complaints v = []
    · obtain ⟨ms, rfl⟩ := Config.object_of_accepted accepted
      exact .inr ⟨ms, gives, accepted, after_of_accepted gives accepted c⟩
    · exact .inl (after_of_refused gives accepted c)
  · exact .inl (after_of_no_value (not_exists.mp gives) c)

theorem Gives.distinct {l : Loading} {ms : Members} (gives : l.Gives (.object ms)) :
    (ms.map (·.1)).Nodup := by
  obtain ⟨_, _, _, _, _, value⟩ := gives
  exact Json.distinct_of_read value

theorem sound_after (l : Loading) {c : Config} (sound : c.Sound) : (l.after c).Sound := by
  obtain same | ⟨ms, gives, accepted, now⟩ := after_cases l c
  · rw [same]
    exact sound
  · rw [now]
    exact Config.sound_update accepted gives.distinct sound

/-- A value that the file gives and that is accepted is in order with what it meets. -/
def KeepsOrder (l : Loading) (c : Config) (lowKey highKey : Text) : Prop :=
  ∀ ms, l.Gives (.object ms) → Config.complaints (.object ms) = [] → c.Meets ms lowKey highKey

theorem ordered_after (l : Loading) {c : Config} (sound : c.Sound) {lowKey highKey : Text}
    (pair : (lowKey, highKey) ∈ Config.orderedPairs) (ordered : c.Ordered lowKey highKey)
    (keeps : l.KeepsOrder c lowKey highKey) : (l.after c).Ordered lowKey highKey := by
  obtain same | ⟨ms, gives, accepted, now⟩ := after_cases l c
  · rw [same]
    exact ordered
  · rw [now, Config.ordered_update_iff accepted gives.distinct sound pair ordered]
    exact keeps ms gives accepted

def loaded (ls : List Loading) : Config := ls.foldl after .default

theorem loaded_snoc (ls : List Loading) (l : Loading) :
    loaded (ls ++ [l]) = l.after (loaded ls) := by
  simp [loaded]

theorem sound_loaded (ls : List Loading) : (loaded ls).Sound := by
  induction ls using List.reverseRecOn with
  | nil => exact Config.sound_default
  | append_singleton ls l ih =>
    rw [loaded_snoc]
    exact sound_after l ih

theorem ordered_loaded {ls : List Loading} {lowKey highKey : Text}
    (pair : (lowKey, highKey) ∈ Config.orderedPairs)
    (keeps : ∀ before l rest, ls = before ++ l :: rest →
      l.KeepsOrder (loaded before) lowKey highKey) :
    (loaded ls).Ordered lowKey highKey := by
  induction ls using List.reverseRecOn with
  | nil => exact Config.ordered_default pair
  | append_singleton ls l ih =>
    rw [loaded_snoc]
    apply ordered_after l (sound_loaded ls) pair
    · apply ih
      intro before l' rest eq
      exact keeps before l' (rest ++ [l]) (by simp [eq])
    · exact keeps ls l [] rfl

/-- Whatever files are loaded, every value keeps its kind and its range. A call changes the
configuration only by an accepted value. Each of the two pairs stays in order as long as a value
that gives one of the two alone fits the other as it stands, and only so long. -/
theorem loaded_configuration_sound (ls : List Loading) :
    (loaded ls).Sound ∧
    (∀ pair ∈ [(Config.delayLowKey, Config.delayHighKey), (Config.lowerKey, Config.upperKey)],
      (∀ before l rest, ls = before ++ l :: rest → l.KeepsOrder (loaded before) pair.1 pair.2) →
        (loaded ls).Ordered pair.1 pair.2) ∧
    (∀ l ms, l.Gives (.object ms) → Config.complaints (.object ms) = [] →
      loaded (ls ++ [l]) = (loaded ls).update ms ∧
      ∀ pair ∈ [(Config.delayLowKey, Config.delayHighKey), (Config.lowerKey, Config.upperKey)],
        (loaded ls).Ordered pair.1 pair.2 →
          ((loaded (ls ++ [l])).Ordered pair.1 pair.2 ↔
            (loaded ls).Meets ms pair.1 pair.2)) ∧
    (∀ l, (∀ v, l.Gives v → Config.complaints v ≠ []) → loaded (ls ++ [l]) = loaded ls) := by
  refine ⟨sound_loaded ls, fun pair mem keeps => ordered_loaded mem keeps,
    fun l ms gives accepted => ?_, fun l refused => ?_⟩
  · have now : loaded (ls ++ [l]) = (loaded ls).update ms := by
      rw [loaded_snoc, after_of_accepted gives accepted]
    refine ⟨now, fun pair mem ordered => ?_⟩
    rw [now]
    exact Config.ordered_update_iff accepted gives.distinct (sound_loaded ls) mem ordered
  · rw [loaded_snoc]
    obtain same | ⟨ms, gives, accepted, _⟩ := after_cases l (loaded ls)
    · exact same
    · exact absurd accepted (refused _ gives)

/-- One file sets the upper delay, and two others the lower. -/
def delayFiles : Workspace where
  disk := { entries := [
    (["high".toList], .file (Utf8.encode "\x7b\"delay_high\": 200\x7d".toList)),
    (["below".toList], .file (Utf8.encode "\x7b\"delay_low\": 150\x7d".toList)),
    (["low".toList], .file (Utf8.encode "\x7b\"delay_low\": 500\x7d".toList))] }
  folder := []
  clock := ⟨"20260101".toList, 0⟩
  epoch := 0

theorem delayFiles_in_order :
    (loaded [⟨.ofText "/high".toList, delayFiles⟩, ⟨.ofText "/below".toList, delayFiles⟩]).Ordered
      Config.delayLowKey Config.delayHighKey := by
  refine (loaded_configuration_sound _).2.1 (Config.delayLowKey, Config.delayHighKey)
    (List.mem_cons_self ..) fun before l rest eq ms gives accepted => ?_
  match before, eq with
  | [], _ => exact Config.meets_default accepted gives.distinct (List.mem_cons_self ..)
  | [_], eq =>
    cases eq
    -- What the file gives is read off the defaults that it updates.
    have given : ([Config.delayLowKey, Config.delayHighKey].map fun key => Config.integer?
        ((after .default ⟨.ofText "/below".toList, delayFiles⟩).get key)) =
          [some 150, some 1000] := by decide +kernel
    have before : ([Config.delayLowKey, Config.delayHighKey].map fun key => Config.integer?
        ((loaded [⟨.ofText "/high".toList, delayFiles⟩]).get key)) = [some 100, some 200] := by
      decide +kernel
    rw [after_of_accepted gives accepted] at given
    simp only [Config.get, Config.get?_update gives.distinct, List.map_cons, List.map_nil,
      List.cons.injEq, and_true] at given before
    refine ⟨fun low high isLow _ isHigh => ?_, fun low high isHigh _ isLow => ?_⟩
    · rw [isLow] at given
      rw [isHigh] at before
      have low150 : low = 150 := Option.some.inj given.1
      have high200 : high = 200 := Option.some.inj before.2
      omega
    · rw [isHigh] at given
      rw [isLow] at before
      have high1000 : high = 1000 := Option.some.inj given.2
      have low100 : low = 100 := Option.some.inj before.1
      omega
  | _ :: _ :: _, eq => simp at eq

/-- The lower delay is checked against the default of the upper one. -/
theorem delayFiles_out_of_order :
    ¬ (loaded [⟨.ofText "/high".toList, delayFiles⟩, ⟨.ofText "/low".toList, delayFiles⟩]).Ordered
      Config.delayLowKey Config.delayHighKey := by
  have delays : ([Config.delayLowKey, Config.delayHighKey].map fun key => Config.integer? ((loaded
      [⟨.ofText "/high".toList, delayFiles⟩, ⟨.ofText "/low".toList, delayFiles⟩]).get key)) =
        [some 500, some 200] := by
    decide +kernel
  rintro ⟨low, high, isLow, isHigh, inOrder⟩
  simp only [List.map_cons, List.map_nil, Config.get, isLow, isHigh, Option.getD_some,
    Config.integer?, List.cons.injEq, Option.some.injEq, and_true] at delays
  omega

end Loading

end SchedulingNoise
