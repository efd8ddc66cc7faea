import SchedulingNoise.Proofs.Loading

/-! Which values are accepted as configurations: exactly those that make a documented configuration
of the default one. Single values are checked only where they are given, and pairs only where both
are integers, and that is enough, because the defaults are documented and a value that is no
integer is refused by itself. -/
namespace SchedulingNoise

def Json.Distinct : Json → Prop
  | .object ms => (ms.map (·.1)).Nodup
  | _ => True

namespace Config

/-- A configuration as the table of settings documents it. -/
structure Documented (c : Config) : Prop extends c.Sound where
  delays : c.Ordered delayLowKey delayHighKey
  bounds : c.Ordered lowerKey upperKey

theorem Documented.ordered {c : Config} (h : c.Documented) {keys : Text × Text}
    (pair : keys ∈ orderedPairs) : c.Ordered keys.1 keys.2 := by
  rcases List.mem_cons.mp pair with rfl | pair
  · exact h.delays
  · cases List.mem_singleton.mp pair
    exact h.bounds

theorem documented_of_accepted {ms : Members} (distinct : (ms.map (·.1)).Nodup)
    (accepted : complaints (.object ms) = []) : (default.update ms).Documented where
  toSound := sound_update accepted distinct sound_default
  delays := ordered_default_update accepted distinct (by simp [orderedPairs])
  bounds := ordered_default_update accepted distinct (by simp [orderedPairs])

section Checks

variable {ms : Members} {c : Config}

theorem get?_given (distinct : (ms.map (·.1)).Nodup) {key : Text} {v : Json}
    (given : Members.get? ms key = some v) : (c.update ms).get? key = some v := by
  rw [get?_update distinct, given]
  rfl

section Sound

variable (distinct : (ms.map (·.1)).Nodup) (sound : (c.update ms).Sound)
include distinct sound

theorem checkNumber_of_sound {f : NumberField} (listed : f ∈ numberFields) :
    checkNumber ms f = [] := by
  have same : ∀ f ∈ numberFields, (f.key, f.low, f.high) ∈ documented := by decide
  cases given : Members.get? ms f.key with
  | none => simp only [checkNumber, given]
  | some v =>
    obtain ⟨n, value, low, high⟩ := sound.numbers _ _ _ (same f listed)
    rw [get?_given distinct given] at value
    cases value
    simp [checkNumber, given, low, high]

theorem checkExtensions_of_sound : checkExtensions ms = [] := by
  cases given : Members.get? ms extensionsKey with
  | none => simp only [checkExtensions, given]
  | some v =>
    obtain ⟨items, value, dotted⟩ := sound.extensions
    rw [get?_given distinct given] at value
    cases value
    have texts : items.all isText = true := by
      apply List.all_eq_true.mpr
      intro v hv
      obtain ⟨rest, rfl⟩ := dotted v hv
      rfl
    have dots : items.all startsWithDot = true := by
      apply List.all_eq_true.mpr
      intro v hv
      obtain ⟨rest, rfl⟩ := dotted v hv
      rfl
    simp [checkExtensions, given, texts, dots]

theorem checkSuffix_of_sound : checkSuffix ms = [] := by
  cases given : Members.get? ms suffixKey with
  | none => simp only [checkSuffix, given]
  | some v =>
    obtain ⟨x, rest, value⟩ := sound.suffix
    rw [get?_given distinct given] at value
    cases value
    simp only [checkSuffix, given]

theorem checkLogFolder_of_sound : checkLogFolder ms = [] := by
  cases given : Members.get? ms logFolderKey with
  | none => simp only [checkLogFolder, given]
  | some v =>
    obtain ⟨t, value⟩ := sound.logFolder
    rw [get?_given distinct given] at value
    cases value
    simp only [checkLogFolder, given]

end Sound

theorem checkPair_of_ordered {keys : Text × Text}
    (ordered : (default.update ms).Ordered keys.1 keys.2) : checkPair ms keys = [] := by
  obtain ⟨low, high, isLow, isHigh, le⟩ := ordered
  simp [checkPair, Config.get, isLow, isHigh, integer?, le]

theorem accepted_of_documented (distinct : (ms.map (·.1)).Nodup)
    (h : (default.update ms).Documented) : complaints (.object ms) = [] := by
  simp only [complaints, List.append_eq_nil_iff, List.flatMap_eq_nil_iff]
  exact ⟨⟨⟨⟨fun f listed => checkNumber_of_sound distinct h.toSound listed,
    fun keys pair => checkPair_of_ordered (h.ordered pair)⟩,
    checkExtensions_of_sound distinct h.toSound⟩, checkSuffix_of_sound distinct h.toSound⟩,
    checkLogFolder_of_sound distinct h.toSound⟩

end Checks

def knownKeys : List Text := documented.map (·.1) ++ [extensionsKey, suffixKey, logFolderKey]

/-- What is wrong with an object depends on the values of the known names alone. -/
theorem complaints_congr {ms ms' : Members} (distinct : (ms.map (·.1)).Nodup)
    (distinct' : (ms'.map (·.1)).Nodup)
    (alike : ∀ key ∈ knownKeys, Members.get? ms' key = Members.get? ms key) :
    complaints (.object ms') = complaints (.object ms) := by
  have fields : ∀ f ∈ numberFields, f.key ∈ knownKeys := by decide
  have pairs : ∀ keys ∈ orderedPairs, keys.1 ∈ knownKeys ∧ keys.2 ∈ knownKeys := by decide
  have numbers :
      numberFields.flatMap (checkNumber ms') = numberFields.flatMap (checkNumber ms) := by
    refine congrArg List.flatten (List.map_congr_left fun f listed => ?_)
    rw [checkNumber, checkNumber, alike _ (fields f listed)]
  have merged : ∀ key ∈ knownKeys, (default.update ms').get key = (default.update ms).get key := by
    intro key known
    rw [Config.get, Config.get, get?_update distinct', get?_update distinct, alike key known]
  have ordered : orderedPairs.flatMap (checkPair ms') = orderedPairs.flatMap (checkPair ms) := by
    refine congrArg List.flatten (List.map_congr_left fun keys pair => ?_)
    rw [checkPair, checkPair, merged _ (pairs keys pair).1, merged _ (pairs keys pair).2]
  rw [complaints, complaints, numbers, ordered, checkExtensions, checkExtensions, checkSuffix,
    checkSuffix, checkLogFolder, checkLogFolder, alike extensionsKey (by decide),
    alike suffixKey (by decide), alike logFolderKey (by decide)]

/-- A value is accepted exactly if it is an object that makes a documented configuration of the
default one, and members with other names than the known ones change nothing about it. -/
theorem accepted_iff_documented {v : Json} (distinct : v.Distinct) :
    (complaints v = [] ↔ ∃ ms, v = .object ms ∧ (default.update ms).Documented) ∧
    ∀ ms ms', v = .object ms → (Json.object ms').Distinct →
      (∀ key ∈ knownKeys, Members.get? ms' key = Members.get? ms key) →
        complaints (.object ms') = complaints v := by
  constructor
  · constructor
    · intro accepted
      obtain ⟨ms, rfl⟩ := object_of_accepted accepted
      exact ⟨ms, rfl, documented_of_accepted distinct accepted⟩
    · rintro ⟨ms, rfl, documented⟩
      exact accepted_of_documented distinct documented
  · rintro ms ms' rfl distinct' alike
    exact complaints_congr distinct distinct' alike

def noteKey : Text := "note".toList

/-- Delays above the defaults, and a setting that is not known. -/
def raisedDelays : Members :=
  [Json.named delayLowKey (.int 2000), Json.named delayHighKey (.int 3000),
    Json.named noteKey (.bool true)]

theorem raisedDelays_accepted :
    (Json.object raisedDelays).Distinct ∧
    (default.update raisedDelays).Documented ∧
    complaints (.object (raisedDelays.take 2)) = complaints (.object raisedDelays) ∧
    (Json.object (raisedDelays.take 1)).Distinct ∧
    ¬ (default.update (raisedDelays.take 1)).Documented := by
  have distinct : (Json.object raisedDelays).Distinct := by
    simp only [Json.Distinct]
    decide
  have accepted : complaints (.object raisedDelays) = [] := by rfl
  have alone : (Json.object (raisedDelays.take 1)).Distinct := List.nodup_singleton _
  have both : (Json.object (raisedDelays.take 2)).Distinct :=
    List.Nodup.sublist (List.Sublist.map _ (List.take_sublist 2 _)) distinct
  obtain ⟨exactly, others⟩ := accepted_iff_documented distinct
  obtain ⟨ms, same, documented⟩ := exactly.mp accepted
  cases same
  refine ⟨distinct, documented, others _ _ rfl both (fun key known => ?_), alone, ?_⟩
  · have other : ∀ key ∈ knownKeys, RawText.ofText noteKey ≠ RawText.ofText key := by decide
    simp [raisedDelays, Members.get?, Json.named, other key known, List.find?_cons]
  · intro documented
    have refused : (complaints (.object (raisedDelays.take 1))).isEmpty = false := by rfl
    rw [(accepted_iff_documented alone).1.mpr ⟨_, rfl, documented⟩] at refused
    cases refused

end Config

end SchedulingNoise
