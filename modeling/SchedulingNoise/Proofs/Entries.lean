import Mathlib.Data.List.Pairwise
import SchedulingNoise.Proofs.Annotations

namespace SchedulingNoise.Settings

def Entry.key : Entry → Key
  | .sequence _ => .sequence
  | .low _ => .low
  | .high _ => .high
  | .probability _ => .probability
  | .kind _ => .kind

def Entry.number? : Entry → Option Int
  | .sequence n => some n
  | .low n => some n
  | .high n => some n
  | .probability n => some n
  | .kind _ => none

/-- What an item says. -/
inductive Saying
  | nothing
  | malformed
  | sets (e : Entry)
deriving DecidableEq

def heed (s : Settings) : Saying → Option Settings
  | .nothing => some s
  | .malformed => none
  | .sets e => some (s.put e)

def Saying.ofRead : Option Entry → Saying
  | none => .malformed
  | some e => .sets e

def Key.saying (k : Key) (value : Text) : Except Fault Saying := (k.read value).map .ofRead

def valued (name value : Text) : Except Fault Saying :=
  match Key.ofName? name with
  | none => .ok .nothing
  | some k => k.saying value

def saying (t : Text) : Except Fault Saying :=
  if (Text.trim t).isEmpty then .ok .nothing
  else match Text.partition? '=' t with
    | none => .ok .malformed
    | some (key, value) => valued (keyOf key) value

theorem item_eq (s : Settings) (t : Text) : item s t = (saying t).map s.heed := by
  unfold item saying
  split
  · rfl
  · cases Text.partition? '=' t with
    | none => rfl
    | some parts =>
      obtain ⟨key, value⟩ := parts
      dsimp only [valued]
      cases Key.ofName? (keyOf key) with
      | none => rfl
      | some k =>
        dsimp only [Key.saying]
        cases k.read value with
        | error f => rfl
        | ok e => cases e <;> rfl

def Readable (t : Text) : Prop := ∃ m, saying t = .ok m

theorem Short.readable {t : Text} (short : Short t) : Readable t := by
  obtain ⟨r, read⟩ := (answers_item {} t).exists_ok short.not_excess
  rw [item_eq] at read
  cases spoken : saying t with
  | error f =>
    rw [spoken] at read
    cases read
  | ok m => exact ⟨m, spoken⟩

def said (t : Text) : Saying :=
  match saying t with
  | .ok m => m
  | .error _ => .malformed

theorem Readable.saying_eq {t : Text} (h : Readable t) : saying t = .ok (said t) := by
  obtain ⟨m, eq⟩ := h
  rw [said, eq]

theorem said_eq {t : Text} {m : Saying} (h : saying t = .ok m) : said t = m := by
  rw [said, h]

def heedAll (s : Settings) : List Saying → Option Settings
  | [] => some s
  | m :: rest => (s.heed m).bind (heedAll · rest)

theorem items_eq {ts : List Text} (readable : ∀ t ∈ ts, Readable t) (s : Settings) :
    items s ts = .ok (s.heedAll (ts.map said)) := by
  induction ts generalizing s with
  | nil => rfl
  | cons t rest ih =>
    have later := ih fun t ht => readable t (List.mem_cons_of_mem _ ht)
    rw [items, item_eq, (readable t List.mem_cons_self).saying_eq, List.map_cons]
    cases said t with
    | nothing => exact later s
    | malformed => rfl
    | sets e => exact later (s.put e)

def Saying.effect? : Saying → Option Entry
  | .sets e => some e
  | _ => none

theorem Saying.effect?_eq_some {m : Saying} {e : Entry} : m.effect? = some e ↔ m = .sets e := by
  cases m <;> simp [effect?]

def entries (ms : List Saying) : List Entry := ms.filterMap Saying.effect?

theorem mem_entries {ms : List Saying} {e : Entry} : e ∈ entries ms ↔ .sets e ∈ ms := by
  simp [entries, Saying.effect?_eq_some]

/-- A malformed item spoils the list; else the entries are put one after the other. -/
theorem heedAll_eq (s : Settings) (ms : List Saying) :
    s.heedAll ms = if .malformed ∈ ms then none else some ((entries ms).foldl put s) := by
  induction ms generalizing s with
  | nil => rfl
  | cons m rest ih =>
    cases m with
    | nothing => simpa [heedAll, heed, entries, List.filterMap_cons, Saying.effect?] using ih s
    | malformed => simp [heedAll, heed]
    | sets e =>
      simpa [heedAll, heed, entries, List.filterMap_cons, Saying.effect?] using ih (s.put e)

section Puts

variable {e e' : Entry} {es es' : List Entry}

theorem put_put (same : e.key = e'.key) (s : Settings) : (s.put e).put e' = s.put e' := by
  cases e <;> cases e' <;> first | rfl | cases same

theorem put_comm (other : e.key ≠ e'.key) (s : Settings) :
    (s.put e).put e' = (s.put e').put e := by
  cases e <;> cases e' <;> first | rfl | exact absurd rfl other

theorem foldl_put_hidden (hidden : ∃ e' ∈ es, e.key = e'.key) (s : Settings) :
    es.foldl put (s.put e) = es.foldl put s := by
  induction es generalizing s with
  | nil =>
    obtain ⟨_, nothing, _⟩ := hidden
    cases nothing
  | cons a rest ih =>
    rw [List.foldl_cons, List.foldl_cons]
    by_cases same : e.key = a.key
    · rw [put_put same]
    · rw [put_comm same]
      apply ih
      obtain ⟨e', mem, named⟩ := hidden
      rcases List.mem_cons.mp mem with rfl | mem
      · exact absurd named same
      · exact ⟨e', mem, named⟩

theorem foldl_put_perm (perm : es.Perm es') (distinct : es.Pairwise fun e e' => e.key ≠ e'.key)
    (s : Settings) : es.foldl put s = es'.foldl put s := by
  have symmetric : Std.Symm fun e e' : Entry => e.key ≠ e'.key := ⟨fun _ _ other => other.symm⟩
  apply perm.foldl_eq'
  intro a ha b hb z
  by_cases same : a = b
  · rw [same]
  · exact put_comm (distinct.forall ha hb same) z

end Puts

theorem valued_unknown {name : Text} (unknown : Key.ofName? name = none) (value : Text) :
    valued name value = .ok .nothing := by
  rw [valued, unknown]

theorem valued_name (k : Key) (value : Text) : valued k.name value = k.saying value := by
  rw [valued, Key.ofName?_eq_some.mpr rfl]

theorem Key.saying_ne_nothing (k : Key) (value : Text) : k.saying value ≠ .ok .nothing := by
  unfold saying
  cases k.read value with
  | error f => exact nofun
  | ok e => cases e <;> exact nofun

theorem Key.saying_eq_sets {k : Key} {value : Text} {e : Entry}
    (h : k.saying value = .ok (.sets e)) : k.read value = .ok (some e) := by
  unfold saying at h
  cases read : k.read value with
  | error f =>
    rw [read] at h
    cases h
  | ok r =>
    rw [read] at h
    cases r with
    | none => cases h
    | some e' =>
      cases h
      rfl

theorem Key.read_eq_some {k : Key} {value : Text} {e : Entry} (h : k.read value = .ok (some e)) :
    e.key = k ∧ ∀ n, e.number? = some n → number? value = .ok (some n) := by
  cases k with
  | kind =>
    obtain ⟨kind, _, rfl⟩ := Option.map_eq_some_iff.mp (Except.ok.inj h)
    exact ⟨rfl, nofun⟩
  | _ =>
    dsimp only [read] at h
    cases number : number? value with
    | error f =>
      rw [number] at h
      cases h
    | ok r =>
      rw [number] at h
      obtain ⟨n, rfl, rfl⟩ := Option.map_eq_some_iff.mp (Except.ok.inj h)
      exact ⟨rfl, fun _ eq => eq ▸ rfl⟩

theorem valued_eq_sets {name value : Text} {e : Entry} (h : valued name value = .ok (.sets e)) :
    name = e.key.name ∧ ∀ n, e.number? = some n → number? value = .ok (some n) := by
  cases known : Key.ofName? name with
  | none =>
    rw [valued_unknown known] at h
    cases h
  | some k =>
    obtain rfl := Key.ofName?_eq_some.mp known
    rw [valued_name] at h
    obtain ⟨key, read⟩ := Key.read_eq_some (Key.saying_eq_sets h)
    exact ⟨congrArg Key.name key.symm, read⟩

theorem saying_named {key : Text} (plain : '=' ∉ key) (value : Text) :
    saying (key ++ '=' :: value) = valued (keyOf key) value := by
  have there : (Text.trim (key ++ '=' :: value)).isEmpty = false := by
    have mem : '=' ∈ Text.trim (key ++ '=' :: value) := Text.mem_trimBy (by simp) (by decide)
    exact List.isEmpty_eq_false_iff.mpr (List.ne_nil_of_mem mem)
  have parts : Text.partition? '=' (key ++ '=' :: value) = some (key, value) :=
    Text.partition?_eq_some.mpr ⟨rfl, plain⟩
  simp only [saying, there, parts]
  rfl

def known? (t : Text) : Option Key := do
  let (key, _) ← Text.partition? '=' t
  Key.ofName? (keyOf key)

theorem known?_eq_some {t : Text} {k : Key} : known? t = some k ↔
    ∃ key value, t = key ++ '=' :: value ∧ '=' ∉ key ∧ keyOf key = k.name := by
  constructor
  · intro h
    obtain ⟨⟨key, value⟩, parted, named⟩ := Option.bind_eq_some_iff.mp h
    obtain ⟨eq, plain⟩ := Text.partition?_eq_some.mp parted
    exact ⟨key, value, eq, plain, (Key.ofName?_eq_some.mp named).symm⟩
  · rintro ⟨key, value, eq, plain, named⟩
    have parted := Text.partition?_eq_some.mpr ⟨eq, plain⟩
    exact Option.bind_eq_some_iff.mpr ⟨_, parted, Key.ofName?_eq_some.mpr named.symm⟩

theorem saying_eq_sets {t : Text} {e : Entry} (h : saying t = .ok (.sets e)) :
    ∃ key value, t = key ++ '=' :: value ∧ '=' ∉ key ∧ keyOf key = e.key.name ∧
      valued e.key.name value = .ok (.sets e) := by
  unfold saying at h
  split at h
  · cases h
  · split at h
    · cases h
    · rename_i key value parted
      obtain ⟨rfl, plain⟩ := Text.partition?_eq_some.mp parted
      have named := (valued_eq_sets h).1
      exact ⟨key, value, rfl, plain, named, named ▸ h⟩

theorem ofList_eq_items (list : Text) : ofList list = items {} (Text.splitOn [','] list) := by
  cases list with
  | nil => rfl
  | cons c rest => rfl

end SchedulingNoise.Settings
