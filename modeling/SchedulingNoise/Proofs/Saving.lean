import Mathlib.Data.List.Perm.Subperm
import SchedulingNoise.Proofs.Acceptance
import SchedulingNoise.Proofs.Fallback
import SchedulingNoise.Proofs.JsonValues

namespace SchedulingNoise

namespace Text

theorem unixLines_eq {t : Text} (plain : '\r' ∉ t) : t.unixLines = t := by
  fun_induction unixLines t with
  | case1 => simp at plain
  | case2 => simp at plain
  | case3 c rest _ _ ih =>
    rw [ih fun mem => plain (List.mem_cons_of_mem c mem)]
  | case4 => rfl

end Text

namespace Members

section Update

variable {old new : Members} {e : RawText × Json}

theorem mem_set_self (ms : Members) (name : RawText) (v : Json) : (name, v) ∈ set ms name v := by
  induction ms with
  | nil => exact List.mem_singleton.mpr rfl
  | cons m rest ih =>
    unfold set
    by_cases here : m.1 = name
    · rw [if_pos here, ← here]
      exact List.mem_cons_self
    · rw [if_neg here]
      exact List.mem_cons_of_mem m ih

theorem mem_set_of_ne {name : RawText} (other : e.1 ≠ name) (v : Json) (mem : e ∈ old) :
    e ∈ set old name v := by
  induction old with
  | nil => cases mem
  | cons m rest ih =>
    unfold set
    rcases List.mem_cons.mp mem with rfl | mem
    · rw [if_neg other]
      exact List.mem_cons_self
    · split
      · exact List.mem_cons_of_mem _ mem
      · exact List.mem_cons_of_mem _ (ih mem)

theorem mem_update_of_absent (absent : e.1 ∉ new.map (·.1)) (mem : e ∈ old) :
    e ∈ update old new := by
  induction new generalizing old with
  | nil => exact mem
  | cons m rest ih =>
    rw [List.map_cons, List.mem_cons, not_or] at absent
    apply ih absent.2
    exact mem_set_of_ne absent.1 m.2 mem

theorem mem_update (distinct : (new.map (·.1)).Nodup) (mem : e ∈ new) : e ∈ update old new := by
  induction new generalizing old with
  | nil => cases mem
  | cons m rest ih =>
    rw [List.map_cons, List.nodup_cons] at distinct
    rcases List.mem_cons.mp mem with rfl | mem
    · have stays : e ∈ update (set old e.1 e.2) rest :=
        mem_update_of_absent distinct.1 (mem_set_self old e.1 e.2)
      exact stays
    · exact ih distinct.2 mem

theorem keys_update (known : ∀ m ∈ new, m.1 ∈ old.map (·.1)) :
    (update old new).map (·.1) = old.map (·.1) := by
  induction new generalizing old with
  | nil => rfl
  | cons m rest ih =>
    have keys : (set old m.1 m.2).map (·.1) = old.map (·.1) := by
      rw [keys_set, if_pos (known m List.mem_cons_self)]
    have later : (update (set old m.1 m.2) rest).map (·.1) = (set old m.1 m.2).map (·.1) :=
      ih fun x mem => keys ▸ known x (List.mem_cons_of_mem m mem)
    exact later.trans keys

theorem update_perm (distinct : (old.map (·.1)).Nodup)
    (keys : (new.map (·.1)).Perm (old.map (·.1))) : (update old new).Perm new := by
  have distinct' : (new.map (·.1)).Nodup := keys.nodup_iff.mpr distinct
  have names := keys_update fun m mem => keys.mem_iff.mp (List.mem_map_of_mem mem)
  have size : (update old new).length = new.length := by
    have same := congrArg List.length names
    have sizes := keys.length_eq
    rw [List.length_map, List.length_map] at same sizes
    omega
  have part : new.Subperm (update old new) :=
    (List.Nodup.of_map _ distinct').subperm fun m mem => mem_update distinct' mem
  exact (part.perm_of_length_le size.le).symm

end Update

theorem eq_of_perm {ms ms' : Members} (same : ms.Perm ms') (distinct : (ms.map (·.1)).Nodup)
    (names : ms.map (·.1) = ms'.map (·.1)) : ms = ms' := by
  induction ms generalizing ms' with
  | nil => exact same.nil_eq
  | cons m rest ih =>
    cases ms' with
    | nil => cases names
    | cons m' rest' =>
      rw [List.map_cons, List.map_cons, List.cons.injEq] at names
      rw [List.map_cons, List.nodup_cons] at distinct
      have first : m = m' := by
        rcases List.mem_cons.mp (same.mem_iff.mp List.mem_cons_self) with eq | later
        · exact eq
        · exact absurd (names.2 ▸ List.mem_map_of_mem later) distinct.1
      subst first
      rw [ih same.cons_inv distinct.2 names.2]

theorem get?_of_mem {ms : Members} (distinct : (ms.map (·.1)).Nodup) {key : Text} {v : Json}
    (mem : (RawText.ofText key, v) ∈ ms) : get? ms key = some v := by
  induction ms with
  | nil => cases mem
  | cons m rest ih =>
    rw [List.map_cons, List.nodup_cons] at distinct
    rcases List.mem_cons.mp mem with rfl | mem
    · simp [get?]
    · have other : m.1 ≠ RawText.ofText key := fun eq =>
        distinct.1 (eq ▸ List.mem_map_of_mem mem)
      have later := ih distinct.2 mem
      simpa [get?, other] using later

end Members

namespace Disk

variable {d : Disk}

theorem walk_make {cur : Place} {names : List Text} (on : ∀ e, d.walk .make cur names ≠ .stuck e) :
    d.walk .enter cur names = d.walk .make cur names := by
  induction names generalizing cur with
  | nil => rfl
  | cons n rest ih =>
    obtain dot | rfl | own := name_cases n
    · rw [walk_dot _ _ _ _ dot] at on ⊢
      rw [walk_dot _ _ _ _ dot]
      exact ih on
    · rw [walk_up] at on ⊢
      rw [walk_up]
      exact ih on
    · rw [walk_own _ _ _ _ own] at on ⊢
      rw [walk_own _ _ _ _ own]
      by_cases asks : (Ending.make = .make && rest = [[]]) = true
      · rw [if_pos asks] at on
        exact absurd rfl (on _)
      · rw [if_neg asks] at on ⊢
        rw [if_neg (by simp)]
        split
        · rfl
        · rename_i short
          rw [if_neg short] at on
          split
          · rename_i folder
            rw [folder] at on
            exact ih on
          · rfl
          · rfl

theorem walkLinks_make {links : Nat} {cur p : Place} {names : List Text}
    (leads : d.walkLinks .make links cur names = .ok p) :
    d.walkLinks .enter links cur names = .ok p := by
  fun_induction walkLinks d .make links cur names with
  | case1 links cur names q here =>
    rw [walkLinks, walk_make (by simp [here]), here]
    exact leads
  | case2 => cases leads
  | case3 => cases leads
  | case4 cur names q todo jumped links ih =>
    rw [walkLinks, walk_make (by simp [jumped]), jumped]
    exact ih leads

theorem locate_make {folder q : Place} {p : Path} (leads : d.locate .make folder p = .ok q) :
    d.locate .enter folder p = .ok q := by
  unfold locate at leads ⊢
  split at leads
  · cases leads
  · rename_i short
    rw [if_neg short]
    exact walkLinks_make leads

theorem write_eq {folder place : Place} {p : Path} (leads : d.locate .make folder p = .ok place)
    (free : d.get? place ≠ some .folder) (bs : Bytes) :
    d.write folder p bs = .ok (d.put place (.file bs)) := by
  unfold write
  simp only [leads, bind, Except.bind]
  rfl

theorem bytes_put {folder place : Place} (grounded : d.Grounded folder) {p : Path}
    (leads : d.locate .make folder p = .ok place) (free : d.get? place ≠ some .folder)
    (bs : Bytes) : (d.put place (.file bs)).bytes folder p = .ok bs := by
  have inside : place ≠ [] := fun root => free (by rw [root]; rfl)
  have plain := guide_none free fun t => grounded.locate (by decide) leads t
  have same : (d.put place (.file bs)).locate .enter folder p = .ok place :=
    (Ways.put inside plain bs).locate (locate_make leads)
  have there : (d.put place (.file bs)).get? place = some (.file bs) := by
    rw [get?_put inside, if_pos rfl]
  unfold bytes node
  simp only [same, there, bind, Except.bind, pure, Except.pure]

end Disk

namespace Json

def texts : Json → List RawText
  | .str t => [t]
  | .list items => items.filterMap fun | .str t => some t | _ => none
  | _ => []

end Json

namespace Config
open Workspace

def texts (c : Config) : List RawText := c.members.flatMap (·.2.texts)

theorem knownKeys_perm :
    (default.members.map (·.1)).Perm (knownKeys.map RawText.ofText) := by
  decide

theorem distinct_default : (default.members.map (·.1)).Nodup := by
  decide

section File

variable {w : Workspace} {file : Path} {place : Place} (spelled : Char.ofNat 0 ∉ file.text)
  (leads : w.disk.locate .make w.folder file = .ok place)
  (free : w.disk.get? place ≠ some .folder)
include spelled leads free

theorem save_eq (c : Config) :
    c.save file w = .ok () { w with disk := w.disk.put place (.file (Utf8.encode c.text)) } := by
  apply orOnRefusal_ok
  rw [change_eq spelled, Disk.write_eq leads free]

theorem readBytes_put (grounded : w.disk.Grounded w.folder) (bs : Bytes) :
    readBytes file { w with disk := w.disk.put place (.file bs) } =
      .ok bs { w with disk := w.disk.put place (.file bs) } := by
  rw [readBytes, ask_eq spelled, Disk.bytes_put grounded leads free]

end File

section Saved

variable {c : Config} (keys : (c.members.map (·.1)).Perm (knownKeys.map RawText.ofText))
  (accepted : complaints (.object c.members) = [])
  (settled : ∀ t ∈ c.texts, Json.Settled t)
include keys accepted settled

/-- Every value of an accepted configuration is kept. -/
theorem kept_of_accepted : Json.Kept 2 (.object c.members) := by
  have distinct : (c.members.map (·.1)).Nodup :=
    (keys.trans knownKeys_perm.symm).nodup_iff.mpr distinct_default
  have sound := sound_update accepted distinct sound_default
  have known : ∀ m ∈ c.members, ∃ key ∈ knownKeys, RawText.ofText key = m.1 := fun m mem =>
    List.mem_map.mp (keys.mem_iff.mp (List.mem_map_of_mem mem))
  apply Json.Kept.object distinct
  · intro m mem
    obtain ⟨key, _, name⟩ := known m mem
    rw [← name]
    exact Json.settled_ofText key
  · rintro ⟨name, v⟩ mem
    have texts : ∀ t ∈ v.texts, Json.Settled t := fun t part =>
      settled t (List.mem_flatMap.mpr ⟨_, mem, part⟩)
    obtain ⟨key, listed, rfl⟩ := known _ mem
    have value := get?_given (c := default) distinct (Members.get?_of_mem distinct mem)
    rcases List.mem_append.mp listed with number | other
    · obtain ⟨⟨_, low, high⟩, range, rfl⟩ := List.mem_map.mp number
      obtain ⟨n, isInt, above, below⟩ := sound.numbers _ _ _ range
      rw [value] at isInt
      cases isInt
      have bounds : ∀ e ∈ documented, 0 ≤ e.2.1 ∧ e.2.2 ≤ 600000 := by decide
      have least : 0 ≤ low := (bounds _ range).1
      have most : high ≤ 600000 := (bounds _ range).2
      have short : Decimal.Short 600000 := by decide
      exact .int (short.of_le (by omega) (by omega))
    · simp only [List.mem_cons, List.not_mem_nil, or_false] at other
      rcases other with rfl | rfl | rfl
      · obtain ⟨items, isList, dotted⟩ := sound.extensions
        rw [value] at isList
        cases isList
        apply Json.Kept.list
        intro v hv
        obtain ⟨rest, rfl⟩ := dotted v hv
        exact .str (texts _ (List.mem_filterMap.mpr ⟨_, hv, rfl⟩))
      · obtain ⟨x, rest, isText⟩ := sound.suffix
        rw [value] at isText
        cases isText
        exact .str (texts _ List.mem_cons_self)
      · obtain ⟨t, isText⟩ := sound.logFolder
        rw [value] at isText
        cases isText
        exact .str (texts _ List.mem_cons_self)

theorem read_text (levels : Json.Levels) :
    Json.read c.text.unixLines levels = .ok (.object c.members) := by
  have kept := kept_of_accepted keys accepted settled
  have plain : '\r' ∉ c.text := by
    intro mem
    rcases kept.shown _ mem with line | printable
    · cases line
    · exact absurd printable (by decide)
  rw [Text.unixLines_eq plain]
  exact Json.read_indented kept levels.enough

theorem ofFile_text {w : Workspace} {file : Path}
    (read : readBytes file w = .ok (Utf8.encode c.text) w) :
    ofFile (some file) w = .ok (default.update c.members) w := by
  have value := read_text keys accepted settled w.levels
  simp only [ofFile_of_bytes read, Utf8.decode_eq_ok.mpr rfl, loadText_eq, value]
  exact accept_accepted accepted

/-- A configuration with exactly the known settings that is accepted is loaded again after it was
saved, whatever characters its texts have and also halves of characters, unless two of these make
up a character. The same settings have the same values, in the order of the default configuration,
and nothing but the file changes. -/
theorem reload_saved {w : Workspace} (grounded : w.disk.Grounded w.folder) {file : Path}
    (spelled : Char.ofNat 0 ∉ file.text)
    (writable : ∃ d, w.disk.write w.folder file [] = .ok d) :
    ∃ c' place, w.disk.locate .make w.folder file = .ok place ∧
      (do c.save file; ofFile (some file)) w =
        .ok c' { w with disk := w.disk.put place (.file (Utf8.encode c.text)) } ∧
      c'.members.Perm c.members ∧
      (c.members.map (·.1) = default.members.map (·.1) → c' = c) := by
  obtain ⟨_, written⟩ := writable
  obtain ⟨place, leads, free, _⟩ := Disk.write_eq_ok written
  have same : (default.update c.members).members.Perm c.members :=
    Members.update_perm distinct_default (keys.trans knownKeys_perm.symm)
  refine ⟨default.update c.members, place, leads, ?_, same, fun order => ?_⟩
  · have saved := save_eq spelled leads free c
    have read := readBytes_put spelled leads free grounded (Utf8.encode c.text)
    rw [bind_ok saved]
    exact ofFile_text keys accepted settled read
  · have known : ∀ m ∈ c.members, m.1 ∈ default.members.map (·.1) := fun m mem =>
      order ▸ List.mem_map_of_mem mem
    have names : (default.update c.members).members.map (·.1) = c.members.map (·.1) :=
      (Members.keys_update known).trans order.symm
    have distinct := Members.nodup_update distinct_default c.members
    have members := Members.eq_of_perm same distinct names
    exact congrArg Config.mk members

end Saved

/-- Texts with a quote, controls, a character beyond the first plane, halves that stand alone, and
a byte order mark. -/
def oddTexts : Config := default.update [
  Json.named extensionsKey (.list [.text ".\"\\😀".toList,
    .text ['.', Char.ofNat 0, '\r', '\n', Char.ofNat 0x7F]]),
  Json.named suffixKey (.str [.char '.', .half 0xD800, .char 'é', .half 0xDE00]),
  Json.named logFolderKey (.text [Char.ofNat 0xFEFF])]

def emptyDisk : Workspace where
  disk := {}
  folder := []
  clock := ⟨"20260101".toList, 0⟩
  epoch := 0

theorem reload_saved_oddTexts :
    ∃ w, (do oddTexts.save (.ofText "config.json".toList)
             ofFile (some (.ofText "config.json".toList))) emptyDisk = .ok oddTexts w ∧
      w.output = emptyDisk.output ∧ w.log = emptyDisk.log := by
  have keys : (oddTexts.members.map (·.1)).Perm (knownKeys.map RawText.ofText) := by decide
  have accepted : complaints (.object oddTexts.members) = [] := rfl
  have halves : Json.Settled [.char '.', .half 0xD800, .char 'é', .half 0xDE00] := by
    constructor
    · intro n mem
      simp only [List.mem_cons, reduceCtorEq, CodePoint.half.injEq, List.not_mem_nil, or_false,
        false_or] at mem
      rcases mem with rfl | rfl
      · exact .inl rfl
      · exact .inr rfl
    · intro m n adjacent
      simp [List.infix_cons_iff] at adjacent
  have settled : ∀ t ∈ oddTexts.texts, Json.Settled t := by
    have all : oddTexts.texts = [RawText.ofText ".\"\\😀".toList,
        RawText.ofText ['.', Char.ofNat 0, '\r', '\n', Char.ofNat 0x7F],
        [.char '.', .half 0xD800, .char 'é', .half 0xDE00],
        RawText.ofText [Char.ofNat 0xFEFF]] := rfl
    rw [all]
    simp only [List.forall_mem_cons]
    exact ⟨Json.settled_ofText _, Json.settled_ofText _, halves, Json.settled_ofText _, nofun⟩
  have grounded : emptyDisk.disk.Grounded emptyDisk.folder := by
    refine ⟨rfl, fun p n x found => ?_⟩
    simp [emptyDisk, Disk.get?] at found
  have spelled : Char.ofNat 0 ∉ (Path.ofText "config.json".toList).text := by decide
  obtain ⟨c', place, _, loaded, _, same⟩ := reload_saved keys accepted settled grounded spelled
    ⟨_, rfl⟩
  rw [same rfl] at loaded
  exact ⟨_, loaded, rfl, rfl⟩

end Config

end SchedulingNoise
