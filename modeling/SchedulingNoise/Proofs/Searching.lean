import SchedulingNoise.Proofs.Patterns

namespace SchedulingNoise
open Disk Workspace

section Reach

variable {d₀ d : Disk} {folder place : Place} {root : Path}

theorem Custody.short (c : Custody d₀ (searchStart folder root) place d)
    (site : Site d₀ folder root place) {below : List Text} {x : Node}
    (found : d.get? (place ++ below) = some x) :
    Utf8.size ((searchStart folder root).descend below).text ≤ maxPathBytes := by
  rcases c.base.tree.node found with rfl | ⟨bs, rfl⟩
  · exact site.short below .folder ((c.folder_iff _).mp found)
  · rcases c.file_cases found with ⟨was, original⟩ | ⟨dir, n, source, eq⟩
    · exact site.short below _ original
    · have same : below = dir ++ [n ++ backupEnding] := by
        rw [List.append_assoc] at eq
        exact List.append_cancel_left eq
      subst same
      rw [← List.append_assoc] at found
      exact (c.kept dir n bs source found).2.2.2.1

theorem Custody.reach (c : Custody d₀ (searchStart folder root) place d)
    (site : Site d₀ folder root place) : Reach d folder root place :=
  ⟨site.spelled, c.base, fun _ _ found => c.short site found⟩

end Reach

section Sources

variable {d₀ d : Disk} {folder place : Place} {root start : Path}

theorem default_extensions : Config.default.extensions = .ok [".java".toList] := by
  decide

theorem mem_filesBelow (t : d.Tree) {below : List Text} :
    below ∈ d.filesBelow folder start place ↔
      ∃ dir n bs, below = dir ++ [n] ∧ d.get? (place ++ dir ++ [n]) = some (.file bs) ∧
        Utf8.size (start.descend dir).text ≤ maxPathBytes := by
  unfold filesBelow
  rw [(sortBy_perm _ _).mem_iff, List.mem_map]
  constructor
  · rintro ⟨⟨names, x⟩, inside, rfl⟩
    obtain ⟨listed, kept⟩ := List.mem_filter.mp inside
    obtain ⟨here, short⟩ := List.mem_filter.mp listed
    obtain ⟨nonempty, found⟩ := mem_below t here
    obtain ⟨dir, n, rfl⟩ := (List.eq_nil_or_concat names).resolve_left nonempty
    rcases t.node found with rfl | ⟨bs, rfl⟩
    · simp [isFileEntry] at kept
    · rw [List.concat_eq_append] at found short ⊢
      refine ⟨dir, n, bs, rfl, by rw [List.append_assoc]; exact found, ?_⟩
      simpa [isListed] using short
  · rintro ⟨dir, n, bs, rfl, file, short⟩
    have inside : (dir ++ [n], Node.file bs) ∈ d.below place :=
      below_of_get? (by simp) (by rw [← List.append_assoc]; exact file)
    refine ⟨_, List.mem_filter.mpr ⟨List.mem_filter.mpr ⟨inside, ?_⟩, rfl⟩, rfl⟩
    simpa [isListed] using short

theorem keeps_distinct {I : Workspace → Prop} [Sees I d folder] (seen paths : List Path) :
    Keeps I (distinct seen paths) fun found => ∀ p ∈ found, p ∈ paths := by
  induction paths generalizing seen with
  | nil => exact .pure fun p hp => hp
  | cons p rest ih =>
    refine (keeps_resolve p).bind fun q _ => ?_
    split
    · exact (ih seen).weaken fun found all r hr => List.mem_cons_of_mem p (all r hr)
    · refine (ih (q :: seen)).bind fun found all => .pure fun r hr => ?_
      rcases List.mem_cons.mp hr with rfl | hr
      · exact List.mem_cons_self
      · exact List.mem_cons_of_mem p (all r hr)

theorem suffix_descend (start : Path) (dir : List Text) (n : Text) :
    (start.descend (dir ++ [n])).suffix = Path.suffixOf n := by
  simp [Path.suffix, Path.name, Path.descend, ← List.append_assoc]

theorem keeps_findSources (site : Site d₀ folder root place)
    (c : Custody d₀ (searchStart folder root) place d) :
    Keeps (Standing d folder) (findSources .default (some root)) fun paths => ∀ p ∈ paths,
      ∃ dir n, p = (searchStart folder root).descend (dir ++ [n]) ∧ IsSource d place dir n := by
  have searched : Keeps (Standing d folder) (searchRoot (some root))
      fun r => r = some (searchStart folder root) := by
    intro w hw
    obtain ⟨w', eq, standing⟩ := searchRoot_eq site.spelled c.base hw
    rw [eq]
    exact ⟨standing, rfl⟩
  have isFile :
      Keeps (Standing d folder) (isFile (searchStart folder root)) fun b => b = false := by
    intro w hw
    rw [(start_seen c.base hw).2.2]
    exact ⟨hw, rfl⟩
  refine searched.bind fun r hr => ?_
  cases hr
  dsimp only
  rw [default_extensions]
  refine keeps_require.bind fun extensions he => isFile.bind fun b hb => ?_
  cases he
  cases hb
  simp only [Bool.false_eq_true, if_false]
  refine keeps_get.bind fun w hw => (keeps_ask _ _).bind fun at_ hat => ?_
  have here := c.base.locate_start .enter folder
  simp only [here] at hat
  cases hat
  refine (keeps_distinct [] _).bind fun found all => (keeps_note _).bind fun _ _ => .pure ?_
  intro p hp
  obtain ⟨mem, extension⟩ := List.mem_filter.mp (all p hp)
  obtain ⟨below, inside, rfl⟩ := List.mem_map.mp mem
  rw [hw.1] at inside
  obtain ⟨dir, n, bs, rfl, file, _⟩ := (mem_filesBelow c.base.tree).mp inside
  refine ⟨dir, n, rfl, ⟨bs, file⟩, ?_⟩
  simpa [hasExtension, suffix_descend] using extension

theorem Path.suffixOf_append {n t : Text} (hn : n ≠ []) (dot : '.' ∈ t) :
    Path.suffixOf (n ++ t) = Path.suffixOf ('_' :: t) := by
  have shorter : (t.reverse.takeWhile (· ≠ '.')).length < t.reverse.length := by
    refine Nat.lt_of_le_of_ne (List.takeWhile_sublist _).length_le fun whole => ?_
    have all := List.all_takeWhile (p := fun c : Char => decide (c ≠ '.')) (l := t.reverse)
    rw [(List.takeWhile_sublist _).eq_of_length whole, List.all_eq_true] at all
    simpa using all '.' (List.mem_reverse.mpr dot)
  have same : ∀ m : Text, (m ++ t).reverse.takeWhile (· ≠ '.') = t.reverse.takeWhile (· ≠ '.') := by
    intro m
    rw [List.reverse_append, List.takeWhile_append, if_neg (Nat.ne_of_lt shorter)]
  have long : ∀ m : Text, m ≠ [] →
      ¬ (m ++ t).length ≤ (t.reverse.takeWhile (· ≠ '.')).length + 1 := by
    intro m hm
    have := List.length_pos_iff.mpr hm
    rw [List.length_reverse] at shorter
    rw [List.length_append]
    omega
  have ending : ∀ m : Text, m ≠ [] → Path.suffixOf (m ++ t) =
      if (t.reverse.takeWhile (· ≠ '.')).isEmpty then []
      else '.' :: (t.reverse.takeWhile (· ≠ '.')).reverse := by
    intro m hm
    unfold Path.suffixOf
    rw [same m]
    simp only [decide_eq_false (long m hm), Bool.or_false]
  rw [ending n hn]
  exact (ending ['_'] (by simp)).symm

theorem Custody.source (c : Custody d₀ start place d) {dir : List Text} {n : Text}
    (source : IsSource d place dir n) : IsSource d₀ place dir n := by
  obtain ⟨⟨bs, file⟩, extension⟩ := source
  rcases c.file_cases file with original | ⟨dir', n', _, eq⟩
  · exact ⟨original, extension⟩
  · obtain ⟨_, rfl⟩ := place_inj eq
    by_cases none : n' = []
    · rw [none] at extension
      exact absurd extension (by decide)
    · rw [Path.suffixOf_append none (by decide)] at extension
      exact absurd extension (by decide)

end Sources

section Backups

variable {d₀ d : Disk} {folder place : Place} {root start : Path} {dir : List Text} {w : Workspace}

theorem Custody.saved_iff (c : Custody d₀ start place d) (fresh : Fresh d₀ place) {n : Text} :
    (∃ bs, Saved d place backupEnding dir n bs) ↔ IsSource d₀ place dir n ∧ Held d place dir n := by
  constructor
  · rintro ⟨bs, saved⟩
    rcases c.file_cases saved with ⟨was, original⟩ | ⟨dir', n', source, eq⟩
    · exact absurd (List.suffix_append n backupEnding) (fresh.noBackup dir _ was original)
    · obtain ⟨rfl, same⟩ := place_inj eq
      cases List.append_cancel_right same
      exact ⟨source, bs, saved⟩
  · exact fun h => h.2

/-- The files that are found to have a backup are the sources that have one. -/
theorem findBackedUp_eq (site : Site d₀ folder root place)
    (c : Custody d₀ (searchStart folder root) place d) (standing : Standing d folder w) :
    ∃ paths w', findBackedUp .default (some root) w = .ok paths w' ∧ Standing d folder w' ∧
      ∀ q, q ∈ paths ↔ ∃ dir n, q = (searchStart folder root).descend (dir ++ [n]) ∧
        IsSource d₀ place dir n ∧ Held d place dir n := by
  have given : Config.default.suffix = .ok (.ofText backupEnding) := default_suffix
  have ending := toText_backupEnding
  obtain ⟨paths, w', searched, standing', _, _, mem⟩ := findBackedUp_found given
    (by rw [ending]; decide) (by rw [ending]; decide) (by rw [ending]; decide) (c.reach site)
    standing fun dir n bs saved => by
      rw [ending] at saved
      obtain ⟨source, _⟩ := (c.saved_iff site.fresh).mp ⟨bs, saved⟩
      obtain ⟨was, original⟩ := source.file
      have proper := (site.tree.above original).2.1
      exact ⟨proper.nonempty, proper.notSelf⟩
  refine ⟨paths, w', searched, standing', fun q => ?_⟩
  rw [mem q, ending]
  constructor
  · rintro ⟨dir, n, bs, saved, rfl⟩
    exact ⟨dir, n, rfl, (c.saved_iff site.fresh).mp ⟨bs, saved⟩⟩
  · rintro ⟨dir, n, rfl, kept⟩
    obtain ⟨bs, saved⟩ := (c.saved_iff site.fresh).mpr kept
    exact ⟨dir, n, bs, saved, rfl⟩

end Backups

end SchedulingNoise
