import SchedulingNoise.Proofs.Searching

/-! The source files below a root. On a tree a search returns the regular files whose names end
with one of the extensions, each of them once, and misses those alone whose folder has too long a
path to be listed. What is found and in which order does not depend on the order in which the disk
lists its entries. -/
namespace SchedulingNoise
open Disk Workspace

namespace Path

/-- The suffix of a name is what stands from its last dot on, if there are characters on both sides
of the dot. Other names have an empty suffix. -/
inductive HasSuffix : (name suffix : Text) → Prop
  | dotted {stem ext : Text} (before : stem ≠ []) (behind : ext ≠ []) (last : '.' ∉ ext) :
    HasSuffix (stem ++ '.' :: ext) ('.' :: ext)
  | bare {name : Text}
    (none : ∀ stem ext, name = stem ++ '.' :: ext → stem = [] ∨ ext = [] ∨ '.' ∈ ext) :
    HasSuffix name []

theorem exists_last_dot {n : Text} (h : '.' ∈ n) :
    ∃ stem ext, n = stem ++ '.' :: ext ∧ '.' ∉ ext := by
  obtain ⟨behind, before, eq, last⟩ := List.eq_append_cons_of_mem (List.mem_reverse.mpr h)
  refine ⟨before.reverse, behind.reverse, ?_, by simpa using last⟩
  have turned := congrArg List.reverse eq
  simpa using turned

theorem takeWhile_no_dot {ext : Text} (last : '.' ∉ ext) (more : Text) :
    (ext.reverse ++ more).takeWhile (· ≠ '.') = ext.reverse ++ more.takeWhile (· ≠ '.') := by
  apply List.takeWhile_append_of_pos
  intro c hc
  have other : c ≠ '.' := fun eq => last (eq ▸ List.mem_reverse.mp hc)
  simpa using other

theorem suffixOf_dot (stem : Text) {ext : Text} (last : '.' ∉ ext) :
    suffixOf (stem ++ '.' :: ext) = if stem = [] ∨ ext = [] then [] else '.' :: ext := by
  have ending : (stem ++ '.' :: ext).reverse.takeWhile (· ≠ '.') = ext.reverse := by
    rw [List.reverse_append, List.reverse_cons, List.append_assoc, takeWhile_no_dot last]
    simp
  have size : (stem ++ '.' :: ext).length ≤ ext.reverse.length + 1 ↔ stem = [] := by
    rw [← List.length_eq_zero_iff, List.length_append, List.length_cons, List.length_reverse]
    omega
  unfold suffixOf
  dsimp only
  rw [ending, List.reverse_reverse]
  simp only [size, List.isEmpty_reverse, Bool.or_eq_true, List.isEmpty_iff, decide_eq_true_eq]
  simp only [or_comm]

theorem suffixOf_no_dot {n : Text} (h : '.' ∉ n) : suffixOf n = [] := by
  have whole : n.reverse.takeWhile (· ≠ '.') = n.reverse := by
    simpa using takeWhile_no_dot h []
  unfold suffixOf
  dsimp only
  rw [whole, List.length_reverse]
  simp

theorem suffixOf_bare {n : Text}
    (none : ∀ stem ext, n = stem ++ '.' :: ext → stem = [] ∨ ext = [] ∨ '.' ∈ ext) :
    suffixOf n = [] := by
  by_cases dot : '.' ∈ n
  · obtain ⟨stem, ext, eq, last⟩ := exists_last_dot dot
    have edge : stem = [] ∨ ext = [] := by simpa [last] using none stem ext eq
    rw [eq, suffixOf_dot stem last, if_pos edge]
  · exact suffixOf_no_dot dot

theorem hasSuffix_iff (n suffix : Text) : HasSuffix n suffix ↔ suffixOf n = suffix := by
  constructor
  · intro h
    cases h with
    | dotted before behind last => rw [suffixOf_dot _ last, if_neg (by simp [before, behind])]
    | bare none => exact suffixOf_bare none
  · rintro rfl
    by_cases inner : ∃ stem ext, n = stem ++ '.' :: ext ∧ stem ≠ [] ∧ ext ≠ [] ∧ '.' ∉ ext
    · obtain ⟨stem, ext, rfl, before, behind, last⟩ := inner
      rw [suffixOf_dot stem last, if_neg (by simp [before, behind])]
      exact .dotted before behind last
    · have none : ∀ stem ext, n = stem ++ '.' :: ext → stem = [] ∨ ext = [] ∨ '.' ∈ ext := by
        intro stem ext eq
        by_contra apart
        simp only [not_or] at apart
        exact inner ⟨stem, ext, eq, apart⟩
      rw [suffixOf_bare none]
      exact .bare none

/-- Names marked so that they compare as a walk does: the last one comes before any that leads
further down. -/
def walkKey : List Text → List Text
  | [] => []
  | [n] => ['0' :: n]
  | n :: m :: rest => ('1' :: n) :: walkKey (m :: rest)

theorem walkKey_inj {s t : List Text} (h : walkKey s = walkKey t) : s = t := by
  fun_induction walkKey s generalizing t with
  | case1 =>
    match t with
    | [] => rfl
    | [_] => simp [walkKey] at h
    | _ :: _ :: _ => simp [walkKey] at h
  | case2 n =>
    match t with
    | [] => simp [walkKey] at h
    | [_] => simpa [walkKey] using h
    | _ :: _ :: _ => simp [walkKey] at h
  | case3 n m rest ih =>
    match t with
    | [] => simp [walkKey] at h
    | [_] => simp [walkKey] at h
    | n' :: m' :: rest' =>
      simp only [walkKey, List.cons.injEq, true_and] at h
      rw [h.1, ih h.2]

theorem walkKey_cons {s : List Text} (deeper : s ≠ []) (n : Text) :
    walkKey (n :: s) = ('1' :: n) :: walkKey s := by
  cases s with
  | nil => exact absurd rfl deeper
  | cons m rest => rfl

theorem walkLe_iff (s t : List Text) : walkLe s t = true ↔ ¬ walkKey t < walkKey s := by
  fun_induction walkLe s t with
  | case1 t => simp [walkKey]
  | case2 n rest => cases rest <;> simp [walkKey]
  | case3 a b => simp [walkKey, Text.le, List.cons_lt_cons_iff, ← Text.lt_iff]
  | case4 a b c rest => simp [walkKey, List.cons_lt_cons_iff]
  | case5 a b rest c => simp [walkKey, List.cons_lt_cons_iff]
  | case6 a s b t alone file file' ih =>
    have both : s ≠ [] ∧ t ≠ [] := by
      cases s with
      | nil =>
        cases t with
        | nil => exact absurd rfl (alone rfl)
        | cons n rest => exact absurd rfl (file n rest rfl)
      | cons n rest =>
        cases t with
        | nil => exact absurd rfl (file' n rest rfl)
        | cons m more => simp
    rw [walkKey_cons both.1, walkKey_cons both.2, not_cons_lt_cons, List.cons_lt_cons_iff]
    simp [Text.lt_iff, ih]

end Path

theorem sortBy_eq_of_perm {le : α → α → Bool} (trans : ∀ a b c, le a b → le b c → le a c)
    (total : ∀ a b, le a b || le b a) (antisymm : ∀ a b, le a b → le b a → a = b) {l l' : List α}
    (perm : l.Perm l') : sortBy le l = sortBy le l' :=
  List.Perm.eq_of_pairwise (fun a b _ _ => antisymm a b) (pairwise_sortBy trans total l)
    (pairwise_sortBy trans total l')
    ((sortBy_perm le l).trans (perm.trans (sortBy_perm le l').symm))

theorem sortBy_walkLe {l l' : List (List Text)} (perm : l.Perm l') :
    sortBy Path.walkLe l = sortBy Path.walkLe l' := by
  refine sortBy_eq_of_perm (fun a b c => ?_) (fun a b => ?_) (fun a b => ?_) perm
  · simp only [Path.walkLe_iff, not_lt]
    exact le_trans
  · simp only [Bool.or_eq_true, Path.walkLe_iff, not_lt]
    exact le_total _ _
  · simp only [Path.walkLe_iff, not_lt]
    exact fun le ge => Path.walkKey_inj (le_antisymm le ge)

namespace Disk

variable {d : Disk} {folder place : Place} {root : Path}

section Listing

variable {entries : List (Place × Node)}

theorem Tree.get?_perm (t : d.Tree) (perm : entries.Perm d.entries) (p : Place) :
    (⟨entries⟩ : Disk).get? p = d.get? p := by
  by_cases top : p = []
  · simp [get?, top]
  · have distinct : (entries.map (·.1)).Nodup := (perm.map _).nodup_iff.mpr t.distinct
    apply Option.ext
    intro x
    constructor
    · intro found
      exact t.get?_of_mem (perm.mem_iff.mp (Tree.mem_of_get? top found))
    · intro found
      have mem := perm.mem_iff.mpr (Tree.mem_of_get? top found)
      simp [get?, top, find_of_mem distinct mem]

theorem Tree.of_perm (t : d.Tree) (perm : entries.Perm d.entries) : (⟨entries⟩ : Disk).Tree := by
  constructor
  · exact (perm.map _).nodup_iff.mpr t.distinct
  · exact fun e he => t.plain e (perm.mem_iff.mp he)
  · intro e he
    obtain ⟨above, n, eq, isFolder, proper⟩ := t.rooted e (perm.mem_iff.mp he)
    exact ⟨above, n, eq, (t.get?_perm perm above).trans isFolder, proper⟩

theorem Tree.filesBelow_eq (t : d.Tree) (folder : Place) (root : Path) (place : Place) :
    d.filesBelow folder root place = sortBy Path.walkLe
      ((((d.below place).filter (isListed root)).filter (·.2 ≠ .folder)).map (·.1)) := by
  unfold filesBelow
  dsimp only
  congr 2
  apply List.filter_congr
  rintro ⟨below, x⟩ mem
  rcases t.node (mem_below t (List.mem_filter.mp mem).1).2 with rfl | ⟨bs, rfl⟩
  · simp [isFileEntry]
  · simp [isFileEntry]

theorem Tree.filesBelow_perm (t : d.Tree) (perm : entries.Perm d.entries) (folder : Place)
    (root : Path) (place : Place) :
    (⟨entries⟩ : Disk).filesBelow folder root place = d.filesBelow folder root place := by
  rw [(t.of_perm perm).filesBelow_eq, t.filesBelow_eq]
  apply sortBy_walkLe
  exact (((perm.filterMap _).filter _).filter _).map _

theorem Tree.nodup_filesBelow (t : d.Tree) (folder : Place) (root : Path) (place : Place) :
    (d.filesBelow folder root place).Nodup := by
  rw [t.filesBelow_eq]
  apply (sortBy_perm _ _).nodup_iff.mpr
  exact (nodup_below t place).sublist ((List.filter_sublist.trans List.filter_sublist).map _)

end Listing

theorem lexical_names {names : List Text} (down : parentName ∉ names) (cur : Place) :
    lexical cur names = cur ++ names := by
  induction names generalizing cur with
  | nil => simp [lexical]
  | cons n rest ih =>
    have here : n ≠ parentName := fun eq => down (eq ▸ List.mem_cons_self)
    rw [lexical, if_neg here, ih fun mem => down (List.mem_cons_of_mem n mem)]
    simp

theorem Tree.spelled_through (t : d.Tree) {cur p : Place} {names : List Text}
    (leads : d.through cur names = some p) : ∀ n ∈ names, Char.ofNat 0 ∉ n := by
  induction names generalizing cur with
  | nil => simp
  | cons n rest ih =>
    unfold through at leads
    intro m hm
    split at leads
    · rename_i self
      rcases List.mem_cons.mp hm with rfl | hm
      · rw [self]
        decide
      · exact ih leads m hm
    · split at leads
      · rename_i up
        rcases List.mem_cons.mp hm with rfl | hm
        · rw [up]
          decide
        · exact ih leads m hm
      · split at leads
        · cases leads
        · split at leads
          · rename_i isFolder
            rcases List.mem_cons.mp hm with rfl | hm
            · exact (t.above isFolder).2.1.noNull
            · exact ih leads m hm
          · cases leads

end Disk

namespace Rooted

variable {d : Disk} {folder place : Place} {root : Path}

theorem spelled (s : Rooted d folder root place) : Char.ofNat 0 ∉ root.text := by
  have names := s.tree.spelled_through s.through_root
  have whole : Char.ofNat 0 ∉ Path.anchorText root.anchor ++ Text.join ['/'] root.parts := by
    intro mem
    rcases List.mem_append.mp mem with mem | mem
    · cases h : root.anchor <;> simp [h, Path.anchorText] at mem
    · rcases Text.mem_join mem with mem | ⟨n, hn, mem⟩
      · exact absurd mem (by decide)
      · exact names n hn mem
  unfold Path.text
  split
  · decide
  · exact whole

theorem plainPlace_start (s : Rooted d folder root place) :
    plainPlace folder (searchStart folder root) = place := by
  unfold searchStart
  split
  · exact s.plainPlace_root
  · have down : parentName ∉ place := fun mem =>
      (s.tree.proper_of_mem s.isFolder mem).1.notParent rfl
    rw [s.plainPlace_root]
    exact lexical_names down []

end Rooted

namespace Workspace

variable {d : Disk} {folder place : Place} {root start : Path} {w : Workspace}
  {I : Workspace → Prop} [Sees I d folder]

theorem distinct_eq (real : Path → Path) {seen paths : List Path}
    (resolved : ∀ p ∈ paths, resolve p w = .ok (real p) w) (once : (paths.map real).Nodup)
    (new : ∀ p ∈ paths, real p ∉ seen) : distinct seen paths w = .ok paths w := by
  induction paths generalizing seen with
  | nil => rfl
  | cons p rest ih =>
    rw [List.map_cons, List.nodup_cons] at once
    have others : distinct (real p :: seen) rest w = .ok rest w := by
      apply ih (fun q hq => resolved q (List.mem_cons_of_mem p hq)) once.2
      intro q hq mem
      rcases List.mem_cons.mp mem with same | mem
      · exact once.1 (same ▸ List.mem_map_of_mem hq)
      · exact new q (List.mem_cons_of_mem p hq) mem
    unfold distinct
    rw [bind_ok (resolved p List.mem_cons_self), if_neg (new p List.mem_cons_self),
      bind_ok others]
    rfl

theorem distinct_files (base : d.Base start place) (starts : plainPlace folder start = place)
    (seen : I w) {files : List (List Text)} (once : files.Nodup)
    (there : ∀ below ∈ files, ∃ x, d.get? (place ++ below) = some x) :
    distinct [] (files.map start.descend) w = .ok (files.map start.descend) w := by
  have names : ∀ below ∈ files, ∀ n ∈ below, ProperName n := by
    intro below hb
    obtain ⟨x, found⟩ := there below hb
    exact base.proper_below found
  have places : ∀ below ∈ files, plainPlace folder (start.descend below) = place ++ below := by
    intro below hb
    have down : parentName ∉ below := fun mem => (names below hb _ mem).notParent rfl
    rw [← starts]
    exact (lexical_append _ start.parts below).trans (lexical_names down _)
  refine distinct_eq (fun p => ⟨.root, plainPlace folder p⟩) ?_ ?_ (by simp)
  · intro p hp
    obtain ⟨below, hb, rfl⟩ := List.mem_map.mp hp
    have spelled := Path.spelled_descend base.absolute base.spelled (names below hb)
    exact resolve_eq base.tree spelled seen
  · rw [List.map_map]
    refine once.map_on ?_
    intro below hb below' hb' same
    have eq : plainPlace folder (start.descend below) = plainPlace folder (start.descend below') :=
      congrArg Path.parts same
    rw [places below hb, places below' hb'] at eq
    exact List.append_cancel_left eq

def sourcesBelow (d : Disk) (folder : Place) (start : Path) (place : Place)
    (extensions : List Text) : List Path :=
  ((d.filesBelow folder start place).map start.descend).filter (hasExtension extensions)

theorem mem_sourcesBelow (t : d.Tree) {extensions : List Text} {q : Path} :
    q ∈ sourcesBelow d folder start place extensions ↔
      ∃ dir n bs, q = start.descend (dir ++ [n]) ∧
        d.get? (place ++ dir ++ [n]) = some (.file bs) ∧
        Utf8.size (start.descend dir).text ≤ maxPathBytes ∧
        Text.lower (Path.suffixOf n) ∈ extensions := by
  unfold sourcesBelow
  rw [List.mem_filter, List.mem_map]
  constructor
  · rintro ⟨⟨below, inside, rfl⟩, extension⟩
    obtain ⟨dir, n, bs, rfl, file, short⟩ := (mem_filesBelow t).mp inside
    exact ⟨dir, n, bs, rfl, file, short, by simpa [hasExtension, suffix_descend] using extension⟩
  · rintro ⟨dir, n, bs, rfl, file, short, extension⟩
    exact ⟨⟨_, (mem_filesBelow t).mpr ⟨dir, n, bs, rfl, file, short⟩, rfl⟩,
      by simpa [hasExtension, suffix_descend] using extension⟩

theorem nodup_sourcesBelow (t : d.Tree) (folder : Place) (start : Path) (place : Place)
    (extensions : List Text) : (sourcesBelow d folder start place extensions).Nodup := by
  refine ((t.nodup_filesBelow folder start place).map fun below below' same => ?_).filter _
  exact List.append_cancel_left (congrArg Path.parts same)

theorem findSources_eq {c : Config} {extensions : List Text} (known : c.extensions = .ok extensions)
    (spelled : Char.ofNat 0 ∉ root.text) (base : d.Base (searchStart folder root) place)
    (starts : plainPlace folder (searchStart folder root) = place) (seen : I w) :
    ∃ w', findSources c (some root) w =
      .ok (sourcesBelow d folder (searchStart folder root) place extensions) w' := by
  obtain ⟨w', searched, seen'⟩ := searchRoot_eq spelled base seen
  have located : ask (searchStart folder root) (fun d folder p => d.locate .enter folder p) w' =
      .ok place w' := by
    rw [ask_eq base.spelled, Sees.disk seen', Sees.folder seen', base.locate_start .enter folder]
  have kept : distinct [] (sourcesBelow d folder (searchStart folder root) place extensions) w' =
      .ok (sourcesBelow d folder (searchStart folder root) place extensions) w' := by
    unfold sourcesBelow
    rw [List.filter_map]
    refine distinct_files base starts seen' ((base.tree.nodup_filesBelow _ _ place).filter _) ?_
    intro below hb
    obtain ⟨dir, n, bs, rfl, file, _⟩ := (mem_filesBelow base.tree).mp (List.mem_filter.mp hb).1
    exact ⟨_, by rw [← List.append_assoc]; exact file⟩
  unfold findSources
  rw [bind_ok searched]
  dsimp only
  rw [known, bind_ok (require_ok extensions w'), bind_ok (start_seen base seen').2.2]
  simp only [Bool.false_eq_true, if_false]
  rw [bind_ok (get_eq w'), bind_ok located, Sees.disk seen', Sees.folder seen', ← sourcesBelow,
    bind_ok kept]
  obtain ⟨w'', noted, _⟩ := note_then _
    (sourcesBelow d folder (searchStart folder root) place extensions) seen'
  exact ⟨w'', noted⟩

end Workspace

theorem Config.extensions_of_texts {c : Config} {texts : List RawText}
    (given : c.get extensionsKey = .list (texts.map .str)) :
    c.extensions = .ok (texts.map fun t => Text.lower t.toText) := by
  have each : (texts.map Json.str).mapM lowered = .ok (texts.map fun t => Text.lower t.toText) := by
    clear given
    induction texts with
    | nil => rfl
    | cons t rest ih =>
      rw [List.map_cons, List.mapM_cons, ih]
      rfl
  unfold extensions
  rw [given]
  exact each

/-- On a disk without links, a search below a folder returns the regular files there whose suffix
is one of the extensions, both in lower case, and whose folder has a path of no more bytes than the
disk takes. It returns each of them once, and the same list however the disk lists its entries. -/
theorem Workspace.findSources_exact {c : Config} {extensions : List RawText} {w : Workspace}
    {root : Path} {place : Place}
    (given : c.get Config.extensionsKey = .list (extensions.map .str))
    (rooted : Rooted w.disk w.folder root place)
    (short : Utf8.size (searchStart w.folder root).text ≤ maxPathBytes) :
    ∃ found : List Path, found.Nodup ∧
      (∀ q, q ∈ found ↔ ∃ dir n bs, q = (searchStart w.folder root).descend (dir ++ [n]) ∧
        w.disk.get? (place ++ dir ++ [n]) = some (.file bs) ∧
        Utf8.size ((searchStart w.folder root).descend dir).text ≤ maxPathBytes ∧
        ∃ suffix, Path.HasSuffix n suffix ∧
          ∃ extension ∈ extensions, Text.lower suffix = Text.lower extension.toText) ∧
      ∀ entries, entries.Perm w.disk.entries →
        ∃ w', findSources c (some root) { w with disk := ⟨entries⟩ } = .ok found w' := by
  have known := Config.extensions_of_texts given
  have base := rooted.base rooted.spelled short
  have named : ∀ n, Text.lower (Path.suffixOf n) ∈ extensions.map (fun e => Text.lower e.toText) ↔
      ∃ suffix, Path.HasSuffix n suffix ∧
        ∃ extension ∈ extensions, Text.lower suffix = Text.lower extension.toText := by
    intro n
    simp only [Path.hasSuffix_iff, exists_eq_left', List.mem_map]
    exact exists_congr fun e => and_congr_right fun _ => eq_comm
  refine ⟨_, nodup_sourcesBelow rooted.tree w.folder (searchStart w.folder root) place
    (extensions.map fun e => Text.lower e.toText), fun q => ?_, fun entries perm => ?_⟩
  · simp only [mem_sourcesBelow rooted.tree, named]
  · have base' : (⟨entries⟩ : Disk).Base (searchStart w.folder root) place :=
      base.of_folders (rooted.tree.of_perm perm) fun p hp => (rooted.tree.get?_perm perm p).trans hp
    obtain ⟨w', found⟩ := findSources_eq known rooted.spelled base' rooted.plainPlace_start
      (Same.refl { w with disk := ⟨entries⟩ })
    refine ⟨w', found.trans ?_⟩
    unfold sourcesBelow
    rw [rooted.tree.filesBelow_perm perm]

section Witness

/-- Names with dots in many places, and a folder that is named like a source. -/
def dottedTree : Disk where
  entries := [(["w".toList], .folder), (["w".toList, "b.tar.java".toList], .file [1]),
    (["w".toList, "sub.java".toList], .folder),
    (["w".toList, "sub.java".toList, "D.Java".toList], .file [2]),
    (["w".toList, ".java".toList], .file [3]), (["w".toList, "c.java.".toList], .file [4]),
    (["w".toList, "A.JAVA".toList], .file [5])]

def dottedConfig : Config :=
  Config.default.update [Json.named Config.extensionsKey (.list [.text ".Java".toList])]

def dottedSituation : Workspace where
  disk := dottedTree
  folder := ["w".toList, "sub.java".toList]
  clock := ⟨"20260101".toList, 0⟩
  epoch := 0

theorem dottedTree_tree : dottedTree.Tree := by decide +kernel

theorem dottedTree_rooted :
    Rooted dottedTree ["w".toList, "sub.java".toList] (.ofText "..".toList) ["w".toList] :=
  ⟨dottedTree_tree, ⟨_, rfl⟩, by decide, rfl⟩

theorem dottedTree_found :
    ∃ found, found = [.ofText "/w/A.JAVA".toList, .ofText "/w/b.tar.java".toList,
        .ofText "/w/sub.java/D.Java".toList] ∧ found.Nodup ∧
      (∀ q, q ∈ found ↔ ∃ dir n bs, q = (Path.ofText "/w".toList).descend (dir ++ [n]) ∧
        dottedTree.get? (["w".toList] ++ dir ++ [n]) = some (.file bs) ∧
        Utf8.size ((Path.ofText "/w".toList).descend dir).text ≤ maxPathBytes ∧
        ∃ suffix, Path.HasSuffix n suffix ∧ ∃ extension ∈ [RawText.ofText ".Java".toList],
          Text.lower suffix = Text.lower extension.toText) ∧
      ∀ entries, entries.Perm dottedTree.entries → ∃ w', Workspace.findSources dottedConfig
        (some (.ofText "..".toList)) { dottedSituation with disk := ⟨entries⟩ } = .ok found w' := by
  have given : dottedConfig.get Config.extensionsKey =
      .list ([RawText.ofText ".Java".toList].map .str) := rfl
  obtain ⟨found, once, all, stable⟩ := Workspace.findSources_exact (w := dottedSituation) given
    dottedTree_rooted (by decide)
  refine ⟨found, ?_, once, all, stable⟩
  obtain ⟨w', searched⟩ := stable dottedTree.entries (.refl _)
  have run : (Workspace.findSources dottedConfig (some (.ofText "..".toList))).run'
      dottedSituation = some [.ofText "/w/A.JAVA".toList, .ofText "/w/b.tar.java".toList,
        .ofText "/w/sub.java/D.Java".toList] := by
    decide +kernel
  unfold EStateM.run' EStateM.run at run
  rw [show dottedSituation = { dottedSituation with disk := ⟨dottedTree.entries⟩ } from rfl,
    searched] at run
  exact Option.some.inj run

def longName : Text := List.replicate 250 'd'

def deepTree : Disk where
  entries := [(["a".toList], .folder), (["a".toList, "C.java".toList], .file []),
    (["a".toList, longName], .folder), (["a".toList, longName, "B.java".toList], .file [])]

/-- A long way to write `/a`. -/
def detour : Path :=
  ⟨.root, "a".toList :: (List.replicate 770 ["..".toList, "a".toList]).flatten⟩

theorem deepTree_tree : deepTree.Tree := by decide +kernel

def deepSituation : Workspace where
  disk := deepTree
  folder := []
  clock := ⟨"20260101".toList, 0⟩
  epoch := 0

/-- A source that is not found, since the path of its folder is too long for the disk. -/
theorem detour_misses :
    deepTree.get? ["a".toList, longName, "B.java".toList] = some (.file []) ∧
    ∃ found w', findSources .default (some detour) deepSituation = .ok found w' ∧
      detour.child "C.java".toList ∈ found ∧
      detour.descend [longName, "B.java".toList] ∉ found := by
  have base : deepTree.Base detour ["a".toList] :=
    ⟨deepTree_tree, rfl, by decide +kernel, by decide +kernel, by decide, by decide +kernel⟩
  have starts : plainPlace [] detour = ["a".toList] := by decide +kernel
  have long : ¬ Utf8.size (detour.descend [longName]).text ≤ maxPathBytes := by decide +kernel
  have known : Config.default.extensions = .ok [".java".toList] := by decide +kernel
  obtain ⟨w', run⟩ := findSources_eq known base.spelled base starts (Same.refl deepSituation)
  refine ⟨by decide +kernel, _, w', run, ?_, fun mem => ?_⟩
  · have short : Utf8.size (detour.descend []).text ≤ maxPathBytes := by
      rw [Path.descend_nil]
      exact base.short
    exact (mem_sourcesBelow deepTree_tree).mpr
      ⟨[], "C.java".toList, [], rfl, rfl, short, by decide +kernel⟩
  · obtain ⟨dir, n, _, same, _, short, _⟩ := (mem_sourcesBelow deepTree_tree).mp mem
    have names : [longName] ++ ["B.java".toList] = dir ++ [n] :=
      List.append_cancel_left (congrArg Path.parts same)
    obtain ⟨rfl, _⟩ := List.append_inj' names rfl
    exact long short

end Witness

end SchedulingNoise
