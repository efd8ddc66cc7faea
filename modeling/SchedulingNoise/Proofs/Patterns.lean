import Mathlib.Data.Char
import Mathlib.Data.List.Lex
import Mathlib.Data.List.Nodup
import SchedulingNoise.Proofs.Outcomes
import SchedulingNoise.Proofs.Reassembly
import SchedulingNoise.Proofs.Roots

/-! What patterns select below a root. A suffix without special characters and with a star before it
selects the names that end with it. So the files that have a backup are found, once each and in
order, unless a file is named by the suffix alone or by a dot and the suffix. -/
namespace SchedulingNoise
open Disk Workspace

namespace Text

theorem lt_iff (s t : Text) : lt s t = true ↔ s < t := by
  fun_induction lt s t with
  | case1 => simp
  | case2 => simp
  | case3 => simp
  | case4 c s d t ih => simp [List.cons_lt_cons_iff, ih]

theorem lt_append (n : Text) {more : Text} (longer : more ≠ []) : n < n ++ more := by
  induction n with
  | nil =>
    cases more with
    | nil => exact absurd rfl longer
    | cons c rest => exact List.nil_lt_cons c rest
  | cons c rest ih => exact List.cons_lt_cons_iff.mpr (.inr ⟨rfl, ih⟩)

end Text

namespace Path

theorem not_cons_lt_cons {a b : Text} {s t : List Text} :
    ¬ b :: t < a :: s ↔ a < b ∨ a = b ∧ ¬ t < s := by
  simp only [List.cons_lt_cons_iff, not_or, not_and, not_lt]
  constructor
  · rintro ⟨le, rest⟩
    rcases lt_or_eq_of_le le with less | eq
    · exact .inl less
    · exact .inr ⟨eq, rest eq.symm⟩
  · rintro (less | ⟨rfl, rest⟩)
    · exact ⟨le_of_lt less, fun eq => absurd eq (ne_of_gt less)⟩
    · exact ⟨le_refl a, fun _ => rest⟩

theorem namesLe_iff (s t : List Text) : namesLe s t = true ↔ ¬ t < s := by
  fun_induction namesLe s t with
  | case1 t => simp
  | case2 => simp
  | case3 a s b t ih =>
    rw [not_cons_lt_cons]
    simp only [Bool.or_eq_true, Bool.and_eq_true, Text.lt_iff, ih, beq_iff_eq]

theorem le_iff (p q : Path) : p.le q = true ↔ p.sortKey ≤ q.sortKey := by
  rw [← not_lt]
  exact namesLe_iff _ _

theorem sorted_sortBy (ps : List Path) : (sortBy le ps).Pairwise (le · ·) := by
  refine pairwise_sortBy (fun p q r h h' => ?_) (fun p q => ?_) ps
  · rw [le_iff] at *
    exact le_trans h h'
  · rw [Bool.or_eq_true, le_iff, le_iff]
    exact le_total _ _

theorem sortKey_descend (p : Path) (ns : List Text) : (p.descend ns).sortKey = p.sortKey ++ ns := by
  unfold sortKey descend
  dsimp only
  split <;> simp

theorem not_le_extended (p : Path) (dir : List Text) (n : Text) {more : Text} (longer : more ≠ []) :
    ¬ (p.descend (dir ++ [n ++ more])).le (p.descend (dir ++ [n])) := by
  have before : p.sortKey ++ dir ++ [n] < p.sortKey ++ dir ++ [n ++ more] :=
    List.append_left_lt (List.cons_lt_cons_iff.mpr (.inl (Text.lt_append n longer)))
  rw [le_iff, sortKey_descend, sortKey_descend, ← List.append_assoc, ← List.append_assoc, not_le]
  exact before

end Path

namespace Glob

theorem fits_chars (t s : Text) : fits (t.map .char) s = decide (s = t) := by
  induction t generalizing s with
  | nil => cases s <;> rfl
  | cons c rest ih =>
    cases s with
    | nil => rfl
    | cons x xs =>
      simp only [List.map_cons, fits, accepts, ih, List.cons.injEq, Bool.decide_and]
      congr 1
      exact decide_eq_decide.mpr eq_comm

theorem anyEnd_iff (f : Text → Bool) (t : Text) :
    anyEnd f t = true ↔ ∃ s, s <:+ t ∧ f s = true := by
  induction t with
  | nil => simp [anyEnd]
  | cons c rest ih =>
    simp only [anyEnd, Bool.or_eq_true, ih, List.suffix_cons_iff]
    constructor
    · rintro (h | ⟨s, hs, hf⟩)
      · exact ⟨c :: rest, .inl rfl, h⟩
      · exact ⟨s, .inr hs, hf⟩
    · rintro ⟨s, rfl | hs, hf⟩
      · exact .inl hf
      · exact .inr ⟨s, hs, hf⟩

/-- A pattern that stands for itself alone. -/
def Literal (t : Text) : Prop := ofText t = t.map .char

instance (t : Text) : Decidable (Literal t) := inferInstanceAs (Decidable (_ = _))

theorem Literal.noStar {t : Text} (h : Literal t) : '*' ∉ t := by
  induction t with
  | nil => simp
  | cons c rest ih =>
    have class_ne : ∀ t, classOf t ≠ .char c := by
      intro t
      unfold classOf
      dsimp only
      split <;> simp
    unfold Literal ofText at h
    rw [List.length_cons, readParts, List.map_cons] at h
    by_cases star : c = '*'
    · simp [star] at h
    · have more : Literal rest := by
        rw [if_neg star] at h
        split at h
        · simp at h
        · split at h
          · split at h
            · rename_i found
              obtain ⟨inner, _, eq⟩ := Option.map_eq_some_iff.mp found
              cases eq
              exact absurd (List.cons.inj h).1 (class_ne _)
            · exact (List.cons.inj h).2
          · exact (List.cons.inj h).2
      simpa [Ne.symm star] using ih more

end Glob

namespace Workspace

theorem nameFits_star {suffix : Text} (literal : Glob.Literal suffix) (n : Text) :
    nameFits ('*' :: suffix) n = true ↔ suffix <:+ n := by
  have parts : Glob.ofText ('*' :: suffix) = .star :: suffix.map .char := congrArg _ literal
  unfold nameFits
  rw [parts, Glob.fits, Glob.anyEnd_iff]
  simp [Glob.fits_chars]

theorem names_star {suffix : Text} (plain : '/' ∉ suffix) :
    Path.names ('*' :: suffix) = ['*' :: suffix] := by
  have whole : Text.splitOn ['/'] ('*' :: suffix) = ['*' :: suffix] :=
    Text.splitOn_of_not_infix fun h => by
      have mem := h.subset (List.mem_singleton_self '/')
      simp [plain] at mem
  simp [Path.names, whole]

theorem patternNames_star {suffix : Text} (plain : '/' ∉ suffix) (noStar : '*' ∉ suffix) :
    patternNames ('*' :: suffix) = .ok ['*' :: suffix] := by
  have last : ('*' :: suffix).getLast? ≠ some '/' := fun h => by
    have mem := List.mem_of_getLast? h
    simp [plain] at mem
  have one : Text.contains anyFolders ('*' :: suffix) = false := by
    rw [Bool.eq_false_iff, ne_eq, Text.contains_iff]
    intro inside
    rcases List.infix_cons_iff.mp inside with first | later
    · have second := (List.cons_prefix_cons.mp first).2
      exact noStar (second.subset List.mem_cons_self)
    · exact noStar (later.subset List.mem_cons_self)
  unfold patternNames
  dsimp only
  rw [names_star plain, if_neg last]
  simp [one]

end Workspace

section Lists

variable {ε σ α β : Type}

theorem mapM_ok {f : α → EStateM ε σ β} {g : α → β} {s : σ} (xs : List α)
    (each : ∀ x ∈ xs, f x s = .ok (g x) s) : xs.mapM f s = .ok (xs.map g) s := by
  induction xs with
  | nil => rfl
  | cons x rest ih =>
    rw [List.mapM_cons, bind_ok (each x List.mem_cons_self),
      bind_ok (ih fun y hy => each y (List.mem_cons_of_mem x hy))]
    rfl

theorem forM_ok {f : α → EStateM ε σ Unit} {s : σ} (xs : List α)
    (each : ∀ x ∈ xs, f x s = .ok () s) : xs.forM f s = .ok () s := by
  induction xs with
  | nil => rfl
  | cons x rest ih =>
    have later := ih fun y hy => each y (List.mem_cons_of_mem x hy)
    exact (bind_ok (each x List.mem_cons_self) fun _ => rest.forM f).trans later

theorem filterM_ok {f : α → EStateM ε σ Bool} {P : α → Prop} [DecidablePred P] {s : σ}
    (xs : List α) (each : ∀ x ∈ xs, ∃ b, f x s = .ok b s ∧ (b = true ↔ P x)) :
    xs.filterM f s = .ok (xs.filter P) s := by
  have aux : ∀ (xs kept : List α), (∀ x ∈ xs, ∃ b, f x s = .ok b s ∧ (b = true ↔ P x)) →
      xs.filterAuxM f kept s = .ok ((xs.filter P).reverse ++ kept) s := by
    intro xs
    induction xs with
    | nil => exact fun kept _ => rfl
    | cons x rest ih =>
      intro kept each
      obtain ⟨b, tested, iff⟩ := each x List.mem_cons_self
      rw [List.filterAuxM, bind_ok tested, ih _ fun y hy => each y (List.mem_cons_of_mem x hy)]
      cases b with
      | false =>
        have out : ¬ P x := fun h => by simpa using iff.mpr h
        simp [out]
      | true => simp [iff.mp rfl]
  unfold List.filterM
  rw [bind_ok (aux xs [] each)]
  simp [pure, EStateM.pure]

theorem mapM_error {f : α → Except ε β} {xs : List α} {x : α} {e : ε} (mem : x ∈ xs)
    (failed : f x = .error e) : ∃ y ∈ xs, ∃ e, f y = .error e ∧ xs.mapM f = .error e := by
  induction xs with
  | nil => cases mem
  | cons z rest ih =>
    cases first : f z with
    | error e =>
      refine ⟨z, List.mem_cons_self, e, first, ?_⟩
      rw [List.mapM_cons, first]
      rfl
    | ok y =>
      have mem : x ∈ rest := by
        rcases List.mem_cons.mp mem with rfl | mem
        · rw [failed] at first
          cases first
        · exact mem
      obtain ⟨v, inRest, e, failed', others⟩ := ih mem
      refine ⟨v, List.mem_cons_of_mem z inRest, e, failed', ?_⟩
      rw [List.mapM_cons, first, others]
      rfl

end Lists

section Folders

variable {d : Disk} {folder place : Place} {start : Path} {dir : List Text} {w : Workspace}
  {I : Workspace → Prop}

theorem mem_below {below : List Text} {x : Node} (t : d.Tree) (h : (below, x) ∈ d.below place) :
    below ≠ [] ∧ d.get? (place ++ below) = some x := by
  obtain ⟨e, mem, found⟩ := List.mem_filterMap.mp h
  split at found
  · rename_i inside
    simp only [Bool.and_eq_true, List.isPrefixOf_iff_prefix, decide_eq_true_eq] at inside
    obtain ⟨⟨rest, whole⟩, longer⟩ := inside
    cases found
    rw [← whole, List.drop_left]
    rw [← whole, List.length_append] at longer
    refine ⟨fun none => by simp [none] at longer, ?_⟩
    rw [whole]
    exact t.get?_of_mem mem
  · cases found

theorem mem_names {n : Text} (t : d.Tree) (p : Place) :
    n ∈ d.names p ↔ ∃ x, d.get? (p ++ [n]) = some x := by
  unfold Disk.names
  rw [List.mem_filterMap]
  constructor
  · rintro ⟨e, mem, found⟩
    cases last : e.1.getLast? with
    | none => simp [last] at found
    | some m =>
      rw [last] at found
      dsimp only at found
      split at found
      · rename_i inside
        cases found
        obtain ⟨front, whole⟩ := List.getLast?_eq_some_iff.mp last
        rw [whole, List.dropLast_concat] at inside
        rw [← inside, ← whole]
        exact ⟨e.2, t.get?_of_mem mem⟩
      · cases found
  · rintro ⟨x, found⟩
    exact ⟨(p ++ [n], x), Tree.mem_of_get? (by simp) found, by simp⟩

theorem nodup_names (t : d.Tree) (p : Place) : (d.names p).Nodup := by
  have keys : d.names p = (d.entries.map (·.1)).filterMap fun q =>
      if q.dropLast = p then q.getLast? else none := by
    rw [List.filterMap_map]
    refine List.filterMap_congr fun e _ => ?_
    dsimp only [Function.comp_apply]
    cases e.1.getLast? with
    | none => simp
    | some n => rfl
  have whole : ∀ (q : Place) (n : Text),
      n ∈ (if q.dropLast = p then q.getLast? else none) → q = p ++ [n] := by
    intro q n hq
    simp only [Option.mem_def, Option.ite_none_right_eq_some] at hq
    obtain ⟨rfl, last⟩ := hq
    obtain ⟨front, rfl⟩ := List.getLast?_eq_some_iff.mp last
    rw [List.dropLast_concat]
  rw [keys]
  refine t.distinct.filterMap fun q q' n hq hq' => ?_
  rw [whole q n hq, whole q' n hq']

def foldersBelow (d : Disk) (place : Place) : List (List Text) :=
  [] :: ((d.below place).filter fun e => e.2 = .folder).map (·.1)

theorem below_of_get? {below : List Text} {x : Node} (nonempty : below ≠ [])
    (found : d.get? (place ++ below) = some x) : (below, x) ∈ d.below place := by
  have entry : (place ++ below, x) ∈ d.entries := Tree.mem_of_get? (by simp [nonempty]) found
  refine List.mem_filterMap.mpr ⟨_, entry, ?_⟩
  have longer : place.length < (place ++ below).length := by
    rw [List.length_append]
    have := List.length_pos_iff.mpr nonempty
    omega
  have inner : place.isPrefixOf (place ++ below) = true :=
    List.isPrefixOf_iff_prefix.mpr (List.prefix_append place below)
  simp only [inner, longer, decide_true, Bool.and_self, if_true, List.drop_left]

theorem mem_foldersBelow (base : d.Base start place) :
    dir ∈ foldersBelow d place ↔ d.get? (place ++ dir) = some .folder := by
  unfold foldersBelow
  constructor
  · intro h
    rcases List.mem_cons.mp h with rfl | h
    · simpa using base.folder
    · obtain ⟨⟨names, x⟩, inside, rfl⟩ := List.mem_map.mp h
      obtain ⟨here, isFolder⟩ := List.mem_filter.mp inside
      simp only [decide_eq_true_eq] at isFolder
      exact isFolder ▸ (mem_below base.tree here).2
  · intro found
    by_cases here : dir = []
    · simp [here]
    · have inside : (dir, Node.folder) ∈ d.below place := below_of_get? here found
      exact List.mem_cons_of_mem _
        (List.mem_map.mpr ⟨_, List.mem_filter.mpr ⟨inside, by simp⟩, rfl⟩)

theorem nodup_below (t : d.Tree) (place : Place) : ((d.below place).map (·.1)).Nodup := by
  have keys : (d.below place).map (·.1) = (d.entries.map (·.1)).filterMap fun q =>
      if place.isPrefixOf q && place.length < q.length then some (q.drop place.length)
      else none := by
    unfold Disk.below
    rw [List.map_filterMap, List.filterMap_map]
    congr 1
    funext e
    dsimp only [Function.comp]
    split <;> rfl
  rw [keys]
  refine t.distinct.filterMap fun q q' rest hq hq' => ?_
  simp only [Option.mem_def, Option.ite_none_right_eq_some, Bool.and_eq_true,
    List.isPrefixOf_iff_prefix, Option.some.injEq] at hq hq'
  obtain ⟨⟨⟨more, rfl⟩, _⟩, same⟩ := hq
  obtain ⟨⟨⟨more', rfl⟩, _⟩, same'⟩ := hq'
  rw [List.drop_left] at same same'
  rw [same, same']

theorem nodup_foldersBelow (t : d.Tree) (place : Place) : (foldersBelow d place).Nodup := by
  refine List.nodup_cons.mpr ⟨fun mem => ?_, ?_⟩
  · obtain ⟨⟨names, x⟩, inside, none⟩ := List.mem_map.mp mem
    exact (mem_below t (List.mem_filter.mp inside).1).1 none
  · exact (nodup_below t place).sublist (List.filter_sublist.map _)

theorem namesIn_eq [Sees I d folder] (base : d.Base start place) (seen : I w)
    (inFolder : d.get? (place ++ dir) = some .folder)
    (short : Utf8.size (start.descend dir).text ≤ maxPathBytes) :
    namesIn (start.descend dir) w = .ok (d.names (place ++ dir)) w := by
  have listed : d.namesAt folder (start.descend dir) = .ok (d.names (place ++ dir)) := by
    unfold namesAt
    rw [base.locate_folder .enter folder inFolder, if_pos short, ok_bind, if_pos inFolder]
    rfl
  unfold namesIn
  rw [bind_ok (get_eq w), Sees.disk seen, Sees.folder seen, listed]
  rfl

theorem foldersFrom_eq [Sees I d folder] (base : d.Base start place) (seen : I w)
    (short : ∀ dir, d.get? (place ++ dir) = some .folder →
      Utf8.size (start.descend dir).text ≤ maxPathBytes) :
    foldersFrom start w = .ok ((foldersBelow d place).map start.descend) w := by
  have paths : start :: ((d.below place).filter fun e => e.2 = .folder).map
      (fun e => start.descend e.1) = (foldersBelow d place).map start.descend := by
    simp only [foldersBelow, List.map_cons, List.map_map, Path.descend_nil]
    rfl
  have listed : (((foldersBelow d place).map start.descend).forM
      fun q => do let _ ← namesIn q : Act Unit) w = .ok () w := by
    apply forM_ok
    intro q hq
    obtain ⟨dir, mem, rfl⟩ := List.mem_map.mp hq
    have inFolder := (mem_foldersBelow base).mp mem
    rw [bind_ok (namesIn_eq base seen inFolder (short dir inFolder))]
    rfl
  unfold foldersFrom
  rw [bind_ok (get_eq w), Sees.disk seen, Sees.folder seen, base.locate_start .enter folder]
  dsimp only
  rw [paths, bind_ok listed]
  rfl

theorem descend_inj {dir' : List Text} {n n' : Text}
    (h : start.descend (dir ++ [n]) = start.descend (dir' ++ [n'])) : dir = dir' ∧ n = n' := by
  have parts := List.append_cancel_left (congrArg Path.parts h)
  obtain ⟨front, last⟩ := List.append_inj' parts rfl
  exact ⟨front, List.singleton_inj.mp last⟩

theorem name_descend (dir : List Text) (n : Text) : (start.descend (dir ++ [n])).name = n := by
  simp [Path.name, Path.descend, ← List.append_assoc]

end Folders

section Root

variable {d : Disk} {folder place : Place} {root start : Path} {w : Workspace}
  {I : Workspace → Prop} [Sees I d folder]

include folder in
theorem start_seen (base : d.Base start place) (seen : I w) :
    exists? start w = .ok true w ∧ isFolder start w = .ok true w ∧
      isFile start w = .ok false w := by
  have inFolder : d.get? (place ++ []) = some .folder := by simpa using base.folder
  have short : Utf8.size (start.descend []).text ≤ maxPathBytes := by simpa using base.short
  have there := exists?_folder base seen inFolder short
  have isFolder := isFolder_folder base seen inFolder short
  have isFile := isFile_folder base seen inFolder short
  rw [Path.descend_nil] at there isFolder isFile
  exact ⟨there, isFolder, isFile⟩

theorem resolve_eq (t : d.Tree) {p : Path} (spelled : Char.ofNat 0 ∉ p.text) (seen : I w) :
    resolve p w = .ok ⟨.root, plainPlace folder p⟩ w := by
  unfold resolve
  rw [bind_ok (requireSpelled_eq spelled), bind_ok (get_eq w), Sees.disk seen, Sees.folder seen,
    t.real_eq p]
  change _ = (pure ⟨.root, plainPlace folder p⟩ : Act Path) w
  apply congrFun
  split
  · rename_i looped
    exact absurd looped (t.node_ne_loop _)
  · rfl

theorem fromRoot_eq (t : d.Tree) (spelled : Char.ofNat 0 ∉ root.text) (seen : I w) :
    ∃ w', fromRoot root w = .ok (searchStart folder root) w' ∧ I w' := by
  unfold fromRoot searchStart
  by_cases absolute : root.isAbsolute = true
  · simp only [if_pos absolute]
    exact ⟨w, rfl, seen⟩
  · simp only [if_neg absolute]
    obtain ⟨w', noted, seen'⟩ := note_then
      ⟨.debug, s!"Relative path detected: {root} - converting to absolute"⟩ () seen
    refine ⟨w', ?_, seen'⟩
    rw [bind_ok (show note _ w = .ok () w' from noted),
      bind_ok (attempt_ok (resolve_eq t spelled seen'))]
    rfl

theorem searchRoot_eq (spelled : Char.ofNat 0 ∉ root.text)
    (base : d.Base (searchStart folder root) place) (seen : I w) :
    ∃ w', searchRoot (some root) w = .ok (some (searchStart folder root)) w' ∧ I w' := by
  obtain ⟨w', entered, seen'⟩ := fromRoot_eq base.tree spelled seen
  have there := (start_seen base seen').1
  have checked : checkPath root { mustExist := true } w = .ok (searchStart folder root) w' := by
    unfold checkPath
    rw [bind_ok entered]
    simp only [if_true, Bool.false_eq_true, if_false]
    rw [bind_ok there]
    rfl
  refine ⟨w', ?_, seen'⟩
  unfold searchRoot
  rw [bind_ok (attempt_ok checked)]
  rfl

end Root

section Matches

variable {d : Disk} {folder place : Place} {root start : Path} {dir : List Text} {w : Workspace}
  {I : Workspace → Prop} {suffix : Text}

def endingPaths (d : Disk) (start : Path) (place : Place) (suffix : Text) : List Path :=
  (foldersBelow d place).flatMap fun dir =>
    ((d.names (place ++ dir)).filter (nameFits ('*' :: suffix))).map (start.descend dir).child

theorem mem_endingPaths (literal : Glob.Literal suffix) (base : d.Base start place) {q : Path} :
    q ∈ endingPaths d start place suffix ↔ ∃ dir n x, q = start.descend (dir ++ [n]) ∧
      suffix <:+ n ∧ d.get? (place ++ dir ++ [n]) = some x := by
  simp only [endingPaths, List.mem_flatMap, List.mem_map, List.mem_filter, mem_foldersBelow base,
    mem_names base.tree, nameFits_star literal, child_descend]
  constructor
  · rintro ⟨dir, _, n, ⟨⟨x, found⟩, fits⟩, rfl⟩
    exact ⟨dir, n, x, rfl, fits, found⟩
  · rintro ⟨dir, n, x, rfl, fits, found⟩
    exact ⟨dir, (base.tree.above found).1, n, ⟨⟨x, found⟩, fits⟩, rfl⟩

theorem nodup_endingPaths (t : d.Tree) : (endingPaths d start place suffix).Nodup := by
  refine List.nodup_flatMap.mpr ⟨fun dir _ => ?_, ?_⟩
  · refine ((nodup_names t _).filter _).map fun n n' same => ?_
    rw [child_descend, child_descend] at same
    exact (descend_inj same).2
  · refine (nodup_foldersBelow t place).imp fun {dir dir'} other => ?_
    intro q hq hq'
    obtain ⟨n, _, rfl⟩ := List.mem_map.mp hq
    obtain ⟨n', _, same⟩ := List.mem_map.mp hq'
    rw [child_descend, child_descend] at same
    exact other (descend_inj same).1.symm

theorem select_ending [Sees I d folder] (noStar : '*' ∉ suffix) (base : d.Base start place)
    (seen : I w) (inFolder : d.get? (place ++ dir) = some .folder)
    (short : Utf8.size (start.descend dir).text ≤ maxPathBytes) :
    select ['*' :: suffix] (start.descend dir) w =
      .ok (((d.names (place ++ dir)).filter (nameFits ('*' :: suffix))).map
        (start.descend dir).child) w := by
  have each : ∀ inside : List Path, inside.mapM (select []) w = .ok (inside.map ([·])) w :=
    fun inside => mapM_ok inside fun q _ => rfl
  have notAny : '*' :: suffix ≠ anyFolders := fun eq =>
    noStar (by rw [(List.cons.inj eq).2]; exact List.mem_singleton_self _)
  have magic : Glob.hasMagic ('*' :: suffix) = true := by simp [Glob.hasMagic]
  unfold select
  rw [if_neg (by simp), if_neg notAny, if_pos magic,
    bind_ok (namesIn_eq base seen inFolder short)]
  simp only [List.isEmpty_nil, if_true]
  rw [bind_ok (show (pure _ : Act (List Path)) w = .ok _ w from rfl), bind_ok (each _)]
  simp only [← List.flatMap_def, List.flatMap_singleton']
  rfl

theorem matchesBelow_eq [Sees I d folder] (plain : '/' ∉ suffix) (noStar : '*' ∉ suffix)
    (base : d.Base start place) (seen : I w)
    (short : ∀ dir, d.get? (place ++ dir) = some .folder →
      Utf8.size (start.descend dir).text ≤ maxPathBytes) :
    matchesBelow start ('*' :: suffix) w = .ok (endingPaths d start place suffix) w := by
  have each := mapM_ok (f := select ['*' :: suffix] ∘ start.descend)
    (foldersBelow d place) fun dir mem => by
      have inFolder := (mem_foldersBelow base).mp mem
      exact select_ending noStar base seen inFolder (short dir inFolder)
  unfold matchesBelow
  rw [patternNames_star plain noStar, bind_ok (require_ok ['*' :: suffix] w),
    bind_ok (start_seen base seen).2.1]
  simp only [if_true]
  unfold select
  rw [if_neg (by decide), if_pos rfl, bind_ok (foldersFrom_eq base seen short), List.mapM_map,
    bind_ok each]
  have one : ['*' :: suffix].contains anyFolders = false := by
    simp only [List.contains_eq_mem, List.mem_singleton, decide_eq_false_iff_not]
    exact fun eq => noStar (by rw [← (List.cons.inj eq).2]; exact List.mem_singleton_self _)
  simp only [one, Bool.false_eq_true, if_false]
  rfl

end Matches

section Backups

variable {d : Disk} {folder place : Place} {root start : Path} {dir : List Text} {w : Workspace}
  {I : Workspace → Prop} {c : Config} {raw : RawText}

/-- A file below a place that is named like the backup of a file. -/
def Saved (d : Disk) (place : Place) (suffix : Text) (dir : List Text) (n : Text) (bs : Bytes) :
    Prop :=
  d.get? (place ++ dir ++ [n ++ suffix]) = some (.file bs)

def IsBackup (d : Disk) (start : Path) (place : Place) (suffix : Text) (q : Path) : Prop :=
  ∃ dir n bs, Saved d place suffix dir n bs ∧ q = start.descend (dir ++ [n ++ suffix])

theorem isFile_ending [Sees I d folder] (reach : Reach d folder root place) (seen : I w)
    {n : Text} {x : Node} (found : d.get? (place ++ dir ++ [n]) = some x) :
    ∃ b, isFile ((searchStart folder root).descend (dir ++ [n])) w = .ok b w ∧
      (b = true ↔ ∃ bs, x = .file bs) := by
  obtain ⟨inFolder, proper, size⟩ := reach.base.tree.above found
  have short := reach.short (dir ++ [n]) x (by rw [← List.append_assoc]; exact found)
  have leads := reach.base.locate_name .enter folder inFolder proper
  rw [if_pos ⟨short, size⟩] at leads
  have node : w.disk.node w.folder ((searchStart folder root).descend (dir ++ [n])) = .ok x := by
    unfold Disk.node
    rw [Sees.disk seen, Sees.folder seen, leads]
    simp only [bind, Except.bind, found]
    rfl
  have spelled := Path.spelled_descend reach.base.absolute reach.base.spelled
    (reach.base.proper_name inFolder proper)
  unfold isFile
  rw [bind_ok (node?_of_node spelled node)]
  rcases reach.base.tree.node found with rfl | ⟨bs, rfl⟩
  · exact ⟨false, rfl, by simp⟩
  · exact ⟨true, rfl, by simp⟩

theorem cutEnd_append (n : Text) {suffix : Text} (longer : suffix ≠ []) :
    cutEnd (n ++ suffix) suffix.length = n := by
  unfold cutEnd
  rw [if_neg (by simpa using longer), List.length_append, Nat.add_sub_cancel, List.take_left]

theorem findBackedUp_named [Sees I d folder] (given : c.suffix = .ok raw)
    (plain : '/' ∉ raw.toText) (literal : Glob.Literal raw.toText)
    (reach : Reach d folder root place) (seen : I w) :
    ∃ (backups : List Path) (w' : Workspace), I w' ∧ backups.Nodup ∧
      (∀ q, q ∈ backups ↔ IsBackup d (searchStart folder root) place raw.toText q) ∧
      findBackedUp c (some root) w =
        match backups.mapM fun b => b.withName (cutEnd b.name raw.toText.length) with
        | .ok sources => .ok (sortBy Path.le sources) w'
        | .error f => .error f w' := by
  classical
  obtain ⟨w', searched, seen'⟩ := searchRoot_eq reach.spelled reach.base seen
  have matched := matchesBelow_eq plain literal.noStar reach.base seen' fun dir h =>
    reach.short dir .folder h
  have tested : ∀ q ∈ endingPaths d (searchStart folder root) place raw.toText,
      ∃ b, isFile q w' = .ok b w' ∧
        (b = true ↔ IsBackup d (searchStart folder root) place raw.toText q) := by
    intro q hq
    obtain ⟨dir, m, x, rfl, ⟨n, rfl⟩, found⟩ := (mem_endingPaths literal reach.base).mp hq
    obtain ⟨b, looked, iff⟩ := isFile_ending reach seen' found
    refine ⟨b, looked, iff.trans ⟨?_, ?_⟩⟩
    · rintro ⟨bs, rfl⟩
      exact ⟨dir, n, bs, found, rfl⟩
    · rintro ⟨dir', n', bs, saved, eq⟩
      obtain ⟨rfl, same⟩ := descend_inj eq
      unfold Saved at saved
      rw [← same, found] at saved
      exact ⟨bs, Option.some.inj saved⟩
  refine ⟨(endingPaths d (searchStart folder root) place raw.toText).filter
    (IsBackup d (searchStart folder root) place raw.toText), w', seen',
    (nodup_endingPaths reach.base.tree).filter _, fun q => ?_, ?_⟩
  · rw [List.mem_filter, decide_eq_true_eq, and_iff_right_iff_imp]
    rintro ⟨dir, n, bs, saved, rfl⟩
    exact (mem_endingPaths literal reach.base).mpr
      ⟨dir, n ++ raw.toText, _, rfl, List.suffix_append n _, saved⟩
  · unfold findBackedUp
    rw [bind_ok searched]
    dsimp only
    rw [bind_ok (start_seen reach.base seen').2.2]
    simp only [Bool.false_eq_true, if_false]
    rw [given, bind_ok (require_ok raw w'), bind_ok matched, bind_ok (filterM_ok _ tested)]
    generalize List.mapM (m := Except Fault) _ _ = named
    cases named <;> rfl

theorem withName_saved (t : d.Tree) (start : Path) {suffix n : Text} {bs : Bytes}
    (longer : suffix ≠ []) (saved : Saved d place suffix dir n bs) :
    (start.descend (dir ++ [n ++ suffix])).withName
        (cutEnd (start.descend (dir ++ [n ++ suffix])).name suffix.length) =
      if n = [] ∨ n = selfName then .error (.invalidName n)
      else .ok (start.descend (dir ++ [n])) := by
  have proper := (t.above saved).2.1
  rw [name_descend, cutEnd_append n longer]
  exact withName_descend _ dir proper.nonempty fun mem =>
    proper.noSlash (List.mem_append_left _ mem)

section Found

variable (given : c.suffix = .ok raw) (longer : raw.toText ≠ []) (plain : '/' ∉ raw.toText)
  (literal : Glob.Literal raw.toText) (reach : Reach d folder root place)
include given longer plain literal reach

/-- The files that have a backup are found, once each and in order. -/
theorem findBackedUp_found [Sees I d folder] (seen : I w)
    (named : ∀ dir n bs, Saved d place raw.toText dir n bs → n ≠ [] ∧ n ≠ selfName) :
    ∃ paths w', findBackedUp c (some root) w = .ok paths w' ∧ I w' ∧
      paths.Pairwise (Path.le · ·) ∧ paths.Nodup ∧
      ∀ q, q ∈ paths ↔ ∃ dir n bs, Saved d place raw.toText dir n bs ∧
        q = (searchStart folder root).descend (dir ++ [n]) := by
  obtain ⟨backups, w', seen', distinct, mem, searched⟩ :=
    findBackedUp_named given plain literal reach seen
  obtain ⟨sources, renamed, relates⟩ := exists_mapM
    (f := fun b => b.withName (cutEnd b.name raw.toText.length))
    (R := fun b p => ∃ dir n bs, Saved d place raw.toText dir n bs ∧
      b = (searchStart folder root).descend (dir ++ [n ++ raw.toText]) ∧
      p = (searchStart folder root).descend (dir ++ [n])) backups fun b hb => by
    obtain ⟨dir, n, bs, saved, rfl⟩ := (mem b).mp hb
    have cut := withName_saved reach.base.tree (searchStart folder root) longer saved
    rw [if_neg (not_or.mpr (named dir n bs saved))] at cut
    exact ⟨_, cut, dir, n, bs, saved, rfl, rfl⟩
  have once : sources.Nodup := by
    refine pairwise_right relates distinct ?_
    rintro _ _ _ _ ⟨dir, n, _, _, rfl, rfl⟩ ⟨dir', n', _, _, rfl, rfl⟩ other same
    obtain ⟨rfl, rfl⟩ := descend_inj same
    exact other rfl
  rw [renamed] at searched
  refine ⟨_, w', searched, seen', Path.sorted_sortBy sources,
    (sortBy_perm _ _).nodup_iff.mpr once, fun q => ?_⟩
  rw [(sortBy_perm _ _).mem_iff]
  constructor
  · intro hq
    obtain ⟨b, _, dir, n, bs, saved, _, rfl⟩ := exists_of_mem_right relates hq
    exact ⟨dir, n, bs, saved, rfl⟩
  · rintro ⟨dir, n, bs, saved, rfl⟩
    obtain ⟨p, hp, dir', n', _, _, eq, rfl⟩ :=
      exists_of_mem_left relates ((mem _).mpr ⟨dir, n, bs, saved, rfl⟩)
    obtain ⟨rfl, same⟩ := descend_inj eq
    cases List.append_cancel_right same
    exact hp

/-- A file that is named by the suffix alone, or by a dot and the suffix, stops the search. -/
theorem findBackedUp_refused [Sees I d folder] (seen : I w) {n : Text} {bs : Bytes}
    (saved : Saved d place raw.toText dir n bs) (nameless : n = [] ∨ n = selfName) :
    ∃ m w', (m = [] ∨ m = selfName) ∧
      findBackedUp c (some root) w = .error (.invalidName m) w' ∧ I w' := by
  obtain ⟨backups, w', seen', _, mem, searched⟩ :=
    findBackedUp_named given plain literal reach seen
  have cut := withName_saved reach.base.tree (searchStart folder root) longer saved
  rw [if_pos nameless] at cut
  obtain ⟨b, hb, e, failed, refused⟩ := mapM_error
    (f := fun b => b.withName (cutEnd b.name raw.toText.length))
    ((mem _).mpr ⟨dir, n, bs, saved, rfl⟩) cut
  obtain ⟨dir', m, bs', saved', rfl⟩ := (mem b).mp hb
  rw [withName_saved reach.base.tree _ longer saved'] at failed
  rw [refused] at searched
  split at failed
  · rename_i out
    cases failed
    exact ⟨m, w', out, searched, seen'⟩
  · cases failed

end Found

end Backups

end SchedulingNoise
