import SchedulingNoise.Proofs.Tree
import SchedulingNoise.Workspace.Names

namespace SchedulingNoise

namespace Utf8

@[simp] theorem size_append (s t : Text) : size (s ++ t) = size s + size t := by
  simp [size, encode]

end Utf8

namespace Text

theorem join_extend (sep : Text) (ps : List Text) (n more : Text) :
    join sep (ps ++ [n ++ more]) = join sep (ps ++ [n]) ++ more := by
  by_cases h : ps = []
  · simp [h, join, List.intercalate]
  · rw [join_append_singleton sep h, join_append_singleton sep h]
    simp

end Text

namespace Path
open Disk

theorem text_of_absolute {p : Path} (h : p.isAbsolute = true) :
    p.text = anchorText p.anchor ++ Text.join ['/'] p.parts := by
  have slash : ∃ c rest, anchorText p.anchor = c :: rest := by
    cases ha : p.anchor with
    | relative => simp [isAbsolute, ha] at h
    | root => exact ⟨'/', [], rfl⟩
    | doubleRoot => exact ⟨'/', ['/'], rfl⟩
  obtain ⟨c, rest, eq⟩ := slash
  rw [text, eq, List.cons_append]

@[simp] theorem isAbsolute_descend (p : Path) (ns : List Text) :
    (p.descend ns).isAbsolute = p.isAbsolute := rfl

theorem text_descend {p : Path} (h : p.isAbsolute = true) (ns : List Text) :
    (p.descend ns).text = anchorText p.anchor ++ Text.join ['/'] (p.parts ++ ns) :=
  text_of_absolute (p := p.descend ns) h

@[simp] theorem descend_nil (p : Path) : p.descend [] = p := by
  simp [descend]

theorem steps_of_whole {ns : List Text} (whole : ∀ n ∈ ns, n ≠ [] ∧ '/' ∉ n) :
    ns.flatMap (fun n => (Text.splitOn ['/'] n).filter (!·.isEmpty)) = ns := by
  induction ns with
  | nil => rfl
  | cons n rest ih =>
    obtain ⟨nonempty, noSlash⟩ := whole n List.mem_cons_self
    have single : Text.splitOn ['/'] n = [n] :=
      Text.splitOn_of_not_infix fun h => noSlash (h.subset (List.mem_singleton_self _))
    rw [List.flatMap_cons, single, ih fun m hm => whole m (List.mem_cons_of_mem n hm)]
    simp [nonempty]

theorem steps_of_proper {ns : List Text} (proper : ∀ n ∈ ns, ProperName n) :
    ns.flatMap (fun n => (Text.splitOn ['/'] n).filter (!·.isEmpty)) = ns :=
  steps_of_whole fun n hn => ⟨(proper n hn).nonempty, (proper n hn).noSlash⟩

theorem steps_descend_whole (p : Path) {ns : List Text} (whole : ∀ n ∈ ns, n ≠ [] ∧ '/' ∉ n) :
    (p.descend ns).steps = p.steps ++ ns := by
  simp only [steps, descend, List.flatMap_append, steps_of_whole whole]

theorem steps_descend (p : Path) {ns : List Text} (proper : ∀ n ∈ ns, ProperName n) :
    (p.descend ns).steps = p.steps ++ ns :=
  p.steps_descend_whole fun n hn => ⟨(proper n hn).nonempty, (proper n hn).noSlash⟩

theorem size_extend {p : Path} (h : p.isAbsolute = true) (dir : List Text) (n more : Text) :
    Utf8.size (p.descend (dir ++ [n ++ more])).text =
      Utf8.size (p.descend (dir ++ [n])).text + Utf8.size more := by
  rw [text_descend h, text_descend h]
  simp only [← List.append_assoc, Text.join_extend, Utf8.size_append]

theorem spelled_descend {p : Path} (h : p.isAbsolute = true) (spelled : Char.ofNat 0 ∉ p.text)
    {ns : List Text} (proper : ∀ n ∈ ns, ProperName n) : Char.ofNat 0 ∉ (p.descend ns).text := by
  rw [text_of_absolute h] at spelled
  rw [text_descend h]
  intro mem
  rcases List.mem_append.mp mem with mem | mem
  · exact spelled (List.mem_append_left _ mem)
  · rcases Text.mem_join mem with mem | ⟨n, hn, mem⟩
    · exact absurd mem (by decide)
    · rcases List.mem_append.mp hn with hn | hn
      · exact spelled (List.mem_append_right _ (Text.mem_join_of_mem _ hn mem))
      · exact (proper n hn).noNull mem

end Path

namespace Disk

/-- An absolute path that leads to a folder of a tree. -/
structure Base (d : Disk) (start : Path) (place : Place) : Prop where
  tree : d.Tree
  absolute : start.isAbsolute = true
  spelled : Char.ofNat 0 ∉ start.text
  leads : d.through [] start.steps = some place
  folder : d.get? place = some .folder
  short : Utf8.size start.text ≤ maxPathBytes

def Fits (start : Path) (dir : List Text) (n : Text) : Prop :=
  Utf8.size (start.descend (dir ++ [n])).text ≤ maxPathBytes ∧ Utf8.size n ≤ maxNameBytes

instance (start : Path) (dir : List Text) (n : Text) : Decidable (Fits start dir n) :=
  inferInstanceAs (Decidable (_ ∧ _))

theorem Fits.of_extended {start : Path} (absolute : start.isAbsolute = true) {dir : List Text}
    {n more : Text} (h : Fits start dir (n ++ more)) : Fits start dir n := by
  have longer := Path.size_extend absolute dir n more
  have bytes := Utf8.size_append n more
  exact ⟨by have := h.1; omega, by have := h.2; omega⟩

namespace Base

variable {d : Disk} {start : Path} {place : Place}

theorem proper_below (b : d.Base start place) {dir : List Text} {x : Node}
    (h : d.get? (place ++ dir) = some x) : ∀ n ∈ dir, ProperName n :=
  fun _ hn => (b.tree.proper_of_mem h (List.mem_append_right place hn)).1

theorem proper_name (b : d.Base start place) {dir : List Text} {x : Node}
    (h : d.get? (place ++ dir) = some x) {n : Text} (proper : ProperName n) :
    ∀ m ∈ dir ++ [n], ProperName m := by
  intro m hm
  rcases List.mem_append.mp hm with hm | hm
  · exact b.proper_below h m hm
  · exact List.mem_singleton.mp hm ▸ proper

theorem locate_name (b : d.Base start place) (ending : Ending) (working : Place) {dir : List Text}
    (folder : d.get? (place ++ dir) = some .folder) {n : Text} (proper : ProperName n) :
    d.locate ending working (start.descend (dir ++ [n])) =
      if Fits start dir n then .ok (place ++ dir ++ [n]) else .error .nameTooLong := by
  have names := b.proper_name folder proper
  have real : ([] : Text) ∉ dir ++ [n] := fun mem => (names [] mem).nonempty rfl
  have realName : ([] : Text) ∉ [n] := fun mem => real (List.mem_append_right dir mem)
  unfold locate Fits
  by_cases short : Utf8.size (start.descend (dir ++ [n])).text ≤ maxPathBytes
  · have long : ¬ maxPathBytes < Utf8.size (start.descend (dir ++ [n])).text := Nat.not_lt.mpr short
    rw [if_neg long, Path.isAbsolute_descend, if_pos b.absolute, Path.steps_descend _ names,
      walkLinks, walk_through b.leads ending real,
      walk_through (b.tree.through_below folder) ending realName,
      b.tree.walk_name ending _ proper.nonempty proper.notSelf proper.notParent]
    by_cases name : Utf8.size n ≤ maxNameBytes
    · simp [short, name]
    · simp [name]
  · simp [short, Nat.not_le.mp short]

theorem locate_folder (b : d.Base start place) (ending : Ending) (working : Place)
    {dir : List Text} (folder : d.get? (place ++ dir) = some .folder) :
    d.locate ending working (start.descend dir) =
      if Utf8.size (start.descend dir).text ≤ maxPathBytes then .ok (place ++ dir)
      else .error .nameTooLong := by
  have names := b.proper_below folder
  have real : ([] : Text) ∉ dir := fun mem => (names [] mem).nonempty rfl
  have way := walk_through (b.tree.through_below folder) ending (List.not_mem_nil (a := []))
  unfold locate
  by_cases short : Utf8.size (start.descend dir).text ≤ maxPathBytes
  · have long : ¬ maxPathBytes < Utf8.size (start.descend dir).text := Nat.not_lt.mpr short
    rw [if_neg long, if_pos short, Path.isAbsolute_descend, if_pos b.absolute,
      Path.steps_descend _ names, walkLinks, walk_through b.leads ending real]
    rw [List.append_nil] at way
    simp [way, walk]
  · simp [short, Nat.not_le.mp short]

theorem locate_start (b : d.Base start place) (ending : Ending) (working : Place) :
    d.locate ending working start = .ok place := by
  have here : d.get? (place ++ []) = some .folder := by simpa using b.folder
  simpa [b.short] using b.locate_folder ending working here

/-- Only the folders of a disk matter for the ways through it. -/
theorem of_folders {d' : Disk} (b : d.Base start place) (tree : d'.Tree)
    (folders : ∀ p, d.get? p = some .folder → d'.get? p = some .folder) :
    d'.Base start place := by
  refine ⟨tree, b.absolute, b.spelled, ?_, folders place b.folder, b.short⟩
  have way : ∀ (names : List Text) (cur : Place), d.through cur names = some place →
      d'.through cur names = some place := by
    intro names
    induction names with
    | nil => exact fun cur h => h
    | cons n rest ih =>
      intro cur h
      unfold through at h ⊢
      by_cases self : n = selfName
      · rw [if_pos self] at h ⊢
        exact ih cur h
      · rw [if_neg self] at h ⊢
        by_cases parent : n = parentName
        · rw [if_pos parent] at h ⊢
          exact ih _ h
        · rw [if_neg parent] at h ⊢
          split at h
          · contradiction
          · rename_i good
            rw [if_neg good]
            split at h
            · rename_i isFolder
              rw [if_pos (folders _ isFolder)]
              exact ih _ h
            · contradiction
  exact way _ _ b.leads

end Base

end Disk

end SchedulingNoise
