import SchedulingNoise.Proofs.Backup

/-! Custody of the originals: at every moment the bytes of a source are in the source itself or in
its backup, and nothing else on the disk has changed. -/
namespace SchedulingNoise
open Disk Workspace

structure IsSource (d : Disk) (place : Place) (dir : List Text) (n : Text) : Prop where
  file : ∃ bs, d.get? (place ++ dir ++ [n]) = some (.file bs)
  extension : Text.lower (Path.suffixOf n) = ".java".toList

/-- Nothing below the place has a name that runs use for files of their own. -/
structure Fresh (d : Disk) (place : Place) : Prop where
  noBackup : ∀ dir n bs, d.get? (place ++ dir ++ [n]) = some (.file bs) → ¬ backupEnding <:+ n
  noTrial : ∀ dir bs, d.get? (place ++ dir ++ [trialName]) ≠ some (.file bs)
  noTemporary : ∀ dir n, IsSource d place dir n → ∀ epoch bs,
    d.get? (place ++ dir ++ [temporaryName n epoch]) ≠ some (.file bs)

def Held (d : Disk) (place : Place) (dir : List Text) (n : Text) : Prop :=
  ∃ bs, d.get? (place ++ dir ++ [n ++ backupEnding]) = some (.file bs)

/-- The disk `d` keeps what was on the disk `d₀`. -/
structure Custody (d₀ : Disk) (start : Path) (place : Place) (d : Disk) : Prop where
  base : d.Base start place
  kept : ∀ dir n bs, IsSource d₀ place dir n →
    d.get? (place ++ dir ++ [n ++ backupEnding]) = some (.file bs) →
      d₀.get? (place ++ dir ++ [n]) = some (.file bs) ∧
      d₀.get? (place ++ dir ++ [n ++ backupEnding]) = none ∧
      (∃ now, d.get? (place ++ dir ++ [n]) = some (.file now)) ∧
      Fits start dir (n ++ backupEnding)
  frame : ∀ p, (∀ dir n, IsSource d₀ place dir n → Held d place dir n →
    p ≠ place ++ dir ++ [n] ∧ p ≠ place ++ dir ++ [n ++ backupEnding]) → d.get? p = d₀.get? p

theorem place_inj {place : Place} {dir dir' : List Text} {n n' : Text}
    (h : place ++ dir ++ [n] = place ++ dir' ++ [n']) : dir = dir' ∧ n = n' := by
  obtain ⟨front, last⟩ := List.append_inj' h rfl
  exact ⟨List.append_cancel_left front, List.singleton_inj.mp last⟩

namespace Fresh

variable {d₀ : Disk} {place : Place}

theorem apart (fresh : Fresh d₀ place) {dir dir' : List Text} {n n' : Text} {bs : Bytes}
    (file : d₀.get? (place ++ dir ++ [n]) = some (.file bs)) :
    place ++ dir ++ [n] ≠ place ++ dir' ++ [n' ++ backupEnding] := by
  intro eq
  obtain ⟨_, rfl⟩ := place_inj eq
  exact fresh.noBackup _ _ _ file (List.suffix_append n' backupEnding)

theorem custody {start : Path} (fresh : Fresh d₀ place) (base : d₀.Base start place) :
    Custody d₀ start place d₀ := by
  refine ⟨base, ?_, fun _ _ => rfl⟩
  intro dir n bs _ saved
  exact absurd (List.suffix_append n backupEnding) (fresh.noBackup _ _ _ saved)

end Fresh

theorem temporary_not_backup (n : Text) (epoch : Nat) :
    ¬ backupEnding <:+ temporaryName n epoch := by
  intro ending
  have both : 'r' ∈ Decimal.ofNat epoch := by
    have last : ['r'] <:+ temporaryName n epoch :=
      List.IsSuffix.trans (by decide) ending
    obtain ⟨c, digits⟩ : ∃ c, [c] <:+ Decimal.ofNat epoch := by
      obtain ⟨front, c, eq⟩ := (List.eq_nil_or_concat (Decimal.ofNat epoch)).resolve_left
        Nat.toDigits_ne_nil
      exact ⟨c, front, by rw [eq, List.concat_eq_append]⟩
    have whole : [c] <:+ temporaryName n epoch :=
      digits.trans ((List.suffix_cons '_' _).trans (List.suffix_append _ _))
    have same : ['r'] = [c] :=
      (List.suffix_of_suffix_length_le last whole (by simp)).eq_of_length rfl
    exact digits.subset (same ▸ List.mem_singleton_self 'r')
  exact absurd (Decimal.isDigit_of_mem both) (by decide)

namespace Custody

variable {d₀ d : Disk} {start : Path} {place : Place} {dir : List Text} {n : Text}
  {bs now : Bytes}

theorem present (c : Custody d₀ start place d) (fresh : Fresh d₀ place)
    (source : IsSource d₀ place dir n) :
    ∃ now, d.get? (place ++ dir ++ [n]) = some (.file now) ∧
      (¬ Held d place dir n → d₀.get? (place ++ dir ++ [n]) = some (.file now)) := by
  obtain ⟨was, original⟩ := source.file
  by_cases held : Held d place dir n
  · obtain ⟨saved, hs⟩ := held
    obtain ⟨_, _, ⟨now, here⟩, _⟩ := c.kept dir n saved source hs
    exact ⟨now, here, fun no => absurd ⟨saved, hs⟩ no⟩
  · have same : d.get? (place ++ dir ++ [n]) = d₀.get? (place ++ dir ++ [n]) := by
      apply c.frame
      intro dir' n' _ held'
      refine ⟨fun eq => ?_, fresh.apart original⟩
      obtain ⟨rfl, rfl⟩ := place_inj eq
      exact held held'
    exact ⟨was, same.trans original, fun _ => original⟩

theorem folder_iff (c : Custody d₀ start place d) (p : Place) :
    d.get? p = some .folder ↔ d₀.get? p = some .folder := by
  by_cases touched : ∃ dir n, IsSource d₀ place dir n ∧ Held d place dir n ∧
      (p = place ++ dir ++ [n] ∨ p = place ++ dir ++ [n ++ backupEnding])
  · obtain ⟨dir, n, source, ⟨bs, saved⟩, rfl | rfl⟩ := touched
    · obtain ⟨original, _, ⟨now, here⟩, _⟩ := c.kept dir n bs source saved
      simp only [here, original]
      simp
    · obtain ⟨_, none, _⟩ := c.kept dir n bs source saved
      simp only [saved, none]
      simp
  · rw [c.frame p]
    intro dir n source held
    exact ⟨fun eq => touched ⟨dir, n, source, held, .inl eq⟩,
      fun eq => touched ⟨dir, n, source, held, .inr eq⟩⟩

/-- Every file that was not there before is the backup of a source. -/
theorem file_cases (c : Custody d₀ start place d) {p : Place} (file : d.get? p = some (.file bs)) :
    (∃ was, d₀.get? p = some (.file was)) ∨
      ∃ dir n, IsSource d₀ place dir n ∧ p = place ++ dir ++ [n ++ backupEnding] := by
  by_cases touched : ∃ dir n, IsSource d₀ place dir n ∧ Held d place dir n ∧
      (p = place ++ dir ++ [n] ∨ p = place ++ dir ++ [n ++ backupEnding])
  · obtain ⟨dir, n, source, _, rfl | rfl⟩ := touched
    · exact .inl source.file
    · exact .inr ⟨dir, n, source, rfl⟩
  · refine .inl ⟨bs, ?_⟩
    rw [← c.frame p, file]
    intro dir n source held
    exact ⟨fun eq => touched ⟨dir, n, source, held, .inl eq⟩,
      fun eq => touched ⟨dir, n, source, held, .inr eq⟩⟩

/-- Where a source has no backup, the disk is as it was. -/
theorem backup_frame (c : Custody d₀ start place d) (fresh : Fresh d₀ place)
    (free : ¬ Held d place dir n) :
    d.get? (place ++ dir ++ [n ++ backupEnding]) =
      d₀.get? (place ++ dir ++ [n ++ backupEnding]) := by
  apply c.frame
  intro dir' n' source' held'
  obtain ⟨was', original'⟩ := source'.file
  refine ⟨(fresh.apart original').symm, fun eq => ?_⟩
  obtain ⟨rfl, same⟩ := place_inj eq
  exact free (List.append_cancel_right same ▸ held')

theorem original_of_file (c : Custody d₀ start place d) (ending : ¬ backupEnding <:+ n)
    (file : d.get? (place ++ dir ++ [n]) = some (.file bs)) :
    ∃ was, d₀.get? (place ++ dir ++ [n]) = some (.file was) := by
  rcases c.file_cases file with original | ⟨dir', n', _, eq⟩
  · exact original
  · obtain ⟨_, rfl⟩ := place_inj eq
    exact absurd (List.suffix_append n' backupEnding) ending

theorem noTrial (c : Custody d₀ start place d) (fresh : Fresh d₀ place) :
    d.get? (place ++ dir ++ [trialName]) ≠ some (.file bs) := by
  intro file
  obtain ⟨was, original⟩ := c.original_of_file (by decide) file
  exact fresh.noTrial dir was original

theorem noTemporary (c : Custody d₀ start place d) (fresh : Fresh d₀ place)
    (source : IsSource d₀ place dir n) (epoch : Nat) :
    d.get? (place ++ dir ++ [temporaryName n epoch]) ≠ some (.file bs) := by
  intro file
  obtain ⟨was, original⟩ := c.original_of_file (temporary_not_backup n epoch) file
  exact fresh.noTemporary dir n source epoch was original

theorem backedUp (c : Custody d₀ start place d) (fresh : Fresh d₀ place)
    (source : IsSource d₀ place dir n) (fits : Fits start dir (n ++ backupEnding))
    (absent : d.get? (place ++ dir ++ [n ++ backupEnding]) = none)
    (file : d.get? (place ++ dir ++ [n]) = some (.file bs)) :
    Custody d₀ start place (d.put (place ++ dir ++ [n ++ backupEnding]) (.file bs)) ∧
      Held (d.put (place ++ dir ++ [n ++ backupEnding]) (.file bs)) place dir n := by
  obtain ⟨was, original⟩ := source.file
  have free : ¬ Held d place dir n := fun ⟨_, held⟩ => by rw [absent] at held; cases held
  have put : ∀ p, (d.put (place ++ dir ++ [n ++ backupEnding]) (.file bs)).get? p =
      if p = place ++ dir ++ [n ++ backupEnding] then some (.file bs) else d.get? p :=
    fun p => get?_put (by simp) d (.file bs) p
  have originalBytes : d₀.get? (place ++ dir ++ [n]) = some (.file bs) := by
    obtain ⟨now, here, same⟩ := c.present fresh source
    rw [file] at here
    cases here
    exact same free
  have originalBackup : d₀.get? (place ++ dir ++ [n ++ backupEnding]) = none := by
    rw [← c.backup_frame fresh free, absent]
  have inFolder := (c.base.tree.above file).1
  have proper := (c.base.tree.above file).2.1
  have noFolder : d.get? (place ++ dir ++ [n ++ backupEnding]) ≠ some .folder :=
    not_folder_of_none absent
  have tree := c.base.tree.put_file bs inFolder (proper_backup proper) fits.2 noFolder
  refine ⟨⟨?_, ?_, ?_⟩, ⟨bs, by rw [put, if_pos rfl]⟩⟩
  · refine c.base.of_folders tree fun p hp => ?_
    rw [put, if_neg (fun eq => noFolder (by rw [← eq, hp])), hp]
  · intro dir' n' bs' source' saved'
    obtain ⟨was', original'⟩ := source'.file
    rw [put, if_neg (fresh.apart original')]
    by_cases same : place ++ dir' ++ [n' ++ backupEnding] = place ++ dir ++ [n ++ backupEnding]
    · rw [put, if_pos same] at saved'
      cases saved'
      obtain ⟨rfl, eq⟩ := place_inj same
      cases List.append_cancel_right eq
      exact ⟨originalBytes, originalBackup, ⟨bs, file⟩, fits⟩
    · rw [put, if_neg same] at saved'
      exact c.kept dir' n' bs' source' saved'
  · intro p away
    have here := away dir n source ⟨bs, by rw [put, if_pos rfl]⟩
    rw [put, if_neg here.2]
    apply c.frame
    intro dir' n' source' ⟨bs', held'⟩
    apply away dir' n' source'
    by_cases same : place ++ dir' ++ [n' ++ backupEnding] = place ++ dir ++ [n ++ backupEnding]
    · exact ⟨bs, by rw [put, if_pos same]⟩
    · exact ⟨bs', by rw [put, if_neg same, held']⟩

theorem rewritten (c : Custody d₀ start place d) (fresh : Fresh d₀ place)
    (source : IsSource d₀ place dir n) (held : Held d place dir n) (new : Bytes) :
    Custody d₀ start place (d.put (place ++ dir ++ [n]) (.file new)) ∧
      Held (d.put (place ++ dir ++ [n]) (.file new)) place dir n := by
  obtain ⟨was, original⟩ := source.file
  obtain ⟨now, file, _⟩ := c.present fresh source
  have put : ∀ p, (d.put (place ++ dir ++ [n]) (.file new)).get? p =
      if p = place ++ dir ++ [n] then some (.file new) else d.get? p :=
    fun p => get?_put (by simp) d (.file new) p
  have backups : ∀ dir' n', (d.put (place ++ dir ++ [n]) (.file new)).get?
      (place ++ dir' ++ [n' ++ backupEnding]) = d.get? (place ++ dir' ++ [n' ++ backupEnding]) :=
    fun dir' n' => by rw [put, if_neg (fresh.apart original).symm]
  have holds : ∀ dir' n', Held (d.put (place ++ dir ++ [n]) (.file new)) place dir' n' ↔
      Held d place dir' n' := fun dir' n' => by unfold Held; rw [backups]
  have noFolder : d.get? (place ++ dir ++ [n]) ≠ some .folder :=
    not_folder_of_file file
  obtain ⟨inFolder, proper, short⟩ := c.base.tree.above file
  refine ⟨⟨?_, ?_, ?_⟩, (holds dir n).mpr held⟩
  · have tree := c.base.tree.put_file new inFolder proper short noFolder
    refine c.base.of_folders tree fun p hp => ?_
    rw [put, if_neg (fun eq => noFolder (by rw [← eq, hp])), hp]
  · intro dir' n' bs' source' saved'
    rw [backups] at saved'
    obtain ⟨original', none', ⟨now', here'⟩, fits'⟩ := c.kept dir' n' bs' source' saved'
    refine ⟨original', none', ?_, fits'⟩
    rw [put]
    split
    · exact ⟨new, rfl⟩
    · exact ⟨now', here'⟩
  · intro p away
    rw [put, if_neg (away dir n source ((holds dir n).mpr held)).1]
    exact c.frame p fun dir' n' source' held' => away dir' n' source' ((holds dir' n').mpr held')

section Restored

variable (original : d₀.get? (place ++ dir ++ [n]) = some (.file bs)) (fresh : Fresh d₀ place)
include original fresh

omit original fresh in
theorem get?_restored (p : Place) :
    ((d.put (place ++ dir ++ [n]) (.file bs)).erase (place ++ dir ++ [n ++ backupEnding])).get? p =
      if p = place ++ dir ++ [n ++ backupEnding] then none
      else if p = place ++ dir ++ [n] then some (.file bs) else d.get? p := by
  rw [get?_erase (by simp), get?_put (by simp)]

theorem get?_backup_restored (dir' : List Text) (n' : Text) :
    ((d.put (place ++ dir ++ [n]) (.file bs)).erase (place ++ dir ++ [n ++ backupEnding])).get?
        (place ++ dir' ++ [n' ++ backupEnding]) =
      if dir' = dir ∧ n' = n then none else d.get? (place ++ dir' ++ [n' ++ backupEnding]) := by
  rw [get?_restored, if_neg (fresh.apart original).symm]
  by_cases same : dir' = dir ∧ n' = n
  · rw [if_pos same, same.1, same.2, if_pos rfl]
  · rw [if_neg same, if_neg]
    intro eq
    obtain ⟨hd, hn⟩ := place_inj eq
    exact same ⟨hd, List.append_cancel_right hn⟩

theorem held_restored (dir' : List Text) (n' : Text) :
    Held ((d.put (place ++ dir ++ [n]) (.file bs)).erase (place ++ dir ++ [n ++ backupEnding]))
        place dir' n' ↔ Held d place dir' n' ∧ ¬ (dir' = dir ∧ n' = n) := by
  unfold Held
  rw [get?_backup_restored original fresh]
  by_cases same : dir' = dir ∧ n' = n
  · simp [same]
  · simp [same]

end Restored

theorem base_restored (base : d.Base start place)
    (file : d.get? (place ++ dir ++ [n]) = some (.file now))
    (saved : d.get? (place ++ dir ++ [n ++ backupEnding]) = some (.file bs))
    (apart : place ++ dir ++ [n ++ backupEnding] ≠ place ++ dir ++ [n]) :
    ((d.put (place ++ dir ++ [n]) (.file bs)).erase (place ++ dir ++ [n ++ backupEnding])).Base
      start place := by
  have noFolder := not_folder_of_file file
  obtain ⟨inFolder, proper, short⟩ := base.tree.above file
  have tree := base.tree.put_file bs inFolder proper short noFolder
  have there : (d.put (place ++ dir ++ [n]) (.file bs)).get? (place ++ dir ++ [n ++ backupEnding]) =
      some (.file bs) := by rw [get?_put (by simp), if_neg apart, saved]
  refine base.of_folders (tree.erase_file there) fun p hp => ?_
  rw [get?_restored, if_neg (fun eq => not_folder_of_file saved (by rw [← eq, hp])),
    if_neg (fun eq => noFolder (by rw [← eq, hp])), hp]

theorem restored (c : Custody d₀ start place d) (fresh : Fresh d₀ place)
    (source : IsSource d₀ place dir n)
    (saved : d.get? (place ++ dir ++ [n ++ backupEnding]) = some (.file bs)) :
    Custody d₀ start place ((d.put (place ++ dir ++ [n]) (.file bs)).erase
      (place ++ dir ++ [n ++ backupEnding])) ∧
    ∀ dir' n', Held ((d.put (place ++ dir ++ [n]) (.file bs)).erase
      (place ++ dir ++ [n ++ backupEnding])) place dir' n' ↔
        Held d place dir' n' ∧ ¬ (dir' = dir ∧ n' = n) := by
  obtain ⟨original, noBackup, ⟨now, file⟩, fits⟩ := c.kept dir n bs source saved
  have holds := held_restored (d := d) original fresh
  refine ⟨⟨base_restored c.base file saved (fresh.apart original).symm, ?_, ?_⟩, holds⟩
  · intro dir' n' bs' source' saved'
    obtain ⟨was', original'⟩ := source'.file
    rw [get?_backup_restored original fresh] at saved'
    split at saved'
    · cases saved'
    · obtain ⟨bytes', none', ⟨now', here'⟩, fits'⟩ := c.kept dir' n' bs' source' saved'
      refine ⟨bytes', none', ?_, fits'⟩
      rw [get?_restored, if_neg (fresh.apart original')]
      split
      · exact ⟨bs, rfl⟩
      · exact ⟨now', here'⟩
  · intro p away
    rw [get?_restored]
    split
    · rename_i eq
      rw [eq, noBackup]
    · rename_i notBackup
      split
      · rename_i eq
        rw [eq, original]
      · rename_i notSource
        apply c.frame
        intro dir' n' source' held'
        by_cases same : dir' = dir ∧ n' = n
        · rw [same.1, same.2]
          exact ⟨notSource, notBackup⟩
        · exact away dir' n' source' ((holds dir' n').mpr ⟨held', same⟩)

end Custody

end SchedulingNoise
