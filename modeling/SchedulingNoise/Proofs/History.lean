import SchedulingNoise.Proofs.Running

/-! Histories of runs and reverts on one source tree. However many there are, in whatever order
and however each of them ends, no original is ever lost, and a revert brings all of them back. -/
namespace SchedulingNoise
open Disk
open Workspace (backupEnding temporaryName)

inductive Call
  | run (settings : RunSettings)
  | revert (settings : RunSettings)

namespace Call

def settings : Call → RunSettings
  | .run s => s
  | .revert s => s

def after (root : Path) : Call → Run → Run
  | .run s => stateAfter (Run.run s root false)
  | .revert s => stateAfter (Run.revert s root)

end Call

/-- A call and the situation that it meets: the open files of other processes, the clock, and what
earlier calls left in the session. The disk is that of the history. -/
structure Occasion where
  call : Call
  situation : Run

namespace Occasion

/-- Nothing keeps the disk from taking what is written, and nothing but the call writes. -/
structure Calm (folder : Place) (o : Occasion) : Prop where
  config : o.call.settings.config = .default
  here : o.situation.workspace.folder = folder
  writes : o.situation.workspace.mishaps = []
  events : o.situation.session.emitter.file = none

def diskAfter (root : Path) (d : Disk) (o : Occasion) : Disk :=
  (o.call.after root { o.situation with
    workspace := { o.situation.workspace with disk := d } }).workspace.disk

end Occasion

def diskAfter (root : Path) (d : Disk) (os : List Occasion) : Disk :=
  os.foldl (Occasion.diskAfter root) d

section Steps

variable {d₀ d : Disk} {folder place : Place} {root : Path} {o : Occasion}

theorem safe_at (calm : o.Calm folder) (c : Custody d₀ (searchStart folder root) place d) :
    Run.Safe d₀ folder (searchStart folder root) place
      { o.situation with workspace := { o.situation.workspace with disk := d } } :=
  ⟨d, c, ⟨rfl, calm.here, calm.writes⟩, calm.events⟩

theorem reverted_after (site : Site d₀ folder root place) (calm : o.Calm folder)
    (c : Custody d₀ (searchStart folder root) place d) {s : RunSettings}
    (call : o.call = .revert s) :
    Custody d₀ (searchStart folder root) place (o.diskAfter root d) ∧
      ∀ p, (o.diskAfter root d).get? p = d₀.get? p := by
  have default : s.config = .default := by simpa [call, Call.settings] using calm.config
  obtain ⟨count, r, d', done, standing, c', same⟩ := Run.revert_eq site default (safe_at calm c)
  have left : o.diskAfter root d = d' := by
    unfold Occasion.diskAfter Call.after stateAfter
    rw [call]
    simp only [done]
    exact standing.1.1
  rw [left]
  exact ⟨c', same⟩

theorem custody_after (site : Site d₀ folder root place) (calm : o.Calm folder)
    (c : Custody d₀ (searchStart folder root) place d) :
    Custody d₀ (searchStart folder root) place (o.diskAfter root d) := by
  cases call : o.call with
  | run s =>
    have default : s.config = .default := by simpa [call, Call.settings] using calm.config
    obtain ⟨d', c', standing⟩ := (Run.keeps_run site default).stateAfter (safe_at calm c)
    have left : o.diskAfter root d = d' := by
      unfold Occasion.diskAfter Call.after
      rw [call]
      exact standing.1.1
    exact left ▸ c'
  | revert s => exact (reverted_after site calm c call).1

theorem custody_diskAfter (site : Site d₀ folder root place) (os : List Occasion)
    (calm : ∀ o ∈ os, o.Calm folder) (c : Custody d₀ (searchStart folder root) place d) :
    Custody d₀ (searchStart folder root) place (diskAfter root d os) := by
  induction os generalizing d with
  | nil => exact c
  | cons o rest ih =>
    exact ih (fun o' mem => calm o' (List.mem_cons_of_mem o mem))
      (custody_after site (calm o List.mem_cons_self) c)

theorem Custody.original_kept (c : Custody d₀ (searchStart folder root) place d)
    (fresh : Fresh d₀ place) {dir : List Text} {n : Text} {bs : Bytes}
    (original : d₀.get? (place ++ dir ++ [n]) = some (.file bs)) :
    ((∀ saved, d.get? (place ++ dir ++ [n ++ backupEnding]) ≠ some (.file saved)) ∧
      d.get? (place ++ dir ++ [n]) = some (.file bs)) ∨
    d.get? (place ++ dir ++ [n ++ backupEnding]) = some (.file bs) := by
  by_cases held : Held d place dir n
  · obtain ⟨saved, found⟩ := held
    rcases c.file_cases found with ⟨was, there⟩ | ⟨dir', n', source, eq⟩
    · exact absurd (List.suffix_append n backupEnding) (fresh.noBackup _ _ _ there)
    · obtain ⟨rfl, same⟩ := place_inj eq
      cases List.append_cancel_right same
      rw [(c.kept dir n saved source found).1] at original
      cases original
      exact .inr found
  · refine .inl ⟨fun saved found => held ⟨saved, found⟩, ?_⟩
    rw [c.frame, original]
    intro dir' n' _ held'
    refine ⟨fun eq => ?_, fresh.apart original⟩
    obtain ⟨rfl, rfl⟩ := place_inj eq
    exact held held'

end Steps

/-- After any history of runs and reverts, every original file holds its bytes and has no backup,
or its backup holds them; every other file is the backup of an original source; and right after a
revert the disk is what it was before the first call. -/
theorem originals_kept {d₀ : Disk} {folder place : Place} {root : Path}
    (site : Site d₀ folder root place) (os : List Occasion) (calm : ∀ o ∈ os, o.Calm folder) :
    (∀ dir n bs, d₀.get? (place ++ dir ++ [n]) = some (.file bs) →
      ((∀ saved, (diskAfter root d₀ os).get? (place ++ dir ++ [n ++ backupEnding]) ≠
          some (.file saved)) ∧
        (diskAfter root d₀ os).get? (place ++ dir ++ [n]) = some (.file bs)) ∨
      (diskAfter root d₀ os).get? (place ++ dir ++ [n ++ backupEnding]) = some (.file bs)) ∧
    (∀ p bs, (diskAfter root d₀ os).get? p = some (.file bs) →
      (∃ was, d₀.get? p = some (.file was)) ∨
        ∃ dir n, IsSource d₀ place dir n ∧ p = place ++ dir ++ [n ++ backupEnding]) ∧
    ∀ before o s, os = before ++ [o] → o.call = .revert s →
      ∀ p, (diskAfter root d₀ os).get? p = d₀.get? p := by
  have c := custody_diskAfter site os calm (site.fresh.custody site.base)
  refine ⟨fun dir n bs original => c.original_kept site.fresh original,
    fun p bs file => c.file_cases file, ?_⟩
  rintro before o s rfl call
  have earlier := custody_diskAfter site before
    (fun o' mem => calm o' (List.mem_append_left _ mem)) (site.fresh.custody site.base)
  have now := calm o (List.mem_append_right _ (List.mem_singleton_self o))
  unfold diskAfter at earlier ⊢
  rw [List.foldl_append]
  exact (reverted_after site now earlier call).2

def smallTree : Disk where
  entries := [(["w".toList], .folder), (["w".toList, "A.java".toList],
    .file (Utf8.encode "class A \x7b\n  void f() \x7b lock.lock(); \x7d\n\x7d\n".toList))]

theorem smallTree_places {below : List Text} {x : Node}
    (h : smallTree.get? (["w".toList] ++ below) = some x) :
    below = [] ∨ below = ["A.java".toList] := by
  have mem := Tree.mem_of_get? (by simp) h
  simp only [smallTree, List.mem_cons, Prod.mk.injEq, List.singleton_append, List.cons.injEq,
    List.not_mem_nil, or_false, true_and] at mem
  rcases mem with ⟨eq, _⟩ | ⟨eq, _⟩
  · exact .inl eq
  · exact .inr eq

theorem smallTree_tree : smallTree.Tree := by decide +kernel

theorem smallTree_site : Site smallTree [] (.ofText "/w".toList) ["w".toList] := by
  have file : ∀ dir n bs, smallTree.get? (["w".toList] ++ dir ++ [n]) = some (.file bs) →
      n = "A.java".toList := by
    intro dir n bs found
    rw [List.append_assoc] at found
    rcases smallTree_places found with eq | eq
    · simp at eq
    · exact (List.append_inj' (show dir ++ [n] = [] ++ ["A.java".toList] from eq) rfl).2 |>
        List.singleton_inj.mp
  refine ⟨⟨⟨smallTree_tree, ⟨_, rfl⟩, by decide, rfl⟩, by decide, ?_⟩, ?_, ?_, ?_⟩
  · intro below x found
    rcases smallTree_places found with rfl | rfl
    · decide
    · decide
  · intro dir n bs found
    rw [file dir n bs found]
    decide
  · intro dir bs found
    exact absurd (file dir _ bs found) (by decide)
  · intro dir n _ epoch bs found
    have first := congrArg List.head? (file dir _ bs found)
    simp [Workspace.temporaryName_eq] at first

def smallSituation : Run where
  workspace := { disk := smallTree, folder := [], clock := ⟨"20260101".toList, 0⟩, epoch := 0 }
  session := { generator := .script [0, 100, 0] }

/-- A run that chooses noise by the policy, and a revert. -/
def smallHistory : List Occasion :=
  [⟨.run { config := .default, automatic := true }, smallSituation⟩,
    ⟨.revert { config := .default }, smallSituation⟩]

theorem smallHistory_calm : ∀ o ∈ smallHistory, o.Calm [] := by
  intro o ho
  rcases List.mem_cons.mp ho with rfl | ho
  · exact ⟨rfl, rfl, rfl, rfl⟩
  · cases List.mem_singleton.mp ho
    exact ⟨rfl, rfl, rfl, rfl⟩

theorem smallTree_kept : Site smallTree [] (.ofText "/w".toList) ["w".toList] ∧
    (∀ o ∈ smallHistory, o.Calm []) ∧
    ∀ p, (diskAfter (.ofText "/w".toList) smallTree smallHistory).get? p = smallTree.get? p :=
  ⟨smallTree_site, smallHistory_calm,
    (originals_kept smallTree_site smallHistory smallHistory_calm).2.2
      (smallHistory.take 1) _ _ rfl rfl⟩

end SchedulingNoise
