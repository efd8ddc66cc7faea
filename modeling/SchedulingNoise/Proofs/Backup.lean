import SchedulingNoise.Proofs.Digits
import SchedulingNoise.Proofs.Files

namespace SchedulingNoise.Workspace
open Disk

section Folder

variable {d : Disk} {start : Path} {place folder : Place} {dir : List Text} {w : Workspace}
  {I : Workspace → Prop}

theorem node?_folder [Sees I d folder] (base : d.Base start place) (seen : I w)
    (inFolder : d.get? (place ++ dir) = some .folder) :
    node? (start.descend dir) w =
      if Utf8.size (start.descend dir).text ≤ maxPathBytes then .ok (some .folder) w
      else .error (.os ⟨.nameTooLong, (start.descend dir).text, none⟩) w := by
  have spelled := Path.spelled_descend base.absolute base.spelled (base.proper_below inFolder)
  have found : w.disk.node w.folder (start.descend dir) =
      if Utf8.size (start.descend dir).text ≤ maxPathBytes then .ok .folder
      else .error .nameTooLong := by
    unfold Disk.node
    rw [Sees.disk seen, Sees.folder seen, base.locate_folder .enter folder inFolder]
    split
    · simp only [bind, Except.bind, inFolder]
      rfl
    · rfl
  by_cases short : Utf8.size (start.descend dir).text ≤ maxPathBytes
  · rw [if_pos short] at found ⊢
    exact node?_of_node spelled found
  · rw [if_neg short] at found ⊢
    exact node?_of_node spelled found

theorem exists?_folder [Sees I d folder] (base : d.Base start place) (seen : I w)
    (inFolder : d.get? (place ++ dir) = some .folder)
    (short : Utf8.size (start.descend dir).text ≤ maxPathBytes) :
    exists? (start.descend dir) w = .ok true w := by
  unfold exists?
  rw [bind_ok ((node?_folder base seen inFolder).trans (if_pos short))]
  rfl

theorem isFolder_folder [Sees I d folder] (base : d.Base start place) (seen : I w)
    (inFolder : d.get? (place ++ dir) = some .folder)
    (short : Utf8.size (start.descend dir).text ≤ maxPathBytes) :
    isFolder (start.descend dir) w = .ok true w := by
  unfold isFolder
  rw [bind_ok ((node?_folder base seen inFolder).trans (if_pos short))]
  rfl

theorem isFile_folder [Sees I d folder] (base : d.Base start place) (seen : I w)
    (inFolder : d.get? (place ++ dir) = some .folder)
    (short : Utf8.size (start.descend dir).text ≤ maxPathBytes) :
    isFile (start.descend dir) w = .ok false w := by
  unfold isFile
  rw [bind_ok ((node?_folder base seen inFolder).trans (if_pos short))]
  rfl

theorem proper_trialName : ProperName trialName where
  nonempty := by decide
  notSelf := by decide
  notParent := by decide
  noSlash := by decide
  noNull := by decide

theorem child_descend (p : Path) (dir : List Text) (n : Text) :
    (p.descend dir).child n = p.descend (dir ++ [n]) := by
  simp [Path.descend, Path.child]

theorem eq_of_standing (h : Standing d folder w) : ({ w with disk := d } : Workspace) = w := by
  rw [← h.1]

theorem touch_there {p : Path} {x : Node} (h : ask p Disk.node w = .ok x w) :
    touch p w = .ok () w := by
  unfold touch
  rw [bind_ok (attempt_ok h)]
  rfl

theorem touch_new {p : Path} {f : Fault} (h : ask p Disk.node w = .error f w) :
    touch p w = change p (fun d folder p => d.write folder p []) w := by
  unfold touch
  rw [bind_ok (attempt_error h)]

theorem trial_eq {n : Text} (h : Named d start place folder dir n w)
    (noFile : ∀ bs, d.get? (place ++ dir ++ [n]) ≠ some (.file bs)) :
    (∃ f, (do
        touch (start.descend (dir ++ [n]))
        change (start.descend (dir ++ [n])) Disk.unlink
        pure true) w = .error (.os f) w) ∨
      (do
        touch (start.descend (dir ++ [n]))
        change (start.descend (dir ++ [n])) Disk.unlink
        pure true) w = .ok true w := by
  have asked := ask_eq (w := w) h.spelled Disk.node
  rw [h.node_eq] at asked
  by_cases fits : Fits start dir n
  · rw [if_pos fits] at asked
    cases found : d.get? (place ++ dir ++ [n]) with
    | some x =>
      have isFolder : d.get? (place ++ dir ++ [n]) = some .folder := by
        rcases h.base.tree.node found with rfl | ⟨bs, rfl⟩
        · exact found
        · exact absurd found (noFile bs)
      rw [found] at asked
      exact .inl ⟨_, (bind_ok (touch_there asked) _).trans
        (bind_error (h.unlink_folder fits isFolder) _)⟩
    | none =>
      have free : d.get? (place ++ dir ++ [n]) ≠ some .folder :=
        not_folder_of_none found
      have made := h.writeBytes_eq fits free []
      rw [Workspace.writeBytes_eq h.standing.2.2] at made
      have there := h.after_put fits free [] h.proper
      have file : (d.put (place ++ dir ++ [n]) (.file [])).get? (place ++ dir ++ [n]) =
          some (.file []) := by rw [get?_put (by simp), if_pos rfl]
      have removed := there.unlink_eq fits file
      rw [Workspace.unlink_eq there.standing.2.2, erase_put_new found] at removed
      rw [found] at asked
      right
      rw [bind_ok ((touch_new asked).trans made), bind_ok removed]
      exact congrArg _ (eq_of_standing h.standing)
  · rw [if_neg fits] at asked
    exact .inl ⟨_, bind_error ((touch_new asked).trans (h.write_long fits [])) _⟩

theorem writable_folder (base : d.Base start place) (standing : Standing d folder w)
    (inFolder : d.get? (place ++ dir) = some .folder)
    (noTrial : ∀ bs, d.get? (place ++ dir ++ [trialName]) ≠ some (.file bs)) :
    ∃ b, writable (start.descend dir) w = .ok b w := by
  have named : Named d start place folder dir trialName w :=
    ⟨base, standing, inFolder, proper_trialName⟩
  unfold writable
  rw [child_descend]
  by_cases short : Utf8.size (start.descend dir).text ≤ maxPathBytes
  · have begins : ∀ next : Act Bool, (do
        if !(← exists? (start.descend dir)) then pure false
        else if !(← isFolder (start.descend dir)) then pure false
        else next) w = next w := by
      intro next
      rw [bind_ok (exists?_folder base standing inFolder short)]
      simp only [Bool.not_true, Bool.false_eq_true, if_false]
      rw [bind_ok (isFolder_folder base standing inFolder short)]
      simp
    rcases trial_eq named noTrial with ⟨f, refused⟩ | made
    · exact ⟨false, orOnRefusal_os ((begins _).trans refused) _⟩
    · exact ⟨true, orOnRefusal_ok ((begins _).trans made) _⟩
  · have refused := node?_folder base standing inFolder
    rw [if_neg short] at refused
    have missing : exists? (start.descend dir) w = .error _ w := bind_error refused _
    exact ⟨false, orOnRefusal_os (bind_error missing _) _⟩

end Folder

def backupEnding : Text := ".contender".toList

theorem default_suffix : Config.default.suffix = .ok (.ofText backupEnding) := rfl

theorem toText_backupEnding : (RawText.ofText backupEnding).toText = backupEnding := rfl

theorem proper_backup {n : Text} (h : ProperName n) : ProperName (n ++ backupEnding) := by
  have long : 10 ≤ (n ++ backupEnding).length := by
    rw [List.length_append, show backupEnding.length = 10 from rfl]
    omega
  refine ⟨by simp [h.nonempty], fun eq => ?_, fun eq => ?_, fun mem => ?_, fun mem => ?_⟩
  · rw [eq] at long
    exact absurd long (by decide)
  · rw [eq] at long
    exact absurd long (by decide)
  · rcases List.mem_append.mp mem with mem | mem
    · exact h.noSlash mem
    · exact absurd mem (by decide)
  · rcases List.mem_append.mp mem with mem | mem
    · exact h.noNull mem
    · exact absurd mem (by decide)

theorem temporaryName_eq (n : Text) (epoch : Nat) :
    temporaryName n epoch = ".tmp_".toList ++ n ++ '_' :: Decimal.ofNat epoch := rfl

theorem length_temporaryName (n : Text) (epoch : Nat) :
    (temporaryName n epoch).length = n.length + (Decimal.ofNat epoch).length + 6 := by
  have front : ".tmp_".toList.length = 5 := rfl
  rw [temporaryName_eq, List.length_append, List.length_append, List.length_cons, front]
  omega

theorem proper_temporary {n : Text} (h : ProperName n) (epoch : Nat) :
    ProperName (temporaryName n epoch) := by
  have long : 6 ≤ (temporaryName n epoch).length := by
    rw [length_temporaryName]
    omega
  have chars : ∀ c ∈ temporaryName n epoch, c ∈ ".tmp_".toList ∨ c ∈ n ∨ c.isDigit = true := by
    intro c hc
    simp only [temporaryName_eq, List.mem_append, List.mem_cons] at hc
    rcases hc with (hc | hc) | hc | hc
    · exact .inl hc
    · exact .inr (.inl hc)
    · exact .inl (hc ▸ by decide)
    · exact .inr (.inr (Decimal.isDigit_of_mem hc))
  refine ⟨fun eq => ?_, fun eq => ?_, fun eq => ?_, fun mem => ?_, fun mem => ?_⟩
  · rw [eq] at long
    exact absurd long (by decide)
  · rw [eq] at long
    exact absurd long (by decide)
  · rw [eq] at long
    exact absurd long (by decide)
  · rcases chars _ mem with mem | mem | digit
    · exact absurd mem (by decide)
    · exact h.noSlash mem
    · exact absurd digit (by decide)
  · rcases chars _ mem with mem | mem | digit
    · exact absurd mem (by decide)
    · exact h.noNull mem
    · exact absurd digit (by decide)

theorem withName_descend (start : Path) (dir : List Text) {n m : Text} (hn : n ≠ [])
    (noSlash : '/' ∉ m) :
    (start.descend (dir ++ [n])).withName m = if m = [] ∨ m = selfName then
      .error (.invalidName m) else .ok (start.descend (dir ++ [m])) := by
  have name : (start.descend (dir ++ [n])).name = n := by
    simp [Path.name, Path.descend, ← List.append_assoc]
  have whole : Text.splitOn ['/'] m = [m] := Text.splitOn_of_not_infix fun h =>
    noSlash (h.subset (List.mem_singleton_self _))
  have head : m.head? ≠ some '/' := fun h => noSlash (List.mem_of_head? h)
  have last : m.getLast? ≠ some '/' := fun h => noSlash (List.mem_of_getLast? h)
  unfold Path.withName Path.names
  rw [name, whole]
  by_cases out : m = [] ∨ m = selfName
  · have none : [m].filter (fun n => !n.isEmpty && decide (n ≠ ['.'])) = [] := by
      rcases out with rfl | rfl <;> rfl
    rw [none]
    simp [hn, if_pos out]
  · have one : [m].filter (fun n => !n.isEmpty && decide (n ≠ ['.'])) = [m] := by
      have dot : m ≠ ['.'] := fun eq => out (.inr eq)
      have nonempty : m ≠ [] := fun eq => out (.inl eq)
      simp [nonempty, dot]
    rw [one]
    simp [hn, if_neg out, head, last, Path.descend, ← List.append_assoc]

theorem withName_eq (start : Path) (dir : List Text) {n m : Text} (hn : n ≠ [])
    (hm : ProperName m) :
    (start.descend (dir ++ [n])).withName m = .ok (start.descend (dir ++ [m])) := by
  rw [withName_descend start dir hn hm.noSlash, if_neg]
  rintro (none | self)
  · exact hm.nonempty none
  · exact hm.notSelf self

theorem backupPath_eq (start : Path) (dir : List Text) {n : Text} (h : ProperName n) :
    backupPath .default (start.descend (dir ++ [n])) =
      .ok (start.descend (dir ++ [n ++ backupEnding])) := by
  have name : (start.descend (dir ++ [n])).name = n := by
    simp [Path.name, Path.descend, ← List.append_assoc]
  unfold backupPath
  rw [default_suffix]
  simp only [bind, Except.bind, name, toText_backupEnding]
  exact withName_eq start dir h.nonempty (proper_backup h)

section Copy

variable {d : Disk} {start : Path} {place folder : Place} {dir : List Text} {n m : Text}
  {w : Workspace} {bs : Bytes}

theorem sameThing_eq (h : Named d start place folder dir n w) (h' : ProperName m)
    (fits : Fits start dir n) (fits' : Fits start dir m) (other : n ≠ m) :
    sameThing (start.descend (dir ++ [n])) (start.descend (dir ++ [m])) w = .ok false w := by
  have apart : place ++ dir ++ [n] ≠ place ++ dir ++ [m] := fun eq =>
    other (List.singleton_inj.mp (List.append_cancel_left eq))
  unfold sameThing
  rw [bind_ok (requireSpelled_eq h.spelled), bind_ok (requireSpelled_eq (h.sibling h').spelled),
    bind_ok (get_eq w), h.locate .enter,
    (h.sibling h').locate .enter, if_pos fits, if_pos fits']
  simp only [apart, decide_false, Bool.false_and]
  rfl

theorem copyFile_eq (h : Named d start place folder dir n w) (h' : ProperName m)
    (fits : Fits start dir n) (fits' : Fits start dir m) (other : n ≠ m)
    (file : d.get? (place ++ dir ++ [n]) = some (.file bs))
    (free : d.get? (place ++ dir ++ [m]) ≠ some .folder) :
    copyFile (start.descend (dir ++ [n])) (start.descend (dir ++ [m])) w =
      .ok () { w with disk := d.put (place ++ dir ++ [m]) (.file bs) } := by
  have target := (h.sibling h').isFolder_eq
  rw [if_pos fits', decide_eq_false free] at target
  have written := (h.sibling h').writeBytes_eq fits' free bs
  unfold copyFile
  rw [bind_ok (attempt_ok target)]
  simp only
  rw [bind_ok (sameThing_eq h h' fits fits' other)]
  simp only [Bool.false_eq_true, if_false]
  rw [bind_ok (h.readBytes_eq fits file)]
  unfold writeCopy
  rw [bind_ok (attempt_ok written)]
  rfl

theorem copy_eq (h : Named d start place folder dir n w) (h' : ProperName m)
    (fits : Fits start dir n) (fits' : Fits start dir m) (other : n ≠ m)
    (file : d.get? (place ++ dir ++ [n]) = some (.file bs))
    (free : d.get? (place ++ dir ++ [m]) ≠ some .folder) :
    copy (start.descend (dir ++ [n])) (start.descend (dir ++ [m])) 3 (.whole 1) w =
      .ok true { w with disk := d.put (place ++ dir ++ [m]) (.file bs) } := by
  have there := (h.sibling h').after_put fits' free bs h'
  have copied : (d.put (place ++ dir ++ [m]) (.file bs)).get? (place ++ dir ++ [m]) =
      some (.file bs) := by rw [get?_put (by simp), if_pos rfl]
  have once : copyOnce (start.descend (dir ++ [n])) (start.descend (dir ++ [m])) bs.length w =
      .ok true { w with disk := d.put (place ++ dir ++ [m]) (.file bs) } := by
    unfold copyOnce
    rw [bind_ok (copyFile_eq h h' fits fits' other file free),
      bind_ok (there.size_eq fits' copied), if_pos rfl]
    rfl
  have expected : (some <$> size (start.descend (dir ++ [n]))) w = .ok (some bs.length) w := by
    simp only [Functor.map, EStateM.map, h.size_eq fits file]
  unfold copy
  rw [bind_ok (orOnRefusal_ok expected _)]
  simp only
  unfold copyTries
  rw [bind_ok (orOnRefusal_ok once _)]
  rfl

end Copy

section Source

variable {d : Disk} {start : Path} {place folder : Place} {dir : List Text} {n : Text}
  {w : Workspace} {bs : Bytes}

theorem note_then {I : Workspace → Prop} [Steady I] (r : LogRecord) (x : α) (h : I w) :
    ∃ w', (do note r; pure x) w = .ok x w' ∧ I w' := by
  refine ⟨_, rfl, ?_⟩
  dsimp only
  split
  · exact Steady.same h ⟨rfl, rfl, rfl, rfl⟩
  · exact h

theorem spelledBy_ok {a : Act α} {w' : Workspace} {x : α} (h : a w = .ok x w') (added : RawText) :
    spelledBy added a w = .ok x w' := by
  unfold spelledBy
  rw [bind_ok (attempt_ok h)]
  rfl

theorem backup_ne (n : Text) : n ≠ n ++ backupEnding := by
  intro eq
  exact absurd (List.self_eq_append_right.mp eq) (by decide)

/-- Making a backup either leaves the disk as it is or puts the bytes of the file there where
nothing was. -/
theorem backUp_outcome (h : Named d start place folder dir n w)
    (file : d.get? (place ++ dir ++ [n]) = some (.file bs))
    (noTrial : ∀ bs, d.get? (place ++ dir ++ [trialName]) ≠ some (.file bs)) :
    (∃ f w', backUp .default (start.descend (dir ++ [n])) w = .error f w' ∧
      Standing d folder w') ∨
    ∃ w', backUp .default (start.descend (dir ++ [n])) w =
        .ok (start.descend (dir ++ [n ++ backupEnding])) w' ∧
      Fits start dir (n ++ backupEnding) ∧
      d.get? (place ++ dir ++ [n ++ backupEnding]) = none ∧
      Standing (d.put (place ++ dir ++ [n ++ backupEnding]) (.file bs)) folder w' := by
  have saved := h.sibling (proper_backup h.proper)
  have seen := saved.exists?_eq
  have parent : (start.descend (dir ++ [n])).parent = start.descend dir := by
    simp [Path.parent, Path.descend, ← List.append_assoc]
  unfold backUp
  rw [backupPath_eq start dir h.proper]
  rw [bind_ok (require_ok (start.descend (dir ++ [n ++ backupEnding])) w)]
  by_cases fits : Fits start dir (n ++ backupEnding)
  · rw [if_pos fits] at seen
    have fitsSource := fits.of_extended h.base.absolute
    rw [bind_ok seen]
    cases found : d.get? (place ++ dir ++ [n ++ backupEnding]) with
    | some x =>
      exact .inl ⟨.backup (.present (start.descend (dir ++ [n ++ backupEnding]))), w, rfl,
        h.standing⟩
    | none =>
      have free : d.get? (place ++ dir ++ [n ++ backupEnding]) ≠ some .folder :=
        not_folder_of_none found
      simp only [Option.isSome_none, Bool.false_eq_true, if_false]
      rw [bind_ok (h.readable_eq fitsSource file)]
      simp only [if_true, parent]
      obtain ⟨b, tried⟩ := writable_folder h.base h.standing h.inFolder noTrial
      rw [bind_ok tried]
      cases b with
      | false => exact .inl ⟨.backup (.readOnly (start.descend dir)), w, rfl, h.standing⟩
      | true =>
        have copied := copy_eq h saved.proper fitsSource fits (backup_ne n) file free
        simp only [if_true]
        rw [default_suffix, bind_ok (require_ok (RawText.ofText backupEnding) w),
          bind_ok (spelledBy_ok copied _)]
        simp only [if_true]
        obtain ⟨w', noted, standing⟩ := note_then _ (start.descend (dir ++ [n ++ backupEnding]))
          (saved.after_put fits free bs saved.proper).standing
        exact .inr ⟨w', noted, fits, True.intro, standing⟩
  · rw [if_neg fits] at seen
    rw [bind_error seen]
    exact .inl ⟨_, w, rfl, h.standing⟩

theorem restore_eq (h : Named d start place folder dir n w) {now : Bytes}
    (fits : Fits start dir (n ++ backupEnding))
    (saved : d.get? (place ++ dir ++ [n ++ backupEnding]) = some (.file bs))
    (file : d.get? (place ++ dir ++ [n]) = some (.file now)) :
    ∃ w', restore .default (start.descend (dir ++ [n])) w = .ok true w' ∧
      Standing ((d.put (place ++ dir ++ [n]) (.file bs)).erase
        (place ++ dir ++ [n ++ backupEnding])) folder w' := by
  have there := h.sibling (proper_backup h.proper)
  have fitsSource := fits.of_extended h.base.absolute
  have free : d.get? (place ++ dir ++ [n]) ≠ some .folder :=
    not_folder_of_file file
  have apart : place ++ dir ++ [n ++ backupEnding] ≠ place ++ dir ++ [n] := fun eq =>
    backup_ne n (List.singleton_inj.mp (List.append_cancel_left eq)).symm
  have seen := there.exists?_eq
  rw [if_pos fits, saved] at seen
  have copied := copy_eq there h.proper fits fitsSource (backup_ne n).symm saved free
  have after := h.after_put fitsSource free bs there.proper
  have removed := after.unlink_eq fits (by rw [get?_put (by simp), if_neg apart, saved])
  unfold restore
  rw [backupPath_eq start dir h.proper,
    bind_ok (require_ok (start.descend (dir ++ [n ++ backupEnding])) w),
    bind_ok seen]
  simp only [Option.isSome_some, Bool.not_true, Bool.false_eq_true, if_false]
  rw [bind_ok copied]
  simp only [if_true]
  rw [bind_ok removed]
  exact note_then _ true ⟨rfl, h.standing.2⟩

theorem restore_none (h : Named d start place folder dir n w)
    (fits : Fits start dir (n ++ backupEnding))
    (absent : d.get? (place ++ dir ++ [n ++ backupEnding]) = none) :
    ∃ w', restore .default (start.descend (dir ++ [n])) w = .ok false w' ∧
      Standing d folder w' := by
  have there := h.sibling (proper_backup h.proper)
  have seen := there.exists?_eq
  rw [if_pos fits, absent] at seen
  unfold restore
  rw [backupPath_eq start dir h.proper,
    bind_ok (require_ok (start.descend (dir ++ [n ++ backupEnding])) w),
    bind_ok seen]
  simp only [Option.isSome_none, Bool.not_false, if_true]
  exact note_then _ false h.standing

theorem isNamed_descend (start : Path) {dir : List Text} (inner : ∀ m ∈ dir, ProperName m)
    (h : ProperName n) : isNamed (start.descend (dir ++ [n])) = true := by
  have names : ∀ m ∈ dir ++ [n], ProperName m := by
    intro m hm
    rcases List.mem_append.mp hm with hm | hm
    · exact inner m hm
    · exact List.mem_singleton.mp hm ▸ h
  have last : (start.descend (dir ++ [n])).steps.getLast? = some n := by
    rw [Path.steps_descend start names, ← List.append_assoc]
    simp
  unfold isNamed
  rw [last]
  simp [h.notSelf, h.notParent]

theorem rename_eq {m : Text} (h : Named d start place folder dir m w) (h' : ProperName n)
    (fits : Fits start dir m) (fits' : Fits start dir n) (other : m ≠ n)
    (file : d.get? (place ++ dir ++ [m]) = some (.file bs))
    (free : d.get? (place ++ dir ++ [n]) ≠ some .folder) :
    rename (start.descend (dir ++ [m])) (start.descend (dir ++ [n])) w =
      .ok () { w with
        disk := (d.erase (place ++ dir ++ [m])).put (place ++ dir ++ [n]) (.file bs) } := by
  have inner := h.base.proper_below h.inFolder
  have apart : place ++ dir ++ [m] ≠ place ++ dir ++ [n] := fun eq =>
    other (List.singleton_inj.mp (List.append_cancel_left eq))
  have moved : w.disk.rename w.folder (start.descend (dir ++ [m])) (start.descend (dir ++ [n])) =
      .ok ((d.erase (place ++ dir ++ [m])).put (place ++ dir ++ [n]) (.file bs)) := by
    unfold Disk.rename
    rw [h.locate .stay, (h.sibling h').locate .stay, if_pos fits, if_pos fits', h.standing.1]
    simp only [bind, Except.bind, isNamed_descend start inner h.proper,
      isNamed_descend start inner h', file, apart, Bool.not_true, Bool.or_self,
      Bool.false_eq_true, if_false]
    rfl
  unfold rename
  rw [bind_ok (mayFail_eq h.standing.2.2 _), bind_ok (requireSpelled_eq h.spelled),
    bind_ok (requireSpelled_eq (h.sibling h').spelled),
    bind_ok (get_eq w), moved]
  rfl

theorem temporary_ne (n : Text) (epoch : Nat) : temporaryName n epoch ≠ n := by
  intro eq
  have long := congrArg List.length eq
  rw [length_temporaryName] at long
  omega

theorem replace_eq (h : Named d start place folder dir n w) (fits : Fits start dir n) {now : Bytes}
    (file : d.get? (place ++ dir ++ [n]) = some (.file now)) {epoch : Nat}
    (fitsTemp : Fits start dir (temporaryName n epoch))
    (none : d.get? (place ++ dir ++ [temporaryName n epoch]) = none) (bytes : Bytes) :
    (do
      writeBytes (start.descend (dir ++ [temporaryName n epoch])) bytes
      rename (start.descend (dir ++ [temporaryName n epoch])) (start.descend (dir ++ [n]))) w =
      .ok () { w with disk := d.put (place ++ dir ++ [n]) (.file bytes) } := by
  have proper := proper_temporary h.proper epoch
  have temp := h.sibling proper
  have free := not_folder_of_none none
  have other := temporary_ne n epoch
  have apart : place ++ dir ++ [n] ≠ place ++ dir ++ [temporaryName n epoch] := fun eq =>
    other (List.singleton_inj.mp (List.append_cancel_left eq)).symm
  have written := temp.writeBytes_eq fitsTemp free bytes
  have after := temp.after_put fitsTemp free bytes proper
  have moved := rename_eq after h.proper fitsTemp fits other
    (by rw [get?_put (by simp), if_pos rfl])
    (by rw [get?_put (by simp), if_neg apart]; exact not_folder_of_file file)
  rw [erase_put_new none] at moved
  exact (bind_ok written _).trans moved

/-- Writing a file anew either leaves the disk as it is or changes the bytes of that file alone. -/
theorem writeText_outcome (h : Named d start place folder dir n w) (fits : Fits start dir n)
    {now : Bytes} (file : d.get? (place ++ dir ++ [n]) = some (.file now))
    (noTemporary : ∀ bs, d.get? (place ++ dir ++ [temporaryName n w.epoch]) ≠ some (.file bs))
    (text : Text) :
    (∃ f w', writeText (start.descend (dir ++ [n])) text w = .error f w' ∧ Standing d folder w') ∨
    ∃ w', writeText (start.descend (dir ++ [n])) text w = .ok () w' ∧
      Standing (d.put (place ++ dir ++ [n]) (.file (Utf8.encode text))) folder w' := by
  have name : (start.descend (dir ++ [n])).name = n := by
    simp [Path.name, Path.descend, ← List.append_assoc]
  have proper := proper_temporary h.proper w.epoch
  have temp := h.sibling proper
  have seen := temp.exists?_eq
  unfold writeText
  rw [bind_ok (get_eq w), name,
    withName_eq start dir h.proper.nonempty proper,
    bind_ok (require_ok (start.descend (dir ++ [temporaryName n w.epoch])) w)]
  by_cases fitsTemp : Fits start dir (temporaryName n w.epoch)
  · rw [if_pos fitsTemp] at seen
    cases found : d.get? (place ++ dir ++ [temporaryName n w.epoch]) with
    | some x =>
      have isFolder : d.get? (place ++ dir ++ [temporaryName n w.epoch]) = some .folder := by
        rcases h.base.tree.node found with rfl | ⟨bs, rfl⟩
        · exact found
        · exact absurd found (noTemporary bs)
      have refused := temp.write_folder fitsTemp isFolder (Utf8.encode text)
      rw [← Workspace.writeBytes_eq h.standing.2.2] at refused
      have kept := temp.unlink_folder fitsTemp isFolder
      rw [← Workspace.unlink_eq h.standing.2.2] at kept
      rw [found] at seen
      rw [bind_ok (attempt_error (bind_error refused _)), bind_ok seen]
      simp only [Option.isSome_some, if_true]
      rw [bind_error kept]
      exact .inl ⟨_, w, rfl, h.standing⟩
    | none =>
      have apart : place ++ dir ++ [temporaryName n w.epoch] ≠ place ++ dir ++ [n] := fun eq =>
        temporary_ne n w.epoch (List.singleton_inj.mp (List.append_cancel_left eq))
      rw [bind_ok (attempt_ok (replace_eq h fits file fitsTemp found (Utf8.encode text)))]
      have last := h.after_put fits (not_folder_of_file file) (Utf8.encode text) proper
      have gone := last.exists?_eq
      rw [if_pos fitsTemp, get?_put (by simp), if_neg apart, found] at gone
      right
      rw [bind_ok gone]
      exact ⟨_, rfl, ⟨rfl, h.standing.2⟩⟩
  · have refused := temp.write_long fitsTemp (Utf8.encode text)
    rw [← Workspace.writeBytes_eq h.standing.2.2] at refused
    rw [if_neg fitsTemp] at seen
    rw [bind_ok (attempt_error (bind_error refused _)), bind_error seen]
    exact .inl ⟨_, w, rfl, h.standing⟩

end Source

end SchedulingNoise.Workspace
