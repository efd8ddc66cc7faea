import SchedulingNoise.Proofs.Keeping
import SchedulingNoise.Proofs.Places

namespace SchedulingNoise.Workspace
open Disk

theorem attempt_ok {a : Act α} {w w' : Workspace} {x : α} (h : a w = .ok x w') :
    attempt a w = .ok (.ok x) w' := by
  simp only [attempt, h]

theorem attempt_error {a : Act α} {w w' : Workspace} {f : Fault} (h : a w = .error f w') :
    attempt a w = .ok (.error f) w' := by
  simp only [attempt, h]

theorem orOnRefusal_ok {a : Act α} {w w' : Workspace} {x : α} (h : a w = .ok x w')
    (other : Fault → Act α) : orOnRefusal a other w = .ok x w' := by
  unfold orOnRefusal
  rw [bind_ok (attempt_ok h)]
  rfl

theorem orOnRefusal_os {a : Act α} {w w' : Workspace} {f : OsFault} (h : a w = .error (.os f) w')
    (other : Fault → Act α) : orOnRefusal a other w = other (.os f) w' := by
  unfold orOnRefusal
  rw [bind_ok (attempt_error h)]
  rfl

theorem get_eq (w : Workspace) : (get : Act Workspace) w = .ok w w := rfl

theorem require_ok (x : α) (w : Workspace) : require (.ok x) w = .ok x w := rfl

section Paths

variable {p : Path} {w : Workspace}

theorem requireSpelled_eq (spelled : Char.ofNat 0 ∉ p.text) : requireSpelled p w = .ok () w := by
  have none : p.text.any (· = Char.ofNat 0) = false := by
    simp only [List.any_eq_false, decide_eq_true_eq]
    exact fun c hc eq => spelled (eq ▸ hc)
  unfold requireSpelled
  rw [none]
  rfl

theorem ask_eq (spelled : Char.ofNat 0 ∉ p.text) (f : Disk → Place → Path → Except Errno α) :
    ask p f w = match f w.disk w.folder p with
      | .ok a => .ok a w
      | .error e => .error (.os ⟨e, p.text, none⟩) w := by
  unfold ask
  rw [bind_ok (requireSpelled_eq spelled), bind_ok (get_eq w)]
  cases f w.disk w.folder p <;> rfl

theorem change_eq (spelled : Char.ofNat 0 ∉ p.text) (f : Disk → Place → Path → Except Errno Disk) :
    change p f w = match f w.disk w.folder p with
      | .ok d => .ok () { w with disk := d }
      | .error e => .error (.os ⟨e, p.text, none⟩) w := by
  have asked := ask_eq (w := w) spelled f
  unfold change
  cases h : f w.disk w.folder p with
  | ok d =>
    rw [h] at asked
    rw [bind_ok asked]
    rfl
  | error e =>
    rw [h] at asked
    rw [bind_error asked]

theorem node?_of_node (spelled : Char.ofNat 0 ∉ p.text) {r : Except Errno Node}
    (found : w.disk.node w.folder p = r) :
    node? p w = match r with
      | .ok n => .ok (some n) w
      | .error .nameTooLong => .error (.os ⟨.nameTooLong, p.text, none⟩) w
      | .error _ => .ok none w := by
  have asked := ask_eq (w := w) spelled Disk.node
  rw [found] at asked
  unfold node?
  cases r with
  | ok n =>
    rw [bind_ok (attempt_ok asked)]
    rfl
  | error e =>
    rw [bind_ok (attempt_error asked)]
    cases e <;> rfl

theorem nextMishap_eq (calm : w.mishaps = []) : nextMishap w = .ok .none w := by
  cases w
  cases calm
  rfl

theorem nextMishap_cons {m : Mishap} {rest : List Mishap} (met : w.mishaps = m :: rest) :
    nextMishap w = .ok m { w with mishaps := rest } := by
  cases w
  cases met
  rfl

theorem mayFailWriting_eq (calm : w.mishaps = []) : mayFailWriting p w = .ok () w := by
  unfold mayFailWriting
  rw [bind_ok (nextMishap_eq calm)]
  rfl

theorem mayFail_eq (calm : w.mishaps = []) (target : Option Path) :
    mayFail p target w = .ok () w := by
  unfold mayFail
  rw [bind_ok (nextMishap_eq calm)]
  rfl

theorem writeBytes_eq (calm : w.mishaps = []) (bs : Bytes) :
    writeBytes p bs w = change p (fun d folder p => d.write folder p bs) w := by
  unfold writeBytes
  rw [bind_ok (mayFailWriting_eq calm)]

theorem unlink_eq (calm : w.mishaps = []) : unlink p w = change p Disk.unlink w := by
  unfold unlink
  rw [bind_ok (mayFail_eq calm none)]

end Paths

section Names

variable {d : Disk} {start : Path} {place folder : Place} {dir : List Text} {n : Text}
  {w : Workspace}

/-- A name in a folder below the start, seen from a workspace. -/
structure Named (d : Disk) (start : Path) (place folder : Place) (dir : List Text) (n : Text)
    (w : Workspace) : Prop where
  base : d.Base start place
  standing : Standing d folder w
  inFolder : d.get? (place ++ dir) = some .folder
  proper : ProperName n

namespace Named

theorem spelled (h : Named d start place folder dir n w) :
    Char.ofNat 0 ∉ (start.descend (dir ++ [n])).text :=
  Path.spelled_descend h.base.absolute h.base.spelled (h.base.proper_name h.inFolder h.proper)

theorem locate (h : Named d start place folder dir n w) (ending : Ending) :
    w.disk.locate ending w.folder (start.descend (dir ++ [n])) =
      if Fits start dir n then .ok (place ++ dir ++ [n]) else .error .nameTooLong := by
  rw [h.standing.1, h.standing.2.1]
  exact h.base.locate_name ending folder h.inFolder h.proper

theorem node_eq (h : Named d start place folder dir n w) :
    w.disk.node w.folder (start.descend (dir ++ [n])) =
      if Fits start dir n then
        match d.get? (place ++ dir ++ [n]) with
        | some x => .ok x
        | none => .error .notFound
      else .error .nameTooLong := by
  unfold Disk.node
  rw [h.locate .enter, h.standing.1]
  by_cases fits : Fits start dir n
  · rw [if_pos fits, if_pos fits]
    simp only [bind, Except.bind]
    cases d.get? (place ++ dir ++ [n]) <;> rfl
  · rw [if_neg fits, if_neg fits]
    rfl

theorem node?_eq (h : Named d start place folder dir n w) :
    node? (start.descend (dir ++ [n])) w =
      if Fits start dir n then .ok (d.get? (place ++ dir ++ [n])) w
      else .error (.os ⟨.nameTooLong, (start.descend (dir ++ [n])).text, none⟩) w := by
  have seen := h.node_eq
  by_cases fits : Fits start dir n
  · rw [if_pos fits] at seen ⊢
    cases found : d.get? (place ++ dir ++ [n]) with
    | some x =>
      rw [found] at seen
      exact node?_of_node h.spelled seen
    | none =>
      rw [found] at seen
      exact node?_of_node h.spelled seen
  · rw [if_neg fits] at seen ⊢
    exact node?_of_node h.spelled seen

theorem exists?_eq (h : Named d start place folder dir n w) :
    exists? (start.descend (dir ++ [n])) w =
      if Fits start dir n then .ok (d.get? (place ++ dir ++ [n])).isSome w
      else .error (.os ⟨.nameTooLong, (start.descend (dir ++ [n])).text, none⟩) w := by
  have found := h.node?_eq
  unfold exists?
  by_cases fits : Fits start dir n
  · rw [if_pos fits] at found ⊢
    rw [bind_ok found]
    rfl
  · rw [if_neg fits] at found ⊢
    rw [bind_error found]

theorem isFolder_eq (h : Named d start place folder dir n w) :
    isFolder (start.descend (dir ++ [n])) w =
      if Fits start dir n then .ok (d.get? (place ++ dir ++ [n]) = some .folder) w
      else .error (.os ⟨.nameTooLong, (start.descend (dir ++ [n])).text, none⟩) w := by
  have found := h.node?_eq
  unfold isFolder
  by_cases fits : Fits start dir n
  · rw [if_pos fits] at found ⊢
    rw [bind_ok found]
    rfl
  · rw [if_neg fits] at found ⊢
    rw [bind_error found]

section File

variable {bs : Bytes}

theorem isFile_eq (h : Named d start place folder dir n w) (fits : Fits start dir n)
    (file : d.get? (place ++ dir ++ [n]) = some (.file bs)) :
    isFile (start.descend (dir ++ [n])) w = .ok true w := by
  unfold isFile
  simp only [bind, EStateM.bind, h.node?_eq, if_pos fits, file]
  rfl

theorem size_eq (h : Named d start place folder dir n w) (fits : Fits start dir n)
    (file : d.get? (place ++ dir ++ [n]) = some (.file bs)) :
    size (start.descend (dir ++ [n])) w = .ok bs.length w := by
  unfold size
  simp only [bind, EStateM.bind, ask_eq h.spelled, h.node_eq, if_pos fits, file]
  rfl

theorem readBytes_eq (h : Named d start place folder dir n w) (fits : Fits start dir n)
    (file : d.get? (place ++ dir ++ [n]) = some (.file bs)) :
    readBytes (start.descend (dir ++ [n])) w = .ok bs w := by
  unfold readBytes
  have read : w.disk.bytes w.folder (start.descend (dir ++ [n])) = .ok bs := by
    unfold Disk.bytes
    rw [h.node_eq, if_pos fits, file]
    rfl
  rw [ask_eq h.spelled, read]

theorem readable_eq (h : Named d start place folder dir n w) (fits : Fits start dir n)
    (file : d.get? (place ++ dir ++ [n]) = some (.file bs)) :
    readable (start.descend (dir ++ [n])) w = .ok true w := by
  apply orOnRefusal_ok
  rw [bind_ok (h.exists?_eq.trans (if_pos fits)), file]
  simp only [Option.isSome_some, Bool.not_true, Bool.false_eq_true, if_false]
  rw [bind_ok (h.isFile_eq fits file)]
  simp only [Bool.not_true, Bool.false_eq_true, if_false]
  rw [bind_ok (h.readBytes_eq fits file)]
  rfl

end File

theorem writeBytes_eq (h : Named d start place folder dir n w) (fits : Fits start dir n)
    (free : d.get? (place ++ dir ++ [n]) ≠ some .folder) (bs : Bytes) :
    writeBytes (start.descend (dir ++ [n])) bs w =
      .ok () { w with disk := d.put (place ++ dir ++ [n]) (.file bs) } := by
  have written : w.disk.write w.folder (start.descend (dir ++ [n])) bs =
      .ok (d.put (place ++ dir ++ [n]) (.file bs)) := by
    unfold Disk.write
    rw [h.locate .make, if_pos fits, h.standing.1]
    simp only [bind, Except.bind]
    rfl
  rw [Workspace.writeBytes_eq h.standing.2.2, change_eq h.spelled, written]

theorem unlink_eq (h : Named d start place folder dir n w) (fits : Fits start dir n) {bs : Bytes}
    (file : d.get? (place ++ dir ++ [n]) = some (.file bs)) :
    unlink (start.descend (dir ++ [n])) w =
      .ok () { w with disk := d.erase (place ++ dir ++ [n]) } := by
  have removed : w.disk.unlink w.folder (start.descend (dir ++ [n])) =
      .ok (d.erase (place ++ dir ++ [n])) := by
    unfold Disk.unlink
    rw [h.locate .stay, if_pos fits, h.standing.1]
    simp only [bind, Except.bind, file]
    rfl
  rw [Workspace.unlink_eq h.standing.2.2, change_eq h.spelled, removed]

theorem unlink_folder (h : Named d start place folder dir n w) (fits : Fits start dir n)
    (isFolder : d.get? (place ++ dir ++ [n]) = some .folder) :
    change (start.descend (dir ++ [n])) Disk.unlink w =
      .error (.os ⟨.isDirectory, (start.descend (dir ++ [n])).text, none⟩) w := by
  have refused : w.disk.unlink w.folder (start.descend (dir ++ [n])) = .error .isDirectory := by
    unfold Disk.unlink
    rw [h.locate .stay, if_pos fits, h.standing.1]
    simp only [bind, Except.bind, isFolder]
    rfl
  rw [change_eq h.spelled, refused]

theorem write_long (h : Named d start place folder dir n w) (long : ¬ Fits start dir n)
    (bs : Bytes) :
    change (start.descend (dir ++ [n])) (fun d folder p => d.write folder p bs) w =
      .error (.os ⟨.nameTooLong, (start.descend (dir ++ [n])).text, none⟩) w := by
  have refused : w.disk.write w.folder (start.descend (dir ++ [n])) bs = .error .nameTooLong := by
    unfold Disk.write
    rw [h.locate .make, if_neg long]
    rfl
  rw [change_eq h.spelled, refused]

theorem write_folder (h : Named d start place folder dir n w) (fits : Fits start dir n)
    (isFolder : d.get? (place ++ dir ++ [n]) = some .folder) (bs : Bytes) :
    change (start.descend (dir ++ [n])) (fun d folder p => d.write folder p bs) w =
      .error (.os ⟨.isDirectory, (start.descend (dir ++ [n])).text, none⟩) w := by
  have refused : w.disk.write w.folder (start.descend (dir ++ [n])) bs = .error .isDirectory := by
    unfold Disk.write
    rw [h.locate .make, if_pos fits, h.standing.1]
    simp only [bind, Except.bind, isFolder]
    rfl
  rw [change_eq h.spelled, refused]

theorem after_put (h : Named d start place folder dir n w) (fits : Fits start dir n)
    (free : d.get? (place ++ dir ++ [n]) ≠ some .folder) (bs : Bytes) {m : Text}
    (proper : ProperName m) :
    Named (d.put (place ++ dir ++ [n]) (.file bs)) start place folder dir m
      { w with disk := d.put (place ++ dir ++ [n]) (.file bs) } := by
  have tree := h.base.tree.put_file bs h.inFolder h.proper fits.2 free
  have folders : ∀ p, d.get? p = some .folder →
      (d.put (place ++ dir ++ [n]) (.file bs)).get? p = some .folder := by
    intro p hp
    have other : p ≠ place ++ dir ++ [n] := fun eq => free (eq ▸ hp)
    rw [get?_put (by simp), if_neg other, hp]
  exact ⟨h.base.of_folders tree folders, ⟨rfl, h.standing.2⟩, folders _ h.inFolder, proper⟩

theorem sibling (h : Named d start place folder dir n w) {m : Text} (proper : ProperName m) :
    Named d start place folder dir m w :=
  ⟨h.base, h.standing, h.inFolder, proper⟩

end Named

end Names

end SchedulingNoise.Workspace
