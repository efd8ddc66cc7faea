import SchedulingNoise.Proofs.Matching
import SchedulingNoise.Proofs.Stores

namespace SchedulingNoise.Workspace
open Disk

variable {w₀ w : Workspace} {fs : Contents} {ms : List Mishap} {p q : Path} {X Y : Place}
  {bs : Bytes}

section Copying

theorem keeps_notFolder (notFolder : NoFolder w₀ p) :
    Keeps (Facing w₀ fs ms) (isFolder p) fun b => b = false := by
  refine (keeps_looking p).bind fun n hn => .pure ?_
  simp only [decide_eq_false_iff_not]
  rintro rfl
  obtain ⟨spelled, w, hw, there⟩ := hn .folder rfl
  rw [hw.1.folder] at there
  exact notFolder spelled (hw.1.ways.node_folder there)

def Missed (w₀ : Workspace) (fs : Contents) (ms : List Mishap) (p : Path) (e : Fault)
    (w : Workspace) : Prop :=
  Stores w₀ fs w ∧ (Char.ofNat 0 ∉ p.text → w.mishaps = ms ∧ e.fromDisk = true)

theorem ends_sameThing (reached : Reached w₀ p X) (spot : Spot w₀ q Y) (other : X ≠ Y)
    (ms' : List Mishap) : Ends (Facing w₀ fs ms) (sameThing p q)
      (fun b w => Facing w₀ fs ms w ∧ b = false) (Missed w₀ fs ms' q) := by
  intro w hw
  unfold sameThing
  rw [bind_ok (requireSpelled_eq reached.spelled)]
  have spelling := ends_requireSpelled (I := Facing w₀ fs ms) q w hw
  cases eq : requireSpelled q w with
  | error f v =>
    rw [eq] at spelling
    rw [bind_error eq]
    refine ⟨spelling.1.1, fun spelled => ?_⟩
    rw [requireSpelled_eq spelled] at eq
    cases eq
  | ok x v =>
    rw [eq] at spelling
    rw [bind_ok eq, bind_ok (get_eq v), spelling.1.1.leads reached]
    cases there : v.disk.locate .enter v.folder q with
    | error e => exact ⟨spelling.1, rfl⟩
    | ok place =>
      obtain ⟨rfl, _⟩ := spelling.1.1.found spot spelling.2 there
      exact ⟨spelling.1, by simp [other]⟩

theorem ends_writeCopy (spot : Spot w₀ q Y) (apart : ∀ f ∈ fs, f.1 ≠ Y) (bs : Bytes) :
    Ends (Facing w₀ fs ms) (writeCopy q bs)
      (fun _ w => Facing w₀ ((Y, some bs) :: fs) ms.tail w ∧ Reached w₀ q Y)
      (Missed w₀ fs ms.tail q) := by
  have seen : Keeps (Facing w₀ fs ms.tail) (exists? q) fun _ => True := keeps_exists? q
  have looked : Ends (Facing w₀ fs ms.tail) (attempt (exists? q))
      (fun _ => Facing w₀ fs ms.tail) (Missed w₀ fs ms.tail q) := by
    refine (ends_attempt seen).weaken (fun r w hw => ?_) fun _ _ h => h
    cases r with
    | ok b => exact hw.1
    | error f => exact hw
  refine (ends_attempt (ends_writeBytes spot apart bs)).bind fun r => ?_
  cases r with
  | ok x => exact fun w hw => hw
  | error f =>
    dsimp only
    split
    · contradiction
    · refine (looked.before fun w hw => hw.1).bind fun r => ?_
      split
      · exact fun w hw => ⟨hw.1, fun _ => ⟨hw.2, rfl⟩⟩
      · exact fun w hw => ⟨hw.1, fun _ => ⟨hw.2, rfl⟩⟩
    · rename_i eq
      cases eq
      exact fun w hw => ⟨hw.1.1, fun spelled => ⟨hw.1.2, hw.2 spelled⟩⟩

theorem ends_copyFile (reached : Reached w₀ p X) (file : (X, some bs) ∈ fs) (spot : Spot w₀ q Y)
    (notFolder : NoFolder w₀ q) (apart : ∀ f ∈ fs, f.1 ≠ Y) :
    Ends (Facing w₀ fs ms) (copyFile p q)
      (fun _ w => Facing w₀ ((Y, some bs) :: fs) ms.tail w ∧ Reached w₀ q Y)
      (Missed w₀ fs ms.tail q) := by
  have copied : Ends (Facing w₀ fs ms) (do
      if ← sameThing p q then throw (.sameFile p.text q.text)
      let bs ← readBytes p
      writeCopy q bs)
      (fun _ w => Facing w₀ ((Y, some bs) :: fs) ms.tail w ∧ Reached w₀ q Y)
      (Missed w₀ fs ms.tail q) := by
    refine (ends_sameThing reached spot (apart _ file) ms.tail).bind fun same w hw => ?_
    obtain ⟨hw, rfl⟩ := hw
    have read := hw.1.readBytes_eq reached file
    have written := ends_writeCopy spot apart bs w hw
    simpa only [Bool.false_eq_true, if_false, pure_bind, bind_ok read] using written
  refine (ends_attempt (keeps_notFolder notFolder)).bind fun r => ?_
  match r with
  | .ok true => exact fun w hw => by cases hw.2
  | .ok false => exact copied.before fun w hw => hw.1
  | .error f => exact copied

/-- These files, and these mishaps to come if a path can be asked for. -/
def Meeting (w₀ : Workspace) (fs : Contents) (ms : List Mishap) (p : Path) (w : Workspace) : Prop :=
  Stores w₀ fs w ∧ (Char.ofNat 0 ∉ p.text → w.mishaps = ms)

instance : Steady (Meeting w₀ fs ms p) where
  same h same := ⟨Steady.same h.1 same, fun spelled => same.mishaps.trans (h.2 spelled)⟩

def Tried (w₀ : Workspace) (fs : Contents) (ms : List Mishap) (q : Path) (f : Place × Option Bytes)
    (done : Bool) (w : Workspace) : Prop :=
  match done with
  | true => Stores w₀ (f :: fs) w ∧ Reached w₀ q f.1
  | false => Meeting w₀ fs ms q w

section Tries

variable (reached : Reached w₀ p X) (file : (X, some bs) ∈ fs) (spot : Spot w₀ q Y)
  (notFolder : NoFolder w₀ q) (apart : ∀ f ∈ fs, f.1 ≠ Y)
include reached file spot notFolder apart

theorem ends_copyOnce (expected : Nat) :
    Ends (Meeting w₀ fs ms q) (copyOnce p q expected) (Tried w₀ fs ms.tail q (Y, some bs))
      (Missed w₀ fs ms.tail q) := by
  intro w hw
  have start : Facing w₀ fs w.mishaps w := ⟨hw.1, rfl⟩
  have met : ∀ v : Workspace, v.mishaps = w.mishaps.tail → Char.ofNat 0 ∉ q.text →
      v.mishaps = ms.tail := fun v eq spelled => by rw [eq, hw.2 spelled]
  have copied : Ends (Facing w₀ fs w.mishaps) (copyFile p q)
      (fun _ v => Facing w₀ ((Y, some bs) :: fs) w.mishaps.tail v ∧ Reached w₀ q Y)
      (Missed w₀ fs ms.tail q) :=
    (ends_copyFile reached file spot notFolder apart).weaken (fun _ _ h => h) fun f v h =>
      ⟨h.1, fun spelled => ⟨met v (h.2 spelled).1 spelled, (h.2 spelled).2⟩⟩
  refine copied.bind (fun _ v ⟨hv, there⟩ => ?_) w start
  rw [bind_ok (hv.1.size_eq there List.mem_cons_self)]
  by_cases whole : bs.length = expected
  · rw [if_pos whole]
    exact ⟨hv.1, there⟩
  · rw [if_neg whole]
    have left : Meeting w₀ fs ms.tail q v := ⟨hv.1.tail, met v hv.2⟩
    exact ends_told (I := Meeting w₀ fs ms.tail q) (Q := Tried w₀ fs ms.tail q (Y, some bs))
      (E := Missed w₀ fs ms.tail q) (x := false) _ (fun _ h => h) v left

/-- Each try meets one mishap, and a try that was refused is not the end. -/
theorem leads_copyTries (expected total : Nat) (delay : Quantity) (left : Nat) :
    Leads (Meeting w₀ fs ms q) (copyTries p q expected total delay left)
      (Tried w₀ fs (ms.drop left) q (Y, some bs))
      fun w => Stores w₀ fs w ∧ Char.ofNat 0 ∈ q.text := by
  induction left generalizing ms with
  | zero => exact fun w hw => hw
  | succ left ih =>
    have once : Leads (Meeting w₀ fs ms q) (orOnRefusal (copyOnce p q expected) fun f => do
        note ⟨.warning, s!"Copy attempt {total - left}/{total} failed: {f.message}"⟩
        pure false) (Tried w₀ fs ms.tail q (Y, some bs))
        fun w => Stores w₀ fs w ∧ Char.ofNat 0 ∈ q.text := by
      refine ends_orOnRefusal (F := fun _ w => Stores w₀ fs w ∧ Char.ofNat 0 ∈ q.text)
        (ends_copyOnce reached file spot notFolder apart expected) (fun _ _ h => h) ?_ ?_
      · intro f _
        refine Ends.before (I := Meeting w₀ fs ms.tail q) (ends_told _ fun _ h => h) ?_
        exact fun w hw => ⟨hw.1, fun spelled => (hw.2 spelled).1⟩
      · intro f w passed hw
        refine ⟨hw.1, ?_⟩
        by_contra spelled
        rw [(hw.2 spelled).2] at passed
        cases passed
    refine once.bind fun done => ?_
    cases done with
    | true => exact fun w hw => hw
    | false =>
      have rest : Leads (Meeting w₀ fs ms.tail q) (copyTries p q expected total delay left)
          (Tried w₀ fs (ms.drop (left + 1)) q (Y, some bs))
          fun w => Stores w₀ fs w ∧ Char.ofNat 0 ∈ q.text := by
        rw [← List.drop_tail]
        exact ih
      have paused : Leads (Meeting w₀ fs ms.tail q) (pause delay)
          (fun _ => Meeting w₀ fs ms.tail q) fun w => Stores w₀ fs w ∧ Char.ofNat 0 ∈ q.text :=
        fun w hw => Steady.same hw ⟨rfl, rfl, rfl, rfl⟩
      simp only [Bool.false_eq_true, if_false]
      split
      · exact rest
      · exact paused.bind fun _ => rest

theorem leads_copy (tries : Nat) (delay : Quantity) :
    Leads (Meeting w₀ fs ms q) (copy p q tries delay)
      (Tried w₀ fs (ms.drop tries) q (Y, some bs))
      fun w => Stores w₀ fs w ∧ Char.ofNat 0 ∈ q.text := by
  intro w hw
  have sized : (some <$> size p : Act (Option Nat)) w = .ok (some bs.length) w := by
    rw [map_eq_pure_bind, bind_ok (hw.1.size_eq reached file)]
    rfl
  unfold copy
  rw [bind_ok (orOnRefusal_ok sized _)]
  exact leads_copyTries reached file spot notFolder apart bs.length tries delay tries w hw

end Tries

end Copying

section Removing

def Removed (w₀ : Workspace) (gone fs : Contents) (met : Option Mishap) (w : Workspace) : Prop :=
  Stores w₀ (gone ++ fs) w ∨ Stores w₀ fs w ∧ ∃ e left, met = some (.refused e left)

instance {gone : Contents} {met : Option Mishap} : Steady (Removed w₀ gone fs met) where
  same h same := h.imp (fun h => Steady.same h same) fun h => ⟨Steady.same h.1 same, h.2⟩

theorem leads_removePartial {gone : Contents} (vacancy : Vacancy w₀ p X gone) (spot : Spot w₀ p X)
    (notFolder : NoFolder w₀ p) (apart : ∀ f ∈ fs, f.1 ≠ X) :
    Leads (Meeting w₀ fs ms p) (removePartial p) (fun _ => Removed w₀ gone fs ms.head?)
      (Removed w₀ gone fs ms.head?) := by
  intro w hw
  unfold removePartial
  by_cases unfound : Unfound p w
  · have looked := keeps_exists? (I := (· = w)) p w rfl
    have cleared := vacancy.of_unfound hw.1 unfound
    cases seen : exists? p w with
    | error f v =>
      rw [seen] at looked
      cases looked
      rw [bind_error seen]
      exact .inl cleared
    | ok found v =>
      rw [seen] at looked
      obtain ⟨rfl, _⟩ := looked
      rw [bind_ok seen]
      cases found with
      | true => exact absurd seen (unfound _)
      | false => exact .inl cleared
  · have seen : Char.ofNat 0 ∉ p.text ∧ ∃ x, w.disk.node w.folder p = .ok x := by
      rw [unfound_iff] at unfound
      push Not at unfound
      exact unfound
    obtain ⟨spelled, x, there⟩ := seen
    rw [bind_ok (exists?_of_node spelled there)]
    obtain ⟨place, leads, here⟩ := node_eq_ok there
    obtain ⟨rfl, reached⟩ := hw.1.found spot spelled leads
    have plain : x ≠ .folder := by
      rintro rfl
      rw [hw.1.folder] at there
      exact notFolder spelled (hw.1.ways.node_folder there)
    have removed : Ends (fun w => (Stores w₀ fs w ∧ w.disk.get? place = some x) ∧ w.mishaps = ms)
        (orOnRefusal (unlink p) fun f =>
          note ⟨.warning, s!"Could not remove partial backup {p}: {f.message}"⟩)
        (fun _ => Removed w₀ gone fs ms.head?) fun _ => Removed w₀ gone fs ms.head? := by
      refine ends_orOnRefusal (ends_unlink_there reached plain spot apart)
        (fun _ w h => .inl (vacancy.of_erased h)) ?_ ?_
      · exact fun f _ => (ends_note _).before fun w h => .inr ⟨h.1, h.2.2⟩
      · exact fun f w _ h => .inr ⟨h.1, h.2.2⟩
    exact removed w ⟨⟨hw.1, here⟩, hw.2 spelled⟩

theorem leads_trial_new (stores : Stores w₀ fs w) (spot : Spot w₀ p X)
    (there : w.disk.get? X = none) :
    Leads (· = w) (do touch p; change p Disk.unlink; pure true) (fun _ v => v = w) (· = w) := by
  have touched : Leads (· = w) (touch p)
      (fun _ v => v = { w with disk := w.disk.put X (.file []) } ∧ Reached w₀ p X) (· = w) := by
    have asked : Keeps (· = w) (ask p Disk.node) _ := keeps_asking p Disk.node
    refine (keeps_attempt asked).leads (fun _ h => h) fun r found => ?_
    cases r with
    | ok x =>
      obtain ⟨spelled, _, rfl, node⟩ := found x rfl
      obtain ⟨place, leads, here⟩ := node_eq_ok node
      obtain ⟨rfl, _⟩ := stores.found spot spelled leads
      rw [there] at here
      cases here
    | error f =>
      refine (ends_change ?_).weaken (fun _ _ h => h) fun _ _ h => h.1
      rintro v d rfl written spelled
      obtain ⟨place, leads, _, rfl⟩ := write_eq_ok written
      obtain ⟨rfl, reached⟩ := stores.found spot spelled leads
      exact ⟨rfl, reached⟩
  have erased : Leads (fun v => v = { w with disk := w.disk.put X (.file []) } ∧ Reached w₀ p X)
      (change p Disk.unlink) (fun _ v => v = w) (· = w) := by
    rintro v ⟨rfl, reached⟩
    have below : w.disk.get? X ≠ some .folder := not_folder_of_none there
    have inside : X ≠ [] := fun root => below (by rw [root]; rfl)
    have made := (stores.mono (List.nil_subset fs)).put (by simp) below spot.noLink []
    have gone : (w.disk.put X (.file [])).unlink w.folder p = .ok w.disk := by
      unfold Disk.unlink
      rw [made.leads reached]
      simp only [bind, Except.bind, get?_put inside, if_true]
      rw [erase_put_new there]
      rfl
    rw [change_eq reached.spelled]
    dsimp only
    rw [gone]
  exact touched.bind fun _ => erased.bind fun _ v hv => hv

theorem keeps_trial (spot : Spot w₀ p X) (free : ∀ f ∈ fs, f.1 = X → f.2 = none) :
    Keeps (Facing w₀ fs ms) (do touch p; change p Disk.unlink; pure true) fun _ => True := by
  intro w hw
  by_cases there : w.disk.get? X = none
  · refine (leads_trial_new hw.1 spot there).weaken (fun _ v eq => ?_) (fun v eq => ?_) w rfl
    · exact ⟨eq ▸ hw, True.intro⟩
    · exact eq ▸ hw
  · have apart : ∀ f ∈ fs, f.1 ≠ X := by
      rintro f hf rfl
      have here := hw.1.files f hf
      rw [free f hf rfl] at here
      exact there here
    have touched : Keeps (Facing w₀ fs ms) (touch p) fun _ => True := by
      have asked : Keeps (Facing w₀ fs ms) (ask p Disk.node) _ := keeps_asking p Disk.node
      refine (keeps_attempt asked).bind fun r _ => ?_
      cases r with
      | ok x => exact .pure True.intro
      | error f =>
        exact (ends_write spot apart []).weaken (fun _ v h => ⟨⟨h.1.1.tail, h.1.2⟩, True.intro⟩)
          fun _ _ h => h.1
    have erased : Keeps (Facing w₀ fs ms) (change p Disk.unlink) fun _ => True :=
      (ends_erase spot apart).weaken (fun _ v h => ⟨⟨h.1.tail, h.2⟩, True.intro⟩)
        fun _ _ h => h.1
    exact (touched.bind fun _ _ => erased.bind fun _ _ => .pure True.intro) w hw

theorem keeps_writable (spot : Spot w₀ (p.child trialName) X)
    (free : ∀ f ∈ fs, f.1 = X → f.2 = none) :
    Keeps (Facing w₀ fs ms) (writable p) fun _ => True := by
  refine keeps_orOnRefusal ((keeps_exists? p).bind fun found _ => ?_) fun _ => .pure True.intro
  split
  · exact .pure True.intro
  · refine (keeps_isFolder p).bind fun folder _ => ?_
    split
    · exact .pure True.intro
    · exact keeps_trial spot free

theorem keeps_readable {I : Workspace → Prop} (p : Path) : Keeps I (readable p) fun _ => True := by
  refine keeps_orOnRefusal ((keeps_exists? p).bind fun found _ => ?_) fun _ => .pure True.intro
  split
  · exact .pure True.intro
  · have isFile : Keeps I (isFile p) fun _ => True := by
      refine (keeps_looking p).bind fun n _ => ?_
      split <;> exact .pure True.intro
    refine isFile.bind fun file _ => ?_
    split
    · exact .pure True.intro
    · exact (keeps_readBytes p).bind fun _ _ => .pure True.intro

end Removing

section BackingUp

variable {c : Config} {S B R : Place} {b : Bytes} {gone : Contents}

theorem leads_spelledBy {I E : Workspace → Prop} {a : Act α} {Q : α → Workspace → Prop}
    (h : Leads I a Q E) (t : RawText) : Leads I (spelledBy t a) Q E := by
  refine Leads.bind (ends_attempt (E := fun _ => E) (F := fun _ => E) h) fun r => ?_
  cases r with
  | ok x => exact fun w hw => hw
  | error f =>
    dsimp only
    split
    · contradiction
    · exact fun w hw => hw
    · exact fun w hw => hw

theorem leads_backUp (given : backupPath c p = .ok q) (reached : Reached w₀ p S)
    (spot : Spot w₀ q B) (notFolder : NoFolder w₀ q) (other : S ≠ B)
    (vacancy : Vacancy w₀ q B gone) (trial : Spot w₀ (p.parent.child trialName) R)
    (free : S ≠ R) :
    Leads (Facing w₀ (gone ++ [(S, some b)]) ms) (backUp c p)
      (fun x w => x = q ∧ Stores w₀ [(B, some b), (S, some b)] w ∧ Reached w₀ q B)
      (Removed w₀ gone [(S, some b)] ms[3]?) := by
  have start : ∀ w, Facing w₀ (gone ++ [(S, some b)]) ms w →
      Removed w₀ gone [(S, some b)] ms[3]? w := fun w hw => .inl hw.1
  have atTrial : ∀ f ∈ gone ++ [(S, some b)], f.1 = R → f.2 = none := by
    intro f hf eq
    rcases List.mem_append.mp hf with hf | hf
    · rw [(vacancy.only f hf).1]
    · rw [List.mem_singleton.mp hf] at eq
      exact absurd eq free
  have copied : Leads (Facing w₀ (gone ++ [(S, some b)]) ms) (copy p q)
      (Tried w₀ [(S, some b)] (ms.drop 3) q (B, some b))
      (Removed w₀ gone [(S, some b)] ms[3]?) := by
    have whole : Leads (Meeting w₀ [(S, some b)] ms q) (copy p q) _ _ :=
      leads_copy reached List.mem_cons_self spot notFolder (by simpa) 3 _
    refine (whole.weaken (fun _ _ h => h) fun w h => ?_).before fun w hw => ?_
    · exact .inl (vacancy.of_unfound h.1 (unfound_iff.mpr fun spelled => absurd h.2 spelled))
    · exact ⟨hw.1.mono (List.subset_append_right _ _), fun _ => hw.2⟩
  have removed : Leads (Meeting w₀ [(S, some b)] (ms.drop 3) q) (removePartial q)
      (fun _ => Removed w₀ gone [(S, some b)] ms[3]?)
      (Removed w₀ gone [(S, some b)] ms[3]?) := by
    rw [← List.head?_drop]
    exact leads_removePartial vacancy spot notFolder (by simpa)
  unfold backUp
  refine keeps_require.leads start fun target eq => ?_
  cases given.symm.trans eq
  refine (keeps_exists? q).leads start fun found _ => ?_
  split
  · exact fun w hw => start w hw
  · refine (keeps_readable p).leads start fun read _ => ?_
    split
    · refine (keeps_writable trial atTrial).leads start fun write _ => ?_
      split
      · refine keeps_require.leads start fun suffix _ => ?_
        refine (leads_spelledBy copied suffix).bind fun done => ?_
        cases done with
        | true =>
          simp only [if_true]
          rintro w ⟨hw, there⟩
          exact ends_told (I := Stores w₀ [(B, some b), (S, some b)])
            (Q := fun x w => x = q ∧ Stores w₀ [(B, some b), (S, some b)] w ∧ Reached w₀ q B)
            (E := fun _ => Removed w₀ gone [(S, some b)] ms[3]?) (x := q) _
            (fun _ h => ⟨rfl, h, there⟩) w hw
        | false =>
          simp only [Bool.false_eq_true, if_false]
          exact removed.bind fun _ w hw => hw
      · exact fun w hw => start w hw
    · exact fun w hw => start w hw

end BackingUp

section Writing

theorem leads_clearing (spot : Spot w₀ p X) (apart : ∀ f ∈ fs, f.1 ≠ X) {next : Act α}
    {Q : α → Workspace → Prop} {E : Workspace → Prop} (imp : ∀ w, Stores w₀ fs w → E w)
    (last : Leads (Stores w₀ fs) next Q E) :
    Leads (Stores w₀ fs) (do
      if ← exists? p then unlink p
      next) Q E := by
  refine (keeps_exists? p).leads imp fun found _ => ?_
  split
  · exact ((leads_unlink spot apart).weaken (fun _ _ h => h.tail) imp).bind fun _ => last
  · exact last

/-- A file is written anew by way of another one, or it may be lost; a third one is kept. -/
theorem leads_writeText {T : Place} {b : Bytes} (spot : Spot w₀ p X)
    (named : ∀ temp, p.withName (temporaryName p.name w₀.epoch) = .ok temp → Spot w₀ temp T)
    (apart : T ≠ X ∧ Y ≠ T ∧ Y ≠ X) (text : Text) :
    Leads (Stores w₀ [(Y, some b)]) (writeText p text)
      (fun _ => Stores w₀ [(X, some (Utf8.encode text)), (Y, some b)])
      (Stores w₀ [(Y, some b)]) := by
  obtain ⟨fresh, keptT, keptX⟩ := apart
  unfold writeText
  refine keeps_get.leads (fun _ h => h) fun w hw => ?_
  rw [hw.epoch]
  refine keeps_require.leads (fun _ h => h) fun temp eq => ?_
  have there := named temp eq
  have written : Leads (Stores w₀ [(Y, some b)]) (do
      writeBytes temp (Utf8.encode text)
      rename temp p) (fun _ => Stores w₀ [(X, some (Utf8.encode text)), (Y, some b)])
      (Stores w₀ [(Y, some b)]) :=
    (leads_writeBytes there (by simpa) _).bind fun _ =>
      leads_rename there spot fresh (by simp [keptT, keptX])
  refine Leads.bind (ends_attempt (F := fun _ => Stores w₀ [(Y, some b)])
    (E := fun _ => Stores w₀ [(Y, some b)]) written) fun r => ?_
  cases r with
  | ok x =>
    exact leads_clearing there (by simp [fresh.symm, keptT]) (fun _ h => h.tail) fun _ h => h
  | error f => exact leads_clearing there (by simpa) (fun _ h => h) fun _ h => h

end Writing

section Restoring

/-- A backup is put back and removed; until it is back, it stays. -/
theorem leads_restore {c : Config} {S B : Place} {b : Bytes} (given : backupPath c p = .ok q)
    (saved : Reached w₀ q B) (spot : Spot w₀ q B) (source : Spot w₀ p S)
    (notFolder : NoFolder w₀ p) (other : B ≠ S) (apart : ∀ f ∈ fs, f.1 ≠ S ∧ f.1 ≠ B) :
    Leads (Stores w₀ ((B, some b) :: fs)) (restore c p)
      (fun done w => done = true ∧ Stores w₀ ((B, none) :: (S, some b) :: fs) w)
      (fun w => Stores w₀ ((S, some b) :: fs) w ∨ Stores w₀ ((B, some b) :: fs) w) := by
  have copied : Leads (Stores w₀ ((B, some b) :: fs)) (copy q p)
      (fun done w => Stores w₀ (if done then (S, some b) :: (B, some b) :: fs
        else (B, some b) :: fs) w)
      (fun w => Stores w₀ ((S, some b) :: fs) w ∨ Stores w₀ ((B, some b) :: fs) w) := by
    have away : ∀ f ∈ (B, some b) :: fs, f.1 ≠ S := by
      intro f hf
      rcases List.mem_cons.mp hf with rfl | hf
      · exact other
      · exact (apart f hf).1
    refine leads_of_facing fun ms => ?_
    have whole : Leads (Meeting w₀ ((B, some b) :: fs) ms p) (copy q p) _ _ :=
      leads_copy saved List.mem_cons_self source notFolder away 3 _
    refine (whole.weaken (fun done w h => ?_) fun w h => .inr h.1).before fun w hw =>
      ⟨hw.1, fun _ => hw.2⟩
    cases done with
    | true => exact h.1
    | false => exact h.1
  intro w hw
  unfold restore
  rw [given, bind_ok (require_ok q w),
    bind_ok (exists?_of_node saved.spelled (hw.node_eq saved List.mem_cons_self))]
  simp only [Bool.not_true, Bool.false_eq_true, if_false]
  refine copied.bind (fun done => ?_) w hw
  cases done with
  | false =>
    simp only [Bool.false_eq_true, if_false]
    exact fun w hw => .inr hw
  | true =>
    simp only [if_true]
    have away : ∀ f ∈ (S, some b) :: fs, f.1 ≠ B := by
      intro f hf
      rcases List.mem_cons.mp hf with rfl | hf
      · exact other.symm
      · exact (apart f hf).2
    have unlinked : Leads (Stores w₀ ((S, some b) :: fs)) (unlink q)
        (fun _ => Stores w₀ ((B, none) :: (S, some b) :: fs))
        (fun w => Stores w₀ ((S, some b) :: fs) w ∨ Stores w₀ ((B, some b) :: fs) w) :=
      (leads_unlink spot away).weaken (fun _ _ h => h) fun _ h => .inl h
    refine (unlinked.before fun w hw => hw.mono (by simp)).bind fun _ => ?_
    exact (keeps_note _).leads (fun _ h => .inl h.tail) fun _ _ w hw => ⟨rfl, hw⟩

end Restoring

end SchedulingNoise.Workspace
