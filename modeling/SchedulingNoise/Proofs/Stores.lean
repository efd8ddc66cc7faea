import SchedulingNoise.Proofs.Files
import SchedulingNoise.Proofs.Ways

namespace SchedulingNoise

namespace Disk

variable {d d' : Disk} {folder : Place} {p q : Path} {bs : Bytes}

theorem node_eq_ok {x : Node} (h : d.node folder p = .ok x) :
    ∃ place, d.locate .enter folder p = .ok place ∧ d.get? place = some x := by
  obtain ⟨place, leads, found⟩ := bind_eq_ok.mp h
  refine ⟨place, leads, ?_⟩
  split at found
  · rename_i y there
    cases found
    exact there
  · cases found

theorem write_eq_ok (h : d.write folder p bs = .ok d') :
    ∃ place, d.locate .make folder p = .ok place ∧ d.get? place ≠ some .folder ∧
      d' = d.put place (.file bs) := by
  obtain ⟨place, leads, put⟩ := bind_eq_ok.mp h
  refine ⟨place, leads, ?_⟩
  split at put
  · cases put
  · rename_i free
    cases put
    exact ⟨free, rfl⟩

theorem append_eq_ok (h : d.append folder p bs = .ok d') :
    ∃ place new, d.locate .make folder p = .ok place ∧ d.get? place ≠ some .folder ∧
      d' = d.put place (.file new) := by
  obtain ⟨place, leads, put⟩ := bind_eq_ok.mp h
  split at put
  · cases put
  · rename_i old file
    cases put
    exact ⟨place, old ++ bs, leads, by simp [file], rfl⟩
  · rename_i free _
    cases put
    exact ⟨place, bs, leads, free, rfl⟩

theorem unlink_eq_ok (h : d.unlink folder p = .ok d') :
    ∃ place, d.locate .stay folder p = .ok place ∧ d.get? place ≠ some .folder ∧
      d' = d.erase place := by
  obtain ⟨place, leads, erased⟩ := bind_eq_ok.mp h
  refine ⟨place, leads, ?_⟩
  split at erased
  · cases erased
  · cases erased
  · rename_i x notFolder there
    cases erased
    exact ⟨fun folder => notFolder (Option.some.inj (there.symm.trans folder)), rfl⟩

theorem rename_eq_ok (h : d.rename folder p q = .ok d') :
    ∃ old new x, d.locate .stay folder p = .ok old ∧ d.locate .stay folder q = .ok new ∧
      d.get? old = some x ∧ d.get? new ≠ some .folder ∧
        d' = if old = new then d else (d.erase old).put new x := by
  obtain ⟨old, leads, h⟩ := bind_eq_ok.mp h
  obtain ⟨new, leads', h⟩ := bind_eq_ok.mp h
  dsimp only at h
  by_cases dots : (!isNamed p || !isNamed q) = true
  · rw [if_pos dots] at h
    cases h
  · rw [if_neg dots] at h
    split at h
    · cases h
    · cases h
    · rename_i x there notFolder
      cases h
      exact ⟨old, new, x, leads, leads', there, notFolder, rfl⟩

theorem Ways.node_folder (same : Ways d d') (h : d'.node folder p = .ok .folder) :
    d.node folder p = .ok .folder := by
  obtain ⟨place, leads, there⟩ := node_eq_ok h
  have seen : d'.guide place = some .folder := by
    unfold guide
    rw [there]
  rw [same place] at seen
  unfold node
  rw [same.symm.locate leads]
  simp only [bind, Except.bind, Grounded.folder_of_guide seen]
  rfl

theorem guide_ne_link {place : Place} (h : ∀ t, d.get? place ≠ some (.link t)) (t : Text) :
    d.guide place ≠ some (.link t) := by
  intro link
  unfold guide at link
  split at link
  · cases link
  · rename_i there
    exact h _ there
  · cases link

theorem guide_none {place : Place} (notFolder : d.get? place ≠ some .folder)
    (noLink : ∀ t, d.guide place ≠ some (.link t)) : d.guide place = none := by
  unfold guide at noLink ⊢
  split
  · rename_i there
    exact absurd there notFolder
  · rename_i t there
    rw [there] at noLink
    exact absurd rfl (noLink t)
  · rfl

end Disk

namespace Workspace
open Disk

/-- Files and what they hold; nothing for those that are not there. -/
abbrev Contents := List (Place × Option Bytes)

/-- Since `w₀` at most files have changed, and these are as it is said here. -/
structure Stores (w₀ : Workspace) (files : Contents) (w : Workspace) : Prop where
  folder : w.folder = w₀.folder
  epoch : w.epoch = w₀.epoch
  ways : Ways w₀.disk w.disk
  files : ∀ f ∈ files, w.disk.get? f.1 = f.2.map Node.file

/-- The same, with these mishaps still to come. -/
def Facing (w₀ : Workspace) (files : Contents) (ms : List Mishap) (w : Workspace) : Prop :=
  Stores w₀ files w ∧ w.mishaps = ms

/-- A path that can be asked for and leads to one place. -/
structure Reached (w₀ : Workspace) (p : Path) (place : Place) : Prop where
  spelled : Char.ofNat 0 ∉ p.text
  leads : ∀ ending, w₀.disk.locate ending w₀.folder p = .ok place

/-- A path that leads to no other place than this one, which is no link. -/
structure Spot (w₀ : Workspace) (p : Path) (place : Place) : Prop where
  slot : Char.ofNat 0 ∉ p.text → Slot w₀.disk w₀.folder p place
  noLink : ∀ t, w₀.disk.guide place ≠ some (.link t)

def NoFolder (w₀ : Workspace) (p : Path) : Prop :=
  Char.ofNat 0 ∉ p.text → w₀.disk.node w₀.folder p ≠ .ok .folder

variable {w₀ w : Workspace} {fs : Contents} {ms : List Mishap} {p q : Path} {X Y : Place}
  {bs : Bytes}

instance : Steady (Stores w₀ fs) where
  same h same := by
    refine ⟨same.folder.trans h.folder, same.epoch.trans h.epoch, ?_, ?_⟩
    · rw [same.disk]
      exact h.ways
    · rw [same.disk]
      exact h.files

instance : Steady (Facing w₀ fs ms) where
  same h same := ⟨Steady.same h.1 same, same.mishaps.trans h.2⟩

namespace Stores

theorem mono {fs' : Contents} (h : Stores w₀ fs w) (fewer : fs' ⊆ fs) : Stores w₀ fs' w :=
  ⟨h.folder, h.epoch, h.ways, fun f hf => h.files f (fewer hf)⟩

theorem tail {f : Place × Option Bytes} (h : Stores w₀ (f :: fs) w) : Stores w₀ fs w :=
  h.mono (List.subset_cons_self f fs)

theorem put (h : Stores w₀ fs w) (apart : ∀ f ∈ fs, f.1 ≠ X) (below : w.disk.get? X ≠ some .folder)
    (noLink : ∀ t, w₀.disk.guide X ≠ some (.link t)) (bs : Bytes) :
    Stores w₀ ((X, some bs) :: fs) { w with disk := w.disk.put X (.file bs) } := by
  have inside : X ≠ [] := fun root => below (by rw [root]; rfl)
  have plain := guide_none below fun t link => noLink t (h.ways X ▸ link)
  refine ⟨h.folder, h.epoch, h.ways.trans (.put inside plain bs), ?_⟩
  intro f hf
  dsimp only
  rw [get?_put inside]
  rcases List.mem_cons.mp hf with rfl | hf
  · rw [if_pos rfl]
    rfl
  · rw [if_neg (apart f hf)]
    exact h.files f hf

theorem erase (h : Stores w₀ fs w) (apart : ∀ f ∈ fs, f.1 ≠ X)
    (below : w.disk.get? X ≠ some .folder) (noLink : ∀ t, w₀.disk.guide X ≠ some (.link t)) :
    Stores w₀ ((X, none) :: fs) { w with disk := w.disk.erase X } := by
  have inside : X ≠ [] := fun root => below (by rw [root]; rfl)
  have plain := guide_none below fun t link => noLink t (h.ways X ▸ link)
  refine ⟨h.folder, h.epoch, h.ways.trans (.erase inside plain), ?_⟩
  intro f hf
  dsimp only
  rw [get?_erase inside]
  rcases List.mem_cons.mp hf with rfl | hf
  · rw [if_pos rfl]
    rfl
  · rw [if_neg (apart f hf)]
    exact h.files f hf

theorem found (h : Stores w₀ fs w) (spot : Spot w₀ p X) (spelled : Char.ofNat 0 ∉ p.text)
    {ending : Ending} (leads : w.disk.locate ending w.folder p = .ok Y) :
    Y = X ∧ Reached w₀ p X := by
  rw [h.folder] at leads
  obtain ⟨eq, reached⟩ := (spot.slot spelled).leads (h.ways.symm.locate leads)
  exact ⟨eq, spelled, reached⟩

theorem leads (h : Stores w₀ fs w) (reached : Reached w₀ p X) (ending : Ending) :
    w.disk.locate ending w.folder p = .ok X := by
  rw [h.folder]
  exact h.ways.locate (reached.leads ending)

theorem node_eq (h : Stores w₀ fs w) (reached : Reached w₀ p X) (file : (X, some bs) ∈ fs) :
    w.disk.node w.folder p = .ok (.file bs) := by
  have there : w.disk.get? X = some (.file bs) := h.files _ file
  unfold Disk.node
  rw [h.leads reached]
  simp only [bind, Except.bind, there]
  rfl

theorem readBytes_eq (h : Stores w₀ fs w) (reached : Reached w₀ p X) (file : (X, some bs) ∈ fs) :
    readBytes p w = .ok bs w := by
  have read : w.disk.bytes w.folder p = .ok bs := by
    unfold Disk.bytes
    rw [h.node_eq reached file]
    rfl
  unfold readBytes
  rw [ask_eq reached.spelled, read]

theorem size_eq (h : Stores w₀ fs w) (reached : Reached w₀ p X) (file : (X, some bs) ∈ fs) :
    size p w = .ok bs.length w := by
  unfold size
  have asked : ask p Disk.node w = .ok (.file bs) w := by
    rw [ask_eq reached.spelled, h.node_eq reached file]
  rw [bind_ok asked]
  rfl

end Stores

theorem ends_orOnRefusal {I : Workspace → Prop} {a : Act α} {other : Fault → Act α}
    {Q Q' : α → Workspace → Prop} {E F : Fault → Workspace → Prop} (h : Ends I a Q E)
    (done : ∀ x w, Q x w → Q' x w)
    (handled : ∀ f, f.fromDisk = true → Ends (E f) (other f) Q' F)
    (passed : ∀ f w, f.fromDisk = false → E f w → F f w) :
    Ends I (orOnRefusal a other) Q' F := by
  refine (ends_attempt h).bind fun r => ?_
  cases r with
  | ok x => exact fun w hw => done x w hw
  | error f =>
    cases disk : f.fromDisk with
    | true => simpa only [disk, if_true] using handled f disk
    | false =>
      simp only [disk, Bool.false_eq_true, if_false]
      exact fun w hw => passed f w disk hw

theorem ends_note {I : Workspace → Prop} [Steady I] {E : Fault → Workspace → Prop}
    (r : LogRecord) : Ends I (note r) (fun _ => I) E := by
  intro w hw
  show I (if _ then _ else _)
  split
  · exact Steady.same hw ⟨rfl, rfl, rfl, rfl⟩
  · exact hw

theorem ends_told {I : Workspace → Prop} [Steady I] {Q : α → Workspace → Prop}
    {E : Fault → Workspace → Prop} (r : LogRecord) {x : α} (h : ∀ w, I w → Q x w) :
    Ends I (do note r; pure x) Q E :=
  (ends_note r).bind fun _ w hw => h w hw

theorem ends_change {I : Workspace → Prop} {Q : Workspace → Prop}
    {f : Disk → Place → Path → Except Errno Disk}
    (h : ∀ w d, I w → f w.disk w.folder p = .ok d → Char.ofNat 0 ∉ p.text →
      Q { w with disk := d }) :
    Ends I (change p f) (fun _ => Q) fun e w => I w ∧ Refused p e :=
  (ends_ask p f).bind fun d w hw => h w d hw.1 hw.2.1 hw.2.2

theorem ends_write (spot : Spot w₀ p X) (apart : ∀ f ∈ fs, f.1 ≠ X) (bs : Bytes) :
    Ends (Facing w₀ fs ms) (change p fun d folder p => d.write folder p bs)
      (fun _ w => Facing w₀ ((X, some bs) :: fs) ms w ∧ Reached w₀ p X)
      fun e w => Facing w₀ fs ms w ∧ Refused p e := by
  refine ends_change fun w d hw written spelled => ?_
  obtain ⟨place, leads, notFolder, rfl⟩ := write_eq_ok written
  obtain ⟨rfl, reached⟩ := hw.1.found spot spelled leads
  exact ⟨⟨hw.1.put apart notFolder spot.noLink bs, hw.2⟩, reached⟩

theorem ends_erase (spot : Spot w₀ p X) (apart : ∀ f ∈ fs, f.1 ≠ X) :
    Ends (Facing w₀ fs ms) (change p Disk.unlink) (fun _ => Facing w₀ ((X, none) :: fs) ms)
      fun e w => Facing w₀ fs ms w ∧ Refused p e := by
  refine ends_change fun w d hw erased spelled => ?_
  obtain ⟨place, leads, notFolder, rfl⟩ := unlink_eq_ok erased
  obtain ⟨rfl, _⟩ := hw.1.found spot spelled leads
  exact ⟨hw.1.erase apart notFolder spot.noLink, hw.2⟩

theorem ends_nextMishap {I J : Workspace → Prop} {E : Fault → Workspace → Prop}
    (h : ∀ w, I w → w.mishaps = ms → J { w with mishaps := ms.tail }) :
    Ends (fun w => I w ∧ w.mishaps = ms) nextMishap
      (fun m w => J w ∧ (m ≠ .none → ms.head? = some m)) E := by
  rintro w ⟨hw, rfl⟩
  have next := h w hw rfl
  cases met : w.mishaps with
  | nil =>
    have same : { w with mishaps := w.mishaps.tail } = w := by rw [met, List.tail_nil, ← met]
    rw [nextMishap_eq met]
    exact ⟨same ▸ next, fun some => absurd rfl some⟩
  | cons m rest =>
    rw [met] at next
    rw [nextMishap_cons met]
    exact ⟨next, fun _ => rfl⟩

theorem Facing.next (w : Workspace) (h : Stores w₀ fs w) (_ : w.mishaps = ms) :
    Facing w₀ fs ms.tail { w with mishaps := ms.tail } :=
  ⟨⟨h.folder, h.epoch, h.ways, h.files⟩, rfl⟩

theorem ends_mayFail {I J : Workspace → Prop}
    (h : ∀ w, I w → w.mishaps = ms → J { w with mishaps := ms.tail }) (target : Option Path) :
    Ends (fun w => I w ∧ w.mishaps = ms) (mayFail p target) (fun _ => J)
      fun e w => J w ∧ e.fromDisk = true ∧ ∃ errno left, ms.head? = some (.refused errno left) := by
  refine (ends_nextMishap h).bind fun m => ?_
  match m with
  | .none => exact fun w hw => hw.1
  | .refused e left => exact fun w hw => ⟨hw.1, rfl, e, left, hw.2 nofun⟩

theorem ends_writeBytes (spot : Spot w₀ p X) (apart : ∀ f ∈ fs, f.1 ≠ X) (bs : Bytes) :
    Ends (Facing w₀ fs ms) (writeBytes p bs)
      (fun _ w => Facing w₀ ((X, some bs) :: fs) ms.tail w ∧ Reached w₀ p X)
      fun e w => Facing w₀ fs ms.tail w ∧ Refused p e := by
  have met : Ends (Facing w₀ fs ms) (mayFailWriting p) (fun _ => Facing w₀ fs ms.tail)
      fun e w => Facing w₀ fs ms.tail w ∧ Refused p e := by
    refine (ends_nextMishap Facing.next).bind fun m => ?_
    match m with
    | .none => exact fun w hw => hw.1
    | .refused e none => exact fun w hw => ⟨hw.1, fun _ => rfl⟩
    | .refused e (some left) =>
      refine (ends_attempt ((ends_write spot apart left).before fun w hw => hw.1)).bind fun r => ?_
      cases r with
      | ok x => exact fun w hw => ⟨⟨hw.1.1.tail, hw.1.2⟩, fun _ => rfl⟩
      | error f => exact fun w hw => ⟨hw.1, fun _ => rfl⟩
  exact met.bind fun _ => ends_write spot apart bs

def Unfound (p : Path) (w : Workspace) : Prop := ∀ w', exists? p w ≠ .ok true w'

theorem exists?_of_node (spelled : Char.ofNat 0 ∉ p.text) {x : Node}
    (there : w.disk.node w.folder p = .ok x) : exists? p w = .ok true w := by
  unfold exists?
  rw [bind_ok (node?_of_node spelled there)]
  rfl

theorem unfound_iff : Unfound p w ↔
    (Char.ofNat 0 ∉ p.text → ∀ x, w.disk.node w.folder p ≠ .ok x) := by
  constructor
  · exact fun unfound spelled x there => unfound w (exists?_of_node spelled there)
  · intro none w' found
    have looked := keeps_looking (I := (· = w)) p w rfl
    cases seen : node? p w with
    | error f v =>
      rw [exists?, bind_error seen] at found
      cases found
    | ok n v =>
      rw [seen] at looked
      rw [exists?, bind_ok seen] at found
      cases n with
      | none => cases found
      | some x =>
        obtain ⟨spelled, _, rfl, there⟩ := looked.2 x rfl
        exact none spelled x there

namespace Stores

theorem unfound (h : Stores w₀ fs w) (spot : Spot w₀ p X)
    (gone : Reached w₀ p X → (X, none) ∈ fs) : Unfound p w := by
  refine unfound_iff.mpr fun spelled x there => ?_
  obtain ⟨place, leads, here⟩ := node_eq_ok there
  obtain ⟨rfl, reached⟩ := h.found spot spelled leads
  have none : w.disk.get? place = none := h.files _ (gone reached)
  rw [none] at here
  cases here

theorem vacant (h : Stores w₀ fs w) (reached : Reached w₀ p X) (unfound : Unfound p w) :
    Stores w₀ ((X, none) :: fs) w := by
  refine ⟨h.folder, h.epoch, h.ways, fun f hf => ?_⟩
  rcases List.mem_cons.mp hf with rfl | hf
  · cases there : w.disk.get? X with
    | none => rfl
    | some x =>
      have found : w.disk.node w.folder p = .ok x := by
        unfold Disk.node
        rw [h.leads reached]
        simp only [bind, Except.bind, there]
        rfl
      exact absurd found (unfound_iff.mp unfound reached.spelled x)
  · exact h.files f hf

end Stores

theorem ends_unlink (spot : Spot w₀ p X) (apart : ∀ f ∈ fs, f.1 ≠ X) :
    Ends (Facing w₀ fs ms) (unlink p) (fun _ => Facing w₀ ((X, none) :: fs) ms.tail)
      fun _ => Facing w₀ fs ms.tail := by
  have met : Ends (Facing w₀ fs ms) (mayFail p none) (fun _ => Facing w₀ fs ms.tail)
      fun _ => Facing w₀ fs ms.tail :=
    (ends_mayFail Facing.next none).weaken (fun _ _ h => h) fun _ _ h => h.1
  refine met.bind fun _ => ?_
  exact (ends_erase spot apart).weaken (fun _ _ h => h) fun _ _ h => h.1

theorem ends_unlink_there (reached : Reached w₀ p X) {x : Node} (notFolder : x ≠ .folder)
    (spot : Spot w₀ p X) (apart : ∀ f ∈ fs, f.1 ≠ X) :
    Ends (fun w => (Stores w₀ fs w ∧ w.disk.get? X = some x) ∧ w.mishaps = ms) (unlink p)
      (fun _ => Stores w₀ ((X, none) :: fs))
      fun e w => Stores w₀ fs w ∧ e.fromDisk = true ∧
        ∃ errno left, ms.head? = some (.refused errno left) := by
  refine ((ends_mayFail (J := fun w => Stores w₀ fs w ∧ w.disk.get? X = some x)
    (fun w hw eq => ⟨(Facing.next w hw.1 eq).1, hw.2⟩) none).weaken (fun _ _ h => h)
    fun _ _ h => ⟨h.1.1, h.2⟩).bind fun _ w hw => ?_
  have erased : w.disk.unlink w.folder p = .ok (w.disk.erase X) := by
    unfold Disk.unlink
    rw [hw.1.leads reached]
    simp only [bind, Except.bind, hw.2]
    cases x with
    | folder => exact absurd rfl notFolder
    | file bs => rfl
    | stream bs => rfl
    | link t => rfl
  rw [change_eq reached.spelled, erased]
  have below : w.disk.get? X ≠ some .folder := by
    rw [hw.2]
    exact fun eq => notFolder (Option.some.inj eq)
  exact hw.1.erase apart below spot.noLink

theorem leads_of_facing {a : Act α} {Q : α → Workspace → Prop} {E : Workspace → Prop}
    (h : ∀ ms, Leads (Facing w₀ fs ms) a Q E) : Leads (Stores w₀ fs) a Q E :=
  fun w hw => h w.mishaps w ⟨hw, rfl⟩

theorem leads_writeBytes (spot : Spot w₀ p X) (apart : ∀ f ∈ fs, f.1 ≠ X) (bs : Bytes) :
    Leads (Stores w₀ fs) (writeBytes p bs) (fun _ => Stores w₀ ((X, some bs) :: fs))
      (Stores w₀ fs) :=
  leads_of_facing fun _ =>
    (ends_writeBytes spot apart bs).weaken (fun _ _ h => h.1.1) fun _ _ h => h.1.1

theorem leads_unlink (spot : Spot w₀ p X) (apart : ∀ f ∈ fs, f.1 ≠ X) :
    Leads (Stores w₀ fs) (unlink p) (fun _ => Stores w₀ ((X, none) :: fs)) (Stores w₀ fs) :=
  leads_of_facing fun _ =>
    (ends_unlink spot apart).weaken (fun _ _ h => h.1) fun _ _ h => h.1

theorem leads_rename (old : Spot w₀ p X) (new : Spot w₀ q Y) (other : X ≠ Y)
    (apart : ∀ f ∈ fs, f.1 ≠ X ∧ f.1 ≠ Y) :
    Leads (Stores w₀ ((X, some bs) :: fs)) (rename p q) (fun _ => Stores w₀ ((Y, some bs) :: fs))
      (Stores w₀ fs) := by
  refine leads_of_facing fun ms => ?_
  have met : Ends (Facing w₀ ((X, some bs) :: fs) ms) (mayFail p (some q))
      (fun _ => Stores w₀ ((X, some bs) :: fs)) fun _ => Stores w₀ fs :=
    (ends_mayFail (fun w hw eq => (Facing.next w hw eq).1) _).weaken (fun _ _ h => h)
      fun _ _ h => h.1.tail
  refine Leads.bind met fun _ => ?_
  refine (keeps_requireSpelled p).leads (fun _ h => h.tail) fun _ spelled => ?_
  refine (keeps_requireSpelled q).leads (fun _ h => h.tail) fun _ spelled' => ?_
  intro v hv
  rw [bind_ok (get_eq v)]
  cases moved : v.disk.rename v.folder p q with
  | error e => exact hv.tail
  | ok d =>
    obtain ⟨place, place', x, leads, leads', there, notFolder, rfl⟩ := rename_eq_ok moved
    obtain ⟨rfl, _⟩ := hv.found old spelled leads
    obtain ⟨rfl, _⟩ := hv.found new spelled' leads'
    have file : v.disk.get? place = some (.file bs) := hv.files _ List.mem_cons_self
    cases there.symm.trans file
    have below : v.disk.get? place ≠ some .folder := not_folder_of_file file
    have inside : place ≠ [] := fun root => below (by rw [root]; rfl)
    have erased := hv.tail.erase (fun f hf => (apart f hf).1) below old.noLink
    rw [if_neg other]
    refine erased.tail.put (fun f hf => (apart f hf).2) ?_ new.noLink bs
    rw [get?_erase inside, if_neg other.symm]
    exact notFolder

structure Vacancy (w₀ : Workspace) (p : Path) (X : Place) (gone : Contents) : Prop where
  only : ∀ f ∈ gone, f = (X, none) ∧ Reached w₀ p X
  all : Reached w₀ p X → (X, none) ∈ gone

theorem exists_vacancy (w₀ : Workspace) (p : Path) (X : Place) : ∃ gone, Vacancy w₀ p X gone := by
  by_cases reached : Reached w₀ p X
  · exact ⟨[(X, none)], by simp [reached], by simp⟩
  · exact ⟨[], by simp, fun h => absurd h reached⟩

namespace Vacancy

variable {gone : Contents}

theorem of_erased (h : Vacancy w₀ p X gone) (erased : Stores w₀ ((X, none) :: fs) w) :
    Stores w₀ (gone ++ fs) w := by
  refine erased.mono fun f hf => ?_
  rcases List.mem_append.mp hf with hf | hf
  · rw [(h.only f hf).1]
    exact List.mem_cons_self
  · exact List.mem_cons_of_mem _ hf

theorem of_unfound (h : Vacancy w₀ p X gone) (stores : Stores w₀ fs w) (unfound : Unfound p w) :
    Stores w₀ (gone ++ fs) w := by
  by_cases reached : Reached w₀ p X
  · exact h.of_erased (stores.vacant reached unfound)
  · refine stores.mono fun f hf => ?_
    rcases List.mem_append.mp hf with hf | hf
    · exact absurd (h.only f hf).2 reached
    · exact hf

theorem unfound (h : Vacancy w₀ p X gone) (spot : Spot w₀ p X) (stores : Stores w₀ (gone ++ fs) w) :
    Unfound p w :=
  stores.unfound spot fun reached => List.mem_append_left _ (h.all reached)

end Vacancy

end Workspace

end SchedulingNoise
