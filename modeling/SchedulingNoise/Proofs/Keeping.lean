import SchedulingNoise.Proofs.Outcomes
import SchedulingNoise.Run.Execution

/-! What steps keep. A step that may fail is held to a condition on states: from a state with it
the step leads to another one, whether it fails or not. -/
namespace SchedulingNoise

/-- From a state with `I` a step leads to a state with `Q`, which may depend on what it gives, or
it fails in a state with `E`. -/
def Leads (I : σ → Prop) (a : EStateM ε σ α) (Q : α → σ → Prop) (E : σ → Prop) : Prop :=
  ∀ s, I s → match a s with
    | .ok x s' => Q x s'
    | .error _ s' => E s'

/-- From a state with `I` a step leads to a state with `I`, and what it gives has `R`. -/
def Keeps (I : σ → Prop) (a : EStateM ε σ α) (R : α → Prop) : Prop :=
  Leads I a (fun x s => I s ∧ R x) I

def stateAfter (a : EStateM ε σ α) (s : σ) : σ :=
  match a s with
  | .ok _ s' => s'
  | .error _ s' => s'

/-- As `Leads`, with a condition on the failure itself. -/
def Ends (I : σ → Prop) (a : EStateM ε σ α) (Q : α → σ → Prop) (E : ε → σ → Prop) : Prop :=
  ∀ s, I s → match a s with
    | .ok x s' => Q x s'
    | .error e s' => E e s'

namespace Ends

variable {ε σ α β : Type} {I : σ → Prop} {a : EStateM ε σ α} {Q : α → σ → Prop}
  {E : ε → σ → Prop}

theorem bind {f : α → EStateM ε σ β} {Q' : β → σ → Prop} (first : Ends I a Q E)
    (next : ∀ x, Ends (Q x) (f x) Q' E) : Ends I (a >>= f) Q' E := by
  intro s hs
  have now := first s hs
  cases eq : a s with
  | ok x s' =>
    rw [bind_ok eq]
    rw [eq] at now
    exact next x s' now
  | error e s' =>
    rw [bind_error eq]
    rw [eq] at now
    exact now

theorem weaken {Q' : α → σ → Prop} {E' : ε → σ → Prop} (h : Ends I a Q E)
    (imp : ∀ x s, Q x s → Q' x s) (imp' : ∀ e s, E e s → E' e s) : Ends I a Q' E' := by
  intro s hs
  have now := h s hs
  cases eq : a s with
  | ok x s' =>
    rw [eq] at now
    exact imp x s' now
  | error e s' =>
    rw [eq] at now
    exact imp' e s' now

theorem before {J : σ → Prop} (h : Ends I a Q E) (imp : ∀ s, J s → I s) : Ends J a Q E :=
  fun s hs => h s (imp s hs)

end Ends

namespace Leads

variable {ε σ α β : Type} {I E : σ → Prop} {a : EStateM ε σ α} {Q : α → σ → Prop}

theorem bind {f : α → EStateM ε σ β} {Q' : β → σ → Prop} (first : Leads I a Q E)
    (next : ∀ x, Leads (Q x) (f x) Q' E) : Leads I (a >>= f) Q' E :=
  Ends.bind (E := fun _ => E) first next

theorem weaken {Q' : α → σ → Prop} {E' : σ → Prop} (h : Leads I a Q E)
    (imp : ∀ x s, Q x s → Q' x s) (imp' : ∀ s, E s → E' s) : Leads I a Q' E' := by
  have ends : Ends I a Q' fun _ => E' := Ends.weaken (E := fun _ => E) h imp fun _ => imp'
  exact ends

theorem before {J : σ → Prop} (h : Leads I a Q E) (imp : ∀ s, J s → I s) : Leads J a Q E :=
  fun s hs => h s (imp s hs)

end Leads

namespace Keeps

variable {ε σ α β : Type} {I : σ → Prop} {a : EStateM ε σ α}

theorem stateAfter {R : α → Prop} (h : Keeps I a R) {s : σ} (hs : I s) : I (stateAfter a s) := by
  have after := h s hs
  unfold SchedulingNoise.stateAfter
  cases eq : a s with
  | ok x s' =>
    rw [eq] at after
    exact after.1
  | error e s' =>
    rw [eq] at after
    exact after

theorem pure {R : α → Prop} {x : α} (h : R x) : Keeps I (Pure.pure x : EStateM ε σ α) R :=
  fun _ hs => ⟨hs, h⟩

theorem fail (e : ε) (R : α → Prop) : Keeps I (throw e : EStateM ε σ α) R :=
  fun _ hs => hs

theorem anything (a : EStateM ε σ α) : Keeps (fun _ => True) a fun _ => True := by
  intro s _
  cases a s with
  | ok x s' => exact ⟨True.intro, True.intro⟩
  | error e s' => exact True.intro

theorem bind {f : α → EStateM ε σ β} {R : α → Prop} {R' : β → Prop} (first : Keeps I a R)
    (next : ∀ x, R x → Keeps I (f x) R') : Keeps I (a >>= f) R' :=
  Leads.bind first fun x s h => next x h.2 s h.1

theorem leads {f : α → EStateM ε σ β} {R : α → Prop} {Q : β → σ → Prop} {E : σ → Prop}
    (first : Keeps I a R) (imp : ∀ s, I s → E s) (next : ∀ x, R x → Leads I (f x) Q E) :
    Leads I (a >>= f) Q E :=
  (Leads.weaken first (fun _ _ h => h) imp).bind fun x s h => next x h.2 s h.1

theorem weaken {R R' : α → Prop} (h : Keeps I a R) (imp : ∀ x, R x → R' x) : Keeps I a R' :=
  Leads.weaken h (fun x _ h => ⟨h.1, imp x h.2⟩) fun _ h => h

theorem trivial {R : α → Prop} (h : Keeps I a R) : Keeps I a fun _ => True :=
  h.weaken fun _ _ => True.intro

theorem change {f : σ → σ} (h : ∀ s, I s → I (f s)) :
    Keeps I (modify f : EStateM ε σ PUnit) fun _ => True :=
  fun s hs => ⟨h s hs, True.intro⟩

theorem mapM {f : β → EStateM ε σ α} {R : α → Prop} (xs : List β)
    (each : ∀ x ∈ xs, Keeps I (f x) R) : Keeps I (xs.mapM f) fun ys => ∀ y ∈ ys, R y := by
  induction xs with
  | nil => exact pure (by simp)
  | cons x rest ih =>
    rw [List.mapM_cons]
    refine (each x List.mem_cons_self).bind fun y hy => ?_
    refine (ih fun z hz => each z (List.mem_cons_of_mem x hz)).bind fun ys hys => pure ?_
    intro z hz
    rcases List.mem_cons.mp hz with rfl | hz
    · exact hy
    · exact hys z hz

theorem mapM_map {f : β → EStateM ε σ α} {g : α → β} (xs : List β)
    (each : ∀ x ∈ xs, Keeps I (f x) fun y => g y = x) :
    Keeps I (xs.mapM f) fun ys => ys.map g = xs := by
  induction xs with
  | nil => exact pure rfl
  | cons x rest ih =>
    rw [List.mapM_cons]
    refine (each x List.mem_cons_self).bind fun y hy => ?_
    refine (ih fun z hz => each z (List.mem_cons_of_mem x hz)).bind fun ys hys => pure ?_
    rw [List.map_cons, hy, hys]

theorem forM {f : β → EStateM ε σ PUnit} (xs : List β)
    (each : ∀ x ∈ xs, Keeps I (f x) fun _ => True) : Keeps I (xs.forM f) fun _ => True := by
  induction xs with
  | nil => exact pure True.intro
  | cons x rest ih =>
    exact (each x List.mem_cons_self).bind fun _ _ =>
      ih fun z hz => each z (List.mem_cons_of_mem x hz)

end Keeps

namespace Workspace

/-- A workspace with this disk, seen from this folder, where nothing will go wrong. -/
def Standing (d : Disk) (folder : Place) (w : Workspace) : Prop :=
  w.disk = d ∧ w.folder = folder ∧ w.mishaps = []

/-- Two workspaces that differ at most in what was told and in who holds files open. -/
structure Same (w w' : Workspace) : Prop where
  disk : w'.disk = w.disk
  folder : w'.folder = w.folder
  mishaps : w'.mishaps = w.mishaps
  epoch : w'.epoch = w.epoch

theorem Same.refl (w : Workspace) : Same w w := ⟨rfl, rfl, rfl, rfl⟩

theorem Same.trans {w w' w'' : Workspace} (h : Same w w') (h' : Same w' w'') : Same w w'' :=
  ⟨h'.disk.trans h.disk, h'.folder.trans h.folder, h'.mishaps.trans h.mishaps,
    h'.epoch.trans h.epoch⟩

/-- A condition that a step cannot break if it only asks and tells. -/
class Steady (I : Workspace → Prop) : Prop where
  same : ∀ {w w'}, I w → Same w w' → I w'

/-- A condition of this kind that fixes the disk and the folder. -/
class Sees (I : Workspace → Prop) (d : outParam Disk) (folder : outParam Place) : Prop
    extends Steady I where
  disk : ∀ {w}, I w → w.disk = d
  folder : ∀ {w}, I w → w.folder = folder

instance (d : Disk) (folder : Place) : Sees (Standing d folder) d folder where
  disk h := h.1
  folder h := h.2.1
  same h same := ⟨same.disk.trans h.1, same.folder.trans h.2.1, same.mishaps.trans h.2.2⟩

instance (w : Workspace) : Sees (Same w) w.disk w.folder where
  disk h := h.disk
  folder h := h.folder
  same h same := h.trans same

section Quiet

variable {I : Workspace → Prop} {d : Disk} {folder : Place}

theorem keeps_modifyGet {f : Workspace → α × Workspace}
    (h : ∀ w, I w → I (f w).2) : Keeps I (modifyGet f : Act α) fun _ => True :=
  fun w hw => ⟨h w hw, True.intro⟩

theorem ends_attempt {a : Act α} {Q : α → Workspace → Prop} {E F : Fault → Workspace → Prop}
    (h : Ends I a Q E) : Ends I (attempt a) (fun r w => match r with
      | .ok x => Q x w
      | .error e => E e w) F := by
  intro w hw
  have now := h w hw
  unfold attempt
  cases eq : a w with
  | ok x w' =>
    rw [eq] at now
    exact now
  | error f w' =>
    rw [eq] at now
    exact now

theorem keeps_attempt {a : Act α} {R : α → Prop} (h : Keeps I a R) :
    Keeps I (attempt a) fun r => ∀ x, r = .ok x → R x := by
  refine (ends_attempt h).weaken (fun r w now => ?_) fun _ _ h => h
  cases r with
  | ok x => exact ⟨now.1, fun y eq => Except.ok.inj eq ▸ now.2⟩
  | error f => exact ⟨now, nofun⟩

theorem keeps_require {e : Except Fault α} :
    Keeps I (require e) fun x => e = .ok x := by
  cases e with
  | ok x => exact .pure rfl
  | error f => exact .fail f _

theorem keeps_get : Keeps I (get : Act Workspace) I :=
  fun _ hw => ⟨hw, hw⟩

def Refused (p : Path) (f : Fault) : Prop := Char.ofNat 0 ∉ p.text → f.fromDisk = true

theorem ends_requireSpelled (p : Path) :
    Ends I (requireSpelled p) (fun _ w => I w ∧ Char.ofNat 0 ∉ p.text)
      (fun e w => I w ∧ Refused p e) := by
  intro w hw
  unfold requireSpelled
  by_cases null : Char.ofNat 0 ∈ p.text
  · rw [if_pos (List.any_eq_true.mpr ⟨_, null, by simp⟩)]
    exact ⟨hw, fun spelled => absurd null spelled⟩
  · have quiet : p.text.any (· = Char.ofNat 0) = false := by
      simp only [List.any_eq_false, decide_eq_true_eq]
      exact fun c hc eq => null (eq ▸ hc)
    rw [if_neg (by simp [quiet])]
    exact ⟨hw, null⟩

theorem keeps_requireSpelled (p : Path) :
    Keeps I (requireSpelled p) fun _ => Char.ofNat 0 ∉ p.text :=
  (ends_requireSpelled p).weaken (fun _ _ h => h) fun _ _ h => h.1

theorem ends_ask (p : Path) (f : Disk → Place → Path → Except Errno α) :
    Ends I (ask p f)
      (fun x w => I w ∧ f w.disk w.folder p = .ok x ∧ Char.ofNat 0 ∉ p.text)
      (fun e w => I w ∧ Refused p e) := by
  refine (ends_requireSpelled p).bind fun _ w hw => ?_
  rw [bind_ok (show (get : Act Workspace) w = .ok w w from rfl)]
  cases found : f w.disk w.folder p with
  | ok x => exact ⟨hw.1, found, hw.2⟩
  | error e => exact ⟨hw.1, fun _ => rfl⟩

theorem keeps_asking (p : Path) (f : Disk → Place → Path → Except Errno α) :
    Keeps I (ask p f) fun x =>
      Char.ofNat 0 ∉ p.text ∧ ∃ w, I w ∧ f w.disk w.folder p = .ok x :=
  (ends_ask p f).weaken (fun _ w h => ⟨h.1, h.2.2, w, h.1, h.2.1⟩) fun _ _ h => h.1

theorem keeps_looking (p : Path) : Keeps I (node? p) fun n => ∀ x, n = some x →
    Char.ofNat 0 ∉ p.text ∧ ∃ w, I w ∧ w.disk.node w.folder p = .ok x := by
  refine (keeps_attempt (keeps_asking p Disk.node)).bind fun r hr => ?_
  split
  · rename_i n
    exact .pure fun x hx => by cases hx; exact hr n rfl
  · exact .fail _ _
  · exact .pure fun x hx => by cases hx

theorem keeps_exists? (p : Path) : Keeps I (exists? p) fun _ => True :=
  (keeps_looking p).bind fun _ _ => .pure True.intro

theorem keeps_isFolder (p : Path) : Keeps I (isFolder p) fun _ => True :=
  (keeps_looking p).bind fun _ _ => .pure True.intro

theorem keeps_size (p : Path) : Keeps I (size p) fun _ => True := by
  refine (keeps_asking p Disk.node).bind fun n _ => ?_
  split <;> exact .pure True.intro

theorem keeps_readBytes (p : Path) : Keeps I (readBytes p) fun _ => True :=
  (keeps_asking p Disk.bytes).trivial

theorem keeps_resolving (p : Path) :
    Keeps I (resolve p) fun q => ∃ w, I w ∧ q = ⟨.root, w.disk.real w.folder p⟩ := by
  refine (keeps_requireSpelled p).bind fun _ _ => keeps_get.bind fun w hw => ?_
  dsimp only
  split
  · exact .fail _ _
  · exact .pure ⟨w, hw, rfl⟩

section Telling

variable [Steady I]

theorem keeps_note (r : LogRecord) : Keeps I (note r) fun _ => True := by
  refine .change fun w hw => ?_
  split
  · exact Steady.same hw ⟨rfl, rfl, rfl, rfl⟩
  · exact hw

theorem keeps_noteAll (rs : List LogRecord) :
    Keeps I (noteAll rs) fun _ => True :=
  .forM rs fun r _ => keeps_note r

theorem keeps_pause (q : Quantity) : Keeps I (pause q) fun _ => True :=
  .change fun _ hw => Steady.same hw ⟨rfl, rfl, rfl, rfl⟩

theorem keeps_readText (p : Path) (limit : Quantity) :
    Keeps I (readText p limit) fun _ => True := by
  refine (keeps_attempt (R := fun _ => True) ?_).bind fun r _ => ?_
  · refine (keeps_size p).bind fun n _ => ?_
    split
    · exact (keeps_note _).bind fun _ _ => .pure True.intro
    · refine (keeps_readBytes p).bind fun bs _ => ?_
      split
      · exact .pure True.intro
      · exact .fail _ _
  · split
    · exact .pure True.intro
    · split
      · exact (keeps_note _).bind fun _ _ => .pure True.intro
      · exact .fail _ _

theorem keeps_nextHolders : Keeps I nextHolders fun _ => True := by
  refine keeps_modifyGet fun w hw => ?_
  split
  · exact hw
  · exact Steady.same hw ⟨rfl, rfl, rfl, rfl⟩

theorem keeps_releaseTries (name target : Text) (delay : Quantity) (left : Nat) :
    Keeps I (releaseTries name target delay left) fun _ => True := by
  induction left with
  | zero => exact .pure True.intro
  | succ left ih =>
    refine keeps_nextHolders.bind fun hs _ => ?_
    split
    · exact .pure True.intro
    · refine (keeps_note _).bind fun _ _ => ?_
      dsimp only
      split
      · exact ih
      · exact (keeps_pause delay).bind fun _ _ => ih

theorem keeps_waitForRelease (p : Path) (tries : Nat) (delay : Quantity) :
    Keeps I (waitForRelease p tries delay) fun _ => True :=
  (keeps_resolving p).bind fun _ _ => keeps_releaseTries _ _ _ _

end Telling

variable [Sees I d folder]

theorem keeps_ask (p : Path) (f : Disk → Place → Path → Except Errno α) :
    Keeps I (ask p f) fun x => f d folder p = .ok x := by
  refine (keeps_asking p f).weaken fun x ⟨_, w, hw, found⟩ => ?_
  rw [← Sees.disk hw, ← Sees.folder hw]
  exact found

theorem keeps_node? (p : Path) : Keeps I (node? p)
    fun n => ∀ x, n = some x → d.node folder p = .ok x := by
  refine (keeps_looking p).weaken fun n hn x hx => ?_
  obtain ⟨_, w, hw, found⟩ := hn x hx
  rw [← Sees.disk hw, ← Sees.folder hw]
  exact found

theorem keeps_resolve (p : Path) : Keeps I (resolve p)
    fun q => q = ⟨.root, d.real folder p⟩ := by
  refine (keeps_resolving p).weaken fun q ⟨w, hw, eq⟩ => ?_
  rw [eq, Sees.disk hw, Sees.folder hw]

end Quiet

end Workspace

end SchedulingNoise
