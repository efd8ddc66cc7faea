import SchedulingNoise.Proofs.Running
import SchedulingNoise.Proofs.Copies

namespace SchedulingNoise
open Disk

namespace Workspace

variable {w₀ : Workspace} {fs : Contents} {ms : List Mishap} {p : Path}

def Aside (w₀ : Workspace) (fs : Contents) (p : Path) : Prop :=
  ∀ place, w₀.disk.locate .make w₀.folder p = .ok place →
    (∀ t, w₀.disk.guide place ≠ some (.link t)) ∧ ∀ f ∈ fs, f.1 ≠ place

theorem ends_appendBytes (aside : Aside w₀ fs p) (bs : Bytes) :
    Ends (Facing w₀ fs ms) (appendBytes p bs) (fun _ => Facing w₀ fs ms)
      fun e w => Facing w₀ fs ms w ∧ Refused p e := by
  refine ends_change fun w d hw added _ => ?_
  obtain ⟨place, new, leads, notFolder, rfl⟩ := append_eq_ok added
  rw [hw.1.folder] at leads
  obtain ⟨noLink, others⟩ := aside place (hw.1.ways.symm.locate leads)
  exact ⟨(hw.1.put others notFolder noLink new).tail, hw.2⟩

/-- A condition that stays when events are written to a file. -/
class Unheard (file : Option Path) (P : Workspace → Prop) : Prop extends Steady P where
  append : ∀ p, file = some p → ∀ bs, Ends P (appendBytes p bs) (fun _ => P)
    fun e w => P w ∧ Refused p e

namespace Unheard

variable {file : Option Path} {P Q : Workspace → Prop}

theorem of_facing {P : Workspace → Prop} [Steady P] (aside : ∀ p, file = some p → Aside w₀ fs p)
    (enter : ∀ w, P w → Stores w₀ fs w)
    (leave : ∀ w w', P w → Facing w₀ fs w.mishaps w' → P w') : Unheard file P where
  append p given bs w hw :=
    (ends_appendBytes (aside p given) bs).weaken (fun _ w' h => leave w w' hw h)
      (fun _ w' h => ⟨leave w w' hw h.1, h.2⟩) w ⟨enter w hw, rfl⟩

theorem stores (aside : ∀ p, file = some p → Aside w₀ fs p) : Unheard file (Stores w₀ fs) :=
  .of_facing aside (fun _ h => h) fun _ _ _ h => h.1

theorem or (h : Unheard file P) (h' : Unheard file Q) : Unheard file fun w => P w ∨ Q w where
  same hw same := hw.imp (fun h => Steady.same h same) fun h => Steady.same h same
  append p given bs := by
    rintro w (hw | hw)
    · exact (h.append p given bs).weaken (fun _ _ h => .inl h) (fun _ _ h => ⟨.inl h.1, h.2⟩) w hw
    · exact (h'.append p given bs).weaken (fun _ _ h => .inr h) (fun _ _ h => ⟨.inr h.1, h.2⟩) w hw

theorem given (h : Unheard file P) (known : Prop) : Unheard file fun w => P w ∧ known where
  same hw same := ⟨Steady.same hw.1 same, hw.2⟩
  append p given bs w hw :=
    (h.append p given bs).weaken (fun _ _ h => ⟨h, hw.2⟩) (fun _ _ h => ⟨⟨h.1, hw.2⟩, h.2⟩) w hw.1

end Unheard

end Workspace

namespace Run

variable {P : Workspace → Prop} {file : Option Path}

theorem holds_count (f : Stats → Stats) : Keeps (Holds P file) (count f) fun _ => True :=
  .change fun _ hr => hr

theorem holds_note [Workspace.Steady P] (record : LogRecord) :
    Keeps (Holds P file) (note record) fun _ => True :=
  holds_inWorkspace (Workspace.keeps_note record)

/-- Why an event may not be told. -/
def Untold (e : Event) (file : Option Path) : Prop :=
  (∃ f, e.logRecord = .error f) ∨ ∃ p, file = some p ∧ Char.ofNat 0 ∈ p.text

theorem ends_writeRecord [h : Workspace.Unheard file P] (m : Emitter) (e : Event) {p : Path}
    (given : file = some p) :
    Ends P (m.writeRecord e p) (fun _ => P) fun _ w => P w ∧ Untold e file := by
  intro w hw
  unfold Emitter.writeRecord
  rw [bind_ok (Workspace.get_eq w)]
  refine Workspace.ends_orOnRefusal (h.append p given _) (fun _ _ h => h)
    (fun f _ => (Workspace.ends_note _).before fun _ h => h.1) (fun f v other refused => ?_) w hw
  refine ⟨refused.1, .inr ⟨p, given, ?_⟩⟩
  by_contra spelled
  rw [refused.2 spelled] at other
  cases other

theorem ends_emit [h : Workspace.Unheard file P] (e : Event) :
    Ends (Holds P file) (emit e) (fun _ => Holds P file)
      fun _ => Holds (fun w => P w ∧ Untold e file) file := by
  have published : ∀ m : Emitter, m.file = file →
      Ends P (m.publish e) (fun _ => P) fun _ w => P w ∧ Untold e file := by
    intro m same
    have written : Ends P (m.file.elim (pure ()) (m.writeRecord e)) (fun _ => P)
        fun _ w => P w ∧ Untold e file := by
      cases given : m.file with
      | some p => exact ends_writeRecord m e (same.symm.trans given)
      | none => exact fun w hw => hw
    rw [Emitter.publish_eq]
    split
    · cases record : e.logRecord with
      | error f => exact fun w hw => ⟨hw, .inl ⟨f, record⟩⟩
      | ok told => exact (Workspace.ends_note told).bind fun _ => written
    · exact written
  intro r hr
  exact ends_inWorkspace (published (r.session.emitter.keep e) hr.2)
    { r with session := { r.session with emitter := r.session.emitter.keep e } } hr

theorem holds_emit [Workspace.Unheard file P] (e : Event) :
    Keeps (Holds P file) (emit e) fun _ => True :=
  (ends_emit e).weaken (fun _ _ h => ⟨h, True.intro⟩) fun _ _ h => ⟨h.1.1, h.2⟩

theorem holds_skip [Workspace.Unheard file P] (path : Path) (reason : String) :
    Keeps (Holds P file) (skip path reason) fun _ => True :=
  (holds_count _).bind fun _ _ => holds_emit _

end Run

end SchedulingNoise
