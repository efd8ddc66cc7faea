import Mathlib.Data.List.Forall2
import SchedulingNoise.Fault

namespace SchedulingNoise

variable {ε σ α β : Type}

theorem bind_ok {a : EStateM ε σ α} {s s' : σ} {x : α} (h : a s = .ok x s')
    (f : α → EStateM ε σ β) : (a >>= f) s = f x s' := by
  simp only [bind, EStateM.bind, h]

theorem bind_error {a : EStateM ε σ α} {s s' : σ} {e : ε} (h : a s = .error e s')
    (f : α → EStateM ε σ β) : (a >>= f) s = .error e s' := by
  simp only [bind, EStateM.bind, h]

theorem ok_bind (a : α) (f : α → Except ε β) : (.ok a : Except ε α) >>= f = f a := rfl

theorem bind_eq_ok {x : Except ε α} {f : α → Except ε β} {b : β} :
    x >>= f = .ok b ↔ ∃ a, x = .ok a ∧ f a = .ok b := by
  cases x with
  | error e => simp [bind, Except.bind]
  | ok a => simp [bind, Except.bind]

theorem mapM_eq_ok {f : α → Except ε β} {xs : List α} {ys : List β} :
    xs.mapM f = .ok ys ↔ List.Forall₂ (fun x y => f x = .ok y) xs ys := by
  induction xs generalizing ys with
  | nil =>
    rw [List.forall₂_nil_left_iff, List.mapM_nil]
    constructor
    · intro h
      cases h
      rfl
    · rintro rfl
      rfl
  | cons x rest ih =>
    rw [List.mapM_cons, List.forall₂_cons_left_iff, bind_eq_ok]
    constructor
    · rintro ⟨y, first, others⟩
      obtain ⟨more, hmore, h⟩ := bind_eq_ok.mp others
      cases h
      exact ⟨y, more, first, ih.mp hmore, rfl⟩
    · rintro ⟨y, more, first, others, rfl⟩
      exact ⟨y, first, bind_eq_ok.mpr ⟨more, ih.mpr others, rfl⟩⟩

theorem exists_of_mem_right {R : α → β → Prop} {xs : List α} {ys : List β}
    (h : List.Forall₂ R xs ys) {y : β} (hy : y ∈ ys) : ∃ x ∈ xs, R x y := by
  induction h with
  | nil => cases hy
  | cons related _ ih =>
    rcases List.mem_cons.mp hy with rfl | hy
    · exact ⟨_, List.mem_cons_self, related⟩
    · obtain ⟨x, hx, relates⟩ := ih hy
      exact ⟨x, List.mem_cons_of_mem _ hx, relates⟩

theorem exists_of_mem_left {R : α → β → Prop} {xs : List α} {ys : List β}
    (h : List.Forall₂ R xs ys) {x : α} (hx : x ∈ xs) : ∃ y ∈ ys, R x y :=
  exists_of_mem_right h.flip hx

theorem pairwise_right {R : α → β → Prop} {S : α → α → Prop} {T : β → β → Prop} {xs : List α}
    {ys : List β} (h : List.Forall₂ R xs ys) (ordered : xs.Pairwise S)
    (keeps : ∀ x y x' y', R x y → R x' y' → S x x' → T y y') : ys.Pairwise T := by
  induction h with
  | nil => exact .nil
  | cons related relates ih =>
    obtain ⟨first, others⟩ := List.pairwise_cons.mp ordered
    refine List.pairwise_cons.mpr ⟨fun y' hy' => ?_, ih others⟩
    obtain ⟨x', hx', related'⟩ := exists_of_mem_right relates hy'
    exact keeps _ _ _ _ related related' (first x' hx')

theorem exists_mapM {f : α → Except ε β} {R : α → β → Prop} (xs : List α)
    (each : ∀ x ∈ xs, ∃ y, f x = .ok y ∧ R x y) :
    ∃ ys, xs.mapM f = .ok ys ∧ List.Forall₂ R xs ys := by
  induction xs with
  | nil => exact ⟨[], rfl, .nil⟩
  | cons x rest ih =>
    obtain ⟨y, first, related⟩ := each x List.mem_cons_self
    obtain ⟨ys, others, relates⟩ := ih fun z hz => each z (List.mem_cons_of_mem x hz)
    refine ⟨y :: ys, ?_, .cons related relates⟩
    rw [List.mapM_cons, first, others]
    rfl

/-- A computation that answers, or is refused for a number with too many digits; `long` knows the
numbers that can be met. -/
def Answers (long : Nat → Prop) (x : Except Fault α) : Prop :=
  (∃ r, x = .ok r) ∨ ∃ n, long n ∧ x = .error (.tooManyDigits n)

namespace Answers

variable {long long' : Nat → Prop} {x : Except Fault α} {f : α → Except Fault β}

theorem ok (r : α) : Answers long (.ok r) := .inl ⟨r, rfl⟩

theorem bind (h : Answers long x) (next : ∀ a, Answers long (f a)) : Answers long (x >>= f) := by
  rcases h with ⟨a, rfl⟩ | ⟨n, known, rfl⟩
  · exact next a
  · exact .inr ⟨n, known, rfl⟩

theorem map (h : Answers long x) (g : α → β) : Answers long (x.map g) := by
  rcases h with ⟨a, rfl⟩ | ⟨n, known, rfl⟩
  · exact ok (g a)
  · exact .inr ⟨n, known, rfl⟩

theorem mono (h : Answers long x) (known : ∀ n, long n → long' n) : Answers long' x := by
  rcases h with answer | ⟨n, there, refused⟩
  · exact .inl answer
  · exact .inr ⟨n, known n there, refused⟩

theorem mapM {xs : List α} (each : ∀ a ∈ xs, Answers long (f a)) : Answers long (xs.mapM f) := by
  induction xs with
  | nil => exact ok []
  | cons a rest ih =>
    obtain ⟨here, later⟩ := List.forall_mem_cons.mp each
    rw [List.mapM_cons]
    apply here.bind
    intro b
    apply (ih later).bind
    intro bs
    exact ok (b :: bs)

theorem exists_ok (h : Answers long x) (none : ∀ n, ¬ long n) : ∃ r, x = .ok r := by
  rcases h with answer | ⟨n, there, _⟩
  · exact answer
  · exact absurd there (none n)

end Answers

end SchedulingNoise
