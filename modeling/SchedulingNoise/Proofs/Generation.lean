import SchedulingNoise.Proofs.Outcomes
import SchedulingNoise.Policy.Automatic
import SchedulingNoise.Pragma.Line

namespace SchedulingNoise

/-- Amounts among which the integers are written and compared as such. -/
class IntegerAmount (α : Type) [Amount α] : Prop where
  text_ofInt : ∀ n : Int, Amount.text (Amount.ofInt n : α) = Decimal.ofInt n
  short_ofInt : ∀ n : Int, Amount.short (Amount.ofInt n : α) = Decimal.isShort n
  above_ofInt : ∀ m n : Int,
    Amount.above (Amount.ofInt m : α) (Amount.ofInt n) = .ok (decide (n < m))

instance : IntegerAmount Int := ⟨fun _ => rfl, fun _ => rfl, fun _ _ => rfl⟩

instance : IntegerAmount Json :=
  ⟨fun _ => rfl, fun _ => by simp only [Amount.short, Amount.ofInt, Json.short], fun _ _ => rfl⟩

def Generator.Has (n : Nat) : Generator → Prop
  | .script draws => n ≤ draws.length
  | .twister _ => True

theorem Generator.exists_draw {g : Generator} {n : Nat} (enough : g.Has (n + 1)) :
    ∃ d g', draw g = .ok d g' ∧ g'.Has n := by
  cases g with
  | script draws =>
    cases draws with
    | nil => exact absurd enough (Nat.not_succ_le_zero n)
    | cons d rest => exact ⟨d, .script rest, rfl, Nat.le_of_succ_le_succ enough⟩
  | twister t => exact ⟨_, _, rfl, trivial⟩

namespace Policy

def map (f : α → β) (p : Policy α) : Policy β :=
  ⟨fun kind => f (p.probability kind), f p.sleepProbability, f p.delayLow, f p.delayHigh⟩

def kindOf (p : Policy Int) (d : Int) : NoiseKind :=
  if d < p.sleepProbability then .sleep else .yield

variable [Amount α] [IntegerAmount α] {p : Policy Int} {g : Generator} {n : Nat}

theorem chooseKind_eq (p : Policy Int) {g' : Generator} {d : Int}
    (drawn : Generator.draw g = .ok d g') :
    (p.map (Amount.ofInt : Int → α)).chooseKind g = .ok (p.kindOf d) g' := by
  have kind : (p.map (Amount.ofInt : Int → α)).kindFor d = .ok (p.kindOf d) := by
    unfold kindFor kindOf
    by_cases sleeps : d < p.sleepProbability
    · simp [map, IntegerAmount.above_ofInt, bind, Except.bind, pure, Except.pure, sleeps]
    · simp [map, IntegerAmount.above_ofInt, bind, Except.bind, pure, Except.pure, sleeps]
  rw [chooseKind, bind_ok drawn, kind]
  rfl

omit [Amount α] [IntegerAmount α] in
theorem noise_map (p : Policy Int) (construct : ConstructKind) (kind : NoiseKind) (f : Int → α) :
    (p.map f).noise construct kind = (p.noise construct kind).map f := by
  cases kind with
  | sleep => rfl
  | yield => rfl

end Policy

def Point.Drawn (p : Policy Int) (pt : Point β) (q : Point Int) : Prop :=
  ∃ kind, q = pt.withNoise (some (p.noise pt.kind kind))

theorem exists_drawNoise [Amount α] [IntegerAmount α] (p : Policy Int) {points : List (Point β)}
    {g : Generator} (enough : g.Has points.length) :
    ∃ drawn g', drawNoise (p.map (Amount.ofInt : Int → α)) points g =
        .ok (drawn.map (·.map Amount.ofInt)) g' ∧ List.Forall₂ (Point.Drawn p) points drawn := by
  induction points generalizing g with
  | nil => exact ⟨[], g, rfl, .nil⟩
  | cons pt rest ih =>
    obtain ⟨d, g₁, draw, enough⟩ := Generator.exists_draw enough
    obtain ⟨drawn, g₂, others, each⟩ := ih enough
    refine ⟨pt.withNoise (some (p.noise pt.kind (p.kindOf d))) :: drawn, g₂, ?_,
      .cons ⟨_, rfl⟩ each⟩
    rw [drawNoise, bind_ok (p.chooseKind_eq draw), bind_ok others, Policy.noise_map]
    rfl

theorem Binary64.ofRatio_ne_infinite {num den : Nat} (small : num.log2 ≤ den.log2 + 1022)
    (s t : Bool) : ofRatio s num den ≠ .infinite t := by
  unfold ofRatio
  by_cases zero : num = 0
  · rw [if_pos zero]
    exact nofun
  · rw [if_neg zero]
    dsimp only
    -- The guess is 969 at most, and each of the two corrections adds one.
    split
    all_goals split
    all_goals
      dsimp only
      rw [if_neg (by unfold maxExponent minExponent; omega)]
      exact nofun

namespace Scope

/-- A bound is a number. If it is an integer, it has no more than 1024 binary digits. -/
def IsBound (percent : Json) : Prop :=
  match percent.number? with
  | some (.whole n) => n.natAbs.log2 < 1024
  | some (.double _) => True
  | none => False

theorem exists_bound {percent : Json} (h : IsBound percent) (lines : Nat) :
    ∃ x, bound percent lines = .ok x := by
  unfold IsBound at h
  unfold bound
  cases number : percent.number? with
  | none => simp [number] at h
  | some q =>
    cases q with
    | double x => exact ⟨_, rfl⟩
    | whole n =>
      rw [number] at h
      have small : n.natAbs.log2 ≤ Nat.log2 100 + 1022 :=
        Nat.le_trans (Nat.le_of_lt_succ h) (by decide)
      have finite := Binary64.ofRatio_ne_infinite small (n < 0)
      dsimp only [Quantity.hundredth, Binary64.ofIntRatio]
      split
      · rename_i t infinite
        exact absurd infinite (finite t)
      · exact ⟨_, rfl⟩

structure Numeric (s : Scope) : Prop where
  lower : IsBound s.lower
  upper : IsBound s.upper

theorem Numeric.exists_contains {s : Scope} (h : s.Numeric) (lines : Nat) (line : Int) :
    ∃ b, s.contains lines line = .ok b := by
  obtain ⟨x, low⟩ := exists_bound h.lower lines
  obtain ⟨y, high⟩ := exists_bound h.upper lines
  exact ⟨_, bind_eq_ok.mpr ⟨x, low, bind_eq_ok.mpr ⟨y, high, rfl⟩⟩⟩

end Scope

theorem SourceUnit.scope_ofText (path : Path) (t : Text) (scope : Scope) :
    (ofText path t scope).scope = scope := by
  unfold ofText
  dsimp only
  split
  · rfl
  · rfl

theorem exists_pointsInScope {u : SourceUnit} (numeric : u.scope.Numeric)
    (points : List (Point α)) : ∃ inside, u.pointsInScope points = .ok inside := by
  induction points with
  | nil => exact ⟨[], rfl⟩
  | cons p rest ih =>
    obtain ⟨here, within⟩ := numeric.exists_contains u.lines.length p.line
    obtain ⟨others, found⟩ := ih
    exact ⟨_, bind_eq_ok.mpr ⟨here, within, bind_eq_ok.mpr ⟨others, found, rfl⟩⟩⟩

theorem sublist_pointsInScope {u : SourceUnit} {points inside : List (Point α)}
    (h : u.pointsInScope points = .ok inside) : inside.Sublist points := by
  induction points generalizing inside with
  | nil =>
    cases h
    exact .slnil
  | cons p rest ih =>
    obtain ⟨here, _, h⟩ := bind_eq_ok.mp h
    obtain ⟨others, found, h⟩ := bind_eq_ok.mp h
    cases h
    split
    · exact (ih found).cons_cons p
    · exact (ih found).cons p

theorem update_congr [Amount α] [Amount β] {a : Pragma α} {b : Pragma β}
    (number : a.sequence = b.sequence) (text : a.write = b.write) : a.update = b.update := by
  funext line
  unfold Pragma.update
  induction Pragma.comments line with
  | nil => rw [Pragma.updateIn, Pragma.updateIn, text]
  | cons c rest ih => rw [Pragma.updateIn, Pragma.updateIn, number, text, ih]

section Amounts

variable [Amount α] [IntegerAmount α]

theorem render_map (q : Int) (n : Noise Int) :
    (⟨q, n.map (Amount.ofInt : Int → α)⟩ : Pragma α).render = (⟨q, n⟩ : Pragma Int).render := by
  obtain ⟨probability, action⟩ := n
  unfold Pragma.render
  cases action with
  | yield =>
    dsimp only [Noise.map]
    rw [IntegerAmount.text_ofInt]
    congr 1
  | sleep low high =>
    dsimp only [Noise.map]
    rw [IntegerAmount.text_ofInt, IntegerAmount.text_ofInt, IntegerAmount.text_ofInt]
    congr 1

theorem write_map (q : Int) (n : Noise Int) :
    (⟨q, n.map (Amount.ofInt : Int → α)⟩ : Pragma α).write = (⟨q, n⟩ : Pragma Int).write := by
  have short : (n.map (Amount.ofInt : Int → α)).short = n.short := by
    obtain ⟨probability, action⟩ := n
    unfold Noise.short
    cases action with
    | yield =>
      dsimp only [Noise.map]
      rw [IntegerAmount.short_ofInt]
      rfl
    | sleep low high =>
      dsimp only [Noise.map]
      rw [IntegerAmount.short_ofInt, IntegerAmount.short_ofInt, IntegerAmount.short_ofInt]
      rfl
  unfold Pragma.write
  rw [render_map, short]

theorem freeze_map (lines : List Text) (points : List (Point Int)) :
    freeze lines (points.map (·.map (Amount.ofInt : Int → α))) = freeze lines points := by
  have same : ∀ s (p : Point Int),
      Freeze.point s (p.map (Amount.ofInt : Int → α)) = Freeze.point s p := by
    intro s p
    have noise : (p.map (Amount.ofInt : Int → α)).noise = p.noise.map (·.map Amount.ofInt) := rfl
    have line : (p.map (Amount.ofInt : Int → α)).line = p.line := rfl
    have number : (p.map (Amount.ofInt : Int → α)).sequence = p.sequence := rfl
    unfold Freeze.point
    rw [noise, line, number]
    cases p.noise with
    | none => rfl
    | some n =>
      have text := write_map (α := α) p.sequence n
      have update : (⟨p.sequence, n.map Amount.ofInt⟩ : Pragma α).update =
          (⟨p.sequence, n⟩ : Pragma Int).update := update_congr rfl text
      dsimp only [Option.map_some]
      rw [text, update]
  unfold freeze
  rw [List.foldlM_map]
  simp only [same]

end Amounts

end SchedulingNoise
