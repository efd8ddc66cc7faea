import SchedulingNoise.Proofs.Updates

/-! What the search for comments finds. It reports exactly the list of words of the grammar that
stand in order and apart from one another, and outside of which no word begins. A line has a
well-formed annotation just where a look-up finds one, and a look-up finds the first. -/
namespace SchedulingNoise.Pragma

/-- Spans of a line from an offset on, in order and apart from one another. Each is a word of the
grammar, and every word from there on begins inside a span. -/
structure ScannedFrom (line : Text) (pos : Nat) (cs : List Comment) : Prop where
  ordered : cs.Pairwise fun a b => a.stop ≤ b.start
  behind : ∀ c ∈ cs, pos ≤ c.start
  words : ∀ c ∈ cs, c.start < c.stop ∧ c.stop ≤ line.length ∧ Spelled (c.text line) c.value
  complete : ∀ i, pos ≤ i → Starts (line.drop i) → ∃ c ∈ cs, c.start ≤ i ∧ i < c.stop

abbrev Scanned (line : Text) (cs : List Comment) : Prop := ScannedFrom line 0 cs

theorem drop_eq_text {c : Comment} {line : Text} (order : c.start ≤ c.stop)
    (inside : c.stop ≤ line.length) : line.drop c.start = c.text line ++ line.drop c.stop := by
  have long : c.start ≤ (line.take c.stop).length := by
    rw [List.length_take_of_le inside]
    exact order
  rw [Match.text, ← List.drop_append_of_le_length long, List.take_append_drop]

section Unique

variable {line : Text} {pos : Nat} {c c' : Comment} {cs cs' : List Comment}

theorem ScannedFrom.word (h : ScannedFrom line pos (c :: cs)) :
    comment? (line.drop c.start) = some (c.stop - c.start, c.value) := by
  obtain ⟨order, inside, spelled⟩ := h.words c List.mem_cons_self
  have long : (c.text line).length = c.stop - c.start := by
    rw [Match.text, List.length_drop, List.length_take_of_le inside]
  rw [drop_eq_text (Nat.le_of_lt order) inside, spelled.comment?, long]

theorem ScannedFrom.starts (h : ScannedFrom line pos (c :: cs)) : Starts (line.drop c.start) := by
  obtain ⟨order, inside, spelled⟩ := h.words c List.mem_cons_self
  rw [drop_eq_text (Nat.le_of_lt order) inside]
  exact ⟨_, _, spelled, List.prefix_append _ _⟩

theorem ScannedFrom.first_le (h : ScannedFrom line pos (c :: cs))
    (h' : ScannedFrom line pos (c' :: cs')) : c'.start ≤ c.start := by
  obtain ⟨d, mem, first, _⟩ := h'.complete c.start (h.behind c List.mem_cons_self) h.starts
  rcases List.mem_cons.mp mem with rfl | mem
  · exact first
  · have later := List.rel_of_pairwise_cons h'.ordered mem
    have order := (h'.words c' List.mem_cons_self).1
    omega

theorem ScannedFrom.tail (h : ScannedFrom line pos (c :: cs)) : ScannedFrom line c.stop cs where
  ordered := (List.pairwise_cons.mp h.ordered).2
  behind := (List.pairwise_cons.mp h.ordered).1
  words := fun d hd => h.words d (List.mem_cons_of_mem c hd)
  complete := by
    intro i late starts
    have order := (h.words c List.mem_cons_self).1
    have start := h.behind c List.mem_cons_self
    obtain ⟨d, mem, first, last⟩ := h.complete i (by omega) starts
    rcases List.mem_cons.mp mem with rfl | mem
    · omega
    · exact ⟨d, mem, first, last⟩

/-- There is only one such list. -/
theorem ScannedFrom.unique (h : ScannedFrom line pos cs) (h' : ScannedFrom line pos cs') :
    cs = cs' := by
  induction cs generalizing pos cs' with
  | nil =>
    cases cs' with
    | nil => rfl
    | cons c' rest' =>
      obtain ⟨_, nothing, _⟩ := h.complete _ (h'.behind c' List.mem_cons_self) h'.starts
      cases nothing
  | cons c rest ih =>
    cases cs' with
    | nil =>
      obtain ⟨_, nothing, _⟩ := h'.complete _ (h.behind c List.mem_cons_self) h.starts
      cases nothing
    | cons c' rest' =>
      have start : c.start = c'.start := Nat.le_antisymm (h'.first_le h) (h.first_le h')
      have word := h.word
      rw [start, h'.word] at word
      have order := (h.words c List.mem_cons_self).1
      have order' := (h'.words c' List.mem_cons_self).1
      have stop : c.stop = c'.stop := by
        have long := congrArg Prod.fst (Option.some.inj word)
        dsimp only at long
        omega
      have value : c.value = c'.value := (congrArg Prod.snd (Option.some.inj word)).symm
      have same : c = c' := by
        cases c
        cases c'
        simp_all
      subst same
      rw [ih h.tail h'.tail]

end Unique

theorem le_start_placed {pos : Nat} {bs : List Block} {c : Comment} (hc : c ∈ placed pos bs) :
    pos ≤ c.start := by
  obtain ⟨x, b, y, _, rfl⟩ := mem_placed.mp hc
  exact Nat.le_add_right pos _

theorem pairwise_placed (pos : Nat) (bs : List Block) :
    (placed pos bs).Pairwise fun a b => a.stop ≤ b.start := by
  induction bs generalizing pos with
  | nil => exact .nil
  | cons b rest ih => exact .cons (fun _ hd => le_start_placed hd) (ih _)

theorem scanned_comments (line : Text) : Scanned line (comments line) := by
  obtain ⟨bs, tail, row⟩ := exists_row line
  have ordered := pairwise_placed 0 bs
  rw [← row.comments] at ordered
  refine ⟨ordered, fun _ _ => Nat.zero_le _, ?_, ?_⟩
  · intro c hc
    obtain ⟨b, hb, text, list⟩ := row.exists_block hc
    rw [row.comments] at hc
    obtain ⟨x, d, y, blocks, rfl⟩ := mem_placed.mp hc
    have there : d ∈ bs := by simp [blocks]
    have long := List.length_pos_iff.mpr (row.spelled d there).ne_nil
    have whole := congrArg List.length row.eq
    rw [blocks, spread_split, List.length_append, List.length_append] at whole
    refine ⟨by dsimp only; omega, by dsimp only; omega, ?_⟩
    rw [← text, ← list]
    exact row.spelled b hb
  · intro i _ starts
    have empty : ¬ Starts [] := fun h => not_opens_nil h.opens
    rw [row.comments]
    obtain ⟨c, hc, inside⟩ := (avoids_iff empty 0).mp row.idle i (row.eq ▸ starts)
    exact ⟨c, hc, by omega⟩

theorem scanned_iff {line : Text} {cs : List Comment} : Scanned line cs ↔ cs = comments line := by
  constructor
  · exact fun h => h.unique (scanned_comments line)
  · rintro rfl
    exact scanned_comments line

section Look

variable {cs x y : List Comment} {c : Comment} {defaults : Pragma Int}

theorem split_at_sound (cs : List Comment) :
    (∃ x c y, cs = x ++ c :: y ∧ (∀ d ∈ x, ofList d.value = .ok none) ∧ ofList c.value ≠ .ok none) ∨
      ∀ c ∈ cs, ofList c.value = .ok none := by
  induction cs with
  | nil => exact .inr (by simp)
  | cons c rest ih =>
    by_cases malformed : ofList c.value = .ok none
    · rcases ih with ⟨x, d, y, rfl, before, here⟩ | all
      · exact .inl ⟨c :: x, d, y, rfl, List.forall_mem_cons.mpr ⟨malformed, before⟩, here⟩
      · exact .inr (List.forall_mem_cons.mpr ⟨malformed, all⟩)
    · exact .inl ⟨[], c, rest, rfl, by simp, malformed⟩

theorem existsIn_skip (malformed : ∀ d ∈ x, ofList d.value = .ok none) (cs : List Comment) :
    existsIn (x ++ cs) = existsIn cs := by
  induction x with
  | nil => rfl
  | cons d x ih =>
    obtain ⟨here, later⟩ := List.forall_mem_cons.mp malformed
    rw [List.cons_append, existsIn, here]
    exact ih later

theorem lookupIn_skip {q : Int} (passed : ∀ d ∈ x, ∃ r, ofList d.value defaults = .ok r ∧
    ∀ a ∈ r, a.sequence ≠ q) (cs : List Comment) :
    lookupIn q ((x ++ cs).map fun c => ⟨c, ofList c.value defaults⟩) =
      lookupIn q (cs.map fun c => ⟨c, ofList c.value defaults⟩) := by
  induction x with
  | nil => rfl
  | cons d x ih =>
    obtain ⟨⟨r, read, others⟩, later⟩ := List.forall_mem_cons.mp passed
    rw [List.cons_append, List.map_cons, lookupIn, read]
    cases r with
    | none => exact ih later
    | some a =>
      have other : ¬ a.sequence = q := others a rfl
      simp only [bind, Except.bind, if_neg other]
      exact ih later

theorem lookupIn_skip_malformed (malformed : ∀ d ∈ x, ofList d.value = .ok none)
    (q : Int) (cs : List Comment) :
    lookupIn q ((x ++ cs).map fun c => ⟨c, ofList c.value⟩) =
      lookupIn q (cs.map fun c => ⟨c, ofList c.value⟩) :=
  lookupIn_skip (fun d hd => ⟨none, malformed d hd, by simp⟩) cs

/-- The first of some comments that is well formed and has the number gives `a`. -/
def FirstWith (defaults : Pragma Int) (q : Int) (a : Pragma Int) (cs : List Comment) : Prop :=
  a.sequence = q ∧ ∃ x c y, cs = x ++ c :: y ∧ ofList c.value defaults = .ok (some a) ∧
    ∀ d ∈ x, ∃ r, ofList d.value defaults = .ok r ∧ ∀ b ∈ r, b.sequence ≠ q

theorem lookupIn_eq_some {q : Int} {a : Pragma Int} :
    lookupIn q (cs.map fun c => ⟨c, ofList c.value defaults⟩) = .ok (some a) ↔
      FirstWith defaults q a cs := by
  constructor
  · intro h
    induction cs with
    | nil => cases h
    | cons c rest ih =>
      obtain ⟨r, read, h⟩ := bind_eq_ok.mp h
      have passed (others : ∀ b ∈ r, b.sequence ≠ q) (later : FirstWith defaults q a rest) :
          FirstWith defaults q a (c :: rest) := by
        obtain ⟨named, x, d, y, rfl, here, before⟩ := later
        exact ⟨named, c :: x, d, y, rfl, here,
          List.forall_mem_cons.mpr ⟨⟨r, read, others⟩, before⟩⟩
      cases r with
      | none => exact passed (by simp) (ih h)
      | some b =>
        dsimp only at h
        split at h
        · rename_i named
          cases h
          exact ⟨named, [], c, rest, rfl, read, by simp⟩
        · rename_i other
          exact passed (by simpa using other) (ih h)
  · rintro ⟨named, x, c, y, rfl, here, before⟩
    rw [lookupIn_skip before, List.map_cons, lookupIn, here]
    simp only [bind, Except.bind, if_pos named]
    rfl

end Look

theorem exists?_iff (line : Text) :
    (exists? line = .ok true ↔ ∃ q a, lookup line q = .ok (some a)) ∧
    (exists? line = .ok false ↔ ∀ q, lookup line q = .ok none) ∧
    ∀ f, exists? line = .error f ↔ ∀ q, lookup line q = .error f := by
  unfold exists? lookup readings
  rcases split_at_sound (comments line) with ⟨x, c, y, eq, before, here⟩ | all
  · rw [eq, existsIn_skip before]
    simp only [lookupIn_skip_malformed before, List.map_cons, existsIn, lookupIn]
    cases read : ofList c.value with
    | error f =>
      simp only [bind, Except.bind]
      simp
    | ok r =>
      cases r with
      | none => exact absurd read here
      | some a =>
        dsimp only [bind, Except.bind, pure, Except.pure]
        have found : ∀ z : Except Fault (Option (Pragma Int)),
            (if a.sequence = a.sequence then .ok (some a) else z) = .ok (some a) :=
          fun z => if_pos rfl
        refine ⟨⟨fun _ => ⟨a.sequence, a, found _⟩, fun _ => rfl⟩, ?_, fun f => ?_⟩
        · constructor
          · intro h
            cases h
          · intro none
            cases (found _).symm.trans (none a.sequence)
        · constructor
          · intro h
            cases h
          · intro failed
            cases (found _).symm.trans (failed a.sequence)
  · have none : ∀ q, lookupIn q ((comments line).map fun c => ⟨c, ofList c.value⟩) = .ok none := by
      intro q
      have passed := lookupIn_skip_malformed all q []
      rwa [List.append_nil] at passed
    have nothing : existsIn (comments line) = .ok false := by
      have passed := existsIn_skip all []
      rwa [List.append_nil] at passed
    simp [none, nothing]

/-- The search reports the one list of words that are in order and apart, with no word beginning
outside of them. An annotation exists exactly if some look-up finds one, and a look-up finds the
first well-formed annotation that has the number. -/
theorem search_exact (line : Text) :
    (∀ cs, Scanned line cs ↔ cs = comments line) ∧
    (exists? line = .ok true ↔ ∃ q a, lookup line q = .ok (some a)) ∧
    (exists? line = .ok false ↔ ∀ q, lookup line q = .ok none) ∧
    (∀ f, exists? line = .error f ↔ ∀ q, lookup line q = .error f) ∧
    ∀ defaults q a, lookup line q defaults = .ok (some a) ↔
      FirstWith defaults q a (comments line) := by
  obtain ⟨found, missing, failed⟩ := exists?_iff line
  exact ⟨fun _ => scanned_iff, found, missing, failed, fun _ _ _ => lookupIn_eq_some⟩

/-- The first comment is left open and takes in the second, which is no span of its own. -/
example : (comments "/*@PreemptionPoint(/*@PreemptionPoint*/)*//* @PREEMPTIONPOINT */".toList).map
    (fun c => (c.start, c.stop)) = [(0, 42), (42, 64)] := by decide +kernel

end SchedulingNoise.Pragma
