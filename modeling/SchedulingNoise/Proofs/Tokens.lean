import SchedulingNoise.Proofs.Declarations

/-! The end of the constants of an enum, in two phases. The text is cut into tokens first: comments
and literals as a whole, and all else character by character. Then brackets are counted over the
tokens, and the first semicolon outside all brackets, or the first bracket too many, is the end. -/
namespace SchedulingNoise.Java

inductive Token
  | passed (t : Text)
  | single (c : Char)
deriving DecidableEq, Repr

def Token.text : Token → Text
  | .passed t => t
  | .single c => [c]

def blockRest (t : Text) : Text :=
  match Text.find? ['*', '/'] t with
  | some o => t.take (o + 2)
  | none => t

def literalRest (quote : Char) : Text → Text
  | [] => []
  | ['\\'] => ['\\']
  | '\\' :: c :: rest => '\\' :: c :: literalRest quote rest
  | c :: rest => if c = quote then [c] else c :: literalRest quote rest

/-- The token at the front of a text with the first character `c`. -/
def firstToken (c : Char) (rest : Text) : Token :=
  if c = '/' ∧ rest.head? = some '/' then .passed (c :: rest.takeWhile (· ≠ '\n'))
  else if c = '/' ∧ rest.head? = some '*' then .passed (c :: '*' :: blockRest rest.tail)
  else if c = '"' ∨ c = '\'' then .passed (c :: literalRest c rest)
  else .single c

/-- The tokens from a place on. `skip` counts the characters of the last one still to pass. -/
def tokensFrom : (skip : Nat) → Text → List Token
  | _, [] => []
  | skip + 1, _ :: rest => tokensFrom skip rest
  | 0, c :: rest => firstToken c rest :: tokensFrom ((firstToken c rest).text.length - 1) rest

def tokens (t : Text) : List Token := tokensFrom 0 t

def Token.weight : Token → Int
  | .passed _ => 0
  | .single c => if c ∈ "([\x7b".toList then 1 else if c ∈ ")]\x7d".toList then -1 else 0

section Phases

variable (depth : Int) (ts : List Token)

def depthBefore (i : Nat) : Int := (ts.take i).foldl (fun d token => d + token.weight) depth

def offsetOf (i : Nat) : Nat := ((ts.take i).flatMap Token.text).length

def Terminated (i : Nat) : Prop := ts[i]? = some (.single ';') ∧ depthBefore depth ts i = 0

/-- A closing bracket that makes the depth negative. -/
def Overclosed (i : Nat) : Prop :=
  (∃ c ∈ ")]\x7d".toList, ts[i]? = some (.single c)) ∧ depthBefore depth ts (i + 1) < 0

def Decided (i : Nat) : Prop := Terminated depth ts i ∨ Overclosed depth ts i

/-- The end that tokens give which begin at the offset `pos` of a text of length `total`: where
one of them decides first, or the end of the text if none does. -/
def Settled (total pos : Nat) (e : ConstantsEnd) : Prop :=
  (∃ i, (∀ j < i, ¬ Decided depth ts j) ∧ Terminated depth ts i ∧
    e = ⟨pos + offsetOf ts i + 1, false⟩) ∨
  (∃ i, (∀ j < i, ¬ Decided depth ts j) ∧ Overclosed depth ts i ∧
    e = ⟨pos + offsetOf ts i, true⟩) ∨
  (∀ i, ¬ Decided depth ts i) ∧ e = ⟨total, true⟩

end Phases

section Settling

variable {depth : Int} {token : Token} {ts : List Token} {total pos : Nat} {e e' : ConstantsEnd}

theorem Terminated.not_overclosed {i : Nat} (h : Terminated depth ts i) :
    ¬ Overclosed depth ts i := by
  rintro ⟨⟨c, closer, here⟩, _⟩
  rw [h.1] at here
  cases here
  exact absurd closer (by decide)

theorem first_unique {i j : Nat} (hi : ∀ k < i, ¬ Decided depth ts k) (decides : Decided depth ts i)
    (hj : ∀ k < j, ¬ Decided depth ts k) (decides' : Decided depth ts j) : i = j := by
  apply Nat.le_antisymm
  · exact Nat.le_of_not_lt fun less => hi j less decides'
  · exact Nat.le_of_not_lt fun less => hj i less decides

theorem Settled.unique (h : Settled depth ts total pos e) (h' : Settled depth ts total pos e') :
    e = e' := by
  rcases h with ⟨i, hi, ends, rfl⟩ | ⟨i, hi, ends, rfl⟩ | ⟨never, rfl⟩
  · rcases h' with ⟨j, hj, ends', rfl⟩ | ⟨j, hj, ends', rfl⟩ | ⟨never, rfl⟩
    · rw [first_unique hi (.inl ends) hj (.inl ends')]
    · cases first_unique hi (.inl ends) hj (.inr ends')
      exact absurd ends' ends.not_overclosed
    · exact absurd (.inl ends) (never i)
  · rcases h' with ⟨j, hj, ends', rfl⟩ | ⟨j, hj, ends', rfl⟩ | ⟨never, rfl⟩
    · cases first_unique hi (.inr ends) hj (.inl ends')
      exact absurd ends ends'.not_overclosed
    · rw [first_unique hi (.inr ends) hj (.inr ends')]
    · exact absurd (.inr ends) (never i)
  · rcases h' with ⟨j, _, ends', rfl⟩ | ⟨j, _, ends', rfl⟩ | ⟨_, rfl⟩
    · exact absurd (.inl ends') (never j)
    · exact absurd (.inr ends') (never j)
    · rfl

theorem Settled.nil : Settled depth [] total pos ⟨total, true⟩ := by
  refine .inr (.inr ⟨?_, rfl⟩)
  rintro i (⟨here, _⟩ | ⟨⟨c, _, here⟩, _⟩)
  · cases here
  · cases here

theorem nothing_before_zero : ∀ j < 0, ¬ Decided depth ts j :=
  fun j less => absurd less (Nat.not_lt_zero j)

theorem Settled.semicolon : Settled 0 (.single ';' :: ts) total pos ⟨pos + 1, false⟩ :=
  .inl ⟨0, nothing_before_zero, ⟨rfl, rfl⟩, rfl⟩

theorem Settled.closer {c : Char} (closes : c ∈ ")]\x7d".toList) :
    Settled 0 (.single c :: ts) total pos ⟨pos, true⟩ := by
  have light : (Token.single c).weight = -1 := by
    have which : c = ')' ∨ c = ']' ∨ c = '\x7d' := by simpa using closes
    rcases which with rfl | rfl | rfl <;> rfl
  refine .inr (.inl ⟨0, nothing_before_zero, ⟨⟨c, closes, rfl⟩, ?_⟩, rfl⟩)
  simp [depthBefore, light]

theorem Settled.cons (inner : token = .single ';' → depth ≠ 0) (deep : 0 ≤ depth + token.weight)
    (h : Settled (depth + token.weight) ts total (pos + token.text.length) e) :
    Settled depth (token :: ts) total pos e := by
  have open_ : ¬ Decided depth (token :: ts) 0 := by
    rintro (⟨here, zero⟩ | ⟨_, negative⟩)
    · exact inner (Option.some.inj here) zero
    · exact absurd deep (Int.not_le.mpr negative)
  have before : ∀ {i}, (∀ j < i, ¬ Decided (depth + token.weight) ts j) →
      ∀ j < i + 1, ¬ Decided depth (token :: ts) j := by
    intro i hi j less
    cases j with
    | zero => exact open_
    | succ j => exact hi j (Nat.lt_of_succ_lt_succ less)
  have place : ∀ i, pos + offsetOf (token :: ts) (i + 1) =
      pos + token.text.length + offsetOf ts i := by
    intro i
    simp [offsetOf, Nat.add_assoc]
  rcases h with ⟨i, hi, ends, rfl⟩ | ⟨i, hi, ends, rfl⟩ | ⟨never, rfl⟩
  · exact .inl ⟨i + 1, before hi, ends, by rw [place]⟩
  · exact .inr (.inl ⟨i + 1, before hi, ends, by rw [place]⟩)
  · refine .inr (.inr ⟨fun i => ?_, rfl⟩)
    cases i with
    | zero => exact open_
    | succ i => exact never i

end Settling

section Cutting

variable (c : Char) (rest t : Text)

theorem blockRest_cons : blockRest (c :: rest) =
    if c = '*' ∧ rest.head? = some '/' then ['*', '/'] else c :: blockRest rest := by
  unfold blockRest
  rw [Text.find?]
  by_cases closes : c = '*' ∧ rest.head? = some '/'
  · obtain ⟨rfl, slash⟩ := closes
    obtain ⟨more, rfl⟩ := List.head?_eq_some_iff.mp slash
    rfl
  · have away : ¬ (['*', '/'] : Text).isPrefixOf (c :: rest) := by
      rw [List.isPrefixOf_iff_prefix]
      intro front
      obtain ⟨star, more, rfl⟩ := List.cons_prefix_cons.mp front
      exact closes ⟨star.symm, rfl⟩
    rw [if_neg away, if_neg closes]
    cases Text.find? ['*', '/'] rest <;> rfl

theorem blockRest_prefix : blockRest t <+: t := by
  unfold blockRest
  split
  · exact List.take_prefix _ t
  · exact List.prefix_rfl

theorem literalRest_prefix (quote : Char) : literalRest quote t <+: t := by
  fun_induction literalRest quote t with
  | case1 => exact List.prefix_rfl
  | case2 => exact List.prefix_rfl
  | case3 c rest ih => simpa [List.cons_prefix_cons] using ih
  | case4 rest => simp
  | case5 c rest _ _ _ ih => exact List.cons_prefix_cons.mpr ⟨rfl, ih⟩

theorem firstToken_prefix : (firstToken c rest).text <+: c :: rest := by
  unfold firstToken
  split
  · exact List.cons_prefix_cons.mpr ⟨rfl, List.takeWhile_prefix _⟩
  · split
    · rename_i opens
      obtain ⟨more, rfl⟩ := List.head?_eq_some_iff.mp opens.2
      have inner : '*' :: blockRest more <+: '*' :: more :=
        List.cons_prefix_cons.mpr ⟨rfl, blockRest_prefix more⟩
      exact List.cons_prefix_cons.mpr ⟨rfl, inner⟩
    · split
      · exact List.cons_prefix_cons.mpr ⟨rfl, literalRest_prefix rest c⟩
      · exact List.cons_prefix_cons.mpr ⟨rfl, List.nil_prefix⟩

theorem firstToken_pos : 0 < (firstToken c rest).text.length := by
  unfold firstToken
  split
  · exact Nat.succ_pos _
  · split
    · exact Nat.succ_pos _
    · split <;> exact Nat.succ_pos _

theorem tokensFrom_eq (skip : Nat) : tokensFrom skip t = tokens (t.drop skip) := by
  induction skip generalizing t with
  | zero => rfl
  | succ skip ih =>
    cases t with
    | nil => rfl
    | cons c rest => exact ih rest

theorem tokens_cons : tokens (c :: rest) =
    firstToken c rest :: tokens ((c :: rest).drop (firstToken c rest).text.length) := by
  obtain ⟨n, long⟩ := Nat.exists_eq_succ_of_ne_zero (Nat.ne_of_gt (firstToken_pos c rest))
  rw [tokens, tokensFrom, tokensFrom_eq, long]
  rfl

theorem token_induction {motive : Text → Prop} (nil : motive [])
    (cons : ∀ c rest, motive ((c :: rest).drop (firstToken c rest).text.length) →
      motive (c :: rest)) : motive t := by
  induction long : t.length using Nat.strongRecOn generalizing t with
  | ind n ih =>
    cases t with
    | nil => exact nil
    | cons c rest =>
      have := firstToken_pos c rest
      refine cons c rest (ih _ ?_ _ rfl)
      rw [← long, List.length_drop, List.length_cons]
      omega

theorem flatMap_tokens : (tokens t).flatMap Token.text = t := by
  induction t using token_induction with
  | nil => rfl
  | cons c rest ih =>
    obtain ⟨more, whole⟩ := firstToken_prefix c rest
    rw [tokens_cons, List.flatMap_cons, ih, ← whole, List.drop_left]

end Cutting

section Walking

variable (total pos depth : Nat) (c : Char) (rest t : Text)

theorem constantsEndFrom_skip (skip : Nat) (zone : Zone) :
    constantsEndFrom total pos skip depth zone t =
      constantsEndFrom total (pos + skip) 0 depth zone (t.drop skip) := by
  induction skip generalizing pos t with
  | zero => rfl
  | succ skip ih =>
    cases t with
    | nil => rfl
    | cons c rest =>
      rw [constantsEndFrom, ih, List.drop_succ_cons, Nat.add_assoc, Nat.add_comm 1]

theorem constantsEndFrom_lineComment : constantsEndFrom total pos 0 depth .lineComment t =
    constantsEndFrom total (pos + (t.takeWhile (· ≠ '\n')).length) 0 depth .code
      (t.drop (t.takeWhile (· ≠ '\n')).length) := by
  induction t generalizing pos with
  | nil => rfl
  | cons c rest ih =>
    by_cases feed : c = '\n'
    · -- The line feed that ends the comment is a token of its own, and settles nothing.
      subst feed
      simp [constantsEndFrom, isOpener, isCloser]
    · rw [constantsEndFrom, if_neg feed, ih]
      simp [feed, Nat.add_assoc, Nat.add_comm 1]

theorem constantsEndFrom_blockComment : constantsEndFrom total pos 0 depth .blockComment t =
    constantsEndFrom total (pos + (blockRest t).length) 0 depth .code
      (t.drop (blockRest t).length) := by
  induction t generalizing pos with
  | nil => rfl
  | cons c rest ih =>
    rw [constantsEndFrom, blockRest_cons]
    split
    · rw [constantsEndFrom_skip]
      rfl
    · rw [ih]
      simp [Nat.add_assoc, Nat.add_comm 1]

theorem constantsEndFrom_literal {quote : Char} (plain : quote ≠ '\\') :
    constantsEndFrom total pos 0 depth (.literal quote) t =
      constantsEndFrom total (pos + (literalRest quote t).length) 0 depth .code
        (t.drop (literalRest quote t).length) := by
  fun_induction literalRest quote t generalizing pos with
  | case1 => rfl
  | case2 => simp [constantsEndFrom, plain.symm]
  | case3 c rest ih =>
    rw [constantsEndFrom, if_neg plain.symm, if_pos rfl, constantsEndFrom, ih]
    simp [Nat.add_assoc, Nat.add_comm 2]
  | case4 rest => simp [constantsEndFrom]
  | case5 c rest _ escape other ih =>
    -- A backslash is taken with the next character, or is the last one.
    have ordinary : c ≠ '\\' := by
      rintro rfl
      cases rest with
      | nil => simp_all
      | cons d rest => exact escape d rest rfl rfl
    rw [constantsEndFrom, if_neg other, if_neg ordinary, ih]
    simp [Nat.add_assoc, Nat.add_comm 1]

theorem constantsEndFrom_passed {x : Text} (h : firstToken c rest = .passed x) :
    constantsEndFrom total pos 0 depth .code (c :: rest) =
      constantsEndFrom total (pos + x.length) 0 depth .code ((c :: rest).drop x.length) := by
  unfold firstToken at h
  conv => lhs; unfold constantsEndFrom
  split at h
  · rename_i opens
    obtain ⟨more, rfl⟩ := List.head?_eq_some_iff.mp opens.2
    cases h
    rw [if_pos opens, constantsEndFrom_skip, constantsEndFrom_lineComment]
    simp [Nat.add_assoc, Nat.add_comm 2]
  · rename_i line
    split at h
    · rename_i opens
      obtain ⟨more, rfl⟩ := List.head?_eq_some_iff.mp opens.2
      cases h
      rw [if_neg line, if_pos opens, constantsEndFrom_skip, constantsEndFrom_blockComment]
      simp [Nat.add_assoc, Nat.add_comm 2]
    · rename_i block
      split at h
      · rename_i quote
        cases h
        have plain : c ≠ '\\' := by
          rintro rfl
          exact absurd quote (by decide)
        rw [if_neg line, if_neg block, if_pos quote, constantsEndFrom_literal _ _ _ _ plain]
        simp [Nat.add_assoc, Nat.add_comm 1]
      · cases h

theorem constantsEndFrom_single {d : Char} (h : firstToken c rest = .single d) : d = c ∧
    constantsEndFrom total pos 0 depth .code (c :: rest) =
      if isOpener c then constantsEndFrom total (pos + 1) 0 (depth + 1) .code rest
      else if isCloser c then
        if depth = 0 then ⟨pos, true⟩
        else constantsEndFrom total (pos + 1) 0 (depth - 1) .code rest
      else if c = ';' ∧ depth = 0 then ⟨pos + 1, false⟩
      else constantsEndFrom total (pos + 1) 0 depth .code rest := by
  unfold firstToken at h
  conv in constantsEndFrom _ _ _ _ _ (c :: rest) => unfold constantsEndFrom
  split at h
  · cases h
  · rename_i line
    split at h
    · cases h
    · rename_i block
      split at h
      · cases h
      · rename_i quote
        cases h
        refine ⟨rfl, ?_⟩
        rw [if_neg line, if_neg block, if_neg quote]
        cases depth <;> rfl

theorem isCloser_iff : isCloser c = true ↔ c ∈ ")]\x7d".toList := by
  simp [isCloser, or_assoc]

theorem weight_single : (Token.single c).weight =
    if isOpener c then 1 else if isCloser c then -1 else 0 := by
  have opener : isOpener c = true ↔ c ∈ "([\x7b".toList := by simp [isOpener, or_assoc]
  simp only [Token.weight, ← opener, ← isCloser_iff]

variable {ts : List Token} {next : Nat → ConstantsEnd}

theorem settled_single (later : ∀ depth : Nat, Settled depth ts total (pos + 1) (next depth)) :
    Settled depth (.single c :: ts) total pos
      (if isOpener c then next (depth + 1)
        else if isCloser c then if depth = 0 then ⟨pos, true⟩ else next (depth - 1)
        else if c = ';' ∧ depth = 0 then ⟨pos + 1, false⟩
        else next depth) := by
  have weight := weight_single c
  split
  · rename_i opener
    rw [if_pos opener] at weight
    refine .cons (fun same => ?_) (by omega) ?_
    · cases same
      exact absurd opener (by decide)
    · rw [weight]
      exact later (depth + 1)
  · rename_i other
    rw [if_neg other] at weight
    split
    · rename_i closer
      rw [if_pos closer] at weight
      split
      · rename_i zero
        subst zero
        exact .closer ((isCloser_iff c).mp closer)
      · have less : (depth : Int) + (Token.single c).weight = (depth - 1 : Nat) := by omega
        refine .cons (fun same => ?_) (by omega) ?_
        · cases same
          exact absurd closer (by decide)
        · rw [less]
          exact later (depth - 1)
    · rename_i plain
      rw [if_neg plain] at weight
      split
      · rename_i ends
        obtain ⟨rfl, rfl⟩ := ends
        exact .semicolon
      · rename_i inner
        refine .cons (fun same zero => ?_) (by omega) ?_
        · cases same
          exact inner ⟨rfl, Int.ofNat_eq_zero.mp zero⟩
        · rw [weight, Int.add_zero]
          exact later depth

theorem settled_constantsEndFrom :
    Settled depth (tokens t) total pos (constantsEndFrom total pos 0 depth .code t) := by
  -- The depth changes from token to token, so the end has to be known for every depth behind one.
  induction t using token_induction generalizing pos depth with
  | nil => exact .nil
  | cons c rest ih =>
    rw [tokens_cons]
    cases token : firstToken c rest with
    | passed x =>
      rw [constantsEndFrom_passed total pos depth c rest token]
      refine .cons (fun same => by cases same) (by simp [Token.weight]) ?_
      have later := ih (pos + x.length) depth
      rw [token] at later
      simpa [Token.weight, Token.text] using later
    | single d =>
      obtain ⟨rfl, step⟩ := constantsEndFrom_single total pos depth c rest token
      rw [token] at ih
      rw [step]
      exact settled_single total pos depth d (ih (pos + 1))

end Walking

/-- The end of the constants is found in two phases. The text from the start on is cut into tokens
that make it up, and an answer is the end exactly if it is the one that the tokens give with no
bracket open at the start. The end lies between the start and the end of the text. -/
theorem constantsEnd_two_phases (t : Text) {start : Nat} (inside : start ≤ t.length) :
    (tokens (t.drop start)).flatMap Token.text = t.drop start ∧
    constantsEndAt t start = .ok (constantsEnd t start).pair ∧
    (∀ e, constantsEnd t start = e ↔ Settled 0 (tokens (t.drop start)) t.length start e) ∧
    start ≤ (constantsEnd t start).offset ∧ (constantsEnd t start).offset ≤ t.length := by
  have settled : Settled 0 (tokens (t.drop start)) t.length start (constantsEnd t start) :=
    settled_constantsEndFrom t.length start 0 (t.drop start)
  have all : t.length = start + (t.drop start).length := by
    rw [List.length_drop]
    omega
  obtain ⟨front, back, eq, _, offset⟩ : EndsAt start (t.drop start) (constantsEnd t start).offset :=
    constantsEndFrom_place all
  refine ⟨flatMap_tokens _, rfl, fun e => ⟨fun eq => eq ▸ settled, settled.unique⟩, ?_, ?_⟩
  · omega
  · rw [all, eq, List.length_append]
    omega

/-- An enum with a semicolon in a literal behind an escaped quote, in a comment and in the body of
a constant, and no brace that closes it. -/
def trickyEnum : Text :=
  "enum E \x7b A(\"\\\";)\", ';') /*; \x7d*/, B \x7b int x; \x7d // ;\n ; int y;".toList

theorem trickyEnum_two_phases :
    8 ≤ trickyEnum.length ∧ constantsEnd trickyEnum 8 = ⟨53, false⟩ ∧
    Settled 0 (tokens (trickyEnum.drop 8)) trickyEnum.length 8 ⟨53, false⟩ := by
  have inside : 8 ≤ trickyEnum.length := by decide
  have found : constantsEnd trickyEnum 8 = ⟨53, false⟩ := by decide
  obtain ⟨_, _, decides, _⟩ := constantsEnd_two_phases trickyEnum inside
  exact ⟨inside, found, (decides _).mp found⟩

end SchedulingNoise.Java
