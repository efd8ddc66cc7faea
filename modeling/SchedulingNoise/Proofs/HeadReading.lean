import SchedulingNoise.Proofs.Declarations

/-! The head of a type read one character at a time. What is read depends on the text only through
the state behind it, so that it can be said what a text put into a head does. -/
namespace SchedulingNoise.Java

open Text (Blank Solid isBlank)

/-- Where the reading of a head stands between two characters. -/
inductive HeadState
  | indent
  /-- Behind the sign that begins an attribute. -/
  | sign
  /-- In the name of an attribute. -/
  | label
  /-- In the white space behind the name of an attribute. -/
  | behindName
  | arguments
  | closed
  /-- In white space, with another attribute to come or not. -/
  | between (attributes : Bool)
  | word (w : Text)
  /-- In the white space behind the keyword. -/
  | keyword (kind : TypeKind)
  | name (kind : TypeKind) (w : Text)
  | body (h : TypeHead)
  | done (h : TypeHead)
  | failed
deriving DecidableEq, Repr

def kindOf? (w : Text) : Option TypeKind := (typeKinds.find? (·.1 = w)).map (·.2)

namespace HeadState

def behindWord (w : Text) : HeadState :=
  if modifiers.contains w then .between false
  else match kindOf? w with
    | some kind => .keyword kind
    | none => .failed

def inBody (h : TypeHead) (c : Char) : HeadState :=
  if c = '\x7b' then .done h else if c = ';' then .failed else .body h

def next : HeadState → Char → HeadState
  | .indent, c =>
    if c = ' ' ∨ c = '\t' then .indent
    else if c = '@' then .sign
    else if isBlank c then .failed
    else .word [c]
  | .sign, c => if isNameChar c then .label else .failed
  | .label, c =>
    if isNameChar c then .label
    else if c = '(' then .arguments
    else if isBlank c then .behindName
    else .failed
  | .behindName, c =>
    if isBlank c then .behindName
    else if c = '(' then .arguments
    else if c = '@' then .sign
    else .word [c]
  | .arguments, c => if c = ')' then .closed else .arguments
  | .closed, c => if isBlank c then .between true else .failed
  | .between attributes, c =>
    if isBlank c then .between attributes
    else if attributes ∧ c = '@' then .sign
    else .word [c]
  | .word w, c => if isBlank c then behindWord w else .word (w ++ [c])
  | .keyword kind, c =>
    if isBlank c then .keyword kind
    else if Text.isWord c then .name kind [c]
    else .failed
  | .name kind w, c => if Text.isWord c then .name kind (w ++ [c]) else inBody ⟨kind, w⟩ c
  | .body h, c => inBody h c
  | .done h, _ => .done h
  | .failed, _ => .failed

def after (s : HeadState) (t : Text) : HeadState := t.foldl next s

def found : HeadState → Option TypeHead
  | .done h => some h
  | _ => none

@[simp] theorem after_nil (s : HeadState) : s.after [] = s := rfl

@[simp] theorem after_cons (s : HeadState) (c : Char) (t : Text) :
    s.after (c :: t) = (s.next c).after t := rfl

theorem after_append (s : HeadState) (x y : Text) : s.after (x ++ y) = (s.after x).after y :=
  List.foldl_append

@[simp] theorem after_failed (t : Text) : failed.after t = failed := by
  induction t with
  | nil => rfl
  | cons c t ih => exact ih

@[simp] theorem after_done (h : TypeHead) (t : Text) : (done h).after t = done h := by
  induction t with
  | nil => rfl
  | cons c t ih => exact ih

end HeadState

open HeadState

def opensBody (t : Text) : Bool :=
  (t.dropWhile fun c => c ≠ '\x7b' && c ≠ ';').head? = some '\x7b'

def namedHead? (kind : TypeKind) (t : Text) : Option TypeHead :=
  if !(t.takeWhile Text.isWord).isEmpty && opensBody (t.dropWhile Text.isWord) then
    some ⟨kind, t.takeWhile Text.isWord⟩
  else none

def modifiedHead? (t : Text) : Option TypeHead := do
  let (kind, t) ← afterTypeKind? (repeated afterModifier? t.length t)
  namedHead? kind t

def attributedHead? (t : Text) : Option TypeHead :=
  modifiedHead? (repeated afterAttribute? t.length t)

theorem map_typeHead? (t : Text) :
    (typeHead? t).map (·.1) = attributedHead? (skipIndent t) := by
  unfold typeHead? attributedHead? modifiedHead?
  dsimp only
  cases afterTypeKind? (repeated afterModifier? _ _) with
  | none => rfl
  | some found =>
    obtain ⟨kind, t⟩ := found
    dsimp only [Option.bind_eq_bind, Option.bind_some]
    unfold namedHead?
    split
    · rename_i unnamed
      simp [unnamed]
    · rename_i named
      split
      · rename_i rest opened
        have opens : opensBody (t.dropWhile Text.isWord) = true := by
          unfold opensBody
          rw [opened]
          rfl
        simp [named, opens]
      · rename_i closed
        have shut : opensBody (t.dropWhile Text.isWord) = false := by
          apply Bool.eq_false_iff.mpr
          intro opens
          obtain ⟨rest, eq⟩ := List.head?_eq_some_iff.mp (of_decide_eq_true opens)
          exact closed rest eq
        simp [shut]

section Names

theorem found_body (h : TypeHead) (t : Text) :
    ((body h).after t).found = if opensBody t then some h else none := by
  induction t with
  | nil => rfl
  | cons c t ih =>
    rw [after_cons, next, inBody]
    by_cases brace : c = '\x7b'
    · simp [brace, found, opensBody]
    · by_cases semicolon : c = ';'
      · simp [semicolon, found, opensBody]
      · rw [if_neg brace, if_neg semicolon, ih]
        simp [opensBody, brace, semicolon]

theorem found_name (kind : TypeKind) (w t : Text) :
    ((name kind w).after t).found =
      ((body ⟨kind, w ++ t.takeWhile Text.isWord⟩).after (t.dropWhile Text.isWord)).found := by
  induction t generalizing w with
  | nil => rfl
  | cons c t ih =>
    rw [after_cons, next]
    by_cases letter : Text.isWord c
    · simp [letter, ih]
    · simp [letter, next]

theorem found_keyword (kind : TypeKind) (t : Text) :
    ((keyword kind).after t).found = namedHead? kind (Text.skipBlanks t) := by
  induction t with
  | nil => rfl
  | cons c t ih =>
    rw [after_cons, next]
    by_cases blank : isBlank c
    · simp [blank, ih, Text.skipBlanks]
    · by_cases letter : Text.isWord c
      · rw [if_neg blank, if_pos letter, found_name, found_body]
        simp [namedHead?, Text.skipBlanks, blank, letter]
      · simp [namedHead?, Text.skipBlanks, blank, letter, found]

end Names

section Repeated

variable {step : Text → Option Text}

theorem repeated_none {t : Text} (steps : step t = none) : repeated step t.length t = t := by
  cases t with
  | nil => rfl
  | cons c t => rw [List.length_cons, repeated, steps]

variable (shrinks : ∀ t rest, step t = some rest → rest.length < t.length)
include shrinks

theorem repeated_enough {fuel fuel' : Nat} {t : Text} (enough : t.length ≤ fuel)
    (enough' : t.length ≤ fuel') : repeated step fuel t = repeated step fuel' t := by
  induction fuel generalizing fuel' t with
  | zero =>
    cases List.length_eq_zero_iff.mp (Nat.le_zero.mp enough)
    cases fuel' with
    | zero => rfl
    | succ fuel' =>
      rw [repeated, repeated]
      cases steps : step [] with
      | none => rfl
      | some rest => exact absurd (shrinks _ _ steps) (Nat.not_lt_zero _)
  | succ fuel ih =>
    cases steps : step t with
    | none =>
      cases fuel' with
      | zero => simp [repeated, steps]
      | succ fuel' => simp [repeated, steps]
    | some rest =>
      have shorter := shrinks t rest steps
      obtain ⟨fuel', rfl⟩ : ∃ n, fuel' = n + 1 := ⟨fuel' - 1, by omega⟩
      rw [repeated, repeated, steps]
      exact ih (by omega) (by omega)

theorem repeated_some {t rest : Text} (steps : step t = some rest) :
    repeated step t.length t = repeated step rest.length rest := by
  have shorter := shrinks t rest steps
  obtain ⟨n, length⟩ : ∃ n, t.length = n + 1 := ⟨t.length - 1, by omega⟩
  rw [length, repeated, steps]
  exact repeated_enough shrinks (by omega) (Nat.le_refl _)

end Repeated

section Words

def Unbroken (w : Text) : Prop := ∀ c ∈ w, isBlank c = false

theorem split_unbroken (t : Text) :
    Unbroken t ∨ ∃ u b r, t = u ++ b :: r ∧ Unbroken u ∧ isBlank b = true := by
  induction t with
  | nil => exact .inl (by simp [Unbroken])
  | cons c t ih =>
    cases blank : isBlank c with
    | true => exact .inr ⟨[], c, t, rfl, by simp [Unbroken], blank⟩
    | false =>
      rcases ih with whole | ⟨u, b, r, rfl, unbroken, hb⟩
      · exact .inl (List.forall_mem_cons.mpr ⟨blank, whole⟩)
      · exact .inr ⟨c :: u, b, r, rfl, List.forall_mem_cons.mpr ⟨blank, unbroken⟩, hb⟩

theorem afterWord?_unbroken (w : Text) {u : Text} (unbroken : Unbroken u) :
    afterWord? w u = none := by
  unfold afterWord?
  cases begins : Text.after? w u with
  | none => rfl
  | some rest =>
    cases rest with
    | nil => rfl
    | cons c rest =>
      have solid : isBlank c = false := unbroken c (by simp [Text.after?_eq_some.mp begins])
      simp [Text.skipBlanks1?, solid]

theorem afterWord?_break {w u r : Text} {b : Char} (word : Unbroken w) (unbroken : Unbroken u)
    (blank : isBlank b = true) :
    afterWord? w (u ++ b :: r) = if w = u then some (Text.skipBlanks r) else none := by
  have here : Text.after? u (u ++ b :: r) = some (b :: r) := Text.after?_eq_some.mpr rfl
  unfold afterWord?
  split
  · rename_i same
    rw [same, here]
    simp [Text.skipBlanks1?, blank]
  · rename_i other
    cases begins : Text.after? w (u ++ b :: r) with
    | none => rfl
    | some rest =>
      have eq := Text.after?_eq_some.mp begins
      rcases List.append_eq_append_iff.mp eq with ⟨more, rfl, back⟩ | ⟨more, rfl, back⟩
      -- Either the word is longer and has the white space in it, or it stops inside the front.
      · cases more with
        | nil => exact absurd (List.append_nil u) other
        | cons c more =>
          cases back
          have solid := word b (by simp)
          rw [blank] at solid
          cases solid
      · cases more with
        | nil => exact absurd (List.append_nil w).symm other
        | cons c more =>
          have solid := unbroken c (by simp)
          simp [back, Text.skipBlanks1?, solid]

theorem unbroken_modifiers : ∀ w ∈ modifiers, Unbroken w := by
  have all : modifiers.all (·.all (!isBlank ·)) = true := by decide
  intro w hw c hc
  simpa using List.all_eq_true.mp (List.all_eq_true.mp all w hw) c hc

theorem unbroken_typeKinds : ∀ k ∈ typeKinds, Unbroken k.1 := by
  have all : typeKinds.all (·.1.all (!isBlank ·)) = true := by decide
  intro k hk c hc
  simpa using List.all_eq_true.mp (List.all_eq_true.mp all k hk) c hc

variable {u r : Text} {b : Char}

theorem afterModifier?_unbroken (unbroken : Unbroken u) : afterModifier? u = none := by
  simp [afterModifier?, afterWord?_unbroken _ unbroken]

theorem afterTypeKind?_unbroken (unbroken : Unbroken u) : afterTypeKind? u = none := by
  simp [afterTypeKind?, afterWord?_unbroken _ unbroken]

theorem afterModifier?_break (unbroken : Unbroken u) (blank : isBlank b = true) :
    afterModifier? (u ++ b :: r) = if u ∈ modifiers then some (Text.skipBlanks r) else none := by
  unfold afterModifier?
  -- All that is used of the words is that they are unbroken.
  have words := unbroken_modifiers
  generalize modifiers = ws at words
  induction ws with
  | nil => rfl
  | cons w ws ih =>
    obtain ⟨first, others⟩ := List.forall_mem_cons.mp words
    rw [List.findSome?_cons, afterWord?_break first unbroken blank, ih others]
    by_cases same : w = u
    · simp [same]
    · simp [same, Ne.symm same]

theorem afterTypeKind?_break (unbroken : Unbroken u) (blank : isBlank b = true) :
    afterTypeKind? (u ++ b :: r) = (kindOf? u).map fun kind => (kind, Text.skipBlanks r) := by
  unfold afterTypeKind? kindOf?
  have words := unbroken_typeKinds
  generalize typeKinds = ks at words
  induction ks with
  | nil => rfl
  | cons k ks ih =>
    obtain ⟨w, kind⟩ := k
    obtain ⟨first, others⟩ := List.forall_mem_cons.mp words
    rw [List.findSome?_cons, ih others]
    dsimp only
    rw [afterWord?_break first unbroken blank]
    by_cases same : w = u
    · simp [same]
    · simp [same]

theorem afterWord?_shrinks {w t rest : Text} (h : afterWord? w t = some rest) :
    rest.length < t.length := by
  obtain ⟨t₁, begins, h⟩ := Option.bind_eq_some_iff.mp h
  rw [Text.after?_eq_some.mp begins, List.length_append]
  exact Nat.lt_add_left _ (Text.skipBlanks1?_shrinks h)

theorem modifiedHead?_some {t rest : Text} (h : afterModifier? t = some rest) :
    modifiedHead? t = modifiedHead? rest := by
  unfold modifiedHead?
  rw [repeated_some (fun t rest h => ?_) h]
  obtain ⟨w, _, found⟩ := List.exists_of_findSome?_eq_some h
  exact afterWord?_shrinks found

theorem modifiedHead?_none {t : Text} (h : afterModifier? t = none) :
    modifiedHead? t = (afterTypeKind? t).bind fun k => namedHead? k.1 k.2 := by
  unfold modifiedHead?
  rw [repeated_none h]
  rfl

theorem after_word (w : Text) (unbroken : Unbroken u) : (word w).after u = word (w ++ u) := by
  induction u generalizing w with
  | nil => simp
  | cons c u ih =>
    obtain ⟨here, unbroken⟩ := List.forall_mem_cons.mp unbroken
    rw [after_cons, next, here, if_neg (by decide), ih _ unbroken, List.append_assoc]
    rfl

theorem after_between_blank {attributes : Bool} {x : Text} (blank : Blank x) :
    (between attributes).after x = between attributes := by
  induction x with
  | nil => rfl
  | cons c x ih =>
    obtain ⟨here, blank⟩ := List.forall_mem_cons.mp blank
    rw [after_cons, next, if_pos here, ih blank]

theorem found_word {c : Char} (solid : isBlank c = false) (t : Text)
    (later : ∀ r, r.length < t.length →
      ((between false).after r).found = modifiedHead? (Text.skipBlanks r)) :
    ((word [c]).after t).found = modifiedHead? (c :: t) := by
  rcases split_unbroken t with unbroken | ⟨u, b, r, rfl, unbroken, blank⟩
  · have whole : Unbroken (c :: t) := List.forall_mem_cons.mpr ⟨solid, unbroken⟩
    rw [after_word [c] unbroken, modifiedHead?_none (afterModifier?_unbroken whole),
      afterTypeKind?_unbroken whole]
    rfl
  · have whole : Unbroken (c :: u) := List.forall_mem_cons.mpr ⟨solid, unbroken⟩
    have modifier := afterModifier?_break (r := r) whole blank
    have kinds := afterTypeKind?_break (r := r) whole blank
    rw [List.cons_append] at modifier kinds
    rw [after_append, after_word [c] unbroken, after_cons, next, if_pos blank, behindWord,
      List.singleton_append]
    split
    · rename_i listed
      rw [if_pos (List.contains_iff_mem.mp listed)] at modifier
      rw [modifiedHead?_some modifier]
      apply later
      simp
      omega
    · rename_i other
      rw [if_neg fun mem => other (List.contains_iff_mem.mpr mem)] at modifier
      rw [modifiedHead?_none modifier, kinds]
      cases kindOf? (c :: u) with
      | none =>
        rw [after_failed]
        rfl
      | some kind => exact found_keyword kind r

theorem skipBlanks_append {x y : Text} (blank : Blank x) (solid : Solid y) :
    Text.skipBlanks (x ++ y) = y := by
  unfold Text.skipBlanks
  rw [List.dropWhile_append_of_pos blank]
  cases y with
  | nil => rfl
  | cons c y => simp [solid c rfl]

theorem found_between (t : Text) :
    ((between false).after t).found = modifiedHead? (Text.skipBlanks t) := by
  obtain ⟨x, y, eq, blank, solid⟩ := Text.split_blanks t
  rw [eq, after_append, after_between_blank blank, skipBlanks_append blank solid]
  cases y with
  | nil => rfl
  | cons c y =>
    have here := solid c rfl
    have longer : y.length < t.length := by
      rw [eq, List.length_append, List.length_cons]
      omega
    rw [after_cons, next, here, if_neg (by decide), if_neg (by simp)]
    exact found_word here y fun r shorter => found_between r
termination_by t.length
decreasing_by exact Nat.lt_trans shorter longer

end Words

section Attributes

/-- What stands behind the arguments of an attribute, if there are any, and the white space that
must follow it. -/
def afterArguments? (t : Text) : Option Text :=
  match Text.skipBlanks t with
  | '(' :: rest => (Text.partition? ')' rest).bind fun p => Text.skipBlanks1? p.2
  | _ => Text.skipBlanks1? t

theorem afterArguments?_listed {t rest : Text} (h : Text.skipBlanks t = '(' :: rest) :
    afterArguments? t = (Text.partition? ')' rest).bind fun p => Text.skipBlanks1? p.2 := by
  unfold afterArguments?
  simp only [h]

theorem afterArguments?_bare {t : Text} (h : (Text.skipBlanks t).head? ≠ some '(') :
    afterArguments? t = Text.skipBlanks1? t := by
  unfold afterArguments?
  split
  · rename_i rest eq
    rw [eq] at h
    exact absurd rfl h
  · rfl

theorem afterAttribute?_sign (t : Text) :
    afterAttribute? ('@' :: t) = (afterName? t).bind afterArguments? := by
  simp only [afterAttribute?]
  rfl

theorem afterAttribute?_other {c : Char} (other : c ≠ '@') (t : Text) :
    afterAttribute? (c :: t) = none := by
  unfold afterAttribute?
  split
  · rename_i eq
    cases eq
    exact absurd rfl other
  · rfl

theorem afterArguments?_shrinks {t rest : Text} (h : afterArguments? t = some rest) :
    rest.length < t.length := by
  unfold afterArguments? at h
  split at h
  · rename_i inner eq
    obtain ⟨p, parted, h⟩ := Option.bind_eq_some_iff.mp h
    have blanks : (Text.skipBlanks t).length ≤ t.length := (List.dropWhile_suffix _).length_le
    have inside := (Text.partition?_suffix parted).length_le
    have shorter := Text.skipBlanks1?_shrinks h
    rw [eq, List.length_cons] at blanks
    omega
  · exact Text.skipBlanks1?_shrinks h

theorem afterAttribute?_shrinks {t rest : Text} (h : afterAttribute? t = some rest) :
    rest.length < t.length := by
  cases t with
  | nil => cases h
  | cons c t =>
    by_cases sign : c = '@'
    · subst sign
      rw [afterAttribute?_sign] at h
      obtain ⟨u, named, h⟩ := Option.bind_eq_some_iff.mp h
      have inside := (afterName?_suffix named).length_le
      have shorter := afterArguments?_shrinks h
      rw [List.length_cons]
      omega
    · rw [afterAttribute?_other sign] at h
      cases h

theorem attributedHead?_some {t rest : Text} (h : afterAttribute? t = some rest) :
    attributedHead? t = attributedHead? rest := by
  unfold attributedHead?
  rw [repeated_some (fun _ _ => afterAttribute?_shrinks) h]

theorem attributedHead?_none {t : Text} (h : afterAttribute? t = none) :
    attributedHead? t = modifiedHead? t := by
  unfold attributedHead?
  rw [repeated_none h]

theorem modifiedHead?_sign (t : Text) : modifiedHead? ('@' :: t) = none := by
  have modifier : afterModifier? ('@' :: t) = none := by rfl
  have kinds : afterTypeKind? ('@' :: t) = none := by rfl
  rw [modifiedHead?_none modifier, kinds]
  rfl

theorem attributedHead?_sign (t : Text) :
    attributedHead? ('@' :: t) = ((afterName? t).bind afterArguments?).bind attributedHead? := by
  rw [← afterAttribute?_sign]
  cases h : afterAttribute? ('@' :: t) with
  | none => rw [attributedHead?_none h, modifiedHead?_sign, Option.bind_none]
  | some rest => rw [attributedHead?_some h, Option.bind_some]

theorem found_opening {c : Char} (solid : isBlank c = false) {t : Text}
    (sign' : (sign.after t).found = attributedHead? ('@' :: t)) :
    ((if c = '@' then sign else word [c]).after t).found = attributedHead? (c :: t) := by
  split
  · rename_i eq
    rw [eq, sign']
  · rename_i other
    rw [attributedHead?_none (afterAttribute?_other other t)]
    exact found_word solid t fun r _ => found_between r

section Later

variable {t : Text} (later : ∀ r, r.length < t.length →
  (sign.after r).found = attributedHead? ('@' :: r))
include later

theorem found_spaced : ((between true).after t).found = attributedHead? (Text.skipBlanks t) := by
  obtain ⟨x, y, rfl, blank, solid⟩ := Text.split_blanks t
  rw [after_append, after_between_blank blank, skipBlanks_append blank solid]
  cases y with
  | nil => rfl
  | cons c y =>
    have here := solid c rfl
    have opening := found_opening here (later y (by simp; omega))
    rw [after_cons, next, here, if_neg (by decide)]
    simpa using opening

theorem found_closed : (closed.after t).found = (Text.skipBlanks1? t).bind attributedHead? := by
  cases t with
  | nil => rfl
  | cons c t =>
    rw [after_cons, next, Text.skipBlanks1?]
    split
    · exact found_spaced fun r shorter => later r (Nat.lt_succ_of_lt shorter)
    · rw [after_failed]
      rfl

theorem found_arguments : (arguments.after t).found =
    ((Text.partition? ')' t).bind fun p => Text.skipBlanks1? p.2).bind attributedHead? := by
  induction t with
  | nil => rfl
  | cons c t ih =>
    have later' := fun r (shorter : r.length < t.length) => later r (Nat.lt_succ_of_lt shorter)
    rw [after_cons, next, Text.partition?]
    split
    · exact found_closed later'
    · rw [ih later']
      cases Text.partition? ')' t <;> rfl

theorem found_behindName {c : Char} (blank : isBlank c = true) :
    (behindName.after t).found = (afterArguments? (c :: t)).bind attributedHead? := by
  obtain ⟨x, y, eq, blanks, solid⟩ := Text.split_blanks t
  have passed : behindName.after x = behindName := by
    clear eq
    induction x with
    | nil => rfl
    | cons d x ih =>
      obtain ⟨here, blanks⟩ := List.forall_mem_cons.mp blanks
      rw [after_cons, next, if_pos here, ih blanks]
  have spaced : Text.skipBlanks t = y := by rw [eq, skipBlanks_append blanks solid]
  have skipped : Text.skipBlanks (c :: t) = y := by
    rw [← spaced]
    simp [Text.skipBlanks, blank]
  have bare : Text.skipBlanks1? (c :: t) = some y := by rw [Text.skipBlanks1?, if_pos blank, spaced]
  rw [eq, after_append, passed, ← eq]
  cases y with
  | nil =>
    rw [afterArguments?_bare (by simp [skipped]), bare]
    rfl
  | cons d y =>
    have here := solid d rfl
    have shorter : ∀ r : Text, r.length < y.length + 1 → r.length < t.length := by
      intro r bound
      rw [eq, List.length_append, List.length_cons]
      omega
    rw [after_cons, next, here, if_neg (by decide)]
    by_cases paren : d = '('
    · subst paren
      rw [if_pos rfl, afterArguments?_listed skipped]
      exact found_arguments fun r bound => later r (shorter r (Nat.lt_succ_of_lt bound))
    · rw [if_neg paren, afterArguments?_bare (by simp [skipped, paren]), bare, Option.bind_some]
      exact found_opening here (later y (shorter y (Nat.lt_succ_self _)))

theorem found_label (ends : ∀ c ∈ t.head?, isNameChar c = false) :
    (label.after t).found = (afterArguments? t).bind attributedHead? := by
  cases t with
  | nil => rfl
  | cons c t =>
    have later' := fun r (shorter : r.length < t.length) => later r (Nat.lt_succ_of_lt shorter)
    rw [after_cons, next, ends c rfl, if_neg (by decide)]
    cases blank : isBlank c with
    | true =>
      have other : c ≠ '(' := fun eq => absurd (eq ▸ blank) (by decide)
      rw [if_neg other, if_pos rfl]
      exact found_behindName later' blank
    | false =>
      have solid : Text.skipBlanks (c :: t) = c :: t := by simp [Text.skipBlanks, blank]
      by_cases paren : c = '('
      · subst paren
        rw [if_pos rfl, found_arguments later', afterArguments?_listed solid]
      · rw [if_neg paren, if_neg (by decide), after_failed,
          afterArguments?_bare (by simp [solid, paren])]
        simp [Text.skipBlanks1?, blank, found]

end Later

theorem after_names {n : Text} (names : ∀ c ∈ n, isNameChar c = true) :
    label.after n = label := by
  induction n with
  | nil => rfl
  | cons c n ih =>
    obtain ⟨here, names⟩ := List.forall_mem_cons.mp names
    rw [after_cons, next, if_pos here, ih names]

-- Behind the arguments of one attribute the next may begin: recursion on the length.
theorem found_sign (t : Text) : (sign.after t).found = attributedHead? ('@' :: t) := by
  rw [attributedHead?_sign]
  cases t with
  | nil => rfl
  | cons c t =>
    rw [after_cons, next, afterName?]
    split
    · have names := List.takeWhile_append_dropWhile (p := isNameChar) (l := t)
      have bound := (List.dropWhile_suffix isNameChar (l := t)).length_le
      have ends : ∀ d ∈ (t.dropWhile isNameChar).head?, isNameChar d = false := by
        intro d hd
        have first := List.head?_dropWhile_not isNameChar t
        rw [hd] at first
        simpa using first
      rw [← names, after_append, after_names (List.all_eq_true.mp List.all_takeWhile), names,
        Option.bind_some]
      exact found_label (fun r shorter => found_sign r) ends
    · rw [after_failed]
      rfl
termination_by t.length
decreasing_by
  simp
  omega

end Attributes

theorem modifiedHead?_blank {c : Char} (blank : isBlank c = true) (t : Text) :
    modifiedHead? (c :: t) = none := by
  have nothing : Unbroken [] := by simp [Unbroken]
  have modifier : afterModifier? (c :: t) = none :=
    (afterModifier?_break nothing blank).trans (if_neg (by decide))
  have kinds : afterTypeKind? (c :: t) = none := afterTypeKind?_break nothing blank
  rw [modifiedHead?_none modifier, kinds]
  rfl

theorem found_indent (t : Text) : (indent.after t).found = (typeHead? t).map (·.1) := by
  rw [map_typeHead?]
  induction t with
  | nil => rfl
  | cons c t ih =>
    rw [after_cons, next]
    by_cases space : c = ' ' ∨ c = '\t'
    · rw [if_pos space, ih]
      simp [skipIndent, space]
    · have stays : skipIndent (c :: t) = c :: t := by
        simp [skipIndent, space]
      rw [if_neg space, stays]
      cases blank : isBlank c with
      | true =>
        have other : c ≠ '@' := fun eq => absurd (eq ▸ blank) (by decide)
        rw [if_neg other, if_pos rfl, after_failed,
          attributedHead?_none (afterAttribute?_other other t), modifiedHead?_blank blank]
        rfl
      | false =>
        rw [if_neg (by decide : ¬ false = true)]
        exact found_opening blank (found_sign t)

end SchedulingNoise.Java
