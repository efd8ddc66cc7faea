import SchedulingNoise.Java.EnumBody
import SchedulingNoise.Text.Basic

/-! Texts without their comments. They are read as the constants of an enum are, with the zone of
every character; a walk that looks at one character at a time gives the same, and can be cut
anywhere. -/
namespace SchedulingNoise

namespace Java

/-- The characters from a place on that are in no comment. `skip` counts the characters of a
delimiter or an escape that are still to pass. -/
def decommentFrom : (skip : Nat) → Zone → Text → Text
  | _, _, [] => []
  | skip + 1, .literal q, c :: rest => c :: decommentFrom skip (.literal q) rest
  | skip + 1, zone, _ :: rest => decommentFrom skip zone rest
  | 0, .code, c :: rest =>
    if c = '/' ∧ rest.head? = some '/' then decommentFrom 1 .lineComment rest
    else if c = '/' ∧ rest.head? = some '*' then decommentFrom 1 .blockComment rest
    else if c = '"' ∨ c = '\'' then c :: decommentFrom 0 (.literal c) rest
    else c :: decommentFrom 0 .code rest
  | 0, .lineComment, c :: rest =>
    if c = '\n' then c :: decommentFrom 0 .code rest else decommentFrom 0 .lineComment rest
  | 0, .blockComment, c :: rest =>
    if c = '*' ∧ rest.head? = some '/' then decommentFrom 1 .code rest
    else decommentFrom 0 .blockComment rest
  | 0, .literal q, c :: rest =>
    if c = q then c :: decommentFrom 0 .code rest
    else c :: decommentFrom (if c = '\\' then 1 else 0) (.literal q) rest

def decomment (t : Text) : Text := decommentFrom 0 .code t

end Java

def Text.solids (t : Text) : Text := t.filter (!isBlank ·)

namespace Java

/-- Where a walk through a text stands between two characters: in a zone, or behind a character
that means more or less with the next one. -/
inductive Stand
  | within (zone : Zone)
  | slash
  | star
  | escape (quote : Char)
deriving DecidableEq, Repr

namespace Stand

def inCode (c : Char) : Stand := .within (if c = '"' ∨ c = '\'' then .literal c else .code)

def next : Stand → Char → Stand
  | .within .code, c => if c = '/' then .slash else inCode c
  | .slash, c =>
    if c = '/' then .within .lineComment
    else if c = '*' then .within .blockComment
    else inCode c
  | .within .lineComment, c => .within (if c = '\n' then .code else .lineComment)
  | .within .blockComment, c => if c = '*' then .star else .within .blockComment
  | .star, c =>
    if c = '/' then .within .code else if c = '*' then .star else .within .blockComment
  | .within (.literal q), c =>
    if c = q then .within .code else if c = '\\' then .escape q else .within (.literal q)
  | .escape q, _ => .within (.literal q)

/-- What a character adds to the text without comments. A slash in code waits for the next
character. -/
def keep : Stand → Char → Text
  | .within .code, c => if c = '/' then [] else [c]
  | .slash, c => if c = '/' ∨ c = '*' then [] else ['/', c]
  | .within .lineComment, c => if c = '\n' then [c] else []
  | .within .blockComment, _ => []
  | .star, _ => []
  | .within (.literal _), c => [c]
  | .escape _, c => [c]

def after (s : Stand) (t : Text) : Stand := t.foldl next s

def kept : Stand → Text → Text
  | _, [] => []
  | s, c :: rest => s.keep c ++ (s.next c).kept rest

def out : Stand → Text → Text
  | .slash, [] => ['/']
  | _, [] => []
  | s, c :: rest => s.keep c ++ (s.next c).out rest

@[simp] theorem after_nil (s : Stand) : s.after [] = s := rfl

@[simp] theorem after_cons (s : Stand) (c : Char) (t : Text) :
    s.after (c :: t) = (s.next c).after t := rfl

theorem after_append (s : Stand) (x y : Text) : s.after (x ++ y) = (s.after x).after y :=
  List.foldl_append

theorem out_cons (s : Stand) (c : Char) (t : Text) :
    s.out (c :: t) = s.keep c ++ (s.next c).out t := by
  cases s <;> rfl

theorem out_append (s : Stand) (x y : Text) : s.out (x ++ y) = s.kept x ++ (s.after x).out y := by
  induction x generalizing s with
  | nil => rfl
  | cons c x ih => rw [List.cons_append, out_cons, ih, kept, after_cons, List.append_assoc]

theorem kept_append (s : Stand) (x y : Text) :
    s.kept (x ++ y) = s.kept x ++ (s.after x).kept y := by
  induction x generalizing s with
  | nil => rfl
  | cons c x ih => rw [List.cons_append, kept, ih, kept, after_cons, List.append_assoc]

end Stand

/-- What is read from a stand on, when the next character can be seen. -/
def lookahead : Stand → Text → Text
  | .within zone, t => decommentFrom 0 zone t
  | .slash, t =>
    if t.head? = some '/' then decommentFrom 1 .lineComment t
    else if t.head? = some '*' then decommentFrom 1 .blockComment t
    else '/' :: decommentFrom 0 .code t
  | .star, t =>
    if t.head? = some '/' then decommentFrom 1 .code t else decommentFrom 0 .blockComment t
  | .escape q, t => decommentFrom 1 (.literal q) t

theorem lookahead_cons (s : Stand) (c : Char) (t : Text) :
    lookahead s (c :: t) = s.keep c ++ lookahead (s.next c) t := by
  cases s with
  | within zone =>
    cases zone with
    | code =>
      by_cases slash : c = '/'
      · simp [lookahead, Stand.keep, Stand.next, decommentFrom, slash]
      · by_cases quote : c = '"' ∨ c = '\''
        · simp [lookahead, Stand.keep, Stand.next, Stand.inCode, decommentFrom, slash, quote]
        · simp [lookahead, Stand.keep, Stand.next, Stand.inCode, decommentFrom, slash, quote]
    | lineComment =>
      by_cases feed : c = '\n'
      · simp [lookahead, Stand.keep, Stand.next, decommentFrom, feed]
      · simp [lookahead, Stand.keep, Stand.next, decommentFrom, feed]
    | blockComment =>
      by_cases star : c = '*'
      · simp [lookahead, Stand.keep, Stand.next, decommentFrom, star]
      · simp [lookahead, Stand.keep, Stand.next, decommentFrom, star]
    | literal q =>
      by_cases ends : c = q
      · simp [lookahead, Stand.keep, Stand.next, decommentFrom, ends]
      · by_cases escape : c = '\\'
        · have other : ¬ '\\' = q := escape ▸ ends
          simp [lookahead, Stand.keep, Stand.next, decommentFrom, escape, other]
        · simp [lookahead, Stand.keep, Stand.next, decommentFrom, ends, escape]
  | slash =>
    by_cases slash : c = '/'
    · simp [lookahead, Stand.keep, Stand.next, decommentFrom, slash]
    · by_cases star : c = '*'
      · simp [lookahead, Stand.keep, Stand.next, decommentFrom, star]
      · by_cases quote : c = '"' ∨ c = '\''
        · simp [lookahead, Stand.keep, Stand.next, Stand.inCode, decommentFrom, slash, star, quote]
        · simp [lookahead, Stand.keep, Stand.next, Stand.inCode, decommentFrom, slash, star, quote]
  | star =>
    by_cases slash : c = '/'
    · simp [lookahead, Stand.keep, Stand.next, decommentFrom, slash]
    · by_cases star : c = '*'
      · simp [lookahead, Stand.keep, Stand.next, decommentFrom, star]
      · simp [lookahead, Stand.keep, Stand.next, decommentFrom, slash, star]
  | escape q => simp [lookahead, Stand.keep, Stand.next, decommentFrom]

theorem out_eq_lookahead (s : Stand) (t : Text) : s.out t = lookahead s t := by
  induction t generalizing s with
  | nil =>
    cases s with
    | within zone => simp [Stand.out, lookahead, decommentFrom]
    | slash => simp [Stand.out, lookahead, decommentFrom]
    | star => simp [Stand.out, lookahead, decommentFrom]
    | escape q => simp [Stand.out, lookahead, decommentFrom]
  | cons c t ih => rw [Stand.out_cons, lookahead_cons, ih]

theorem decomment_eq (t : Text) : decomment t = (Stand.within .code).out t :=
  (out_eq_lookahead (.within .code) t).symm

end Java

end SchedulingNoise
