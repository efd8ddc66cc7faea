import SchedulingNoise.Proofs.JsonLimits
import SchedulingNoise.Proofs.Loading
import SchedulingNoise.Proofs.Messages
import SchedulingNoise.Proofs.Stores
import SchedulingNoise.Proofs.Utf8Codec

/-! Configuration files of any content. A file falls back to the defaults if its text is malformed
or is not accepted, and what is said about it can be printed. It is not so for bytes that are no
text, for a number with too many digits and for a text that is nested too deep: these leave the
call as faults. -/
namespace SchedulingNoise

namespace Text

section Lines

variable {run more t : Text}

theorem eq_nil_of_prefix_line (one : '\n' ∉ run) (h : run <+: '\n' :: more) : run = [] := by
  cases run with
  | nil => rfl
  | cons d run =>
    obtain ⟨rfl, _⟩ := List.cons_prefix_cons.mp h
    exact absurd List.mem_cons_self one

theorem prefix_of_unixLines (one : '\n' ∉ run) (h : run <+: t.unixLines) : run <+: t := by
  fun_induction unixLines t generalizing run with
  | case1 rest ih =>
    rw [eq_nil_of_prefix_line one h]
    exact List.nil_prefix
  | case2 rest alone ih =>
    rw [eq_nil_of_prefix_line one h]
    exact List.nil_prefix
  | case3 c rest _ other ih =>
    cases run with
    | nil => exact List.nil_prefix
    | cons d run =>
      obtain ⟨rfl, later⟩ := List.cons_prefix_cons.mp h
      have inner := ih (fun mem => one (List.mem_cons_of_mem d mem)) later
      exact List.cons_prefix_cons.mpr ⟨rfl, inner⟩
  | case4 => exact h

theorem infix_of_unixLines (one : '\n' ∉ run) (h : run <:+: t.unixLines) : run <:+: t := by
  fun_induction unixLines t with
  | case1 rest ih =>
    rcases List.infix_cons_iff.mp h with front | inside
    · rw [eq_nil_of_prefix_line one front]
      exact List.nil_infix
    · exact (ih inside).trans ⟨['\r', '\n'], [], by simp⟩
  | case2 rest alone ih =>
    rcases List.infix_cons_iff.mp h with front | inside
    · rw [eq_nil_of_prefix_line one front]
      exact List.nil_infix
    · exact (ih inside).trans (List.suffix_cons _ rest).isInfix
  | case3 c rest pair other ih =>
    rcases List.infix_cons_iff.mp h with front | inside
    · have whole : run <+: unixLines (c :: rest) := by rwa [unixLines.eq_3 c rest pair other]
      exact (prefix_of_unixLines one whole).isInfix
    · exact (ih inside).trans (List.suffix_cons c rest).isInfix
  | case4 => exact h

theorem countP_unixLines {p : Char → Bool} (other : p '\n' = false) (t : Text) :
    t.unixLines.countP p ≤ t.countP p := by
  have line : ¬ p '\n' = true := by
    rw [other]
    exact Bool.false_ne_true
  fun_induction unixLines t with
  | case1 rest ih =>
    have fewer := (List.sublist_append_right ['\r', '\n'] rest).countP_le (p := p)
    rw [List.countP_cons_of_neg line]
    exact Nat.le_trans ih fewer
  | case2 rest alone ih =>
    have fewer := (List.sublist_cons_self '\r' rest).countP_le (p := p)
    rw [List.countP_cons_of_neg line]
    exact Nat.le_trans ih fewer
  | case3 c rest pair ends ih =>
    rw [List.countP_cons, List.countP_cons]
    omega
  | case4 => exact Nat.le_refl _

end Lines

end Text

namespace Config
open Workspace

/-- The path of a file as reports give it can be printed. -/
def Reportable (file : Path) (w : Workspace) : Prop :=
  w.coloured = true ∨ Plain (Path.join ⟨.root, w.folder⟩ file).text

theorem absolute_eq (file : Path) (w : Workspace) :
    absolute file w = .ok (Path.join ⟨.root, w.folder⟩ file) w := rfl

section Reports

variable {file : Path} {w : Workspace} (reportable : Reportable file w)
include reportable

theorem showable_file :
    Showable w.coloured s!"  Config file: {Path.join ⟨.root, w.folder⟩ file}" := by
  refine reportable.imp_right fun plain => ?_
  rw [String.toList_append, plain_append]
  exact ⟨by decide, plain_str plain⟩

theorem exists_reportInvalid (v : Json) :
    ∃ w', reportInvalid file (complaints v) w = .ok () w' := by
  unfold reportInvalid
  rw [bind_ok (absolute_eq file w)]
  apply Prints.exists_ok
  refine .next (prints_printLines ?_) (.next (.forM fun e he => ?_)
    (.next (prints_printLine (.inr (by decide))) (prints_note _)))
  · simp only [List.forall_mem_cons]
    exact ⟨.inr (by decide), showable_file reportable, .inr (by decide), nofun⟩
  · apply prints_printLines
    simp only [List.forall_mem_cons]
    exact ⟨.inr (plain_message he), .inr (by decide), nofun⟩

theorem exists_reportMalformed (t : Text) (problem : Json.Problem) (offset : Nat) :
    ∃ w', reportMalformed file t problem offset w = .ok () w' := by
  have said : Plain problem.text.toList := by
    cases problem <;> decide
  unfold reportMalformed
  obtain ⟨line, column⟩ := Json.lineColumn t offset
  dsimp only
  rw [bind_ok (absolute_eq file w)]
  apply Prints.exists_ok
  apply prints_printLines
  simp only [List.forall_mem_cons]
  refine ⟨.inr (by decide), showable_file reportable, .inr ?_, .inr ?_, .inr (by decide),
    .inr (by decide), .inr (by decide), nofun⟩
  · simp only [String.toList_append, plain_append, and_assoc]
    exact ⟨by decide, said, by decide, plain_nat _, by decide, plain_nat _, by decide, plain_nat _,
      by decide⟩
  · simp only [String.toList_append, plain_append, and_assoc]
    exact ⟨by decide, plain_nat _, by decide, plain_nat _⟩

end Reports

/-- Bytes that a call does not get over with so many levels, and the fault that they lead to. -/
inductive Unreadable (levels : Json.Levels) (bs : Bytes) : Fault → Prop
  | undecodable {r : Utf8.Refusal} (refused : Utf8.decode bs = .error r) :
      Unreadable levels bs (.undecodable r)
  | tooManyDigits {t : Text} {n : Nat} (decoded : bs = Utf8.encode t)
      (refused : Json.read t.unixLines levels = .error (.digitLimit n)) :
      Unreadable levels bs (.tooManyDigits n)
  | tooDeep {t : Text} {nest : Nest} (decoded : bs = Utf8.encode t)
      (refused : Json.read t.unixLines levels = .error (.tooDeep nest)) :
      Unreadable levels bs (.tooDeep nest)

/-- The bytes of a text with the members of an object that is accepted. -/
def Holds (levels : Json.Levels) (bs : Bytes) (ms : Members) : Prop :=
  ∃ t, bs = Utf8.encode t ∧ Json.read t.unixLines levels = .ok (.object ms) ∧
    complaints (.object ms) = []

section Content

variable {file : Path} {w w₁ : Workspace} {bs : Bytes}

theorem ofFile_of_bytes (read : readBytes file w = .ok bs w₁) :
    ofFile (some file) w = match Utf8.decode bs with
      | .ok t => default.loadText file t.unixLines w
      | .error r => .error (.undecodable r) w := by
  have spelled : Char.ofNat 0 ∉ file.text := by
    intro mem
    have refused : requireSpelled file w = .error (.nullCharacter file.text) w := by
      have any : file.text.any (· = Char.ofNat 0) = true :=
        List.any_eq_true.mpr ⟨_, mem, decide_eq_true rfl⟩
      unfold requireSpelled
      rw [any]
      rfl
    rw [readBytes, ask, bind_error refused] at read
    cases read
  have asked := ask_eq (w := w) spelled Disk.bytes
  have found : w.disk.bytes w.folder file = .ok bs ∧ w₁ = w := by
    rw [readBytes, asked] at read
    cases got : w.disk.bytes w.folder file with
    | error e =>
      rw [got] at read
      cases read
    | ok bs' =>
      rw [got] at read
      cases read
      exact ⟨rfl, rfl⟩
  obtain ⟨found, rfl⟩ := found
  obtain ⟨node, there, _⟩ := bind_eq_ok.mp found
  have fetched : (some <$> readBytes file) w₁ = .ok (some bs) w₁ := by
    simp only [Functor.map, EStateM.map, read]
  unfold ofFile
  dsimp only
  rw [bind_ok (exists?_of_node spelled there), if_pos rfl, load,
    bind_ok (orOnRefusal_ok fetched _)]
  dsimp only
  cases Utf8.decode bs <;> rfl

theorem ofFile_unreadable (read : readBytes file w = .ok bs w₁) {f : Fault}
    (h : Unreadable w.levels bs f) : ofFile (some file) w = .error f w := by
  rw [ofFile_of_bytes read]
  cases h with
  | undecodable refused => rw [refused]
  | tooManyDigits decoded refused =>
    rw [Utf8.decode_eq_ok.mpr decoded]
    simp only [loadText_eq, refused]
  | tooDeep decoded refused =>
    rw [Utf8.decode_eq_ok.mpr decoded]
    simp only [loadText_eq, refused]

theorem exists_accept_refused {c : Config} (reportable : Reportable file w) {v : Json}
    (refused : complaints v ≠ []) : ∃ w', c.accept file v w = .ok c w' := by
  obtain ⟨w', told⟩ := exists_reportInvalid reportable v
  refine ⟨w', ?_⟩
  cases found : complaints v with
  | nil => exact absurd found refused
  | cons e rest =>
    rw [found] at told
    simp only [accept, found]
    rw [bind_ok told]
    rfl

theorem ofFile_readable (read : readBytes file w = .ok bs w₁) (reportable : Reportable file w)
    (readable : ∀ f, ¬ Unreadable w.levels bs f) : ∃ c w', ofFile (some file) w = .ok c w' ∧
      (∀ ms, Holds w.levels bs ms → c = default.update ms) ∧
      ((∀ ms, ¬ Holds w.levels bs ms) → c = default) := by
  rw [ofFile_of_bytes read]
  cases decoded : Utf8.decode bs with
  | error r => exact absurd (.undecodable decoded) (readable _)
  | ok t =>
    rw [Utf8.decode_eq_ok] at decoded
    have only : ∀ ms, Holds w.levels bs ms ↔
        Json.read t.unixLines w.levels = .ok (.object ms) ∧ complaints (.object ms) = [] := by
      intro ms
      constructor
      · rintro ⟨t', encoded, held⟩
        cases Utf8.encode_injective (decoded.symm.trans encoded)
        exact held
      · exact fun held => ⟨t, decoded, held⟩
    simp only [only]
    cases value : Json.read t.unixLines w.levels with
    | ok v =>
      simp only [loadText_eq, value]
      by_cases accepted : complaints v = []
      · obtain ⟨ms, rfl⟩ := object_of_accepted accepted
        refine ⟨default.update ms, w, accept_accepted accepted, fun ms' held => ?_, fun none => ?_⟩
        · cases held.1
          rfl
        · exact absurd ⟨rfl, accepted⟩ (none ms)
      · obtain ⟨w', told⟩ := exists_accept_refused reportable accepted
        refine ⟨default, w', told, fun ms held => ?_, fun _ => rfl⟩
        cases held.1
        exact absurd held.2 accepted
    | error r =>
      cases r with
      | malformed problem offset =>
        obtain ⟨w', told⟩ := exists_reportMalformed reportable t.unixLines problem offset
        refine ⟨default, w', ?_, fun ms held => ?_, fun _ => rfl⟩
        · simp only [loadText_eq, value]
          rw [bind_ok told]
          rfl
        · cases held.1
      | digitLimit n => exact absurd (.tooManyDigits decoded value) (readable _)
      | tooDeep nest => exact absurd (.tooDeep decoded value) (readable _)

theorem not_unreadable {t : Text} (short : ∀ n, ¬ Json.LongRun t n)
    {levels : Json.Levels}
    (shallow : t.countP Json.opens ≤ levels.most) (f : Fault) :
    ¬ Unreadable levels (Utf8.encode t) f := by
  intro h
  cases h with
  | undecodable refused =>
    rw [Utf8.decode_eq_ok.mpr rfl] at refused
    cases refused
  | tooManyDigits decoded refused =>
    cases Utf8.encode_injective decoded
    rcases Json.cause_of_read refused with ⟨_, _, eq⟩ | ⟨n, eq, many, digits, inside, all, count⟩ |
      ⟨_, eq, _⟩
    · cases eq
    · cases eq
      have one : '\n' ∉ digits := by
        intro mem
        exact absurd (List.all_eq_true.mp all _ mem) (by decide)
      exact short _ ⟨many, digits, Text.infix_of_unixLines one inside, all, count⟩
    · cases eq
  | tooDeep decoded refused =>
    cases Utf8.encode_injective decoded
    rcases Json.cause_of_read refused with ⟨_, _, eq⟩ | ⟨_, eq, _⟩ | ⟨nest, _, deep⟩
    · cases eq
    · cases eq
    · have fewer := Text.countP_unixLines (p := Json.opens) (by decide) t
      omega

/-- A file of any content, at a path that can be printed. The call fails exactly for bytes that
are no text, a number with too many digits and a text that is nested deeper than the workspace
has levels, each with its own fault; a text with neither long runs of digits nor more brackets than
levels is none of these. Otherwise the
call returns: with the defaults, updated by the members of an object that is accepted if the
bytes hold one, and as they are if not. -/
theorem defaults_kept_unless_unreadable (read : readBytes file w = .ok bs w₁)
    (reportable : Reportable file w) :
    (∀ f, (∃ w', ofFile (some file) w = .error f w') ↔ Unreadable w.levels bs f) ∧
    ((∀ t, bs ≠ Utf8.encode t) → ∃ r, Unreadable w.levels bs (.undecodable r)) ∧
    (∀ t, bs = Utf8.encode t → (∀ n, ¬ Json.LongRun t n) →
      t.countP Json.opens ≤ w.levels.most → ∀ f, ¬ Unreadable w.levels bs f) ∧
    ((∀ f, ¬ Unreadable w.levels bs f) → ∃ c w', ofFile (some file) w = .ok c w' ∧
      (∀ ms, Holds w.levels bs ms → c = default.update ms) ∧
      ((∀ ms, ¬ Holds w.levels bs ms) → c = default)) := by
  refine ⟨fun f => ?_, fun foreign => ?_, ?_, ofFile_readable read reportable⟩
  · constructor
    · rintro ⟨w', failed⟩
      by_cases readable : ∀ f, ¬ Unreadable w.levels bs f
      · obtain ⟨c, w'', done, _⟩ := ofFile_readable read reportable readable
        rw [done] at failed
        cases failed
      · obtain ⟨f', unreadable⟩ := not_forall_not.mp readable
        rw [ofFile_unreadable read unreadable] at failed
        cases failed
        exact unreadable
    · exact fun unreadable => ⟨w, ofFile_unreadable read unreadable⟩
  · cases decoded : Utf8.decode bs with
    | ok t => exact absurd (Utf8.decode_eq_ok.mp decoded) (foreign t)
    | error r => exact ⟨r, .undecodable decoded⟩
  · rintro t rfl short shallow
    exact not_unreadable short shallow

def brokenFiles : Workspace where
  disk := { entries := [
    (["open".toList], .file (Utf8.encode "[1".toList)),
    (["junk".toList], .file [0xFF])] }
  folder := []
  clock := ⟨"20260101".toList, 0⟩
  epoch := 0

theorem brokenFiles_open :
    ∃ w', ofFile (some (.ofText "/open".toList)) brokenFiles = .ok default w' := by
  have read : readBytes (.ofText "/open".toList) brokenFiles =
      .ok (Utf8.encode "[1".toList) brokenFiles := rfl
  have reportable : Reportable (.ofText "/open".toList) brokenFiles := .inr (by decide)
  obtain ⟨_, _, readable, returns⟩ := defaults_kept_unless_unreadable read reportable
  have short : ∀ n, ¬ Json.LongRun "[1".toList n := by
    rintro n ⟨many, digits, inside, _, rfl⟩
    have few : digits.length ≤ 2 := inside.length_le
    exact absurd (Nat.lt_of_lt_of_le many few) (by decide)
  obtain ⟨c, w', done, _, kept⟩ := returns (readable _ rfl short (by decide))
  have none : ∀ ms, ¬ Holds brokenFiles.levels (Utf8.encode "[1".toList) ms := by
    rintro ms ⟨t, encoded, value, _⟩
    cases Utf8.encode_injective encoded
    have malformed : Json.read (Text.unixLines "[1".toList) brokenFiles.levels =
        .error (.malformed .comma 2) := rfl
    rw [malformed] at value
    cases value
  rw [kept none] at done
  exact ⟨w', done⟩

/-- Bytes that are no text do not fall back to the defaults. -/
theorem brokenFiles_junk : ofFile (some (.ofText "/junk".toList)) brokenFiles =
    .error (.undecodable ⟨.startByte, 0, [0xFF]⟩) brokenFiles := by
  have read : readBytes (.ofText "/junk".toList) brokenFiles = .ok [0xFF] brokenFiles := by rfl
  exact ofFile_unreadable read (.undecodable rfl)

end Content

end Config

end SchedulingNoise
