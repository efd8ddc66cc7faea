import SchedulingNoise.Fault

/-! Points of time, read from and written in the notation of ISO 8601. Reading takes dates with
and without hyphens, weeks of the year, any character between date and time, times with and
without colons, and an offset from universal time. It counts in bytes, and takes a null character
for the end where a text may end. -/
namespace SchedulingNoise

structure Offset where
  negative : Bool
  seconds : Nat
  micros : Nat
deriving DecidableEq, Repr

structure Moment where
  year : Nat
  month : Nat
  day : Nat
  hour : Nat := 0
  minute : Nat := 0
  second : Nat := 0
  micros : Nat := 0
  offset : Option Offset := none
deriving DecidableEq, Repr

namespace Moment

/-! Writing -/

def padded (width n : Nat) : Text :=
  let t := Decimal.ofNat n
  List.replicate (width - t.length) '0' ++ t

def fractionText (micros : Nat) : Text := if micros = 0 then [] else '.' :: padded 6 micros

def offsetText : Option Offset → Text
  | none => []
  | some o =>
    let sign := if o.negative then '-' else '+'
    let minutes := o.seconds / 60
    let rest :=
      if o.seconds % 60 = 0 && o.micros = 0 then []
      else ':' :: padded 2 (o.seconds % 60) ++ fractionText o.micros
    sign :: padded 2 (minutes / 60) ++ ':' :: padded 2 (minutes % 60) ++ rest

def text (m : Moment) : Text :=
  padded 4 m.year ++ '-' :: padded 2 m.month ++ '-' :: padded 2 m.day ++ 'T' :: padded 2 m.hour ++
    ':' :: padded 2 m.minute ++ ':' :: padded 2 m.second ++ fractionText m.micros ++
    offsetText m.offset

/-! The calendar -/

def isLeap (year : Nat) : Bool := year % 4 = 0 && (year % 100 ≠ 0 || year % 400 = 0)

def daysInMonth (year month : Nat) : Nat :=
  match month with
  | 2 => if isLeap year then 29 else 28
  | 4 | 6 | 9 | 11 => 30
  | _ => 31

def daysInYear (year : Nat) : Nat := if isLeap year then 366 else 365

def daysBefore (year : Nat) : Nat :=
  let y := year - 1
  y * 365 + y / 4 - y / 100 + y / 400

def monthDay (year : Nat) : (months : List Nat) → (day : Nat) → Nat × Nat
  | [], day => (12, day + 1)
  | m :: rest, day =>
    if day < daysInMonth year m then (m, day + 1) else monthDay year rest (day - daysInMonth year m)

def months : List Nat := [1, 2, 3, 4, 5, 6, 7, 8, 9, 10, 11, 12]

def firstWeekday (year : Nat) : Nat := daysBefore year % 7

/-- A year has a week 53 if it starts on a Thursday, or is a leap year and starts on a
Wednesday. -/
def weeksIn (year : Nat) : Nat :=
  if firstWeekday year = 3 || (firstWeekday year = 2 && isLeap year) then 53 else 52

/-- The date of a day in a week of a year. The first week has the year's first Thursday. Before
the first year the calendar has no months. -/
def ofWeek? (year week day : Nat) : Option (Nat × Nat × Nat) :=
  if week = 0 || weeksIn year < week || day = 0 || 7 < day then none
  else if year = 0 then some (1, 0, 0)
  else
    let first := firstWeekday year
    -- Days from the Monday of the first week, moved by seven so that nothing is negative.
    let start := if first ≤ 3 then 7 - first else 14 - first
    let passed := start + (week - 1) * 7 + (day - 1)
    if passed < 7 then
      let (m, d) := monthDay (year - 1) months (daysInYear (year - 1) + passed - 7)
      if year = 1 then none else some (year - 1, m, d)
    else if passed - 7 < daysInYear year then
      let (m, d) := monthDay year months (passed - 7)
      some (year, m, d)
    else
      let (m, d) := monthDay (year + 1) months (passed - 7 - daysInYear year)
      some (year + 1, m, d)

/-! Reading -/

def byteChars (t : Text) : Text := (Utf8.encode t).map fun b => Char.ofNat b.toNat

def isEnd : Text → Bool
  | [] => true
  | c :: _ => c = Char.ofNat 0

def digits? (n : Nat) (t : Text) : Option (Nat × Text) :=
  let front := t.take n
  if front.length = n && front.all Char.isDigit then some (Decimal.value front, t.drop n) else none

def hyphen? (used : Bool) (t : Text) : Option Text :=
  if !used then some t
  else match t with
    | '-' :: rest => some rest
    | _ => none

def readWeek? (year : Nat) (hyphens : Bool) (t : Text) : Option (Nat × Nat × Nat) := do
  let (week, rest) ← digits? 2 t
  if rest.isEmpty then ofWeek? year week 1
  else
    let rest ← hyphen? hyphens rest
    let (day, _) ← digits? 1 rest
    ofWeek? year week day

def readDate? (t : Text) : Option (Nat × Nat × Nat) := do
  let (year, rest) ← digits? 4 t
  let (hyphens, rest) := match rest with
    | '-' :: rest => (true, rest)
    | rest => (false, rest)
  match rest with
  | 'W' :: rest => readWeek? year hyphens rest
  | rest =>
    let (month, rest) ← digits? 2 rest
    let rest ← hyphen? hyphens rest
    let (day, _) ← digits? 2 rest
    pure (year, month, day)

def dateLength (t : Text) : Nat :=
  let n := t.length
  let at_ (i : Nat) : Char := t.getD i ' '
  if n = 7 then 7
  else if at_ 4 = '-' then
    if at_ 5 ≠ 'W' then 10
    else if at_ 8 = '-' && !(10 < n && (at_ 10).isDigit) then 10
    else 8
  else if at_ 4 ≠ 'W' then 8
  else
    let stop := 7 + ((t.drop 7).takeWhile Char.isDigit).length
    if stop < 9 then stop else if stop % 2 = 0 then 7 else 8

/-- What comes after the two-digit fields of a time: its end, maybe behind one more character,
or a fraction of a second. -/
inductive FieldsEnd
  | ended (clean : Bool)
  | fraction (t : Text)

/-- Up to three fields of two digits. `first` is true before the first, and `colons` tells
whether colons stand between them. -/
def readFields? : (left : Nat) → (first colons : Bool) → Text → Option (List Nat × FieldsEnd)
  | 0, _, _, t => some ([], .fraction t)
  | left + 1, first, colons, t => do
    let (n, rest) ← digits? 2 t
    match rest with
    | [] => pure ([n], .ended true)
    | [c] => pure ([n], .ended (isEnd [c]))
    | c :: more =>
      let colons := if first then c = ':' else colons
      if colons && c = ':' then
        let (ns, e) ← readFields? left false colons more
        pure (n :: ns, e)
      else if c = '.' || c = ',' then pure ([n], .fraction more)
      else if colons then none
      else
        let (ns, e) ← readFields? left false colons rest
        pure (n :: ns, e)

structure Clocked where
  fields : List Nat
  micros : Nat
  /-- Was the text used up? -/
  clean : Bool

def Clocked.field (c : Clocked) (i : Nat) : Nat := c.fields.getD i 0

def readClock? (t : Text) : Option Clocked := do
  match ← readFields? 3 true true t with
  | (ns, .ended clean) => pure ⟨ns, 0, clean⟩
  | (ns, .fraction t) =>
    let n := min 6 t.length
    let (value, rest) ← digits? n t
    pure ⟨ns, value * Nat.pow 10 (6 - n), isEnd (rest.dropWhile Char.isDigit)⟩

def isZoneSign (c : Char) : Bool := c = '+' || c = '-' || c = 'Z'

def readOffset? : Text → Option Offset
  | sign :: rest =>
    if sign = 'Z' then if isEnd rest then some ⟨false, 0, 0⟩ else none
    else do
      let c ← readClock? rest
      let seconds := c.field 0 * 3600 + c.field 1 * 60 + c.field 2
      if !c.clean then none
      else if seconds = 0 then pure ⟨false, 0, 0⟩
      else pure ⟨sign = '-', seconds, c.micros⟩
  | [] => none

def readTime? (t : Text) : Option (Clocked × Option Offset) := do
  let c ← readClock? (t.takeWhile fun ch => !isZoneSign ch)
  match t.dropWhile fun ch => !isZoneSign ch with
  | [] => if c.clean then pure (c, none) else none
  | zone => pure (c, some (← readOffset? zone))

def characterBytes (lead : Char) : Nat :=
  if lead.toNat < 0x80 then 1
  else if lead.toNat / 16 = 0xE then 3
  else if lead.toNat / 16 = 0xF then 4
  else 2

def readForm? (t : Text) : Option Moment :=
  if t.length < 7 then none
  else do
    let n := dateLength t
    let (year, month, day) ← readDate? (t.take n)
    match t.drop n with
    | [] => pure { year, month, day }
    | lead :: _ =>
      let (c, offset) ← readTime? (t.drop (n + characterBytes lead))
      pure ⟨year, month, day, c.field 0, c.field 1, c.field 2, c.micros, offset⟩

def offsetMicros (o : Offset) : Int :=
  let n : Int := o.seconds * 1000000 + o.micros
  if o.negative then -n else n

def isLongOffset : Option Offset → Bool
  | none => false
  | some o => 86400 ≤ o.seconds

def problem? (m : Moment) : Option TimeFault :=
  if isLongOffset m.offset then m.offset.map fun o => .offset (offsetMicros o)
  else if m.year = 0 || 9999 < m.year then some (.year m.year)
  else if m.month = 0 || 12 < m.month then some .month
  else if m.day = 0 || daysInMonth m.year m.month < m.day then some .day
  else if 23 < m.hour then some .hour
  else if 59 < m.minute then some .minute
  else if 59 < m.second then some .second
  else none

def read (t : Text) : Except TimeFault Moment :=
  match readForm? (byteChars t) with
  | none => .error (.form t)
  | some m =>
    match m.problem? with
    | some f => .error f
    | none => .ok m

end Moment

end SchedulingNoise
