import SchedulingNoise.Text.Quoted

namespace SchedulingNoise

abbrev Bytes := List UInt8

namespace Utf8

inductive Problem
  | startByte
  | continuationByte
  | endOfData
deriving DecidableEq, Repr

structure Refusal where
  problem : Problem
  position : Nat
  bytes : Bytes
deriving DecidableEq, Repr

def Problem.text : Problem → String
  | .startByte => "invalid start byte"
  | .continuationByte => "invalid continuation byte"
  | .endOfData => "unexpected end of data"

def Refusal.message (r : Refusal) : String :=
  let why := r.problem.text
  match r.bytes with
  | [b] =>
    let shown := Text.str (Text.hex 2 b.toNat)
    s!"'utf-8' codec can't decode byte 0x{shown} in position {r.position}: {why}"
  | bs =>
    let last := r.position + bs.length - 1
    s!"'utf-8' codec can't decode bytes in position {r.position}-{last}: {why}"

def encodeChar (c : Char) : Bytes := String.utf8EncodeChar c

def encode (t : Text) : Bytes := t.flatMap encodeChar

def size (t : Text) : Nat := (encode t).length

def continues (b : UInt8) : Bool := 0x80 ≤ b && b ≤ 0xBF

/-- Which second bytes may follow a start byte: overlong forms, surrogates and numbers beyond the
last code point are out. -/
def secondOk (start b : UInt8) : Bool :=
  continues b && !(start == 0xE0 && b < 0xA0) && !(start == 0xED && b ≥ 0xA0) &&
    !(start == 0xF0 && b < 0x90) && !(start == 0xF4 && b ≥ 0x90)

def followers? (b : UInt8) : Option Nat :=
  if b < 0x80 then some 0
  else if b < 0xC2 then none
  else if b < 0xE0 then some 1
  else if b < 0xF0 then some 2
  else if b < 0xF5 then some 3
  else none

def follow (start : UInt8) : (first : Bool) → (want : Nat) → Bytes → Bytes × Option Problem
  | _, 0, _ => ([], none)
  | _, _ + 1, [] => ([], some .endOfData)
  | first, want + 1, b :: rest =>
    if (if first then secondOk start b else continues b) then
      let (good, problem) := follow start false want rest
      (b :: good, problem)
    else ([], some .continuationByte)

def assemble (start : UInt8) (more : Bytes) : Char :=
  let head := match more.length with
    | 0 => start.toNat
    | 1 => start.toNat % 0x20
    | 2 => start.toNat % 0x10
    | _ => start.toNat % 0x08
  Char.ofNat (more.foldl (fun n b => n * 64 + b.toNat % 64) head)

/-- Decodes from the offset `pos` on; `skip` counts the bytes of the last character that are
still to pass. -/
def decodeFrom : (pos skip : Nat) → Bytes → Except Refusal Text
  | _, _, [] => .ok []
  | pos, skip + 1, _ :: rest => decodeFrom (pos + 1) skip rest
  | pos, 0, b :: rest =>
    match followers? b with
    | none => .error ⟨.startByte, pos, [b]⟩
    | some n =>
      match follow b true n rest with
      | (good, some problem) => .error ⟨problem, pos, b :: good⟩
      | (good, none) => (decodeFrom (pos + 1) n rest).map (assemble b good :: ·)

def decode (bs : Bytes) : Except Refusal Text := decodeFrom 0 0 bs

end Utf8

end SchedulingNoise
