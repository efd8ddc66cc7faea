namespace SchedulingNoise

structure Twister where
  words : Array UInt32
  /-- How many of the words have been used up. -/
  used : Nat
deriving Repr

namespace Twister

def size : Nat := 624

def word (a : Array UInt32) (i : Nat) : UInt32 := a.getD i 0

def initial (seed : UInt32) : Array UInt32 :=
  (List.range (size - 1)).foldl
    (fun a k =>
      let last := word a k
      a.push ((1812433253 : UInt32) * (last ^^^ (last >>> 30)) + UInt32.ofNat (k + 1)))
    #[seed]

structure Mixing where
  words : Array UInt32
  place : Nat
  keyPlace : Nat

/-- Moves to the next place; behind the last word comes the second, and the first takes the
value of the last. -/
def Mixing.advance (m : Mixing) : Mixing :=
  if m.place + 1 < size then { m with place := m.place + 1 }
  else { m with place := 1, words := m.words.setIfInBounds 0 (word m.words (size - 1)) }

def Mixing.spread (m : Mixing) : UInt32 :=
  let last := word m.words (m.place - 1)
  last ^^^ (last >>> 30)

def Mixing.withKey (key : Array UInt32) (m : Mixing) : Mixing :=
  let w := (word m.words m.place ^^^ (m.spread * 1664525)) + word key m.keyPlace +
    UInt32.ofNat m.keyPlace
  let m := { m with words := m.words.setIfInBounds m.place w }
  { m.advance with keyPlace := if m.keyPlace + 1 < key.size then m.keyPlace + 1 else 0 }

def Mixing.withPlace (m : Mixing) : Mixing :=
  let w := (word m.words m.place ^^^ (m.spread * 1566083941)) - UInt32.ofNat m.place
  { m with words := m.words.setIfInBounds m.place w }.advance

def ofKey (key : Array UInt32) : Twister :=
  let start : Mixing := ⟨initial 19650218, 1, 0⟩
  let keyed := (List.range (max size key.size)).foldl (fun m _ => m.withKey key) start
  let mixed := (List.range (size - 1)).foldl (fun m _ => m.withPlace) keyed
  ⟨mixed.words.setIfInBounds 0 0x80000000, size⟩

def keyWords : Nat → Nat → List UInt32
  | 0, _ => []
  | fuel + 1, n =>
    UInt32.ofNat n :: (if n < UInt32.size then [] else keyWords fuel (n / UInt32.size))

def ofSeed (seed : Int) : Twister :=
  ofKey (keyWords (seed.natAbs.log2 / 32 + 1) seed.natAbs).toArray

def renew (t : Twister) : Twister :=
  let step (a : Array UInt32) (k : Nat) : Array UInt32 :=
    let y := (word a k &&& 0x80000000) ||| (word a ((k + 1) % size) &&& 0x7FFFFFFF)
    let odd : UInt32 := if y &&& 1 == 1 then 0x9908B0DF else 0
    a.setIfInBounds k (word a ((k + 397) % size) ^^^ (y >>> 1) ^^^ odd)
  ⟨(List.range size).foldl step t.words, 0⟩

def temper (y : UInt32) : UInt32 :=
  let y := y ^^^ (y >>> 11)
  let y := y ^^^ ((y <<< 7) &&& 0x9D2C5680)
  let y := y ^^^ ((y <<< 15) &&& 0xEFC60000)
  y ^^^ (y >>> 18)

def next (t : Twister) : UInt32 × Twister :=
  let t := if t.used < size then t else t.renew
  (temper (word t.words t.used), { t with used := t.used + 1 })

/-- A number below one hundred: the seven highest bits of a word, drawn again while they are too
large. A draw is too large with probability 7/32, so the limit on the draws is never met. -/
def percent : Nat → Twister → Nat × Twister
  | 0, t => (0, t)
  | fuel + 1, t =>
    let (w, t) := t.next
    let n := (w >>> 25).toNat
    if n < 100 then (n, t) else percent fuel t

end Twister

end SchedulingNoise
