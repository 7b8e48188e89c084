import OpenNXT.Buffer.BigEndian

/-! The ISAAC generator behind the game opcodes. -/
namespace OpenNXT.Util
open Buffer

/-- An `int[256]`. -/
abbrev Table := Vector Word 256

structure ISAACCipher where
  count : ℕ := 0
  results : Table := Vector.replicate 256 0
  memory : Table := Vector.replicate 256 0
  a : Word := 0
  b : Word := 0
  c : Word := 0

namespace ISAACCipher

/-- The golden ratio. -/
def goldenRatio : Word := 0x9e3779b9

def mask : Word := (256 - 1) <<< 2

/-- `memory[(x & MASK) >> 2]`. -/
def lookup (memory : Table) (x : Word) : Word :=
  memory.get (Fin.ofNat 256 ((x &&& mask) >>> 2).toNat)

/-- The four shifts the accumulator goes through in turn. -/
def shift (i : ℕ) (a : Word) : Word :=
  match i % 4 with
  | 0 => a ^^^ (a <<< 13)
  | 1 => a ^^^ (a >>> 6)
  | 2 => a ^^^ (a <<< 2)
  | _ => a ^^^ (a >>> 16)

/-- One result. The second index runs half a table ahead of the first. -/
def isaacStep (s : ISAACCipher) (i : Fin 256) : ISAACCipher :=
  let x := s.memory.get i
  let a := shift i.val s.a + s.memory.get (i + 128)
  let y := lookup s.memory x + a + s.b
  let memory := s.memory.set i y
  let b := lookup memory (y.sshiftRight 8) + x
  { s with a := a, b := b, memory := memory, results := s.results.set i b }

/-- Generate 256 results. -/
def isaac (s : ISAACCipher) : ISAACCipher :=
  (List.finRange 256).foldl isaacStep { s with c := s.c + 1, b := s.b + (s.c + 1) }

/-- The eight local variables of `init`. -/
structure Mixer where
  a : Word := goldenRatio
  b : Word := goldenRatio
  c : Word := goldenRatio
  d : Word := goldenRatio
  e : Word := goldenRatio
  f : Word := goldenRatio
  g : Word := goldenRatio
  h : Word := goldenRatio

def Mixer.scramble (m : Mixer) : Mixer :=
  let a := m.a ^^^ (m.b <<< 11)
  let d := m.d + a
  let b := m.b + m.c
  let b := b ^^^ (m.c >>> 2)
  let e := m.e + b
  let c := m.c + d
  let c := c ^^^ (d <<< 8)
  let f := m.f + c
  let d := d + e
  let d := d ^^^ (e >>> 16)
  let g := m.g + d
  let e := e + f
  let e := e ^^^ (f <<< 10)
  let h := m.h + e
  let f := f + g
  let f := f ^^^ (g >>> 4)
  let a := a + f
  let g := g + h
  let g := g ^^^ (h <<< 8)
  let b := b + g
  let h := h + a
  let h := h ^^^ (a >>> 9)
  let c := c + h
  let a := a + b
  ⟨a, b, c, d, e, f, g, h⟩

/-- Add the eight words of a table from index `i` on. -/
def Mixer.add (m : Mixer) (t : Table) (i : ℕ) : Mixer :=
  let word (k : ℕ) := t.get (Fin.ofNat 256 (i + k))
  ⟨m.a + word 0, m.b + word 1, m.c + word 2, m.d + word 3,
    m.e + word 4, m.f + word 5, m.g + word 6, m.h + word 7⟩

def Mixer.store (m : Mixer) (t : Table) (i : ℕ) : Table :=
  let put (t : Table) (k : ℕ) (v : Word) := t.set (Fin.ofNat 256 (i + k)) v
  put (put (put (put (put (put (put (put t 0 m.a) 1 m.b) 2 m.c) 3 m.d) 4 m.e) 5 m.f) 6 m.g) 7 m.h

/-- One pass over the memory in steps of eight, mixing in `source` where it is given. -/
def initPass (source : Option Table) (p : Mixer × Table) (i : ℕ) : Mixer × Table :=
  let m := match source with
    | some t => (p.1.add t (8 * i)).scramble
    | none => p.1.scramble
  (m, m.store p.2 (8 * i))

/-- The second pass mixes in the memory it overwrites. -/
def initSecondPass (p : Mixer × Table) (i : ℕ) : Mixer × Table :=
  let m := (p.1.add p.2 (8 * i)).scramble
  (m, m.store p.2 (8 * i))

/-- Initialize from the results; `flag` asks for a second pass. -/
def init (s : ISAACCipher) (flag : Bool) : ISAACCipher :=
  let m := ({} : Mixer).scramble.scramble.scramble.scramble
  let source := if flag then some s.results else none
  let first := (List.range 32).foldl (initPass source) (m, s.memory)
  let second := if flag then (List.range 32).foldl initSecondPass first else first
  { isaac { s with memory := second.2 } with count := 256 }

/-- A seed longer than the results is an exception. -/
def create (seed : List Word) : Option ISAACCipher :=
  if 256 < seed.length then none
  else
    let results := seed.zipIdx.foldl (fun t e => t.set (Fin.ofNat 256 e.2) e.1)
      (Vector.replicate 256 0)
    some (init { results := results } true)

def getNextValue (s : ISAACCipher) : Word × ISAACCipher :=
  let s := if s.count = 0 then { s.isaac with count := 255 } else { s with count := s.count - 1 }
  (s.results.get (Fin.ofNat 256 s.count), s)

/-- The next value without taking it. When the results are used up, a copy generates more. -/
def getCurrentValue (s : ISAACCipher) : Word :=
  if s.count = 0 then
    let two : ISAACCipher :=
      { count := s.count, results := s.results, memory := s.memory, a := s.a, b := s.b, c := s.c }
    two.getNextValue.1
  else s.results.get (Fin.ofNat 256 (s.count - 1))

theorem getCurrentValue_eq (s : ISAACCipher) : s.getCurrentValue = s.getNextValue.1 := by
  unfold getCurrentValue
  split_ifs with h
  · rfl
  · rw [getNextValue, if_neg h]

end ISAACCipher

end OpenNXT.Util
