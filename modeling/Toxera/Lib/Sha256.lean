import Mathlib

/-!
# SHA-256

The hash function over lists of bytes.
-/

namespace Sha256

def constants : List UInt32 := [
  0x428a2f98, 0x71374491, 0xb5c0fbcf, 0xe9b5dba5, 0x3956c25b, 0x59f111f1, 0x923f82a4, 0xab1c5ed5,
  0xd807aa98, 0x12835b01, 0x243185be, 0x550c7dc3, 0x72be5d74, 0x80deb1fe, 0x9bdc06a7, 0xc19bf174,
  0xe49b69c1, 0xefbe4786, 0x0fc19dc6, 0x240ca1cc, 0x2de92c6f, 0x4a7484aa, 0x5cb0a9dc, 0x76f988da,
  0x983e5152, 0xa831c66d, 0xb00327c8, 0xbf597fc7, 0xc6e00bf3, 0xd5a79147, 0x06ca6351, 0x14292967,
  0x27b70a85, 0x2e1b2138, 0x4d2c6dfc, 0x53380d13, 0x650a7354, 0x766a0abb, 0x81c2c92e, 0x92722c85,
  0xa2bfe8a1, 0xa81a664b, 0xc24b8b70, 0xc76c51a3, 0xd192e819, 0xd6990624, 0xf40e3585, 0x106aa070,
  0x19a4c116, 0x1e376c08, 0x2748774c, 0x34b0bcb5, 0x391c0cb3, 0x4ed8aa4a, 0x5b9cca4f, 0x682e6ff3,
  0x748f82ee, 0x78a5636f, 0x84c87814, 0x8cc70208, 0x90befffa, 0xa4506ceb, 0xbef9a3f7, 0xc67178f2]

structure State where
  a : UInt32
  b : UInt32
  c : UInt32
  d : UInt32
  e : UInt32
  f : UInt32
  g : UInt32
  h : UInt32

def initial : State where
  a := 0x6a09e667
  b := 0xbb67ae85
  c := 0x3c6ef372
  d := 0xa54ff53a
  e := 0x510e527f
  f := 0x9b05688c
  g := 0x1f83d9ab
  h := 0x5be0cd19

def rotr (x n : UInt32) : UInt32 := x >>> n ||| x <<< (32 - n)

def nextWord (window : List UInt32) : UInt32 :=
  let x := window.getD 1 0
  let y := window.getD 14 0
  window.getD 0 0 + (rotr x 7 ^^^ rotr x 18 ^^^ x >>> 3) + window.getD 9 0 +
    (rotr y 17 ^^^ rotr y 19 ^^^ y >>> 10)

def round (s : State) (window : List UInt32) (k : UInt32) : State :=
  let choice := (s.e &&& s.f) ^^^ (~~~s.e &&& s.g)
  let majority := (s.a &&& s.b) ^^^ (s.a &&& s.c) ^^^ (s.b &&& s.c)
  let t := s.h + (rotr s.e 6 ^^^ rotr s.e 11 ^^^ rotr s.e 25) + choice + k + window.getD 0 0
  let u := (rotr s.a 2 ^^^ rotr s.a 13 ^^^ rotr s.a 22) + majority
  ⟨t + u, s.a, s.b, s.c, s.d + t, s.e, s.f, s.g⟩

def rounds : State → List UInt32 → List UInt32 → State
  | s, _, [] => s
  | s, window, k :: ks => rounds (round s window k) (window.drop 1 ++ [nextWord window]) ks

def word (bytes : List UInt8) : UInt32 :=
  bytes.foldl (fun w b => w <<< 8 ||| b.toUInt32) 0

def bytes (w : UInt32) : List UInt8 :=
  [(w >>> 24).toUInt8, (w >>> 16).toUInt8, (w >>> 8).toUInt8, w.toUInt8]

def compress (s : State) (block : List UInt8) : State :=
  let words := (List.range 16).map fun i => word ((block.drop (4 * i)).take 4)
  let t := rounds s words constants
  ⟨s.a + t.a, s.b + t.b, s.c + t.c, s.d + t.d, s.e + t.e, s.f + t.f, s.g + t.g, s.h + t.h⟩

def padded (data : List UInt8) : List UInt8 :=
  let bits := 8 * data.length
  data ++ [0x80] ++ List.replicate ((119 - data.length % 64) % 64) 0 ++
    bytes (UInt32.ofNat (bits / 2 ^ 32)) ++ bytes (UInt32.ofNat bits)

def sha256 (data : List UInt8) : List UInt8 :=
  let message := padded data
  let blocks := (List.range (message.length / 64)).map fun i => (message.drop (64 * i)).take 64
  let s := blocks.foldl compress initial
  [s.a, s.b, s.c, s.d, s.e, s.f, s.g, s.h].flatMap bytes

theorem sha256_length (data : List UInt8) : (sha256 data).length = 32 := rfl

/-- The hash of the empty message. -/
example : sha256 [] =
    [0xe3, 0xb0, 0xc4, 0x42, 0x98, 0xfc, 0x1c, 0x14, 0x9a, 0xfb, 0xf4, 0xc8, 0x99, 0x6f, 0xb9, 0x24,
      0x27, 0xae, 0x41, 0xe4, 0x64, 0x9b, 0x93, 0x4c, 0xa4, 0x95, 0x99, 0x1b, 0x78, 0x52, 0xb8,
      0x55] := by
  decide +kernel

end Sha256
