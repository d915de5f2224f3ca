import Mathlib.Data.List.Basic

/-! SHA-256 of a byte string, printed as `hexdigest()` prints it.  Words are
natural numbers below `2 ^ 32`. -/

namespace Sha256

def add32 (left right : Nat) : Nat := (left + right) % 4294967296

def rotr (count word : Nat) : Nat :=
  (word >>> count) ||| ((word <<< (32 - count)) % 4294967296)

def not32 (word : Nat) : Nat := 4294967295 - word

def smallSigma0 (word : Nat) : Nat := rotr 7 word ^^^ rotr 18 word ^^^ (word >>> 3)

def smallSigma1 (word : Nat) : Nat := rotr 17 word ^^^ rotr 19 word ^^^ (word >>> 10)

def bigSigma0 (word : Nat) : Nat := rotr 2 word ^^^ rotr 13 word ^^^ rotr 22 word

def bigSigma1 (word : Nat) : Nat := rotr 6 word ^^^ rotr 11 word ^^^ rotr 25 word

def choose (x y z : Nat) : Nat := (x &&& y) ^^^ (not32 x &&& z)

def majority (x y z : Nat) : Nat := (x &&& y) ^^^ (x &&& z) ^^^ (y &&& z)

structure Registers where
  a : Nat
  b : Nat
  c : Nat
  d : Nat
  e : Nat
  f : Nat
  g : Nat
  h : Nat

def initial : Registers where
  a := 0x6a09e667
  b := 0xbb67ae85
  c := 0x3c6ef372
  d := 0xa54ff53a
  e := 0x510e527f
  f := 0x9b05688c
  g := 0x1f83d9ab
  h := 0x5be0cd19

def roundConstants : List Nat := [
  0x428a2f98, 0x71374491, 0xb5c0fbcf, 0xe9b5dba5, 0x3956c25b, 0x59f111f1, 0x923f82a4, 0xab1c5ed5,
  0xd807aa98, 0x12835b01, 0x243185be, 0x550c7dc3, 0x72be5d74, 0x80deb1fe, 0x9bdc06a7, 0xc19bf174,
  0xe49b69c1, 0xefbe4786, 0x0fc19dc6, 0x240ca1cc, 0x2de92c6f, 0x4a7484aa, 0x5cb0a9dc, 0x76f988da,
  0x983e5152, 0xa831c66d, 0xb00327c8, 0xbf597fc7, 0xc6e00bf3, 0xd5a79147, 0x06ca6351, 0x14292967,
  0x27b70a85, 0x2e1b2138, 0x4d2c6dfc, 0x53380d13, 0x650a7354, 0x766a0abb, 0x81c2c92e, 0x92722c85,
  0xa2bfe8a1, 0xa81a664b, 0xc24b8b70, 0xc76c51a3, 0xd192e819, 0xd6990624, 0xf40e3585, 0x106aa070,
  0x19a4c116, 0x1e376c08, 0x2748774c, 0x34b0bcb5, 0x391c0cb3, 0x4ed8aa4a, 0x5b9cca4f, 0x682e6ff3,
  0x748f82ee, 0x78a5636f, 0x84c87814, 0x8cc70208, 0x90befffa, 0xa4506ceb, 0xbef9a3f7, 0xc67178f2]

def round (state : Registers) (constant word : Nat) : Registers :=
  let first := add32 (add32 (add32 (add32 state.h (bigSigma1 state.e))
    (choose state.e state.f state.g)) constant) word
  let second := add32 (bigSigma0 state.a) (majority state.a state.b state.c)
  { a := add32 first second
    b := state.a
    c := state.b
    d := state.c
    e := add32 state.d first
    f := state.e
    g := state.f
    h := state.g }

def scheduleWord (window : List Nat) : Nat :=
  add32 (add32 (add32 (smallSigma1 (window.getD 14 0)) (window.getD 9 0))
    (smallSigma0 (window.getD 1 0))) (window.getD 0 0)

def rounds : List Nat → List Nat → Registers → Registers
  | [], _, state => state
  | constant :: constants, window, state =>
      rounds constants (window.tail ++ [scheduleWord window])
        (round state constant (window.headD 0))

def compress (state : Registers) (block : List Nat) : Registers :=
  let last := rounds roundConstants block state
  { a := add32 state.a last.a
    b := add32 state.b last.b
    c := add32 state.c last.c
    d := add32 state.d last.d
    e := add32 state.e last.e
    f := add32 state.f last.f
    g := add32 state.g last.g
    h := add32 state.h last.h }

/-- A one bit, zeros up to eight bytes short of a block, and the bit length. -/
def pad (message : List UInt8) : List UInt8 :=
  message ++ [(0x80 : UInt8)] ++
    List.replicate ((119 - message.length % 64) % 64) (0 : UInt8) ++
    (List.range 8).map fun index =>
      UInt8.ofNat ((message.length * 8) >>> (8 * (7 - index)))

def words : List UInt8 → List Nat
  | first :: second :: third :: fourth :: rest =>
      (first.toNat * 16777216 + second.toNat * 65536 + third.toNat * 256 +
        fourth.toNat) :: words rest
  | _ => []

def compressBlocks : Nat → List Nat → Registers → Registers
  | 0, _, state => state
  | count + 1, words, state =>
      compressBlocks count (words.drop 16) (compress state (words.take 16))

def digest (message : List UInt8) : List Nat :=
  let padded := words (pad message)
  let last := compressBlocks (padded.length / 16) padded initial
  [last.a, last.b, last.c, last.d, last.e, last.f, last.g, last.h]

def hexWord (word : Nat) : List Char :=
  (List.range 8).map fun index => Nat.digitChar ((word >>> (4 * (7 - index))) % 16)

def hexdigest (message : List UInt8) : String :=
  String.ofList ((digest message).flatMap hexWord)

theorem length_hexdigest (message : List UInt8) :
    (hexdigest message).toList.length = 64 := by
  simp [hexdigest, digest, hexWord]

example : hexdigest [97, 98, 99] =
    "ba7816bf8f01cfea414140de5dae2223b00361a396177a9cb410ff61f20015ad" := by
  decide +kernel

end Sha256
