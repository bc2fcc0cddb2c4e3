import Mathlib.Data.Vector.Basic
import GentooxLoader.Lib.Strings

/-!
# Digests (lib/crypt/sha1.c, lib/crypt/md5.c)

Both go over the message in blocks of 64 bytes, behind it the byte 0x80, zeros
and its length in bits.  The functions that use them only rely on the lengths of
the results, so they take the two as a `Digests`.
-/

namespace Gentoox.Lib

/-- The `u32` as four bytes, low byte first. -/
def le32 (x : UInt32) : List UInt8 :=
  [x.toUInt8, (x >>> 8).toUInt8, (x >>> 16).toUInt8, (x >>> 24).toUInt8]

/-- High byte first. -/
def be32 (x : UInt32) : List UInt8 :=
  [(x >>> 24).toUInt8, (x >>> 16).toUInt8, (x >>> 8).toUInt8, x.toUInt8]

structure Digests where
  sha1 : List UInt8 → List.Vector UInt8 20
  md5 : List UInt8 → List.Vector UInt8 16

/-! ## Algorithm -/

def circularShift (bits word : UInt32) : UInt32 := word <<< bits ||| word >>> (32 - bits)

/-- The words of a block, by the order of the bytes in a word. -/
def blockWords (word : UInt8 → UInt8 → UInt8 → UInt8 → UInt32) : List UInt8 → List UInt32
  | a :: b :: c :: d :: rest => word a b c d :: blockWords word rest
  | _ => []

def beWord (a b c d : UInt8) : UInt32 :=
  a.toUInt32 <<< 24 ||| b.toUInt32 <<< 16 ||| c.toUInt32 <<< 8 ||| d.toUInt32

def leWord (a b c d : UInt8) : UInt32 := beWord d c b a

/-- The message with what is behind it; `bits` are the eight bytes of its length. -/
def padMessage (message bits : List UInt8) : List UInt8 :=
  message ++ 0x80 :: List.replicate ((119 - message.length % 64) % 64) 0 ++ bits

/-- The blocks of a padded message, one after the other. -/
def overBlocks {σ : Type} (block : σ → List UInt8 → σ) : Nat → σ → List UInt8 → σ
  | 0, s, _ => s
  | n + 1, s, message => overBlocks block n (block s (message.take 64)) (message.drop 64)

structure SHA1State where
  a : UInt32
  b : UInt32
  c : UInt32
  d : UInt32
  e : UInt32

/-- `n` more words, the newest first. -/
def sha1Words : Nat → List UInt32 → List UInt32
  | 0, w => w
  | n + 1, w =>
    sha1Words n (circularShift 1 (w.getD 2 0 ^^^ w.getD 7 0 ^^^ w.getD 13 0 ^^^ w.getD 15 0) :: w)

/-- The function and the constant of round `t`. -/
def sha1Round (t : Nat) (b c d : UInt32) : UInt32 :=
  if t < 20 then ((b &&& c) ||| (~~~b &&& d)) + 0x5A827999
  else if t < 40 then (b ^^^ c ^^^ d) + 0x6ED9EBA1
  else if t < 60 then ((b &&& c) ||| (b &&& d) ||| (c &&& d)) + 0x8F1BBCDC
  else (b ^^^ c ^^^ d) + 0xCA62C1D6

def sha1Rounds : Nat → List UInt32 → SHA1State → SHA1State
  | _, [], s => s
  | t, w :: ws, s =>
    sha1Rounds (t + 1) ws
      ⟨circularShift 5 s.a + sha1Round t s.b s.c s.d + s.e + w, s.a, circularShift 30 s.b, s.c, s.d⟩

def sha1ProcessMessageBlock (s : SHA1State) (block : List UInt8) : SHA1State :=
  let r := sha1Rounds 0 (sha1Words 64 (blockWords beWord block).reverse).reverse s
  ⟨s.a + r.a, s.b + r.b, s.c + r.c, s.d + r.d, s.e + r.e⟩

def sha1 (message : List UInt8) : List.Vector UInt8 20 :=
  let bits := message.length * 8
  let padded := padMessage message (be32 (UInt32.ofNat (bits / 2 ^ 32)) ++ be32 (UInt32.ofNat bits))
  let s := overBlocks sha1ProcessMessageBlock (padded.length / 64)
    ⟨0x67452301, 0xEFCDAB89, 0x98BADCFE, 0x10325476, 0xC3D2E1F0⟩ padded
  ⟨be32 s.a ++ be32 s.b ++ be32 s.c ++ be32 s.d ++ be32 s.e, rfl⟩

structure MD5State where
  a : UInt32
  b : UInt32
  c : UInt32
  d : UInt32

/-- `FF`, `GG`, `HH` and `II` with their place in the block, shift and constant;
the four variables change their roles from one step to the next. -/
def md5Steps (f : UInt32 → UInt32 → UInt32 → UInt32) (x : List UInt32)
    (steps : List (Nat × UInt32 × UInt32)) (s : MD5State) : MD5State :=
  steps.foldl (fun s (k, shift, ac) =>
    ⟨s.d, circularShift shift (s.a + (f s.b s.c s.d + x.getD k 0 + ac)) + s.b, s.b, s.c⟩) s

def md5Round1 : List (Nat × UInt32 × UInt32) :=
  [(0, 7, 0xd76aa478), (1, 12, 0xe8c7b756), (2, 17, 0x242070db), (3, 22, 0xc1bdceee),
    (4, 7, 0xf57c0faf), (5, 12, 0x4787c62a), (6, 17, 0xa8304613), (7, 22, 0xfd469501),
    (8, 7, 0x698098d8), (9, 12, 0x8b44f7af), (10, 17, 0xffff5bb1), (11, 22, 0x895cd7be),
    (12, 7, 0x6b901122), (13, 12, 0xfd987193), (14, 17, 0xa679438e), (15, 22, 0x49b40821)]

def md5Round2 : List (Nat × UInt32 × UInt32) :=
  [(1, 5, 0xf61e2562), (6, 9, 0xc040b340), (11, 14, 0x265e5a51), (0, 20, 0xe9b6c7aa),
    (5, 5, 0xd62f105d), (10, 9, 0x2441453), (15, 14, 0xd8a1e681), (4, 20, 0xe7d3fbc8),
    (9, 5, 0x21e1cde6), (14, 9, 0xc33707d6), (3, 14, 0xf4d50d87), (8, 20, 0x455a14ed),
    (13, 5, 0xa9e3e905), (2, 9, 0xfcefa3f8), (7, 14, 0x676f02d9), (12, 20, 0x8d2a4c8a)]

def md5Round3 : List (Nat × UInt32 × UInt32) :=
  [(5, 4, 0xfffa3942), (8, 11, 0x8771f681), (11, 16, 0x6d9d6122), (14, 23, 0xfde5380c),
    (1, 4, 0xa4beea44), (4, 11, 0x4bdecfa9), (7, 16, 0xf6bb4b60), (10, 23, 0xbebfbc70),
    (13, 4, 0x289b7ec6), (0, 11, 0xeaa127fa), (3, 16, 0xd4ef3085), (6, 23, 0x4881d05),
    (9, 4, 0xd9d4d039), (12, 11, 0xe6db99e5), (15, 16, 0x1fa27cf8), (2, 23, 0xc4ac5665)]

def md5Round4 : List (Nat × UInt32 × UInt32) :=
  [(0, 6, 0xf4292244), (7, 10, 0x432aff97), (14, 15, 0xab9423a7), (5, 21, 0xfc93a039),
    (12, 6, 0x655b59c3), (3, 10, 0x8f0ccc92), (10, 15, 0xffeff47d), (1, 21, 0x85845dd1),
    (8, 6, 0x6fa87e4f), (15, 10, 0xfe2ce6e0), (6, 15, 0xa3014314), (13, 21, 0x4e0811a1),
    (4, 6, 0xf7537e82), (11, 10, 0xbd3af235), (2, 15, 0x2ad7d2bb), (9, 21, 0xeb86d391)]

def md5Transform (s : MD5State) (block : List UInt8) : MD5State :=
  let x := blockWords leWord block
  let r := md5Steps (fun x y z => (x &&& y) ||| (~~~x &&& z)) x md5Round1 s
  let r := md5Steps (fun x y z => (x &&& z) ||| (y &&& ~~~z)) x md5Round2 r
  let r := md5Steps (fun x y z => x ^^^ y ^^^ z) x md5Round3 r
  let r := md5Steps (fun x y z => y ^^^ (x ||| ~~~z)) x md5Round4 r
  ⟨s.a + r.a, s.b + r.b, s.c + r.c, s.d + r.d⟩

/-- With the words of 32 bits that `UINT4` has where `long` has 32. -/
def md5 (message : List UInt8) : List.Vector UInt8 16 :=
  let bits := message.length * 8
  let padded := padMessage message (le32 (UInt32.ofNat bits) ++ le32 (UInt32.ofNat (bits / 2 ^ 32)))
  let s := overBlocks md5Transform (padded.length / 64)
    ⟨0x67452301, 0xefcdab89, 0x98badcfe, 0x10325476⟩ padded
  ⟨le32 s.a ++ le32 s.b ++ le32 s.c ++ le32 s.d, rfl⟩

def digests : Digests := ⟨sha1, md5⟩

example : ((sha1 (chars "abc".toList)).toList.take 4, (md5 []).toList.take 4) =
    ([0xa9, 0x99, 0x3e, 0x36], [0xd4, 0x1d, 0x8c, 0xd9]) := by
  decide +kernel

/-! ## Words in memory -/

/-- The four bytes back as a word. -/
theorem longAt_of_read {m : Nat → UInt8} {a : Nat} {x : UInt32} (h : Cells.read m a 4 = le32 x) :
    longAt m a = x := by
  have hx := x.toNat_lt
  have hbytes : m a = x.toUInt8 ∧ m (a + 1) = (x >>> 8).toUInt8 ∧ m (a + 2) = (x >>> 16).toUInt8 ∧
      m (a + 3) = (x >>> 24).toUInt8 := by
    simpa [Cells.read, le32, List.range_succ] using h
  obtain ⟨h0, h1, h2, h3⟩ := hbytes
  unfold longAt
  rw [h0, h1, h2, h3]
  apply UInt32.toNat_inj.1
  simp only [UInt32.toNat_add, UInt32.toNat_mul, UInt8.toNat_toUInt32, UInt32.toNat_toUInt8,
    UInt32.toNat_shiftRight, Nat.shiftRight_eq_div_pow]
  show (((x.toNat % 2 ^ 8 + x.toNat / 2 ^ 8 % 2 ^ 8 * 2 ^ 8 % 2 ^ 32) % 2 ^ 32 +
    x.toNat / 2 ^ 16 % 2 ^ 8 * 2 ^ 16 % 2 ^ 32) % 2 ^ 32 +
    x.toNat / 2 ^ 24 % 2 ^ 8 * 2 ^ 24 % 2 ^ 32) % 2 ^ 32 = x.toNat
  omega

theorem length_le32 (x : UInt32) : (le32 x).length = 4 := rfl

theorem longAt_write (m : Nat → UInt8) (a : Nat) (x : UInt32) :
    longAt (Cells.write m a (le32 x)) a = x :=
  longAt_of_read (Cells.read_write_of_length rfl)

theorem longAt_write_of_outside (m : Nat → UInt8) {a b : Nat} {l : List UInt8}
    (h : a + 4 ≤ b ∨ b + l.length ≤ a) : longAt (Cells.write m b l) a = longAt m a :=
  longAt_congr fun i hi => Cells.write_of_outside _ _ _ _ (by omega)

end Gentoox.Lib
