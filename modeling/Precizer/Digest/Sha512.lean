import Precizer.General.ByteOrder
import Mathlib.Tactic.Common

/-! # The SHA-512 context

The context holds the chaining state, the number of bits already compressed and a
block buffer of which `curlen` bytes are in use. A damaged context is refused by the
length check before any of its bytes is read.
-/
namespace Precizer.Digest
open General

abbrev Sha512Digest := Vector UInt8 64

structure SHA512Context where
  length : UInt64
  state : Vector UInt64 8
  curlen : ℕ
  buf : Vector UInt8 128
  deriving DecidableEq

inductive SHA512Status where
  | cryptOk
  | cryptInvalidArg
  | cryptHashOverflow
  deriving DecidableEq

/-- The zero-filled context of a fresh per-file record. -/
def zeroContext : SHA512Context := ⟨0,Vector.replicate 8 0,0,Vector.replicate 128 0⟩

def roundConstants : Vector UInt64 80 :=
  ⟨#[0x428a2f98d728ae22,0x7137449123ef65cd,0xb5c0fbcfec4d3b2f,0xe9b5dba58189dbbc,
    0x3956c25bf348b538,0x59f111f1b605d019,0x923f82a4af194f9b,0xab1c5ed5da6d8118,
    0xd807aa98a3030242,0x12835b0145706fbe,0x243185be4ee4b28c,0x550c7dc3d5ffb4e2,
    0x72be5d74f27b896f,0x80deb1fe3b1696b1,0x9bdc06a725c71235,0xc19bf174cf692694,
    0xe49b69c19ef14ad2,0xefbe4786384f25e3,0x0fc19dc68b8cd5b5,0x240ca1cc77ac9c65,
    0x2de92c6f592b0275,0x4a7484aa6ea6e483,0x5cb0a9dcbd41fbd4,0x76f988da831153b5,
    0x983e5152ee66dfab,0xa831c66d2db43210,0xb00327c898fb213f,0xbf597fc7beef0ee4,
    0xc6e00bf33da88fc2,0xd5a79147930aa725,0x06ca6351e003826f,0x142929670a0e6e70,
    0x27b70a8546d22ffc,0x2e1b21385c26c926,0x4d2c6dfc5ac42aed,0x53380d139d95b3df,
    0x650a73548baf63de,0x766a0abb3c77b2a8,0x81c2c92e47edaee6,0x92722c851482353b,
    0xa2bfe8a14cf10364,0xa81a664bbc423001,0xc24b8b70d0f89791,0xc76c51a30654be30,
    0xd192e819d6ef5218,0xd69906245565a910,0xf40e35855771202a,0x106aa07032bbd1b8,
    0x19a4c116b8d2d0c8,0x1e376c085141ab53,0x2748774cdf8eeb99,0x34b0bcb5e19b48a8,
    0x391c0cb3c5c95a63,0x4ed8aa4ae3418acb,0x5b9cca4f7763e373,0x682e6ff3d6b2b8a3,
    0x748f82ee5defb2fc,0x78a5636f43172f60,0x84c87814a1f0ab72,0x8cc702081a6439ec,
    0x90befffa23631e28,0xa4506cebde82bde9,0xbef9a3f7b2c67915,0xc67178f2e372532b,
    0xca273eceea26619c,0xd186b8c721c0c207,0xeada7dd6cde0eb1e,0xf57d4f7fee6ed178,
    0x06f067aa72176fba,0x0a637dc5a2c898a6,0x113f9804bef90dae,0x1b710b35131c471b,
    0x28db77f523047d84,0x32caab7b40c72493,0x3c9ebe0a15c9bebc,0x431d67c49c100d4c,
    0x4cc5d4becb3e42b6,0x597f299cfc657e2a,0x5fcb6fab3ad6faec,0x6c44198c4a475817],by decide⟩

def rotateRight (x n : UInt64) : UInt64 := (x >>> n) ||| (x <<< (64 - n))

def choose (x y z : UInt64) : UInt64 := z ^^^ (x &&& (y ^^^ z))
def majority (x y z : UInt64) : UInt64 := ((x ||| y) &&& z) ||| (x &&& y)
def bigSigma0 (x : UInt64) : UInt64 := rotateRight x 28 ^^^ rotateRight x 34 ^^^ rotateRight x 39
def bigSigma1 (x : UInt64) : UInt64 := rotateRight x 14 ^^^ rotateRight x 18 ^^^ rotateRight x 41
def gamma0 (x : UInt64) : UInt64 := rotateRight x 1 ^^^ rotateRight x 8 ^^^ (x >>> 7)
def gamma1 (x : UInt64) : UInt64 := rotateRight x 19 ^^^ rotateRight x 61 ^^^ (x >>> 6)

/-- `LOAD64H` of the eight bytes at the given offset. -/
def load64H (block : List UInt8) (offset : ℕ) : UInt64 :=
  UInt64.ofNat (beValue ((block.drop offset).take 8))

/-- The first `count` message words, newest first. -/
def messageSchedule (block : List UInt8) : ℕ → List UInt64
  | 0 => []
  | i + 1 =>
    let w := messageSchedule block i
    let back (k : ℕ) : UInt64 := w.getD (k - 1) 0
    (if i < 16 then load64H block (8 * i)
      else gamma1 (back 2) + back 7 + gamma0 (back 15) + back 16) :: w

/-- One `RND` line. In round `i` the role `r` is played by the word at `r - i` modulo 8. -/
def rnd (w : Vector UInt64 80) (s : Vector UInt64 8) (i : Fin 80) : Vector UInt64 8 :=
  let role (r : ℕ) : Fin 8 := Fin.ofNat 8 (r + 80 - i.val)
  let t0 := s[role 7] + bigSigma1 s[role 4] + choose s[role 4] s[role 5] s[role 6]
    + roundConstants[i] + w[i]
  let t1 := bigSigma0 s[role 0] + majority s[role 0] s[role 1] s[role 2]
  (s.set (role 3) (s[role 3] + t0)).set (role 7) (t0 + t1)

def sha512Compress (state : Vector UInt64 8) (block : List UInt8) : Vector UInt64 8 :=
  let schedule := (messageSchedule block 80).reverse
  let w : Vector UInt64 80 := Vector.ofFn fun i => schedule.getD i 0
  let s := (List.finRange 80).foldl (rnd w) state
  state.zipWith (· + ·) s

def maxBitCount : ℕ := 0xffffffffffffffff

def sha512CheckAvailableBytes (md : SHA512Context) (inlen : ℕ) : SHA512Status :=
  if 128 ≤ md.curlen then .cryptInvalidArg
  else
    let available := (maxBitCount - md.length.toNat) / 8
    if available < md.curlen then .cryptHashOverflow
    else if available - md.curlen < inlen then .cryptHashOverflow
    else .cryptOk

def initialState : Vector UInt64 8 :=
  ⟨#[0x6a09e667f3bcc908,0xbb67ae8584caa73b,0x3c6ef372fe94f82b,0xa54ff53a5f1d36f1,
    0x510e527fade682d1,0x9b05688c2b3e6c1f,0x1f83d9abfb41bd6b,0x5be0cd19137e2179],by decide⟩

/-- Initialisation does not touch the buffer. -/
def sha512Init (md : SHA512Context) : SHA512Context :=
  { md with curlen := 0, length := 0, state := initialState }

/-- Copy the bytes into the buffer behind the `curlen` bytes already in use. -/
def fillBuffer (buf : Vector UInt8 128) (curlen : ℕ) (bytes : List UInt8) : Vector UInt8 128 :=
  Vector.ofFn fun i => if curlen ≤ i.val then bytes.getD (i.val - curlen) buf[i] else buf[i]

/-- The loop of `sha512_update`, entered only with `curlen` below the block size. -/
def updateLoop (md : SHA512Context) (h : md.curlen < 128) (input : List UInt8) : SHA512Context :=
  if hin : input = [] then md
  else if hblock : md.curlen = 0 ∧ 128 ≤ input.length then
    updateLoop { md with
        state := sha512Compress md.state (input.take 128)
        length := md.length + 1024 } h (input.drop 128)
  else
    let n := min input.length (128 - md.curlen)
    let buf := fillBuffer md.buf md.curlen (input.take n)
    if hfull : md.curlen + n = 128 then
      updateLoop { md with
          buf := buf
          state := sha512Compress md.state buf.toList
          length := md.length + 1024
          curlen := 0 } (Nat.zero_lt_succ 127) (input.drop n)
    else updateLoop { md with buf := buf, curlen := md.curlen + n } (by simp; omega) (input.drop n)
termination_by input.length
decreasing_by
  all_goals
    have hpos := List.length_pos_iff.mpr hin
    simp only [List.length_drop]
    omega

def sha512Update (md : SHA512Context) (input : List UInt8) : SHA512Status × SHA512Context :=
  match sha512CheckAvailableBytes md input.length with
  | .cryptOk => (.cryptOk,if h : md.curlen < 128 then updateLoop md h input else md)
  | status => (status,md)

/-- The bytes of the eight state words, each stored with its high byte first. -/
def storeState (state : Vector UInt64 8) : Sha512Digest :=
  Vector.ofFn fun i => (beBytes 8 (state.get ⟨i.val / 8,by omega⟩).toNat).getD (i.val % 8) 0

def sha512Final (md : SHA512Context) : SHA512Status × SHA512Context × Sha512Digest :=
  match sha512CheckAvailableBytes md 0 with
  | .cryptOk =>
    let length := md.length + UInt64.ofNat md.curlen * 8
    let buf := fillBuffer md.buf md.curlen [0x80]
    let curlen := md.curlen + 1
    let padded : Vector UInt64 8 × Vector UInt8 128 × ℕ :=
      if 112 < curlen then
        let buf := fillBuffer buf curlen (List.replicate (128 - curlen) 0)
        (sha512Compress md.state buf.toList,buf,0)
      else (md.state,buf,curlen)
    let buf := fillBuffer padded.2.1 padded.2.2 (List.replicate (120 - padded.2.2) 0)
    let buf := fillBuffer buf 120 (beBytes 8 length.toNat)
    let state := sha512Compress padded.1 buf.toList
    (.cryptOk,⟨length,state,120,buf⟩,storeState state)
  | status => (status,md,Vector.replicate 64 0)

end Precizer.Digest
