import SyntheticRows.Text.Quoted

/-!
# SHA-1

The secure hash of FIPS 180-4 on a byte sequence.
-/
namespace SyntheticRows.Text.Sha1

structure Digest where
  a : UInt32
  b : UInt32
  c : UInt32
  d : UInt32
  e : UInt32
  deriving DecidableEq, Repr

def initial : Digest := ⟨0x67452301, 0xEFCDAB89, 0x98BADCFE, 0x10325476, 0xC3D2E1F0⟩

def rotateLeft (x : UInt32) (n : UInt32) : UInt32 := (x <<< n) ||| (x >>> (32 - n))

/-- `n` as big-endian bytes. -/
def bigEndian (width n : Nat) : List UInt8 :=
  (List.range width).reverse.map fun i => UInt8.ofNat (n >>> (8 * i))

/-- The message, a bit 1, zeros up to 56 modulo 64 bytes, and the length in bits. -/
def padMessage (bytes : List UInt8) : List UInt8 :=
  let zeros := (119 - bytes.length % 64) % 64
  bytes ++ 0x80 :: List.replicate zeros 0 ++ bigEndian 8 (8 * bytes.length)

def word (bytes : List UInt8) : UInt32 :=
  bytes.foldl (fun w b => (w <<< 8) ||| b.toUInt32) 0

def blocks (bytes : List UInt8) : List (List UInt8) :=
  go bytes (bytes.length / 64)
where
  go (rest : List UInt8) : Nat → List (List UInt8)
    | 0 => []
    | n + 1 => rest.take 64 :: go (rest.drop 64) n

/-- The 80 words of a block's schedule. -/
def schedule (block : List UInt8) : Array UInt32 :=
  let first := ((List.range 16).map fun i => word ((block.drop (4 * i)).take 4)).toArray
  (List.range 64).foldl (fun w i =>
    let at_ (k : Nat) : UInt32 := w.getD k 0
    w.push (rotateLeft (at_ (i + 13) ^^^ at_ (i + 8) ^^^ at_ (i + 2) ^^^ at_ i) 1)) first

def round (s : Digest) (i : Nat) (w : UInt32) : Digest :=
  let (f, k) : UInt32 × UInt32 :=
    if i < 20 then ((s.b &&& s.c) ||| ((~~~ s.b) &&& s.d), 0x5A827999)
    else if i < 40 then (s.b ^^^ s.c ^^^ s.d, 0x6ED9EBA1)
    else if i < 60 then ((s.b &&& s.c) ||| (s.b &&& s.d) ||| (s.c &&& s.d), 0x8F1BBCDC)
    else (s.b ^^^ s.c ^^^ s.d, 0xCA62C1D6)
  ⟨rotateLeft s.a 5 + f + s.e + k + w, s.a, rotateLeft s.b 30, s.c, s.d⟩

def compress (h : Digest) (block : List UInt8) : Digest :=
  let w := schedule block
  let s := (List.range 80).foldl (fun s i => round s i (w.getD i 0)) h
  ⟨h.a + s.a, h.b + s.b, h.c + s.c, h.d + s.d, h.e + s.e⟩

def digest (bytes : List UInt8) : Digest :=
  (blocks (padMessage bytes)).foldl compress initial

/-- The digest in forty hexadecimal digits. -/
def hexDigest (bytes : List UInt8) : String :=
  let h := digest bytes
  String.ofList ([h.a, h.b, h.c, h.d, h.e].flatMap fun w => hexDigits 8 w.toNat)

end SyntheticRows.Text.Sha1
