import StorybookStorage.Python.Str

/-!
# SHA-256

The hash function of FIPS 180-4 on lists of octets, with hexadecimal digests,
and HMAC over it.  Words are natural numbers of 32 bits.
-/

namespace Python

namespace Sha256

def word (n : Nat) : Nat := n % 0x100000000

def rotr (x n : Nat) : Nat := (x >>> n) ||| word (x <<< (32 - n))

def pad (b : Bytes) : Bytes :=
  let size : Bytes := (List.range 8).reverse.map
    fun i => UInt8.ofNat ((8 * b.length) >>> (8 * i))
  b ++ 0x80 :: List.replicate ((55 + 63 * b.length) % 64) 0 ++ size

def blockWords : Bytes -> List Nat
  | a :: b :: c :: d :: rest =>
      (a.toNat * 0x1000000 + b.toNat * 0x10000 + c.toNat * 0x100 + d.toNat) ::
        blockWords rest
  | _ => []

def extend : Nat -> List Nat -> List Nat
  | 0, w => w
  | n + 1, w =>
      let x := w.getD 14 0
      let y := w.getD 1 0
      let s0 := rotr x 7 ^^^ rotr x 18 ^^^ (x >>> 3)
      let s1 := rotr y 17 ^^^ rotr y 19 ^^^ (y >>> 10)
      extend n (word (w.getD 15 0 + s0 + w.getD 6 0 + s1) :: w)

def roundConstants : List Nat :=
  [0x428a2f98, 0x71374491, 0xb5c0fbcf, 0xe9b5dba5, 0x3956c25b, 0x59f111f1,
    0x923f82a4, 0xab1c5ed5, 0xd807aa98, 0x12835b01, 0x243185be, 0x550c7dc3,
    0x72be5d74, 0x80deb1fe, 0x9bdc06a7, 0xc19bf174, 0xe49b69c1, 0xefbe4786,
    0x0fc19dc6, 0x240ca1cc, 0x2de92c6f, 0x4a7484aa, 0x5cb0a9dc, 0x76f988da,
    0x983e5152, 0xa831c66d, 0xb00327c8, 0xbf597fc7, 0xc6e00bf3, 0xd5a79147,
    0x06ca6351, 0x14292967, 0x27b70a85, 0x2e1b2138, 0x4d2c6dfc, 0x53380d13,
    0x650a7354, 0x766a0abb, 0x81c2c92e, 0x92722c85, 0xa2bfe8a1, 0xa81a664b,
    0xc24b8b70, 0xc76c51a3, 0xd192e819, 0xd6990624, 0xf40e3585, 0x106aa070,
    0x19a4c116, 0x1e376c08, 0x2748774c, 0x34b0bcb5, 0x391c0cb3, 0x4ed8aa4a,
    0x5b9cca4f, 0x682e6ff3, 0x748f82ee, 0x78a5636f, 0x84c87814, 0x8cc70208,
    0x90befffa, 0xa4506ceb, 0xbef9a3f7, 0xc67178f2]

structure State where
  a : Nat
  b : Nat
  c : Nat
  d : Nat
  e : Nat
  f : Nat
  g : Nat
  h : Nat

def State.initial : State where
  a := 0x6a09e667
  b := 0xbb67ae85
  c := 0x3c6ef372
  d := 0xa54ff53a
  e := 0x510e527f
  f := 0x9b05688c
  g := 0x1f83d9ab
  h := 0x5be0cd19

def State.round (s : State) (kw : Nat × Nat) : State :=
  let s1 := rotr s.e 6 ^^^ rotr s.e 11 ^^^ rotr s.e 25
  let ch := (s.e &&& s.f) ^^^ ((0xffffffff - s.e) &&& s.g)
  let t1 := s.h + s1 + ch + kw.1 + kw.2
  let s0 := rotr s.a 2 ^^^ rotr s.a 13 ^^^ rotr s.a 22
  let maj := (s.a &&& s.b) ^^^ (s.a &&& s.c) ^^^ (s.b &&& s.c)
  { a := word (t1 + s0 + maj)
    b := s.a
    c := s.b
    d := s.c
    e := word (s.d + t1)
    f := s.e
    g := s.f
    h := s.g }

def State.compress (s : State) (block : List Nat) : State :=
  let t := (roundConstants.zip (extend 48 block.reverse).reverse).foldl
    State.round s
  { a := word (s.a + t.a)
    b := word (s.b + t.b)
    c := word (s.c + t.c)
    d := word (s.d + t.d)
    e := word (s.e + t.e)
    f := word (s.f + t.f)
    g := word (s.g + t.g)
    h := word (s.h + t.h) }

/-- Compress the blocks of sixteen words; the fuel is the number of words. -/
def absorb : Nat -> State -> List Nat -> State
  | 0, s, _ => s
  | n + 1, s, ws =>
      if ws = [] then s else absorb n (s.compress (ws.take 16)) (ws.drop 16)

def State.words (s : State) : List Nat :=
  [s.a, s.b, s.c, s.d, s.e, s.f, s.g, s.h]

def digestWords (b : Bytes) : List Nat :=
  let ws := blockWords (pad b)
  (absorb ws.length State.initial ws).words

def hexWord (w : Nat) : Text :=
  (List.range 8).reverse.map fun i => Nat.digitChar ((w >>> (4 * i)) % 16)

def hexdigest (b : Bytes) : Text := (digestWords b).flatMap hexWord

def wordBytes (w : Nat) : Bytes :=
  (List.range 4).reverse.map fun i => UInt8.ofNat (w >>> (8 * i))

def digest (b : Bytes) : Bytes := (digestWords b).flatMap wordBytes

theorem length_hexdigest (b : Bytes) : (hexdigest b).length = 64 := by
  simp [hexdigest, digestWords, State.words, hexWord]

theorem digitChar_hex :
    forall n, n < 16 -> Nat.digitChar n ∈ text "0123456789abcdef" := by
  decide

theorem hexdigest_hex (b : Bytes) {c : Char} (h : c ∈ hexdigest b) :
    c ∈ text "0123456789abcdef" := by
  unfold hexdigest at h
  rcases List.mem_flatMap.mp h with ⟨w, _, hc⟩
  rcases List.mem_map.mp hc with ⟨i, _, rfl⟩
  exact digitChar_hex _ (Nat.mod_lt _ (by decide))

def hmac (key message : Bytes) : Text :=
  let short := if 64 < key.length then digest key else key
  let block := short ++ List.replicate (64 - short.length) 0
  hexdigest
    (block.map (fun x => x ^^^ 0x5c) ++
      digest (block.map (fun x => x ^^^ 0x36) ++ message))

end Sha256

end Python
