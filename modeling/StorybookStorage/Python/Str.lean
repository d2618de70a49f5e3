import Mathlib.Data.List.DropRight

/-!
# Python texts and bytes

A `str` is a list of characters and a `bytes` a list of octets.  The operations
here follow the methods of the same names.
-/

namespace Python

abbrev Text := List Char

abbrev Bytes := List UInt8

def text (s : String) : Text := s.toList

def startsWith (t pre : Text) : Bool := pre.isPrefixOf t

theorem startsWith_iff {t pre : Text} :
    startsWith t pre = true <-> pre <+: t := by
  simp [startsWith]

def encode (t : Text) : Bytes := t.flatMap String.utf8EncodeChar

/-- `bytes.decode()`, or nothing where Python raises `UnicodeDecodeError`. -/
def decode (b : Bytes) : Option Text :=
  b.toByteArray.utf8Decode?.map Array.toList

theorem decode_encode (t : Text) : decode (encode t) = some t := by
  have hbytes : (encode t).toByteArray = t.utf8Encode := rfl
  unfold decode
  rw [hbytes, List.utf8Decode?_utf8Encode]
  rfl

theorem encode_injective {t u : Text} (h : encode t = encode u) : t = u := by
  have hdecode := decode_encode t
  rw [h, decode_encode] at hdecode
  exact (Option.some.inj hdecode).symm

theorem length_encode {t : Text} (h : forall c, c ∈ t -> c.toNat < 128) :
    (encode t).length = t.length := by
  induction t with
  | nil => rfl
  | cons c rest ih =>
      have hc : c.utf8Size = 1 := by
        have hcode := h c List.mem_cons_self
        rw [Char.utf8Size_eq_one_iff, UInt32.le_iff_toNat_le]
        exact Nat.le_of_lt_succ hcode
      have hrest : (encode rest).length = rest.length :=
        ih fun x hx => h x (List.mem_cons_of_mem c hx)
      unfold encode at hrest ⊢
      rw [List.flatMap_cons, String.utf8EncodeChar_eq_singleton hc,
        List.singleton_append, List.length_cons, List.length_cons, hrest]

/-- The characters `str.strip()` removes. -/
def isSpace (c : Char) : Bool :=
  let n := c.toNat
  (9 ≤ n && n ≤ 13) || (28 ≤ n && n ≤ 32) || n == 0x85 || n == 0xa0 ||
    n == 0x1680 || (0x2000 ≤ n && n ≤ 0x200a) || n == 0x2028 || n == 0x2029 ||
    n == 0x202f || n == 0x205f || n == 0x3000

def strip (t : Text) : Text := (t.dropWhile isSpace).rdropWhile isSpace

/-- `t.split(sep, 1)[0]`. -/
def beforeFirst (sep : Char) (t : Text) : Text :=
  t.takeWhile (fun c => decide (c ≠ sep))

/-- `t.rsplit(sep, 1)[1]`, where `sep` occurs. -/
def afterLast (sep : Char) (t : Text) : Text :=
  t.rtakeWhile (fun c => decide (c ≠ sep))

/-- What `$` leaves of a subject: it also matches before a final newline. -/
def dollarBody (t : Text) : Text :=
  if t.getLast? = some '\n' then t.dropLast else t

def intRepr (n : Int) : Text :=
  if n < 0 then '-' :: Nat.toDigits 10 n.natAbs else Nat.toDigits 10 n.natAbs

/-- `t.rstrip(c)`. -/
def rstripChar (sep : Char) (t : Text) : Text :=
  t.rdropWhile (fun c => decide (c = sep))

def isLowerOrDigit (c : Char) : Bool :=
  ('a' ≤ c && c ≤ 'z') || ('0' ≤ c && c ≤ '9')

def isAlnumAscii (c : Char) : Bool :=
  ('A' ≤ c && c ≤ 'Z') || isLowerOrDigit c

end Python
