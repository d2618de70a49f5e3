import StorybookStorage.Python.Str

/-!
# Percent-encoding

`urllib.parse.quote` and the standard decoding of a URL path.  What the one
writes the other reads back, for every text.
-/

namespace Python

/-- The octets `quote` leaves alone, with its default safe slash. -/
def quoteSafe (b : UInt8) : Bool :=
  isAlnumAscii (Char.ofNat b.toNat) || b == 0x5f || b == 0x2e || b == 0x2d ||
    b == 0x7e || b == 0x2f

def hexUpper (n : Nat) : Char := (Nat.digitChar n).toUpper

def quoteByte (b : UInt8) : Text :=
  if quoteSafe b then
    [Char.ofNat b.toNat]
  else
    ['%', hexUpper (b.toNat / 16), hexUpper (b.toNat % 16)]

def quote (t : Text) : Text := (encode t).flatMap quoteByte

def hexValue (c : Char) : Option Nat :=
  let n := c.toNat
  if 48 ≤ n ∧ n ≤ 57 then
    some (n - 48)
  else if 65 ≤ n ∧ n ≤ 70 then
    some (n - 55)
  else if 97 ≤ n ∧ n ≤ 102 then
    some (n - 87)
  else
    none

def hexPair : Text -> Option UInt8
  | a :: b :: _ =>
      match hexValue a, hexValue b with
      | some x, some y => some (UInt8.ofNat (16 * x + y))
      | _, _ => none
  | _ => none

/-- Decode a text after skipping the digits already read. -/
def unquoteFrom : Nat -> Text -> Bytes
  | _, [] => []
  | skip + 1, _ :: rest => unquoteFrom skip rest
  | 0, c :: rest =>
      if c = '%' then
        match hexPair rest with
        | some b => b :: unquoteFrom 2 rest
        | none => 0x25 :: unquoteFrom 0 rest
      else
        String.utf8EncodeChar c ++ unquoteFrom 0 rest

/-- The octets a percent-encoded text stands for.  A percent sign without two
digits after it stands for itself. -/
def unquoteBytes (t : Text) : Bytes := unquoteFrom 0 t

/-- The decoded text, or nothing where the octets are not UTF-8. -/
def unquote (t : Text) : Option Text := decode (unquoteBytes t)

theorem unquoteBytes_cons {c : Char} (h : c ≠ '%') (rest : Text) :
    unquoteBytes (c :: rest) = String.utf8EncodeChar c ++ unquoteBytes rest := by
  unfold unquoteBytes
  rw [unquoteFrom, if_neg h]

theorem unquoteBytes_escape {a b : Char} {x y : Nat} (ha : hexValue a = some x)
    (hb : hexValue b = some y) (rest : Text) :
    unquoteBytes ('%' :: a :: b :: rest) =
      UInt8.ofNat (16 * x + y) :: unquoteBytes rest := by
  have hpair : hexPair (a :: b :: rest) = some (UInt8.ofNat (16 * x + y)) := by
    simp only [hexPair, ha, hb]
  unfold unquoteBytes
  rw [unquoteFrom, if_pos rfl, hpair]
  rfl

theorem unquoteBytes_append {t : Text} (h : '%' ∉ t) (rest : Text) :
    unquoteBytes (t ++ rest) = encode t ++ unquoteBytes rest := by
  induction t with
  | nil => rfl
  | cons c more ih =>
      have hc : c ≠ '%' := by
        intro heq
        exact h (by simp [heq])
      have hmore : '%' ∉ more := by
        intro hmem
        exact h (List.mem_cons_of_mem c hmem)
      rw [List.cons_append, unquoteBytes_cons hc, ih hmore, ← List.append_assoc]
      rfl

theorem hexValue_hexUpper :
    forall n, n < 16 -> hexValue (hexUpper n) = some n := by
  decide

theorem quoteSafe_char :
    forall n, n < 256 -> quoteSafe (UInt8.ofNat n) = true ->
      Char.ofNat n ≠ '%' ∧
        String.utf8EncodeChar (Char.ofNat n) = [UInt8.ofNat n] := by
  decide +kernel

theorem unquoteBytes_quoteByte (b : UInt8) (rest : Text) :
    unquoteBytes (quoteByte b ++ rest) = b :: unquoteBytes rest := by
  have hsize : b.toNat < 256 := b.toNat_lt
  have hofNat : UInt8.ofNat b.toNat = b := UInt8.ofNat_toNat
  unfold quoteByte
  split
  · rename_i hsafe
    rw [← hofNat] at hsafe
    rcases quoteSafe_char b.toNat hsize hsafe with ⟨hpercent, hutf8⟩
    rw [List.singleton_append, unquoteBytes_cons hpercent, hutf8, hofNat]
    rfl
  · have hhigh := hexValue_hexUpper (b.toNat / 16) (by omega)
    have hlow := hexValue_hexUpper (b.toNat % 16) (by omega)
    show unquoteBytes ('%' :: hexUpper (b.toNat / 16) ::
      hexUpper (b.toNat % 16) :: rest) = _
    rw [unquoteBytes_escape hhigh hlow, Nat.div_add_mod, hofNat]

theorem unquoteBytes_flatMap (b : Bytes) (rest : Text) :
    unquoteBytes (b.flatMap quoteByte ++ rest) = b ++ unquoteBytes rest := by
  induction b with
  | nil => rfl
  | cons x more ih =>
      rw [List.flatMap_cons, List.append_assoc, unquoteBytes_quoteByte, ih]
      rfl

theorem unquoteBytes_quote (t rest : Text) :
    unquoteBytes (quote t ++ rest) = encode t ++ unquoteBytes rest :=
  unquoteBytes_flatMap (encode t) rest

theorem encode_append (a b : Text) : encode (a ++ b) = encode a ++ encode b :=
  List.flatMap_append

/-- An unescaped beginning and a quoted rest decode to both together. -/
theorem unquote_append_quote {before : Text} (h : '%' ∉ before) (t : Text) :
    unquote (before ++ quote t) = some (before ++ t) := by
  have hbytes : unquoteBytes (before ++ quote t) = encode (before ++ t) := by
    have hquote := unquoteBytes_quote t []
    rw [List.append_nil] at hquote
    rw [unquoteBytes_append h, hquote, encode_append]
    exact congrArg (encode before ++ ·) (List.append_nil (encode t))
  unfold unquote
  rw [hbytes, decode_encode]

/-!
## What quoting writes
-/

theorem quoteByte_checked :
    ((List.range 256).all fun n =>
      (quoteByte (UInt8.ofNat n)).all fun c =>
        decide (c ≠ '?' ∧ c ≠ '&' ∧ c ≠ '=' ∧ c ≠ '#')) = true := by
  decide +kernel

theorem quoteByte_char {b : UInt8} {c : Char} (h : c ∈ quoteByte b) :
    c ≠ '?' ∧ c ≠ '&' ∧ c ≠ '=' ∧ c ≠ '#' := by
  have hrange : b.toNat ∈ List.range 256 := List.mem_range.mpr b.toNat_lt
  have hbyte := List.all_eq_true.mp quoteByte_checked b.toNat hrange
  rw [UInt8.ofNat_toNat] at hbyte
  exact of_decide_eq_true (List.all_eq_true.mp hbyte c h)

theorem quote_char {t : Text} {c : Char} (h : c ∈ quote t) :
    c ≠ '?' ∧ c ≠ '&' ∧ c ≠ '=' ∧ c ≠ '#' := by
  rcases List.mem_flatMap.mp h with ⟨b, _, hc⟩
  exact quoteByte_char hc

/-!
## Decoding part by part
-/

/-- Two digits are read off the beginning of a text alone, unless a character
that is no digit comes too early. -/
theorem hexPair_append {sep : Char} (h : hexValue sep = none) (a rest : Text) :
    hexPair (a ++ sep :: rest) = hexPair a := by
  cases a with
  | nil =>
      cases rest with
      | nil => rfl
      | cons c more => simp [hexPair, h]
  | cons x front =>
      cases front with
      | nil =>
          cases hx : hexValue x <;> simp [hexPair, h, hx]
      | cons y more => rfl

/-- A text can be decoded in two parts when the second starts with a character
that is no digit. -/
theorem unquoteFrom_append {sep : Char} (h : hexValue sep = none) (rest : Text)
    (a : Text) : forall skip, skip ≤ a.length ->
      unquoteFrom skip (a ++ sep :: rest) =
        unquoteFrom skip a ++ unquoteFrom 0 (sep :: rest) := by
  induction a with
  | nil =>
      intro skip hskip
      have hzero : skip = 0 := Nat.le_zero.mp hskip
      rw [hzero]
      rfl
  | cons c front ih =>
      intro skip hskip
      cases skip with
      | succ skip =>
          exact ih skip (Nat.le_of_succ_le_succ hskip)
      | zero =>
          rw [List.cons_append, unquoteFrom, unquoteFrom]
          split
          · rw [hexPair_append h]
            cases hpair : hexPair front with
            | none =>
                dsimp only
                rw [ih 0 (Nat.zero_le _), List.cons_append]
            | some b =>
                have hlen : 2 ≤ front.length := by
                  cases front with
                  | nil => cases hpair
                  | cons x more =>
                      cases more with
                      | nil => cases hpair
                      | cons y others => simp
                dsimp only
                rw [ih 2 hlen, List.cons_append]
          · rw [ih 0 (Nat.zero_le _), List.append_assoc]

theorem unquoteBytes_split {sep : Char} (h : hexValue sep = none)
    (a rest : Text) :
    unquoteBytes (a ++ sep :: rest) =
      unquoteBytes a ++ unquoteBytes (sep :: rest) :=
  unquoteFrom_append h rest a 0 (Nat.zero_le _)

theorem unquoteBytes_plain {t : Text} (h : '%' ∉ t) :
    unquoteBytes t = encode t := by
  have hall := unquoteBytes_append h []
  rw [List.append_nil] at hall
  rw [hall]
  exact List.append_nil _

end Python
