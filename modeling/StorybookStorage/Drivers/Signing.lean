import StorybookStorage.Drivers.Layout
import StorybookStorage.Python.Quote

/-!
# Signed URLs

`drivers/signing.py` and `presign_get`.  The signed message joins bucket, key
and expiry without escaping; the grammar keeps the separators out of the parts,
so no two triples share a message.
-/

namespace StorybookStorage

open Python Posix Effects

/-- `int` of a clock reading: towards zero. -/
def intOfRat (q : Rat) : Int := if 0 ≤ q then ⌊q⌋ else ⌈q⌉

namespace Signing

def messageText (bucket key : Text) (exp : Int) : Text :=
  bucket ++ '/' :: (key ++ ':' :: intRepr exp)

def message (bucket key : Text) (exp : Int) : Bytes :=
  encode (messageText bucket key exp)

def sign (platform : Platform) (secret bucket key : Text) (exp : Int) : Text :=
  platform.hmacSha256 secret (message bucket key exp)

def isAscii (t : Text) : Bool := t.all fun c => decide (c.toNat < 128)

/-- `secrets.compare_digest` of two texts; it refuses what is not ASCII. -/
def compareDigest (a b : Text) : Except Exn Bool :=
  if isAscii a && isAscii b then
    Except.ok (decide (a = b))
  else
    Except.error Exn.typeError

def verifyAt (platform : Platform) (secret bucket key : Text) (exp : Int)
    (sig : Text) (now : Int) : Except Exn Bool :=
  if exp ≤ now then
    Except.ok false
  else
    compareDigest (sign platform secret bucket key exp) sig

def verify (platform : Platform) (secret bucket key : Text) (exp : Int)
    (sig : Text) : Io Bool := do
  let now ← Os.time
  Prog.ofExcept (verifyAt platform secret bucket key exp sig (intOfRat now))

end Signing

namespace LocalFsBlobDriver

variable (d : LocalFsBlobDriver)

def presignGet (bucket key : Text) (ttlSec : Int) : Io Text := do
  let now ← Os.time
  let exp := intOfRat now + ttlSec
  let sig := Signing.sign d.platform d.signSecret bucket key exp
  pure
    (d.publicBase ++
      (text "/files-signed/" ++ bucket ++ '/' :: quote key ++
        (text "?exp=" ++ (intRepr exp ++ (text "&sig=" ++ sig)))))

end LocalFsBlobDriver

/-!
## Splitting at a separator
-/

theorem append_cons_inj {sep : Char} {a b x y : Text} (ha : sep ∉ a)
    (hb : sep ∉ b) (h : a ++ sep :: x = b ++ sep :: y) : a = b ∧ x = y := by
  induction a generalizing b with
  | nil =>
      cases b with
      | nil => exact ⟨rfl, (List.cons.inj h).right⟩
      | cons c rest =>
          exact absurd (List.mem_cons.mpr (Or.inl (List.cons.inj h).left)) hb
  | cons c rest ih =>
      cases b with
      | nil =>
          exact absurd
            (List.mem_cons.mpr (Or.inl (List.cons.inj h).left.symm)) ha
      | cons c' rest' =>
          rcases List.cons.inj h with ⟨hc, htail⟩
          have hrest : sep ∉ rest := fun hm => ha (List.mem_cons_of_mem c hm)
          have hrest' : sep ∉ rest' := fun hm => hb (List.mem_cons_of_mem c' hm)
          rcases ih hrest hrest' htail with ⟨hsame, hxy⟩
          exact ⟨by rw [hc, hsame], hxy⟩

/-!
## Decimal texts
-/

theorem toDigits_injective {m n : Nat}
    (h : Nat.toDigits 10 m = Nat.toDigits 10 n) : m = n := by
  have hread := congrArg (fun digits => Nat.ofDigitChars 10 digits 0) h
  simpa using hread

theorem digit_of_toDigits {n : Nat} {c : Char} (h : c ∈ Nat.toDigits 10 n) :
    c.isDigit = true :=
  Nat.isDigit_of_mem_toDigits (by decide) (by decide) h

theorem intRepr_char {n : Int} {c : Char} (h : c ∈ intRepr n) :
    c = '-' ∨ c.isDigit = true := by
  unfold intRepr at h
  split at h
  · rcases List.mem_cons.mp h with hsign | hdigit
    · exact Or.inl hsign
    · exact Or.inr (digit_of_toDigits hdigit)
  · exact Or.inr (digit_of_toDigits h)

theorem intRepr_injective {m n : Int} (h : intRepr m = intRepr n) : m = n := by
  have hsign : forall k : Nat, '-' ∉ Nat.toDigits 10 k := by
    intro k hmem
    exact absurd (digit_of_toDigits hmem) (by decide)
  unfold intRepr at h
  split at h
  · split at h
    · have habs := toDigits_injective (List.cons.inj h).right
      omega
    · exact absurd (h ▸ List.mem_cons_self) (hsign n.natAbs)
  · split at h
    · exact absurd (h ▸ List.mem_cons_self) (hsign m.natAbs)
    · have habs := toDigits_injective h
      omega

/-!
## Messages and signatures
-/

namespace Signing

theorem isAscii_hex {t : Text}
    (h : (t.all fun c => decide (c ∈ text "0123456789abcdef")) = true) :
    isAscii t = true := by
  have hdigits : isAscii (text "0123456789abcdef") = true := by decide
  simp only [isAscii, List.all_eq_true, decide_eq_true_eq] at h hdigits ⊢
  intro c hc
  exact hdigits c (h c hc)

theorem isAscii_sign (platform : Platform) (secret bucket key : Text)
    (exp : Int) : isAscii (sign platform secret bucket key exp) = true :=
  isAscii_hex (platform.hmac_hex _ _)

/-- Comparing with a signature fails exactly on what is not ASCII. -/
theorem compareDigest_sign (platform : Platform) (secret bucket key : Text)
    (exp : Int) (sig : Text) :
    compareDigest (sign platform secret bucket key exp) sig =
      if isAscii sig then
        Except.ok (decide (sign platform secret bucket key exp = sig))
      else
        Except.error Exn.typeError := by
  unfold compareDigest
  rw [isAscii_sign, Bool.true_and]

theorem verifyAt_eq_true {platform : Platform} {secret bucket key sig : Text}
    {exp now : Int} :
    verifyAt platform secret bucket key exp sig now = Except.ok true <->
      now < exp ∧ sign platform secret bucket key exp = sig := by
  unfold verifyAt
  split
  · rename_i hexpired
    constructor
    · intro h
      cases h
    · intro h
      omega
  · rename_i hlive
    rw [compareDigest_sign]
    constructor
    · intro h
      split at h
      · exact ⟨by omega, by simpa using h⟩
      · cases h
    · intro h
      have hascii := isAscii_sign platform secret bucket key exp
      rw [h.right] at hascii
      rw [if_pos hascii, decide_eq_true h.right]

variable {settings : Settings} {bucket key bucket2 key2 : Text}
  {allowAt allowAt2 : Bool} {exp exp2 : Int}

/-- The parts of a message can be read off it. -/
theorem message_inj
    (h : KeyGrammar.validate settings bucket key allowAt = Except.ok ())
    (h2 : KeyGrammar.validate settings bucket2 key2 allowAt2 = Except.ok ())
    (heq : message bucket key exp = message bucket2 key2 exp2) :
    bucket = bucket2 ∧ key = key2 ∧ exp = exp2 := by
  rcases KeyGrammar.validate_ok h with ⟨hbucket, _, hkey⟩
  rcases KeyGrammar.validate_ok h2 with ⟨hbucket2, _, hkey2⟩
  have hslash : '/' ∉ bucket :=
    KeyGrammar.not_mem_bucket hbucket (by decide) (by decide) (by decide)
  have hslash2 : '/' ∉ bucket2 :=
    KeyGrammar.not_mem_bucket hbucket2 (by decide) (by decide) (by decide)
  have hcolon : ':' ∉ key :=
    KeyGrammar.not_mem_key hkey (by decide) (by cases allowAt <;> decide)
  have hcolon2 : ':' ∉ key2 :=
    KeyGrammar.not_mem_key hkey2 (by decide) (by cases allowAt2 <;> decide)
  have htext : messageText bucket key exp = messageText bucket2 key2 exp2 :=
    encode_injective heq
  rcases append_cons_inj hslash hslash2 htext with ⟨hsame, hrest⟩
  rcases append_cons_inj hcolon hcolon2 hrest with ⟨hkeys, hdigits⟩
  exact ⟨hsame, hkeys, intRepr_injective hdigits⟩

end Signing

end StorybookStorage
