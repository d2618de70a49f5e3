import StorybookStorage.Routers.Handlers
import StorybookStorage.Store.Fresh

/-!
# What a signature opens

A signature is good for the object and the expiry it was made for, and for
nothing else, as long as no two messages share a digest under the secret.
-/

namespace StorybookStorage

open Python Posix Effects

namespace Signing

variable {settings : Settings} {bucket key bucket2 key2 : Text}
  {allowAt allowAt2 : Bool} {exp exp2 : Int}

/-- A signature opens one object until one expiry. -/
theorem verifyAt_sign_iff {platform : Platform} {secret : Text} {now : Int}
    (hinj : Function.Injective (platform.hmacSha256 secret))
    (h : KeyGrammar.validate settings bucket key allowAt = Except.ok ())
    (h2 : KeyGrammar.validate settings bucket2 key2 allowAt2 = Except.ok ()) :
    verifyAt platform secret bucket2 key2 exp2
        (sign platform secret bucket key exp) now = Except.ok true <->
      bucket2 = bucket ∧ key2 = key ∧ exp2 = exp ∧ now < exp := by
  rw [verifyAt_eq_true]
  constructor
  · intro hverified
    rcases hverified with ⟨hlive, hsig⟩
    rcases message_inj h2 h (hinj hsig) with ⟨hbuckets, hkeys, hexp⟩
    exact ⟨hbuckets, hkeys, hexp, by omega⟩
  · intro hsame
    rcases hsame with ⟨hbuckets, hkeys, hexp, hlive⟩
    rw [hbuckets, hkeys, hexp]
    exact ⟨hlive, rfl⟩

/-!
## A digest without collisions
-/

def hexBytes (b : Bytes) : Text :=
  b.flatMap fun x =>
    [Nat.digitChar (x.toNat / 16), Nat.digitChar (x.toNat % 16)]

theorem hexDigits_inj :
    forall m, m < 16 -> forall n, n < 16 ->
      Nat.digitChar m = Nat.digitChar n -> m = n := by
  decide

theorem hexBytes_injective {a b : Bytes} (h : hexBytes a = hexBytes b) :
    a = b := by
  induction a generalizing b with
  | nil =>
      cases b with
      | nil => rfl
      | cons y rest => cases h
  | cons x rest ih =>
      cases b with
      | nil => cases h
      | cons y rest' =>
          rcases List.cons.inj h with ⟨hhigh, htail⟩
          rcases List.cons.inj htail with ⟨hlow, hrest⟩
          have hx := x.toNat_lt
          have hy := y.toNat_lt
          have hdiv := hexDigits_inj _ (by omega) _ (by omega) hhigh
          have hmod := hexDigits_inj _ (by omega) _ (by omega) hlow
          have hbyte : x = y := UInt8.toNat_inj.mp (by omega)
          rw [hbyte, ih hrest]

theorem length_hexBytes (b : Bytes) : (hexBytes b).length = 2 * b.length := by
  induction b with
  | nil => rfl
  | cons x rest ih =>
      show (hexBytes rest).length + 2 = 2 * (rest.length + 1)
      rw [ih]
      omega

theorem hexBytes_hex {b : Bytes} {c : Char} (h : c ∈ hexBytes b) :
    c ∈ text "0123456789abcdef" := by
  rcases List.mem_flatMap.mp h with ⟨x, _, hc⟩
  have hx := x.toNat_lt
  rcases List.mem_cons.mp hc with rfl | hc
  · exact Sha256.digitChar_hex _ (by omega)
  · rw [List.mem_singleton.mp hc]
    exact Sha256.digitChar_hex _ (by omega)

/-- The real digest of one message, and the message itself for all others. -/
def distinctHmac (special : Bytes) (secret : Text) (m : Bytes) : Text :=
  if m = special then
    Python.Sha256.hmac (encode secret) m
  else
    '0' :: hexBytes m

theorem distinctHmac_injective (special : Bytes) (secret : Text) :
    Function.Injective (distinctHmac special secret) := by
  have hlength : forall m : Bytes, Python.Sha256.hmac (encode secret) special ≠
      '0' :: hexBytes m := by
    intro m heq
    have hlen := congrArg List.length heq
    rw [List.length_cons, length_hexBytes, Python.Sha256.hmac,
      Python.Sha256.length_hexdigest] at hlen
    omega
  intro a b h
  unfold distinctHmac at h
  split at h
  · rename_i ha
    split at h
    · rename_i hb
      rw [ha, hb]
    · rw [ha] at h
      exact absurd h (hlength b)
  · split at h
    · rename_i hb
      rw [hb] at h
      exact absurd h.symm (hlength a)
    · exact hexBytes_injective (List.cons.inj h).right

theorem distinctHmac_hex (special : Bytes) (secret : Text) (m : Bytes) :
    ((distinctHmac special secret m).all
      fun c => decide (c ∈ text "0123456789abcdef")) = true := by
  simp only [List.all_eq_true, decide_eq_true_eq]
  intro c hc
  unfold distinctHmac at hc
  split at hc
  · exact Python.Sha256.hexdigest_hex _ hc
  · rcases List.mem_cons.mp hc with rfl | hdigit
    · decide
    · exact hexBytes_hex hdigit

def distinctPlatform (special : Bytes) : Platform :=
  { Platform.reference sampleVerifier with
    hmacSha256 := distinctHmac special
    hmac_hex := distinctHmac_hex special }

def pictureMessage : Bytes := message (text "assets") (text "a.png") 100

theorem verifyAt_sign_iff_picture :
    verifyAt (distinctPlatform pictureMessage) (text "secret") (text "assets")
        (text "a.png") 100
        (sign (distinctPlatform pictureMessage) (text "secret") (text "assets")
          (text "a.png") 100) 99 =
      Except.ok true :=
  (verifyAt_sign_iff (distinctHmac_injective _ _) pictureSlot.accepted
    pictureSlot.accepted).mpr ⟨rfl, rfl, rfl, by decide⟩

end Signing

end StorybookStorage
