import StorybookStorage.Core.Platform
import StorybookStorage.Python.Dict
import StorybookStorage.Python.JsonText
import StorybookStorage.Python.Sha256

/-!
# A reference platform

One platform with the documented behaviour, so that the assumptions on
platforms are known to hold together and programs can be evaluated.
-/

namespace StorybookStorage

open Python Posix

namespace Platform

def padded (width n : Nat) : Text :=
  let shown := Nat.toDigits 10 n
  List.replicate (width - shown.length) '0' ++ shown

/-- Year, month and day of a number of days since 1970, in the proleptic
Gregorian calendar.  Years are counted from March within eras of 400 years. -/
def civilDate (days : Int) : Int × Nat × Nat :=
  let z := days + 719468
  let era := z / 146097
  let doe := (z % 146097).toNat
  let yoe := (doe - doe / 1460 + doe / 36524 - doe / 146096) / 365
  let doy := doe - (365 * yoe + yoe / 4 - yoe / 100)
  let mp := (5 * doy + 2) / 153
  let month := if mp < 10 then mp + 3 else mp - 9
  let year := (yoe : Int) + era * 400
  (if month ≤ 2 then year + 1 else year, month, doy - (153 * mp + 2) / 5 + 1)

/-- `isoformat` in UTC, with microseconds where there are any. -/
def isoText (t : Rat) : Text :=
  let micros := ⌊t * 1000000⌋
  let seconds := micros / 1000000
  let (year, month, day) := civilDate (seconds / 86400)
  let clock := (seconds % 86400).toNat
  let part := (micros % 1000000).toNat
  padded 4 year.toNat ++ ['-'] ++ padded 2 month ++ ['-'] ++ padded 2 day ++
    ['T'] ++ padded 2 (clock / 3600) ++ [':'] ++
    padded 2 (clock / 60 % 60) ++ [':'] ++ padded 2 (clock % 60) ++
    (if part = 0 then [] else '.' :: padded 6 part) ++ text "+00:00"

def typesMap : List (Text × Text) :=
  [(text "css", text "text/css"), (text "gif", text "image/gif"),
    (text "htm", text "text/html"), (text "html", text "text/html"),
    (text "jpeg", text "image/jpeg"), (text "jpg", text "image/jpeg"),
    (text "js", text "text/javascript"), (text "json", text "application/json"),
    (text "mp3", text "audio/mpeg"), (text "mp4", text "video/mp4"),
    (text "pdf", text "application/pdf"), (text "png", text "image/png"),
    (text "svg", text "image/svg+xml"), (text "txt", text "text/plain"),
    (text "webp", text "image/webp"), (text "zip", text "application/zip")]

def guessByExtension (name : Text) : Option Text :=
  match (splitext name).2 with
  | [] => none
  | _ :: ext => typesMap.lookup (ext.map Char.toLower)

def parseInt (s : Text) : Option Int :=
  let unsigned (t : Text) : Option Int :=
    if t ≠ [] ∧ t.all Char.isDigit = true then
      some (Nat.ofDigitChars 10 t 0)
    else
      none
  match strip s with
  | '-' :: t => (unsigned t).map fun n => -n
  | '+' :: t => unsigned t
  | t => unsigned t

def hashlibSha256 : Sha256 where
  State := Bytes
  init := []
  update := fun b chunk => b ++ chunk
  hexdigest := Python.Sha256.hexdigest
  digest := Python.Sha256.hexdigest
  hexdigest_foldl := by
    intro chunks
    have hfold : forall acc : Bytes,
        chunks.foldl (fun b chunk => b ++ chunk) acc = acc ++ chunks.flatten := by
      induction chunks with
      | nil => intro acc; simp
      | cons chunk rest ih => intro acc; simp [ih]
    rw [hfold, List.nil_append]
  length_digest := Python.Sha256.length_hexdigest

theorem toLower_of_ascii {c : Char}
    (h : c.toNat < 128 ∧ ¬ ('A' ≤ c ∧ c ≤ 'Z')) : c.toLower = c := by
  unfold Char.toLower
  rw [dif_neg]
  exact h.right

def reference (decodeToken : Text -> Option (Option Text)) : Platform where
  sha256 := hashlibSha256
  json :=
    { dumps := Json.dumps
      loads := Json.loads
      loads_dumps := Json.loads_dumps }
  isoformat := isoText
  guessType := guessByExtension
  intOfText := parseInt
  lower := fun t => t.map Char.toLower
  hmacSha256 := fun secret message =>
    Python.Sha256.hmac (encode secret) message
  decodeToken := decodeToken
  lower_ascii := by
    intro t h
    simp only [List.all_eq_true, decide_eq_true_eq] at h
    calc
      t.map Char.toLower = t.map id :=
        List.map_congr_left fun c hc => toLower_of_ascii (h c hc)
      _ = t := List.map_id t
  hmac_hex := by
    intro secret message
    simp only [List.all_eq_true, decide_eq_true_eq]
    intro c hc
    exact Python.Sha256.hexdigest_hex _ hc

end Platform

def sampleReprs : Reprs where
  float := fun _ => text "nan"
  str := Json.quote

end StorybookStorage
