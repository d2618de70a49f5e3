import StorybookStorage.Config.Environment
import StorybookStorage.Core.Reference

/-!
# Cap maps of any text

`_parse_json_int_map` falls back on the empty map where the text is no object of
integers.  Its except clause knows what `int` raises for every JSON value but
one: an infinite float, for which it is `OverflowError`.
-/

namespace StorybookStorage

open Python

structure Converts (py : Platform) (field : Text × Json) (item : Text × Int) :
    Prop where
  key : item.1 = field.1
  value : py.intOf field.2 = Except.ok item.2

structure Holds (py : Platform) (raw : Text) (fields : List (Text × Json)) :
    Prop where
  present : strip raw ≠ []
  loads : py.json.loads (strip raw) = Except.ok (Json.obj fields)

/-- The outcomes a reader of the setting can live with: the whole object, or
the empty map where the text is no object of integers. -/
inductive Parsed (py : Platform) (raw : Text) :
    Except Exn (Dict Int) -> Prop where
  | whole (fields : List (Text × Json)) (caps : Dict Int) :
      Holds py raw fields ->
      List.Forall₂ (Converts py) fields caps.items ->
      Parsed py raw (Except.ok caps)
  | void :
      (forall fields, Holds py raw fields ->
        exists field, field ∈ fields ∧
          forall n, py.intOf field.2 ≠ Except.ok n) ->
      Parsed py raw (Except.ok ∅)

structure FirstRefused (py : Platform) (fields : List (Text × Json))
    (v : Json) : Prop where
  split : exists front k back, fields = front ++ (k, v) :: back ∧
    forall field, field ∈ front -> exists n, py.intOf field.2 = Except.ok n
  refused : forall n, py.intOf v ≠ Except.ok n

/-- The first value of the object that `int` refuses is an infinite float. -/
def Overflows (py : Platform) (raw : Text) : Prop :=
  exists fields negative, Holds py raw fields ∧
    FirstRefused py fields (Json.float (PyFloat.infinity negative))

structure Usable (py : Platform) (settings : Settings) (raw : Text) : Prop where
  parsed : Parsed py raw (parseJsonIntMap py raw)
  mimeCaps : exists caps, settings.withUserMimeCaps py raw =
    Except.ok { settings with userMimeCaps := caps }
  sizeCaps : exists caps, settings.withPrefixSizeCaps py raw =
    Except.ok { settings with prefixSizeCaps := caps }

variable {py : Platform} {raw : Text} {fields : List (Text × Json)}
  {items : List (Text × Int)} {v : Json} {e : Exn}

/-!
## Values and fields
-/

/-- Of the exceptions of `int` only the overflow of an infinite float gets past
the except clause. -/
theorem escapes_iff (h : py.intOf v = Except.error e) :
    intMapCaught e = false <->
      exists negative, v = Json.float (PyFloat.infinity negative) := by
  cases v with
  | null => cases h; simp [intMapCaught]
  | bool b => cases h
  | int n => cases h
  | float x =>
      cases x with
      | finite q => cases h
      | nan => cases h; simp [intMapCaught]
      | infinity negative => cases h; simp [intMapCaught]
  | str s =>
      cases hs : py.intOfText s with
      | none =>
          simp only [Platform.intOf, hs] at h
          cases h
          simp [intMapCaught]
      | some n =>
          simp only [Platform.intOf, hs] at h
          cases h
  | arr vs => cases h; simp [intMapCaught]
  | obj kvs => cases h; simp [intMapCaught]

theorem intItems_cons {k : Text} :
    intItems py ((k, v) :: fields) =
      (py.intOf v).bind fun n =>
        (intItems py fields).bind fun items => Except.ok ((k, n) :: items) := by
  rfl

theorem intItems_ok (h : intItems py fields = Except.ok items) :
    List.Forall₂ (Converts py) fields items := by
  induction fields generalizing items with
  | nil =>
      cases h
      exact List.Forall₂.nil
  | cons field fields ih =>
      rcases field with ⟨k, v⟩
      rw [intItems_cons] at h
      cases hv : py.intOf v with
      | error e => rw [hv] at h; cases h
      | ok n =>
          cases hrest : intItems py fields with
          | error e => rw [hv, hrest] at h; cases h
          | ok rest =>
              rw [hv, hrest] at h
              cases h
              exact List.Forall₂.cons ⟨rfl, hv⟩ (ih hrest)

theorem intItems_error (h : intItems py fields = Except.error e) :
    exists v, FirstRefused py fields v ∧ py.intOf v = Except.error e := by
  induction fields with
  | nil => cases h
  | cons field fields ih =>
      rcases field with ⟨k, v⟩
      rw [intItems_cons] at h
      cases hv : py.intOf v with
      | error e' =>
          rw [hv] at h
          cases h
          refine ⟨v, ⟨⟨[], k, fields, rfl, ?_⟩, ?_⟩, hv⟩
          · intro field hfield
            cases hfield
          · intro n hn
            rw [hv] at hn
            cases hn
      | ok n =>
          cases hrest : intItems py fields with
          | ok rest => rw [hv, hrest] at h; cases h
          | error e' =>
              rw [hv, hrest] at h
              cases h
              rcases ih hrest with ⟨v', ⟨⟨front, k', back, hsplit, hfront⟩,
                hrefused⟩, hv'⟩
              refine ⟨v', ⟨⟨(k, v) :: front, k', back, ?_, ?_⟩, hrefused⟩, hv'⟩
              · rw [hsplit]
                rfl
              · intro field hfield
                rcases List.mem_cons.mp hfield with rfl | hfield
                · exact ⟨n, hv⟩
                · exact hfront field hfield

theorem keys_of_converts (h : List.Forall₂ (Converts py) fields items) :
    items.map Prod.fst = fields.map Prod.fst := by
  induction h with
  | nil => rfl
  | cons hfield _ ih => rw [List.map_cons, List.map_cons, hfield.key, ih]

theorem intItems_append {front back : List (Text × Json)} {k : Text}
    (hfront : forall field, field ∈ front ->
      exists n, py.intOf field.2 = Except.ok n)
    (hv : py.intOf v = Except.error e) :
    intItems py (front ++ (k, v) :: back) = Except.error e := by
  induction front with
  | nil =>
      rw [List.nil_append, intItems_cons, hv]
      rfl
  | cons field front ih =>
      rcases field with ⟨k', v'⟩
      rcases hfront (k', v') List.mem_cons_self with ⟨n, hn⟩
      have hrest := ih fun field hfield =>
        hfront field (List.mem_cons_of_mem _ hfield)
      rw [List.cons_append, intItems_cons, hn, hrest]
      rfl

theorem FirstRefused.mem (h : FirstRefused py fields v) :
    exists k, (k, v) ∈ fields := by
  rcases h.split with ⟨front, k, back, rfl, _⟩
  exact ⟨k, List.mem_append_right _ List.mem_cons_self⟩

/-!
## The whole text
-/

theorem parseJsonIntMap_of_holds (h : Holds py raw fields) :
    (forall items, intItems py fields = Except.ok items ->
      parseJsonIntMap py raw = Except.ok (Dict.ofItems items)) ∧
    (forall e, intItems py fields = Except.error e ->
      parseJsonIntMap py raw =
        if intMapCaught e then Except.ok ∅ else Except.error e) := by
  unfold parseJsonIntMap
  dsimp only
  rw [if_neg h.present, h.loads]
  constructor
  · intro items hitems
    dsimp only
    rw [hitems]
  · intro e he
    dsimp only
    rw [he]

theorem parseJsonIntMap_of_not_holds
    (h : forall fields, ¬ Holds py raw fields) :
    parseJsonIntMap py raw = Except.ok ∅ := by
  unfold parseJsonIntMap
  dsimp only
  split
  · rfl
  · rename_i hpresent
    cases hloads : py.json.loads (strip raw) with
    | error e => rfl
    | ok v =>
        cases v with
        | obj fields => exact absurd ⟨hpresent, hloads⟩ (h fields)
        | _ => rfl

theorem parseJsonIntMap_overflows (h : Overflows py raw) :
    parseJsonIntMap py raw = Except.error Exn.overflowError := by
  rcases h with ⟨fields, negative, hholds, hrefused⟩
  rcases hrefused.split with ⟨front, k, back, hsplit, hfront⟩
  have hitems : intItems py fields = Except.error Exn.overflowError := by
    rw [hsplit]
    exact intItems_append hfront rfl
  rw [(parseJsonIntMap_of_holds hholds).right _ hitems]
  rfl

/-- The fields of an object have distinct keys: `json.loads` gives a `dict`. -/
theorem parsed_of_not_overflows
    (hkeys : forall fields, py.json.loads (strip raw) =
      Except.ok (Json.obj fields) -> (fields.map Prod.fst).Nodup)
    (h : ¬ Overflows py raw) : Parsed py raw (parseJsonIntMap py raw) := by
  by_cases hholds : exists fields, Holds py raw fields
  · rcases hholds with ⟨fields, hholds⟩
    cases hitems : intItems py fields with
    | ok items =>
        have hconverts := intItems_ok hitems
        have hnodup : (items.map Prod.fst).Nodup := by
          rw [keys_of_converts hconverts]
          exact hkeys fields hholds.loads
        rw [(parseJsonIntMap_of_holds hholds).left items hitems]
        apply Parsed.whole fields _ hholds
        rw [Dict.items_ofItems hnodup]
        exact hconverts
    | error e =>
        rcases intItems_error hitems with ⟨v, hrefused, hv⟩
        have hcaught : intMapCaught e = true := by
          by_contra hescapes
          rw [Bool.not_eq_true] at hescapes
          rcases (escapes_iff hv).mp hescapes with ⟨negative, rfl⟩
          exact h ⟨fields, negative, hholds, hrefused⟩
        rw [(parseJsonIntMap_of_holds hholds).right e hitems, if_pos hcaught]
        refine Parsed.void fun fields' hholds' => ?_
        have hsame : fields = fields' := by
          have heq := hholds.loads.symm.trans hholds'.loads
          cases heq
          rfl
        rcases hrefused.mem with ⟨k, hmem⟩
        rw [← hsame]
        exact ⟨(k, v), hmem, hrefused.refused⟩
  · have hnot : forall fields, ¬ Holds py raw fields := fun fields hfields =>
      hholds ⟨fields, hfields⟩
    rw [parseJsonIntMap_of_not_holds hnot]
    exact Parsed.void fun fields hfields => absurd hfields (hnot fields)

theorem Parsed.exists_ok {r : Except Exn (Dict Int)} (h : Parsed py raw r) :
    exists caps, r = Except.ok caps := by
  cases h with
  | whole fields caps _ _ => exact ⟨caps, rfl⟩
  | void _ => exact ⟨∅, rfl⟩

/-- A text serves exactly if the first value `int` refuses, where there is one,
is not an infinite float. -/
theorem usable_iff {settings : Settings}
    (hkeys : forall fields, py.json.loads (strip raw) =
      Except.ok (Json.obj fields) -> (fields.map Prod.fst).Nodup) :
    Usable py settings raw <-> ¬ Overflows py raw := by
  constructor
  · intro husable hoverflows
    rcases husable.parsed.exists_ok with ⟨caps, hcaps⟩
    rw [parseJsonIntMap_overflows hoverflows] at hcaps
    cases hcaps
  · intro hfinite
    have hparsed := parsed_of_not_overflows hkeys hfinite
    rcases hparsed.exists_ok with ⟨caps, hcaps⟩
    refine ⟨hparsed, ⟨caps, ?_⟩, ⟨caps, ?_⟩⟩
    · unfold Settings.withUserMimeCaps
      rw [hcaps]
      rfl
    · unfold Settings.withPrefixSizeCaps
      rw [hcaps]
      rfl

/-!
## One object of each kind
-/

def capsPlatform : Platform := Platform.reference fun _ => none

def capsSettings : Settings where
  storagePublicBaseUrl := text "https://files"
  storageSignSecret := text "secret"
  storageRoot := text "/r"
  apiKeys := ∅
  buckets := []
  serviceOnlyPrefixes := []
  storageMaxObjectBytes := 1000
  prefixSizeCaps := ∅
  userMimeCaps := ∅
  storageSignedGetDevStream := false

theorem holds_fields {fields' : List (Text × Json)} (h : Holds py raw fields)
    (hloads : py.json.loads (strip raw) = Except.ok (Json.obj fields')) :
    fields' = fields := by
  rw [h.loads] at hloads
  cases hloads
  rfl

theorem holds_videos : Holds capsPlatform (text "\x7b\"videos/\": 5\x7d")
    [(text "videos/", Json.int 5)] where
  present := by decide
  loads := by
    have htext : strip (text "\x7b\"videos/\": 5\x7d") =
        capsPlatform.json.dumps (Json.obj [(text "videos/", Json.int 5)]) := by
      decide
    rw [htext]
    exact capsPlatform.json.loads_dumps _ ⟨by decide, trivial, trivial⟩

theorem usable_iff_videos :
    Usable capsPlatform capsSettings (text "\x7b\"videos/\": 5\x7d") := by
  refine (usable_iff ?_).mpr ?_
  · intro fields hloads
    rw [holds_fields holds_videos hloads]
    decide
  · intro hparsed
    rcases hparsed with ⟨fields, negative, hholds, hrefused⟩
    rcases hrefused.mem with ⟨k, hmem⟩
    rw [holds_fields holds_videos hholds.loads] at hmem
    simp at hmem

theorem holds_unlimited :
    Holds capsPlatform (text "\x7b\"videos/\": Infinity\x7d")
      [(text "videos/", Json.float (PyFloat.infinity false))] where
  present := by decide
  loads := by
    have htext : strip (text "\x7b\"videos/\": Infinity\x7d") =
        '\x7b' :: (Json.quote (text "videos/") ++ Json.colon ++
          (text "Infinity" ++ ['\x7d'])) := by
      decide
    have hcodec : capsPlatform.json.loads = Json.loads := rfl
    rw [htext, hcodec, Json.loads_single Json.value_infinity]

/-- A cap that is meant to be none at all makes every reader of the setting
answer with an internal error. -/
theorem unlimited_escapes :
    parseJsonIntMap capsPlatform (text "\x7b\"videos/\": Infinity\x7d") =
      Except.error Exn.overflowError ∧
    (errorResponse Exn.overflowError).httpStatus = 500 ∧
    ¬ Usable capsPlatform capsSettings
      (text "\x7b\"videos/\": Infinity\x7d") := by
  have hoverflows : Overflows capsPlatform
      (text "\x7b\"videos/\": Infinity\x7d") := by
    refine ⟨_, false, holds_unlimited, ⟨[], text "videos/", [], rfl, ?_⟩, ?_⟩
    · intro field hfield
      cases hfield
    · intro n hn
      cases hn
  have hparse := parseJsonIntMap_overflows hoverflows
  refine ⟨hparse, rfl, ?_⟩
  intro husable
  rcases husable.parsed.exists_ok with ⟨caps, hcaps⟩
  rw [hparse] at hcaps
  cases hcaps

end StorybookStorage
