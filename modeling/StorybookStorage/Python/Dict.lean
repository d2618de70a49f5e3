import StorybookStorage.Python.Json

/-!
# Dictionaries and texts of values

Dictionaries filled in order, iteration over a JSON value, and `str` of one.
What `repr` gives for texts and floats is left open.
-/

namespace Python

namespace Dict

variable {α : Type}

/-- `d[k] = v`: a new key goes to the end. -/
def set (d : Dict α) (k : Text) (v : α) : Dict α :=
  if h : k ∈ d then
    AList.replace k v d
  else
    { entries := d.entries ++ [⟨k, v⟩]
      nodupKeys := by
        rw [List.NodupKeys, List.keys_append]
        refine List.nodup_append.mpr ⟨d.nodupKeys, List.nodup_singleton k, ?_⟩
        intro a ha b hb hab
        rw [hab, List.mem_singleton.mp hb] at ha
        exact h ha }

theorem entries_set {d : Dict α} {k : Text} (v : α) (h : k ∉ d) :
    (set d k v).entries = d.entries ++ [⟨k, v⟩] := by
  unfold set
  rw [dif_neg h]

/-- A dictionary comprehension over such items. -/
def ofItems (items : List (Text × α)) : Dict α :=
  items.foldl (fun d item => set d item.1 item.2) ∅

theorem entries_ofItems {items : List (Text × α)}
    (h : (items.map Prod.fst).Nodup) :
    (ofItems items).entries = items.map fun item => ⟨item.1, item.2⟩ := by
  unfold ofItems
  induction items using List.reverseRecOn with
  | nil => rfl
  | append_singleton front last ih =>
      rw [List.map_append] at h
      have hfront : (front.map Prod.fst).Nodup := List.Nodup.of_append_left h
      have hnew : last.1 ∉ front.map Prod.fst := by
        intro hmem
        exact List.disjoint_of_nodup_append h hmem (by simp)
      rw [List.foldl_append, List.foldl_cons, List.foldl_nil, entries_set,
        ih hfront, List.map_append]
      · rfl
      · intro hmem
        rw [AList.mem_keys, AList.keys, ih hfront] at hmem
        apply hnew
        simpa [List.keys] using hmem

def items (d : Dict α) : List (Text × α) :=
  d.entries.map fun entry => (entry.1, entry.2)

theorem mem_items {d : Dict α} {k : Text} {v : α} :
    (k, v) ∈ items d <-> d.lookup k = some v := by
  have hentry : (k, v) ∈ items d <->
      (Sigma.mk k v : Sigma fun _ : Text => α) ∈ d.entries := by
    unfold items
    rw [List.mem_map]
    constructor
    · intro hlisted
      rcases hlisted with ⟨entry, hentry, heq⟩
      cases heq
      exact hentry
    · intro h
      exact ⟨_, h, rfl⟩
  rw [hentry, ← AList.mem_lookup_iff]
  exact Iff.rfl

theorem items_ofItems {items : List (Text × α)}
    (h : (items.map Prod.fst).Nodup) : (ofItems items).items = items := by
  unfold Dict.items
  rw [entries_ofItems h, List.map_map]
  exact List.map_id items

end Dict

/-- What `repr` gives for floats and texts. -/
structure Reprs where
  float : PyFloat -> Text
  str : Text -> Text

namespace Json

def repr (texts : Reprs) : Json -> Text
  | null => text "None"
  | bool true => text "True"
  | bool false => text "False"
  | int n => intRepr n
  | float x => texts.float x
  | str s => texts.str s
  | arr [] => text "[]"
  | arr (v :: rest) => '[' :: (repr texts v ++ reprItems rest)
  | obj [] => text "\x7b\x7d"
  | obj ((k, v) :: rest) =>
      '\x7b' :: (texts.str k ++ text ": " ++ repr texts v ++ reprFields rest)
where
  reprItems : List Json -> Text
    | [] => [']']
    | v :: rest => text ", " ++ repr texts v ++ reprItems rest
  reprFields : List (Text × Json) -> Text
    | [] => ['\x7d']
    | (k, v) :: rest =>
        text ", " ++ texts.str k ++ text ": " ++ repr texts v ++ reprFields rest

def toStr (texts : Reprs) : Json -> Text
  | str s => s
  | v => repr texts v

/-- The values `for x in v` goes through, unless it raises `TypeError`. -/
def iterate : Json -> Option (List Json)
  | arr items => some items
  | obj fields => some (fields.map fun field => str field.1)
  | str s => some (s.map fun c => str [c])
  | _ => none

end Json

end Python
