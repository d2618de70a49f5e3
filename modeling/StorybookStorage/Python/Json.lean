import Mathlib.Data.List.AList
import Mathlib.Data.Rat.Floor
import StorybookStorage.Python.Str

/-!
# JSON values as Python sees them

What `json.loads` may return, with the Python operations the readers of such a
value apply to it: truth testing, `dict.get` and `int`.
-/

namespace Python

/-- A Python `float`; every finite one is a rational. -/
inductive PyFloat where
  | finite (q : Rat)
  | nan
  | infinity (negative : Bool)

inductive Json where
  | null
  | bool (b : Bool)
  | int (n : Int)
  | float (x : PyFloat)
  | str (s : Text)
  | arr (items : List Json)
  | obj (fields : List (Text × Json))

/-- A `dict` with text keys, in insertion order. -/
abbrev Dict (α : Type) := AList (fun _ : Text => α)

namespace Json

def truthy : Json -> Bool
  | null => false
  | bool b => b
  | int n => decide (n ≠ 0)
  | float (PyFloat.finite q) => decide (q ≠ 0)
  | float _ => true
  | str s => decide (s ≠ [])
  | arr items => !items.isEmpty
  | obj fields => !fields.isEmpty

/-- `dict.get(name)` on the fields of an object. -/
def field (fields : List (Text × Json)) (name : Text) : Option Json :=
  fields.lookup name

/-- `a or b`. -/
def orElse (a : Option Json) (b : Json) : Json :=
  match a with
  | some v => if v.truthy then v else b
  | none => b

/-- Values that come back unchanged from `loads(dumps(v))`: no floats, and no
object with the same key twice. -/
def Storable : Json -> Prop
  | null => True
  | bool _ => True
  | int _ => True
  | float _ => False
  | str _ => True
  | arr items => StorableAll items
  | obj fields => (fields.map Prod.fst).Nodup ∧ StorableFields fields
where
  StorableAll : List Json -> Prop
    | [] => True
    | v :: rest => Storable v ∧ StorableAll rest
  StorableFields : List (Text × Json) -> Prop
    | [] => True
    | (_, v) :: rest => Storable v ∧ StorableFields rest

end Json

end Python
