import StorybookStorage.Core.Reference
import StorybookStorage.Validation.Exactness

/-!
# Extensions

The grammar asks for a dot and something behind it.  A content type is looked up
by the extension `splitext` finds, and that one has no extension for a name with
nothing but dots before its last dot.
-/

namespace StorybookStorage

open Python Posix

namespace KeyGrammar

def lastSegment (key : Text) : Text := (key.splitOn '/').getLastD []

structure Resolves (key ext : Text) : Prop where
  nonempty : ext ≠ []
  name : (splitext (lastSegment key)).2 = '.' :: ext
  whole : (splitext key).2 = '.' :: ext

/-- Before the last dot stands something else than dots. -/
def Headed (name : Text) : Prop :=
  exists stem ext c, name = stem ++ '.' :: ext ∧ '.' ∉ ext ∧ c ∈ stem ∧ c ≠ '.'

variable {t key stem ext : Text} {allowAt : Bool}

theorem afterLast_of_not_mem {sep : Char} (h : sep ∉ t) :
    afterLast sep t = t := by
  unfold afterLast
  rw [List.rtakeWhile_eq_self_iff]
  intro c hc
  apply decide_eq_true
  intro heq
  subst heq
  exact h hc

theorem lastSegment_eq (key : Text) : lastSegment key = afterLast '/' key := by
  unfold lastSegment
  by_cases hslash : '/' ∈ key
  · rcases exists_afterLast hslash with ⟨front, hkey⟩
    have hplain := not_mem_afterLast '/' key
    have hsplit : key.splitOn '/' =
        front.splitOn '/' ++ [afterLast '/' key] := by
      conv_lhs => rw [hkey]
      rw [List.splitOn_append_cons_self, List.splitOn_eq_singleton hplain]
    rw [hsplit, List.getLastD_concat]
  · rw [List.splitOn_eq_singleton hslash, afterLast_of_not_mem hslash]
    rfl

theorem splitext_of_name (hname : afterLast '/' t = stem ++ '.' :: ext)
    (hdot : '.' ∉ ext) :
    (splitext t).2 =
      if stem.any (fun c => decide (c ≠ '.')) then '.' :: ext else [] := by
  have hstem : (stem ++ '.' :: ext).take
      ((stem ++ '.' :: ext).length - (ext.length + 1)) = stem := by
    apply List.take_left'
    simp
  unfold splitext
  dsimp only
  rw [hname, afterLast_append stem hdot, hstem]
  split
  · rfl
  · rfl

theorem any_iff_headed (hdot : '.' ∉ ext) :
    stem.any (fun c => decide (c ≠ '.')) = true <->
      Headed (stem ++ '.' :: ext) := by
  rw [List.any_eq_true]
  constructor
  · intro hext
    rcases hext with ⟨c, hc, hne⟩
    exact ⟨stem, ext, c, rfl, hdot, hc, of_decide_eq_true hne⟩
  · intro hext
    rcases hext with ⟨stem', ext', c, heq, hdot', hc, hne⟩
    -- The last dot of a name is where it is.
    have hext : ext = ext' := by
      rw [← afterLast_append stem hdot, heq, afterLast_append stem' hdot']
    rw [hext] at heq
    rw [List.append_cancel_right heq]
    exact ⟨c, hc, decide_eq_true hne⟩

/-- An accepted key has an extension to look up exactly if its last segment is
not just dots before its last dot. -/
theorem extension_iff (h : validateKey key allowAt = Except.ok ()) :
    (exists ext, Resolves key ext) <-> Headed (lastSegment key) := by
  rcases (validateKey_iff.mp h).extension with ⟨stem, ext, hsplit, hne, hdot⟩
  have hname : lastSegment key = stem ++ '.' :: ext := by
    unfold lastSegment
    rw [List.getLastD_eq_getLast?,
      List.getLast?_eq_some_getLast (List.splitOn_ne_nil '/' key), hsplit]
    rfl
  have hwhole : afterLast '/' key = stem ++ '.' :: ext := by
    rw [← lastSegment_eq, hname]
  have halone : afterLast '/' (lastSegment key) = stem ++ '.' :: ext := by
    rw [lastSegment_eq, afterLast_of_not_mem (not_mem_afterLast '/' key),
      hwhole]
  rw [hname, ← any_iff_headed hdot]
  constructor
  · intro hext
    rcases hext with ⟨found, hfound⟩
    by_contra hdots
    have hnone := hfound.whole
    rw [splitext_of_name hwhole hdot, if_neg hdots] at hnone
    cases hnone
  · intro hheaded
    refine ⟨ext, hne, ?_, ?_⟩
    · rw [splitext_of_name halone hdot, if_pos hheaded]
    · rw [splitext_of_name hwhole hdot, if_pos hheaded]

theorem extension_iff_dotted :
    exists ext, Resolves (text "d/.a.png") ext := by
  have haccepted : validateKey (text "d/.a.png") false = Except.ok () := by
    decide
  exact (extension_iff haccepted).mpr
    ⟨text ".a", text "png", 'a', by decide, by decide, by decide, by decide⟩

/-- A key that is nothing but an extension is accepted and has none. -/
theorem bareExtension_unresolved :
    validateKey (text ".png") false = Except.ok () ∧
    validateKey (text ".png") true = Except.ok () ∧
    (splitext (lastSegment (text ".png"))).2 = [] ∧
    Platform.guessByExtension (text ".png") = none ∧
    ¬ exists ext, Resolves (text ".png") ext := by
  refine ⟨by decide, by decide, by decide, by decide, ?_⟩
  intro hext
  rcases hext with ⟨ext, hresolves⟩
  have hname := hresolves.name
  have hnone : (splitext (lastSegment (text ".png"))).2 = [] := by decide
  rw [hnone] at hname
  cases hname

end KeyGrammar

end StorybookStorage
