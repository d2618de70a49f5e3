import StorybookStorage.Posix.Directories

/-!
# A limit on names

A file system that refuses a path with an overlong component, and nothing else.
A run that stays below the limit is a run without faults.
-/

namespace Posix

open Python Effects

def nameMax : Nat := 255

def Fits (t : Text) : Prop :=
  forall seg, seg ∈ t.splitOn '/' -> (encode seg).length ≤ nameMax

instance (t : Text) : Decidable (Fits t) := by
  unfold Fits
  infer_instance

/-!
## Texts made of others
-/

theorem length_encode_le {a b : Text} (h : a <+: b) :
    (encode a).length ≤ (encode b).length := by
  rcases h with ⟨rest, rfl⟩
  unfold encode
  rw [List.flatMap_append, List.length_append]
  exact Nat.le_add_right _ _

theorem splitOn_of_prefix {a b seg : Text} (h : a <+: b)
    (hseg : seg ∈ a.splitOn '/') :
    exists seg', seg' ∈ b.splitOn '/' ∧ seg <+: seg' := by
  rcases h with ⟨rest, rfl⟩
  rcases exists_splitOn_eq_concat a with ⟨init, last, hsplit⟩
  have hcases : seg ∈ init ∨ seg = last := by
    rw [hsplit] at hseg
    simpa using hseg
  by_cases hslash : '/' ∈ rest
  · rcases List.eq_append_cons_of_mem hslash with ⟨front, more, rfl, hfront⟩
    have hwhole : (a ++ (front ++ '/' :: more)).splitOn '/' =
        init ++ [last ++ front] ++ more.splitOn '/' := by
      rw [← List.append_assoc, List.splitOn_append_cons_self,
        splitOn_append_of_not_mem hsplit hfront]
    rw [hwhole]
    rcases hcases with hinit | rfl
    · exact ⟨seg, by simp [hinit], List.prefix_rfl⟩
    · exact ⟨seg ++ front, by simp, List.prefix_append _ _⟩
  · rw [splitOn_append_of_not_mem hsplit hslash]
    rcases hcases with hinit | rfl
    · exact ⟨seg, by simp [hinit], List.prefix_rfl⟩
    · exact ⟨seg ++ rest, by simp, List.prefix_append _ _⟩

theorem Fits.of_prefix {a b : Text} (hb : Fits b) (h : a <+: b) : Fits a := by
  intro seg hseg
  rcases splitOn_of_prefix h hseg with ⟨seg', hseg', hpre⟩
  exact (length_encode_le hpre).trans (hb seg' hseg')

theorem Fits.join {a b : Text} (ha : Fits a) (hb : Fits b) :
    Fits (join a b) := by
  have happend : forall {front : Text}, Fits front -> Fits (front ++ '/' :: b) := by
    intro front hfront seg hseg
    rw [List.splitOn_append_cons_self] at hseg
    rcases List.mem_append.mp hseg with hleft | hright
    · exact hfront seg hleft
    · exact hb seg hright
  unfold Posix.join
  split
  · exact hb
  split
  · rename_i hempty
    rcases hempty with rfl | hslash
    · exact hb
    · rcases List.getLast?_eq_some_iff.mp hslash with ⟨front, rfl⟩
      rw [List.append_assoc, List.singleton_append]
      exact happend (ha.of_prefix (List.prefix_append _ _))
  · exact happend ha

theorem Fits.dirname {t : Text} (h : Fits t) : Fits (dirname t) := by
  have hhead := List.rdropWhile_prefix (fun c => decide (c ≠ '/')) t
  unfold Posix.dirname
  dsimp only
  split
  · exact h.of_prefix hhead
  · exact h.of_prefix ((List.rdropWhile_prefix _ _).trans hhead)

theorem fits_append_iff {t last suffix : Text} {init : List Text}
    (hsplit : t.splitOn '/' = init ++ [last]) (hsuffix : '/' ∉ suffix)
    (ht : Fits t) :
    Fits (t ++ suffix) <-> (encode (last ++ suffix)).length ≤ nameMax := by
  unfold Fits
  rw [splitOn_append_of_not_mem hsplit hsuffix]
  constructor
  · intro h
    exact h _ (by simp)
  · intro h seg hseg
    rcases List.mem_append.mp hseg with hinit | hlast
    · apply ht
      rw [hsplit]
      exact List.mem_append_left _ hinit
    · rw [List.mem_singleton.mp hlast]
      exact h

/-!
## Calls below the limit
-/

def Call.texts : Call -> List Text
  | Call.pathExists t => [t]
  | Call.isfile t => [t]
  | Call.isdir t => [t]
  | Call.stat t => [t]
  | Call.getmtime t => [t]
  | Call.listdir t => [t]
  | Call.walk t => [t]
  | Call.openWrite t => [t]
  | Call.openRead t => [t]
  | Call.makedirs t => [t]
  | Call.rename src dst => [src, dst]
  | Call.remove t => [t]
  | _ => []

def Call.Fits (c : Call) : Prop := forall t, t ∈ c.texts -> Posix.Fits t

instance (c : Call) : Decidable c.Fits := by
  unfold Call.Fits
  infer_instance

/-- A call is refused exactly where one of its paths does not fit. -/
def nameLimit : Policy := fun _ c fault =>
  fault = if c.Fits then none else some Errno.ENAMETOOLONG

instance (fs : FileTree) (c : Call) (fault : Option Errno) :
    Decidable (nameLimit fs c fault) := by
  unfold nameLimit
  infer_instance

variable {fs fs' : FileTree}

theorem step_noFault {c : Call} {r : Call.Ret c}
    (h : (system nameLimit).machine.Step fs c r fs') (hc : c.Fits) :
    (system noFault).machine.Step fs c r fs' := by
  rcases h with ⟨ch, ⟨hfault, hdraw⟩, hexec⟩
  unfold nameLimit at hfault
  rw [if_pos hc] at hfault
  exact ⟨ch, ⟨hfault, hdraw⟩, hexec⟩

theorem runs_noFault {err α : Type} {p : Prog calls err α}
    {trace : List (Sigma calls.Ret)} {o : Except err α}
    (hrun : (system nameLimit).machine.Runs fs p trace o fs')
    (hfits : forall e, e ∈ trace -> Call.Fits e.1) :
    (system noFault).machine.Runs fs p trace o fs' :=
  hrun.imp fun e he _ _ hstep => step_noFault hstep (hfits e he)

theorem fits_of_opened {t : Text} {fd : Nat}
    (h : (system nameLimit).machine.Step fs (Call.openWrite t) (Except.ok fd)
      fs') : Fits t := by
  rcases h with ⟨ch, ⟨hfault, _⟩, hexec⟩
  by_contra hlong
  have hc : ¬ (Call.openWrite t).Fits := fun h => hlong (h t (by simp [Call.texts]))
  unfold nameLimit at hfault
  rw [if_neg hc] at hfault
  have hopened : exec ch (Call.openWrite t) fs = (Except.ok fd, fs') := hexec
  unfold exec openWriteAt at hopened
  rw [hfault] at hopened
  cases hopened

end Posix
