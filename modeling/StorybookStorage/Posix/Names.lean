import StorybookStorage.Posix.Directories
import StorybookStorage.Posix.Realpath
import StorybookStorage.Posix.Undisturbed

/-!
# Names of entries

Whatever is called, every name in a tree is the name of an entry: not empty, not
a dot segment and without a slash.  So what a directory lists can be joined to
its path.
-/

namespace Posix

open Python FileTree

def Proper (fs : FileTree) : Prop :=
  forall p n, fs.node p = some n -> forall seg, seg ∈ p -> Plain seg

variable {ch : Choice} {fs fs' : FileTree}

theorem Proper.exec {c : Call} {r : Call.Ret c} (h : Proper fs)
    (hexec : exec ch c fs = (r, fs')) : Proper fs' := by
  intro p n hp seg hseg
  cases n with
  | dir =>
      rcases exec_dir_old hexec hp with hold | ⟨t, _, hpre⟩
      · exact h p _ hold seg hseg
      · exact plain_of_mem_resolve (hpre.subset hseg)
  | file i =>
      rcases exec_file hexec hp with hold | hplaced
      · exact h p _ hold seg hseg
      · have hname := placesFile_names hplaced
        cases c with
        | openWrite t =>
            rw [List.mem_singleton.mp hname] at hseg
            exact plain_of_mem_resolve hseg
        | rename src dst =>
            rcases List.mem_cons.mp hname with hsrc | hdst
            · rw [hsrc] at hseg
              exact plain_of_mem_resolve hseg
            · rw [List.mem_singleton.mp hdst] at hseg
              exact plain_of_mem_resolve hseg
        | _ => cases hplaced

theorem Proper.mkdirs (h : Proper fs) (t : Text) (limit : Nat) :
    Proper (fs.mkdirs [] (resolve t) limit) := by
  intro p n hp seg hseg
  cases hn : fs.node p with
  | some m => exact h p m hn seg hseg
  | none =>
      rcases @node_mkdirs_of_none fs [] p (resolve t) limit hn with
        hnone | ⟨_, hpre⟩
      · rw [hp] at hnone
        cases hnone
      · exact plain_of_mem_resolve (hpre.subset hseg)

end Posix
