import StorybookStorage.Python.Str

/-!
# Path texts and the places they name

A path is a text; the place it names is a list of component names.  The text
operations are those of `posixpath`.  `resolve` walks a path text lexically, so
it is the meaning of a path on a tree without symbolic links; a relative text is
walked from the working directory, which is the origin here.
-/

namespace Posix

open Python

abbrev Path := List Text

/-- One component of a walk: empty and dot components stay, dot-dot goes up. -/
def walk (at_ : Path) (seg : Text) : Path :=
  if seg = [] ∨ seg = text "." then at_
  else if seg = text ".." then at_.dropLast
  else at_ ++ [seg]

def resolve (t : Text) : Path :=
  (t.splitOn '/').foldl walk []

/-- `os.path.realpath`, without symbolic links. -/
def realpath (t : Text) : Text :=
  '/' :: ['/'].intercalate (resolve t)

def join (a b : Text) : Text :=
  if b.head? = some '/' then b
  else if a = [] ∨ a.getLast? = some '/' then a ++ b
  else a ++ '/' :: b

def dirname (t : Text) : Text :=
  let head := t.rdropWhile (fun c => decide (c ≠ '/'))
  if head.all (fun c => decide (c = '/')) then head
  else head.rdropWhile (fun c => decide (c = '/'))

/-- `os.path.splitext`: the name splits at its last dot, unless nothing but dots
comes before that. -/
def splitext (t : Text) : Text × Text :=
  let name := afterLast '/' t
  let ext := afterLast '.' name
  let stem := name.take (name.length - (ext.length + 1))
  if stem.any (fun c => decide (c ≠ '.')) then
    (t.take (t.length - (ext.length + 1)), '.' :: ext)
  else
    (t, [])

/-- The components from one place to another: up, then down. -/
def relative : Path -> Path -> Path
  | [], path => path
  | a :: start, [] => (a :: start).map (fun _ => text "..")
  | a :: start, b :: path =>
      if a = b then
        relative start path
      else
        (a :: start).map (fun _ => text "..") ++ b :: path

def relpath (t start : Text) : Text :=
  let parts := relative (resolve start) (resolve t)
  if parts = [] then text "." else ['/'].intercalate parts

/-- A component that names an entry of the directory it is looked up in. -/
def Plain (seg : Text) : Prop :=
  seg ≠ [] ∧ seg ≠ text "." ∧ seg ≠ text ".." ∧ '/' ∉ seg

instance (seg : Text) : Decidable (Plain seg) := by
  unfold Plain
  infer_instance

/-!
## Splitting at slashes
-/

theorem not_mem_of_mem_splitOn {t seg : Text} (h : seg ∈ t.splitOn '/') :
    '/' ∉ seg := by
  induction t generalizing seg with
  | nil =>
      have hseg : seg = [] := by simpa using h
      simp [hseg]
  | cons c rest ih =>
      rw [List.splitOn_cons_eq_if_modifyHead] at h
      by_cases hc : c = '/'
      · rw [if_pos (by simpa using hc)] at h
        rcases List.mem_cons.mp h with hnil | hrest
        · simp [hnil]
        · exact ih hrest
      · rw [if_neg (by simpa using hc)] at h
        rcases hsplit : rest.splitOn '/' with _ | ⟨first, others⟩
        · exact absurd hsplit (List.splitOn_ne_nil '/' rest)
        · rw [hsplit] at h
          rcases List.mem_cons.mp h with hhead | htail
          · rw [hhead]
            have hfirst : '/' ∉ first := ih (by rw [hsplit]; simp)
            simp only [List.mem_cons, not_or]
            exact ⟨fun hcc => hc hcc.symm, hfirst⟩
          · exact ih (by rw [hsplit]; simp [htail])

theorem mem_of_mem_splitOn {t seg : Text} {c : Char}
    (h : seg ∈ t.splitOn '/') (hc : c ∈ seg) : c ∈ t := by
  induction t generalizing seg with
  | nil =>
      have hseg : seg = [] := by simpa using h
      rw [hseg] at hc
      exact hc
  | cons x rest ih =>
      rw [List.splitOn_cons_eq_if_modifyHead] at h
      by_cases hx : x = '/'
      · rw [if_pos (by simpa using hx)] at h
        rcases List.mem_cons.mp h with rfl | hrest
        · cases hc
        · exact List.mem_cons_of_mem _ (ih hrest hc)
      · rw [if_neg (by simpa using hx)] at h
        rcases hsplit : rest.splitOn '/' with _ | ⟨first, others⟩
        · exact absurd hsplit (List.splitOn_ne_nil '/' rest)
        · rw [hsplit] at h
          rcases List.mem_cons.mp h with rfl | hothers
          · rcases List.mem_cons.mp hc with rfl | hfirst
            · exact List.mem_cons_self
            · exact List.mem_cons_of_mem _ (ih (by rw [hsplit]; simp) hfirst)
          · exact List.mem_cons_of_mem _
              (ih (by rw [hsplit]; simp [hothers]) hc)

theorem exists_mem_splitOn {t : Text} {c : Char} (h : c ∈ t) :
    c = '/' ∨ exists seg, seg ∈ t.splitOn '/' ∧ c ∈ seg := by
  rw [or_iff_not_imp_left]
  intro hslash
  induction t with
  | nil => cases h
  | cons x rest ih =>
      rw [List.splitOn_cons_eq_if_modifyHead]
      by_cases hx : x = '/'
      · rw [if_pos (by simpa using hx)]
        rcases List.mem_cons.mp h with hcx | hrest
        · exact absurd (hcx.trans hx) hslash
        · rcases ih hrest with ⟨seg, hseg, hc⟩
          exact ⟨seg, List.mem_cons_of_mem _ hseg, hc⟩
      · rw [if_neg (by simpa using hx)]
        rcases hsplit : rest.splitOn '/' with _ | ⟨first, others⟩
        · exact absurd hsplit (List.splitOn_ne_nil '/' rest)
        · rcases List.mem_cons.mp h with rfl | hrest
          · exact ⟨c :: first, List.mem_cons_self, List.mem_cons_self⟩
          · rcases ih hrest with ⟨seg, hseg, hc⟩
            rw [hsplit] at hseg
            rcases List.mem_cons.mp hseg with rfl | hothers
            · exact ⟨x :: seg, List.mem_cons_self, List.mem_cons_of_mem _ hc⟩
            · exact ⟨seg, List.mem_cons_of_mem _ hothers, hc⟩

theorem splitOn_append_of_not_mem {t suffix last : Text} {init : List Text}
    (h : t.splitOn '/' = init ++ [last]) (hsuffix : '/' ∉ suffix) :
    (t ++ suffix).splitOn '/' = init ++ [last ++ suffix] := by
  induction t generalizing init last with
  | nil =>
      rw [List.splitOn_nil] at h
      cases init with
      | nil =>
          have hlast : last = [] := by simpa using h.symm
          simp [hlast, List.splitOn_eq_singleton hsuffix]
      | cons first others => simp at h
  | cons c rest ih =>
      rw [List.splitOn_cons_eq_if_modifyHead] at h
      rw [List.cons_append, List.splitOn_cons_eq_if_modifyHead]
      by_cases hc : (c == '/') = true
      · rw [if_pos hc] at h ⊢
        cases init with
        | nil =>
            have hnil : rest.splitOn '/' = [] := by simpa using (List.cons.inj h).right
            exact absurd hnil (List.splitOn_ne_nil '/' rest)
        | cons first others =>
            rcases List.cons.inj h with ⟨hfirst, hothers⟩
            rw [ih hothers, ← hfirst]
            rfl
      · rw [if_neg hc] at h ⊢
        rcases hsplit : rest.splitOn '/' with _ | ⟨first, others⟩
        · exact absurd hsplit (List.splitOn_ne_nil '/' rest)
        · rw [hsplit] at h
          cases init with
          | nil =>
              rcases List.cons.inj h with ⟨hlast, hothers⟩
              have hone : rest.splitOn '/' = [] ++ [first] := by
                rw [hsplit, hothers]
                rfl
              rw [ih hone, ← hlast]
              rfl
          | cons head others' =>
              rcases List.cons.inj h with ⟨hhead, hothers⟩
              have hmore : rest.splitOn '/' = (first :: others') ++ [last] := by
                rw [hsplit, hothers]
                rfl
              rw [ih hmore, ← hhead]
              rfl

theorem splitOn_injective {a b : Text} (h : a.splitOn '/' = b.splitOn '/') :
    a = b := by
  calc
    a = ['/'].intercalate (a.splitOn '/') := by rw [List.intercalate_splitOn]
    _ = ['/'].intercalate (b.splitOn '/') := by rw [h]
    _ = b := by rw [List.intercalate_splitOn]

/-- The segments of a text begin with those of another where the text does, up
to a slash. -/
theorem splitOn_prefix_iff {a b : Text} :
    a.splitOn '/' <+: b.splitOn '/' <-> a = b ∨ a ++ ['/'] <+: b := by
  constructor
  · intro h
    rcases h with ⟨rest, hrest⟩
    by_cases hnil : rest = []
    · rw [hnil, List.append_nil] at hrest
      exact Or.inl (splitOn_injective hrest)
    · have hplain : forall seg, seg ∈ rest -> '/' ∉ seg := by
        intro seg hseg
        apply not_mem_of_mem_splitOn (t := b)
        rw [← hrest]
        exact List.mem_append_right _ hseg
      have hsegments : (a ++ '/' :: ['/'].intercalate rest).splitOn '/' =
          b.splitOn '/' := by
        rw [List.splitOn_append_cons_self,
          List.splitOn_intercalate '/' hplain hnil, hrest]
      refine Or.inr ⟨['/'].intercalate rest, ?_⟩
      rw [← splitOn_injective hsegments]
      simp
  · intro h
    rcases h with rfl | ⟨rest, rfl⟩
    · exact List.prefix_rfl
    · rw [List.append_assoc, List.singleton_append,
        List.splitOn_append_cons_self]
      exact List.prefix_append _ _

theorem intercalate_concat {init : List Text} (h : init ≠ []) (last : Text) :
    ['/'].intercalate (init ++ [last]) =
      ['/'].intercalate init ++ ['/'] ++ last := by
  induction init with
  | nil => exact absurd rfl h
  | cons first others ih =>
      cases others with
      | nil => simp [List.intercalate_cons_cons]
      | cons second more =>
          have hrest := ih (List.cons_ne_nil second more)
          rw [List.cons_append, List.cons_append, List.intercalate_cons_cons,
            List.intercalate_cons_cons, ← List.cons_append, hrest]
          simp only [List.append_assoc]

theorem exists_splitOn_eq_concat (t : Text) :
    exists (init : List Text) (last : Text), t.splitOn '/' = init ++ [last] := by
  refine ⟨(t.splitOn '/').dropLast,
    (t.splitOn '/').getLast (List.splitOn_ne_nil '/' t), ?_⟩
  exact (List.dropLast_append_getLast _).symm

/-!
## Walking joined paths
-/

theorem walk_plain {at_ : Path} {seg : Text} (h : Plain seg) :
    walk at_ seg = at_ ++ [seg] := by
  rcases h with ⟨hnil, hdot, hdotdot, _⟩
  simp [walk, hnil, hdot, hdotdot]

@[simp] theorem walk_nil (at_ : Path) : walk at_ [] = at_ := by
  simp [walk]

theorem foldl_walk_plain {segs : List Text} (h : forall seg, seg ∈ segs -> Plain seg)
    (at_ : Path) : segs.foldl walk at_ = at_ ++ segs := by
  induction segs generalizing at_ with
  | nil => simp
  | cons seg rest ih =>
      rw [List.foldl_cons, walk_plain (h seg (by simp)),
        ih (fun s hs => h s (by simp [hs]))]
      simp

theorem resolve_snoc_slash (t : Text) : resolve (t ++ ['/']) = resolve t := by
  unfold resolve
  rw [List.splitOn_append_cons_self]
  simp

theorem resolve_append_slash (a b : Text) :
    resolve (a ++ '/' :: b) = (b.splitOn '/').foldl walk (resolve a) := by
  unfold resolve
  rw [List.splitOn_append_cons_self, List.foldl_append]

theorem resolve_join {a b : Text} (hb : b.head? ≠ some '/') :
    resolve (join a b) = (b.splitOn '/').foldl walk (resolve a) := by
  unfold join
  rw [if_neg hb]
  by_cases ha : a = []
  · subst ha
    rfl
  · by_cases hlast : a.getLast? = some '/'
    · rw [if_pos (Or.inr hlast)]
      rcases List.getLast?_eq_some_iff.mp hlast with ⟨front, rfl⟩
      rw [List.append_assoc, List.singleton_append, resolve_append_slash,
        resolve_snoc_slash]
    · rw [if_neg (by simp [ha, hlast])]
      exact resolve_append_slash a b

theorem head_ne_slash_of_plain {t : Text}
    (h : forall seg, seg ∈ t.splitOn '/' -> Plain seg) : t.head? ≠ some '/' := by
  intro hhead
  cases t with
  | nil => cases hhead
  | cons c rest =>
      have hc : c = '/' := by simpa using hhead
      have hmem : ([] : Text) ∈ (c :: rest).splitOn '/' := by
        rw [List.splitOn_cons_eq_if_modifyHead, if_pos (by simpa using hc)]
        simp
      exact (h [] hmem).left rfl

theorem resolve_join_plain {a b : Text}
    (h : forall seg, seg ∈ b.splitOn '/' -> Plain seg) :
    resolve (join a b) = resolve a ++ b.splitOn '/' := by
  rw [resolve_join (head_ne_slash_of_plain h), foldl_walk_plain h]

theorem resolve_join_single {a seg : Text} (h : Plain seg) :
    resolve (join a seg) = resolve a ++ [seg] := by
  have hsplit : seg.splitOn '/' = [seg] :=
    List.splitOn_eq_singleton h.right.right.right
  rw [resolve_join_plain (by simpa [hsplit] using h), hsplit]

theorem relative_append (start path : Path) :
    relative start (start ++ path) = path := by
  induction start with
  | nil => rfl
  | cons a start ih =>
      rw [List.cons_append, relative, if_pos rfl]
      exact ih

theorem relpath_join {a b : Text}
    (h : forall seg, seg ∈ b.splitOn '/' -> Plain seg) :
    relpath (join a b) a = b := by
  unfold relpath
  rw [resolve_join_plain h, relative_append]
  dsimp only
  rw [if_neg (List.splitOn_ne_nil '/' b), List.intercalate_splitOn]

/-- A text that a separator is put after. -/
def Open (t : Text) : Prop := t ≠ [] ∧ t.getLast? ≠ some '/'

theorem join_open {a b : Text} (ha : Open a) (hb : b.head? ≠ some '/') :
    join a b = a ++ '/' :: b := by
  unfold join
  rw [if_neg hb, if_neg (not_or.mpr ha)]

theorem open_join_plain {a seg : Text} (hseg : Plain seg) :
    Open (join a seg) := by
  rcases hseg with ⟨hnil, _, _, hslash⟩
  rcases List.eq_nil_or_concat seg with rfl | ⟨front, c, rfl⟩
  · exact absurd rfl hnil
  have hc : c ≠ '/' := by
    intro heq
    subst heq
    exact hslash (by simp)
  have hhead : (front.concat c).head? ≠ some '/' := by
    intro hhead
    exact hslash (List.mem_of_mem_head? hhead)
  unfold join Open
  rw [if_neg hhead]
  split
  · simp [hc]
  · simp [List.getLast?_append, List.getLast?_cons, hc]

theorem head_ne_slash_of_plain_seg {seg : Text} (h : Plain seg) (rest : Text) :
    (seg ++ rest).head? ≠ some '/' := by
  rcases h with ⟨hnil, _, _, hslash⟩
  cases seg with
  | nil => exact absurd rfl hnil
  | cons c more =>
      intro hhead
      exact hslash (by simp [Option.some.inj hhead])

theorem foldl_join {a : Text} (ha : Open a) {segs : List Text}
    (hsegs : segs ≠ []) (h : forall seg, seg ∈ segs -> Plain seg) :
    segs.foldl join a = join a (['/'].intercalate segs) := by
  induction segs generalizing a with
  | nil => exact absurd rfl hsegs
  | cons seg rest ih =>
      have hseg : Plain seg := h seg List.mem_cons_self
      cases rest with
      | nil => rw [List.intercalate_singleton]; rfl
      | cons second more =>
          have hrest : forall s, s ∈ second :: more -> Plain s :=
            fun s hs => h s (List.mem_cons_of_mem seg hs)
          have hsecond : (['/'].intercalate (second :: more)).head? ≠
              some '/' := by
            cases more with
            | nil =>
                simpa using head_ne_slash_of_plain_seg (hrest second (by simp)) []
            | cons third others =>
                rw [List.intercalate_cons_cons, List.append_assoc]
                exact head_ne_slash_of_plain_seg (hrest second (by simp)) _
          rw [List.foldl_cons, ih (open_join_plain hseg) (by simp) hrest,
            List.intercalate_cons_cons, join_open (open_join_plain hseg) hsecond,
            join_open ha (by simpa using head_ne_slash_of_plain_seg hseg []),
            join_open ha (by
              rw [List.append_assoc]
              exact head_ne_slash_of_plain_seg hseg _)]
          simp

/-!
## Parent directories
-/

theorem resolve_rdropWhile_slash (t : Text) :
    resolve (t.rdropWhile (fun c => decide (c = '/'))) = resolve t := by
  induction t using List.reverseRecOn with
  | nil => rfl
  | append_singleton front c ih =>
      rw [List.rdropWhile_concat]
      by_cases hc : c = '/'
      · rw [if_pos (by simpa using hc), ih, hc, resolve_snoc_slash]
      · rw [if_neg (by simpa using hc)]

theorem resolve_dirname {t last : Text} {init : List Text}
    (h : t.splitOn '/' = init ++ [last]) (hlast : Plain last) :
    resolve (dirname t) = (resolve t).dropLast := by
  have hresolve : resolve t = init.foldl walk [] ++ [last] := by
    unfold resolve
    rw [h, List.foldl_append, List.foldl_cons, List.foldl_nil, walk_plain hlast]
  have hhead :
      resolve (t.rdropWhile (fun c => decide (c ≠ '/'))) =
        init.foldl walk [] := by
    have hkeep :
        forall (pre : Text), pre = [] ∨ pre.getLast? = some '/' ->
          (pre ++ last).rdropWhile (fun c => decide (c ≠ '/')) = pre := by
      intro pre hpre
      have hdrop : forall (l : Text), '/' ∉ l ->
          (pre ++ l).rdropWhile (fun c => decide (c ≠ '/')) =
            pre.rdropWhile (fun c => decide (c ≠ '/')) := by
        intro l hl
        induction l using List.reverseRecOn with
        | nil => simp
        | append_singleton front c ih =>
            have hc : c ≠ '/' := fun hcc => hl (by simp [hcc])
            rw [← List.append_assoc, List.rdropWhile_concat_pos _ _ _ (by simpa using hc)]
            exact ih (fun hmem => hl (by simp [hmem]))
      rw [hdrop last hlast.right.right.right, List.rdropWhile_eq_self_iff]
      intro hne
      rcases hpre with hnil | hslash
      · exact absurd hnil hne
      · have hget := List.getLast?_eq_some_getLast hne
        rw [hslash] at hget
        simp [← Option.some.inj hget]
    have ht : t = ['/'].intercalate (init ++ [last]) := by
      rw [← h, List.intercalate_splitOn]
    rcases List.eq_nil_or_concat init with hinit | ⟨front, seg, hinit⟩
    · subst hinit
      have hone : t = [] ++ last := by simpa using ht
      rw [hone, hkeep [] (Or.inl rfl)]
      rfl
    · have hsplit : t = ['/'].intercalate init ++ ['/'] ++ last := by
        rw [ht, intercalate_concat (by simp [hinit])]
      rw [hsplit, hkeep _ (Or.inr (by simp)), resolve_snoc_slash]
      unfold resolve
      rw [List.splitOn_intercalate '/' ?_ (by simp [hinit])]
      intro seg' hseg'
      exact not_mem_of_mem_splitOn (t := t) (by rw [h]; simp [hseg'])
  rw [hresolve, List.dropLast_concat, ← hhead]
  unfold dirname
  simp only
  split
  · rfl
  · exact resolve_rdropWhile_slash _

end Posix
