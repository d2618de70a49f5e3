import StorybookStorage.Store.Upkeep

/-!
# What a fault-free call answers

On a kept tree `head` and `put` are functions of the two places of the slot and
of the way to the object.
-/

namespace StorybookStorage

open Python Posix Effects Contract

variable {settings : Settings} (d : LocalFsBlobDriver) (slot : Slot settings)

/-- The etag `head` knows of a stored body.  It is recomputed where there is no
sidecar, up to a size. -/
def knownEtag (fs : FileTree) (b : Bytes) : Text :=
  if (storedSidecar d slot fs).isNone = true ∧ etagFallbackMaxBytes < b.length then
    []
  else
    d.platform.sha256.digest b

inductive HeadAnswer (fs : FileTree) :
    Except Exn (Option ObjectInfo) -> Prop where
  | absent :
      storedObject d slot fs = none ->
      HeadAnswer fs (Except.ok none)
  | present (b : Bytes) (info : ObjectInfo) :
      storedObject d slot fs = some b ->
      info.bytes = b.length ->
      info.etag = Json.str (knownEtag d slot fs b) ->
      HeadAnswer fs (Except.ok (some info))

inductive Hindered (fs : FileTree) (data : Data) : Prop where
  | source :
      data.ending ≠ none ->
      Hindered fs data
  | directory :
      fs.node (slot.objectLoc d.root) = some Node.dir ->
      Hindered fs data
  | file (q : Path) (b : Bytes) :
      q <+: (slot.objectLoc d.root).dropLast ->
      fs.content q = some b ->
      Hindered fs data

def Vacant (fs : FileTree) (ifNoneMatch : Option Text) : Prop :=
  ifNoneMatch = some (text "*") -> fs.node (slot.objectLoc d.root) = none

inductive PutAnswer (fs : FileTree) (data : Data) (ifNoneMatch : Option Text) :
    Except Exn PutResult -> Prop where
  | directory :
      ifNoneMatch = some (text "*") ->
      fs.node (slot.objectLoc d.root) = some Node.dir ->
      PutAnswer fs data ifNoneMatch (Except.ok (LocalFsBlobDriver.dedupResult none))
  | object (b : Bytes) :
      ifNoneMatch = some (text "*") ->
      storedObject d slot fs = some b ->
      PutAnswer fs data ifNoneMatch
        (Except.ok
          { etag := Json.str (knownEtag d slot fs b)
            bytes := b.length
            deduped := true })
  | refused (e : Exn) :
      Vacant d slot fs ifNoneMatch ->
      Hindered d slot fs data ->
      PutAnswer fs data ifNoneMatch (Except.error e)
  | stored :
      Vacant d slot fs ifNoneMatch ->
      ¬ Hindered d slot fs data ->
      PutAnswer fs data ifNoneMatch (Except.ok (storedResult d data))

variable {d slot} {fs fs' : FileTree}

theorem solo_steady : ¬ (solo d False).Faulty := fun h => solo_faulty.mp h

theorem storedObject_eq_none
    (h : forall b, (staging d.root).view fs (slot.objectLoc d.root) ≠
      some (Entry.file b)) : storedObject d slot fs = none := by
  rw [← fileAt_object]
  exact fileAt_eq_none.mpr h

theorem knownEtag_of_sidecar {raw b : Bytes}
    (h : storedSidecar d slot fs = some raw) :
    knownEtag d slot fs b = d.platform.sha256.digest b := by
  unfold knownEtag
  rw [h, if_neg (fun hno => nomatch hno.left)]

theorem Kempt.head_answer {o : Except Exn (Option ObjectInfo)}
    (hkempt : Kempt d settings fs)
    (h : Heads d slot (solo d False) Eq ((staging d.root).view fs) o) :
    HeadAnswer d slot fs o := by
  cases h with
  | absent v1 h1 hreason =>
      cases h1
      rcases hreason with hf | hno
      · exact absurd hf solo_steady
      · exact HeadAnswer.absent (storedObject_eq_none hno)
  | recorded st v1 v2 raw j h1 _ _ h2 hraw hback _ =>
      cases h1
      cases h2
      have hside := (view_storedSidecar d slot).mp hraw
      rcases hkempt.described slot raw hside with
        ⟨b, hb, record, rfl, hbytes, hetag⟩
      rw [readBack_recordBytes] at hback
      cases hback
      apply HeadAnswer.present b _ hb
      · exact congrArg Int.ofNat hbytes
      · rw [knownEtag_of_sidecar hside]
        exact congrArg Json.str hetag
  | unreadable v1 v2 raw e h1 h2 hraw hback =>
      cases h1
      cases h2
      rcases hkempt.described slot raw ((view_storedSidecar d slot).mp hraw) with
        ⟨b, hb, record, rfl, _⟩
      rw [readBack_recordBytes] at hback
      cases hback
  | fallback st v1 v2 v3 etag h1 hthere hsize h2 hno h3 hetag =>
      cases h1
      cases h2
      cases h3
      rcases hthere with ⟨b, hb⟩
      have hobject := (view_storedObject d slot).mp hb
      have hlen := hsize b hb
      have hbare : storedSidecar d slot fs = none := by
        rw [Option.eq_none_iff_forall_ne_some]
        intro raw hraw
        rcases hkempt.described slot raw hraw with ⟨_, _, record, rfl, _⟩
        rcases hno with hf | hno
        · exact solo_steady hf
        · have hfalse := hno _ _ ((view_storedSidecar d slot).mpr hraw)
            (readBack_recordBytes d record)
          rw [truthy_record] at hfalse
          cases hfalse
      apply HeadAnswer.present b _ hobject
      · exact congrArg Int.ofNat hlen
      · apply congrArg Json.str
        unfold knownEtag
        rw [hbare]
        rcases hetag with ⟨hsmall, b', hb', rfl⟩ | ⟨rfl, hbig | hf | hno⟩
        · rw [hb] at hb'
          cases hb'
          rw [if_neg (by omega)]
        · rw [if_pos ⟨rfl, by omega⟩]
        · exact absurd hf solo_steady
        · exact absurd hb (hno b)

theorem Hindered.of_view {data : Data} {q : Path} {b : Bytes}
    (hq : q <+: (slot.objectLoc d.root).dropLast)
    (hb : (staging d.root).view fs q = some (Entry.file b)) :
    Hindered d slot fs data := by
  have hvisible := slot.visible_of_prefix_objectLoc
    (hq.trans (List.dropLast_prefix _))
  exact Hindered.file q b hq ((view_of_content hvisible).mp hb)

theorem Kempt.refused {data : Data} {e : Exn} (hkempt : Kempt d settings fs)
    (h : Refused (solo d False) Eq d.root (slot.objectLoc d.root)
      (asAiter data) ((staging d.root).view fs) e) :
    Hindered d slot fs data := by
  cases h with
  | source e he =>
      rw [asAiter_ending] at he
      exact Hindered.source (by rw [he]; simp)
  | device n hf =>
      rcases hf with hf | hs
      · exact absurd hf solo_steady
      · exact absurd hs id
  | unstaged n u v0 v1 h0 _ h1 _ hdir =>
      cases h0
      cases h1
      rcases hdir with hdir | hno
      · exact absurd (Staging.view_dir.mp hdir) (hkempt.clean u)
      · exact absurd (Staging.view_dir.mpr hkempt.tmp) hno
  | blocked n v1 q b h1 hq hb =>
      cases h1
      exact Hindered.of_view hq hb
  | occupied n v1 v2 v3 h1 hwidens h3 hdir =>
      cases h1
      cases h3
      rw [widens_off hwidens
        (Slot.not_prefix_dropLast (slot.objectLoc_ne_nil d.root))] at hdir
      exact Hindered.directory (Staging.view_dir.mp hdir)

section Put

variable {data : Data} {contentType : Text} {ifNoneMatch : Option Text}
  {metadata : Option Metadata} {o : Except Exn PutResult}
  {trace : List (Sigma calls.Ret)}

theorem Stored.unhindered {faults : Prop} {seen : List Sight}
    (hsound : fs'.Sound) (hend : data.ending = none)
    (hnodir : fs.node (slot.objectLoc d.root) ≠ some Node.dir)
    (h : Stored d faults slot data.body ((staging d.root).view fs)
      ((staging d.root).view fs') seen) : ¬ Hindered d slot fs data := by
  intro hhindered
  cases hhindered with
  | source hraises => exact hraises hend
  | directory hdir => exact hnodir hdir
  | file q b hq hb =>
      have hloc := hq.trans (List.dropLast_prefix _)
      have hvisible := slot.visible_of_prefix_objectLoc hloc
      have hobject : q ≠ slot.objectLoc d.root := by
        intro heq
        subst heq
        exact Slot.not_prefix_dropLast (slot.objectLoc_ne_nil d.root) hq
      have hsidecar : q ≠ slot.sidecarLoc d.root := by
        intro heq
        subst heq
        exact slot.sidecarLoc_not_below_objectLoc d.root slot hloc
      have hbefore := fileAt_eq_some.mpr ((view_of_content hvisible).mpr hb)
      have hafter : fileAt ((staging d.root).view fs') q = some b := by
        rw [← hbefore]
        cases h with
        | recorded raw _ hfiles =>
            rw [hfiles, Function.update_of_ne hsidecar,
              Function.update_of_ne hobject]
        | unrecorded _ _ _ hfiles =>
            rw [hfiles, Function.update_of_ne hobject]
      rcases Staging.view_file.mp (fileAt_eq_some.mp h.own) with ⟨_, i, hi, _⟩
      have hparent := hsound.parent _ (slot.objectLoc_ne_nil d.root)
        (by rw [hi]; simp)
      have hfile := fileAt_eq_some.mp hafter
      rw [Staging.view_dir.mpr (hsound.dir_of_prefix hparent hq)] at hfile
      cases hfile

theorem Kempt.put_answer (hkempt : Kempt d settings fs)
    (hrun : (system noFault).machine.Runs fs
      (d.put slot.bucket slot.key data contentType ifNoneMatch metadata)
      trace o fs') :
    PutAnswer d slot fs data ifNoneMatch o := by
  rcases put_runs solo_noFault hkempt.sound hrun with ⟨hsound', heffect⟩
  have hfiles := heffect.files (housed_of_sound hkempt.sound)
  have hvacant : (ifNoneMatch = some (text "*") ->
      (staging d.root).view fs (slot.objectLoc d.root) = none ∨ False) ->
      Vacant d slot fs ifNoneMatch := by
    intro h hcond
    exact Staging.node_none_of_view (slot.visible_objectLoc d.root)
      ((h hcond).resolve_right id)
  generalize (staging d.root).view fs' = after at heffect
  generalize sights trace = seen at heffect
  cases heffect with
  | met info more hcond hthere hheads _ =>
      cases hkempt.head_answer hheads with
      | absent hnone =>
          apply PutAnswer.directory hcond
          rcases Option.ne_none_iff_exists'.mp hthere with ⟨entry, hentry⟩
          cases entry with
          | dir => exact Staging.view_dir.mp hentry
          | file b =>
              rw [(view_storedObject d slot).mp hentry] at hnone
              cases hnone
      | present b info hb hbytes hetag =>
          have hanswer : PutAnswer d slot fs data ifNoneMatch _ :=
            PutAnswer.object b hcond hb
          rw [← hbytes, ← hetag] at hanswer
          exact hanswer
  | refused e v' more hcond hrefused _ _ =>
      exact PutAnswer.refused e (hvacant hcond) (hkempt.refused hrefused)
  | stored v1 v' more hcond hend hwidens hnodir _ =>
      apply PutAnswer.stored (hvacant hcond)
      rcases hfiles with ⟨hdeduped, _⟩ | ⟨_, hstored⟩
      · cases hdeduped _ rfl
      · apply hstored.unhindered hsound' hend
        intro hdir
        rw [widens_off hwidens (Slot.not_prefix_dropLast
          (slot.objectLoc_ne_nil d.root))] at hnodir
        exact hnodir (Staging.view_dir.mpr hdir)

end Put

end StorybookStorage
