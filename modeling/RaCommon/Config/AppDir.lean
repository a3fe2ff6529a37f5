import RaCommon.Library.FileSystem
import RaCommon.Runtime.Outcome

set_option relaxedAutoImplicit false
set_option autoImplicit false

/-!
# Directories of applications (`config.hpp`)

`AppDir` names the directory of an application under a base directory and a group, and makes it if
asked to, in the way of `mkdir -p`.

## Main definitions

* `RaCommon.SystemSettings.appDir` — the name of the directory, which is made if asked to.
* `RaCommon.SystemSettings.MakesAppDir` — making it, as `mkdir -p` would.

## Main results

* `RaCommon.SystemSettings.appDir_eq` — what is made.
* `RaCommon.SystemSettings.makesAppDir_iff` — when the directory is made as `mkdir -p` would.
-/

namespace RaCommon.SystemSettings

open FileSystem

variable {σ : Type}

/-! ## Making the directory -/

/-- `c_str()`: a system call reads the text up to the first null character. -/
def cString (s : Str) : Str := s.takeWhile (· ≠ 0)

/-- The loop of `AppDir` over the segments below `accum`. -/
def makeSegments (F : FileSystem σ) (dir : Str) : Str → List Str → σ → Outcome Unit × σ
  | _, [], s => (.ok (), s)
  | accum, seg :: segs, s =>
    let accum := accum ++ str "/" ++ seg
    match F.mkdir (.ofBytes (cString accum)) s with
    | (.ok (), s) => makeSegments F dir accum segs s
    | (.error .eexist, s) => makeSegments F dir accum segs s
    | (.error (.other _), s) =>
      (.error (.ra (.of .fileCreationFailed (dir ++ str ": could not create " ++ accum))), s)

/-- `AppDir`. -/
def appDir (F : FileSystem σ) (base group app : Str) (create : Bool) (s : σ) : Outcome Str × σ :=
  let dir := base ++ str "/" ++ group ++ str "/" ++ app
  if create then
    match makeSegments F dir base [group, app] s with
    | (.ok (), s) => (.ok dir, s)
    | (.error e, s) => (.error e, s)
  else (.ok dir, s)

/-- The pathname of `base/group`. -/
def groupPath (base group : Str) : Path := .ofBytes (cString (base ++ str "/" ++ group))

/-- The pathname of `base/group/app`. -/
def appPath (base group app : Str) : Path :=
  .ofBytes (cString (base ++ str "/" ++ group ++ str "/" ++ app))

/-- What a system call reads of two texts joined by a slash. -/
lemma cString_append (s t : Str) : cString (s ++ str "/" ++ t) = cString s ∨
    cString s = s ∧ cString (s ++ str "/" ++ t) = s ++ 47 :: cString t := by
  have hslash : cString (str "/" ++ t) = 47 :: cString t := by
    rw [cString, cString, show str "/" = [47] from rfl, List.singleton_append,
      List.takeWhile_cons_of_pos (by decide)]
  rw [List.append_assoc, cString, List.takeWhile_append]
  split
  · next hlen =>
    refine .inr ⟨?_, congrArg (s ++ ·) hslash⟩
    exact (List.takeWhile_prefix _).eq_of_length hlen
  · exact .inl rfl

/-- `base/group` is on the path of `base/group/app`. -/
lemma groupPath_onPath (base group app : Str) :
    (groupPath base group).OnPath (appPath base group app) := by
  have hne : base ++ str "/" ++ group ≠ [] := by
    rw [show str "/" = [47] from rfl]
    simp
  rw [groupPath, appPath]
  rcases cString_append (base ++ str "/" ++ group) app with heq | ⟨hgroup, happ⟩
  · rw [heq]
    exact .refl _
  · rw [hgroup, happ]
    exact Path.onPath_ofBytes hne _

/-- A segment whose `mkdir` goes through. -/
lemma makeSegments_of_goesThrough {F : FileSystem σ} (hF : F.Posix) {dir accum seg : Str} {s : σ}
    (h : F.GoesThrough s (.ofBytes (cString (accum ++ str "/" ++ seg)))) (segs : List Str) :
    makeSegments F dir accum (seg :: segs) s =
      makeSegments F dir (accum ++ str "/" ++ seg) segs
        (F.made (.ofBytes (cString (accum ++ str "/" ++ seg))) s) := by
  rw [makeSegments]
  rcases hF.mkdir_of_goesThrough h with hres | hres
  · simp only [hres]
  · simp only [hres]

/-- A segment whose `mkdir` does not go through ends the loop. -/
lemma goesThrough_of_makeSegments {F : FileSystem σ} (hF : F.Posix) {dir accum seg : Str}
    {segs : List Str} {s : σ} (h : (makeSegments F dir accum (seg :: segs) s).1 = .ok ()) :
    F.GoesThrough s (.ofBytes (cString (accum ++ str "/" ++ seg))) := by
  by_contra hnot
  obtain ⟨code, hres⟩ := hF.mkdir_of_not_goesThrough hnot
  simp only [makeSegments, hres] at h
  cases h

/-- **What is made**: `base/group` and then `base/group/app`, when both calls of `mkdir` go
through. -/
theorem appDir_eq {F : FileSystem σ} (hF : F.Posix) {base group app : Str} {s : σ}
    (hgroup : F.GoesThrough s (groupPath base group))
    (happ : F.GoesThrough (F.made (groupPath base group) s) (appPath base group app)) :
    appDir F base group app true s = (.ok (base ++ str "/" ++ group ++ str "/" ++ app),
      F.made (appPath base group app) (F.made (groupPath base group) s)) := by
  rw [groupPath] at hgroup
  rw [appPath, groupPath] at happ
  rw [appDir, if_pos rfl, makeSegments_of_goesThrough hF hgroup,
    makeSegments_of_goesThrough hF happ, makeSegments, appPath, groupPath]

/-- When the call returns, both calls of `mkdir` went through. -/
lemma goesThrough_of_appDir {F : FileSystem σ} (hF : F.Posix) {base group app dir : Str} {s : σ}
    (h : (appDir F base group app true s).1 = .ok dir) :
    F.GoesThrough s (groupPath base group) ∧
      F.GoesThrough (F.made (groupPath base group) s) (appPath base group app) := by
  have hloop : (makeSegments F (base ++ str "/" ++ group ++ str "/" ++ app) base [group, app] s).1 =
      .ok () := by
    rw [appDir, if_pos rfl] at h
    split at h
    · next hres => rw [hres]
    · cases h
  have hgroup := goesThrough_of_makeSegments hF hloop
  rw [makeSegments_of_goesThrough hF hgroup] at hloop
  exact ⟨hgroup, goesThrough_of_makeSegments hF hloop⟩

/-! ## Making it as `mkdir -p` would -/

/-- Nothing but directories is there on the path of a pathname. -/
def Clear (F : FileSystem σ) (s : σ) (p : Path) : Prop :=
  ∀ q, q.OnPath p → F.kind s q ≠ some .other

/-- It is permitted to create whatever is on the path of a pathname. -/
def Permitted (F : FileSystem σ) (s : σ) (p : Path) : Prop := ∀ q, q.OnPath p → F.Permits s q

/-- The directory is made: if nothing else is on its path and it is permitted, the call returns, and
the directory is there, with every directory that it is in; and whenever the call returns, the
directory is there. -/
def MakesAppDir (F : FileSystem σ) (base group app : Str) (s : σ) : Prop :=
  (Clear F s (appPath base group app) → Permitted F s (appPath base group app) →
    (∃ dir, (appDir F base group app true s).1 = .ok dir) ∧
      ∀ q, q.OnPath (appPath base group app) →
        F.kind (appDir F base group app true s).2 q = some .directory) ∧
  ∀ dir, (appDir F base group app true s).1 = .ok dir →
    F.kind (appDir F base group app true s).2 (appPath base group app) = some .directory

/-- The directories to make something in are there: the one that `base/group` is in and, once
`base/group` is there, the one that `base/group/app` is in. -/
def ParentsThere (F : FileSystem σ) (base group app : Str) (s : σ) : Prop :=
  F.kind s (groupPath base group).parent = some .directory ∧
    F.kind (F.made (groupPath base group) s) (appPath base group app).parent = some .directory

/-- **When the directory is made as `mkdir -p` would**: unless something is in the way or it is not
permitted, the directory that `base/group` is in is there and, once `base/group` is there, the one
that `base/group/app` is in; and if `base/group` is there or can be made, then nothing but a
directory is at `base/group/app` once it is there.

**Proof sketch.** The call returns exactly when both calls of `mkdir` go through, which they do only
when there is a directory to make something in, and then do if it is permitted. The second one also
goes through when something else is there already: that is when the call returns without a directory
(`Posix.kind_made`). -/
theorem makesAppDir_iff {F : FileSystem σ} (hF : F.Posix) (base group app : Str) (s : σ) :
    MakesAppDir F base group app s ↔
      (Clear F s (appPath base group app) → Permitted F s (appPath base group app) →
        ParentsThere F base group app s) ∧
      (F.GoesThrough s (groupPath base group) →
        F.kind (F.made (groupPath base group) s) (appPath base group app) ≠ some .other) := by
  have honPath := groupPath_onPath base group app
  constructor
  · rintro ⟨hmakes, hreturns⟩
    constructor
    · intro hclear hpermitted
      obtain ⟨⟨dir, hdir⟩, -⟩ := hmakes hclear hpermitted
      obtain ⟨hgroup, happ⟩ := goesThrough_of_appDir hF hdir
      exact ⟨hF.kind_parent_of_goesThrough hgroup, hF.kind_parent_of_goesThrough happ⟩
    · intro hgroup hother
      -- Something else is there, so that the second call goes through, too.
      have happ : F.GoesThrough (F.made (groupPath base group) s) (appPath base group app) :=
        .inl (by rw [hother]; exact Option.some_ne_none _)
      have heq := appDir_eq hF hgroup happ
      have hthere := hreturns _ (by rw [heq])
      rw [heq, hF.kind_made happ] at hthere
      exact hthere hother
  · rintro ⟨hparents, hother⟩
    constructor
    · intro hclear hpermitted
      obtain ⟨hparent, hparent'⟩ := hparents hclear hpermitted
      have hgroup : F.GoesThrough s (groupPath base group) :=
        .inr ⟨hparent, hpermitted _ honPath⟩
      have happ : F.GoesThrough (F.made (groupPath base group) s) (appPath base group app) :=
        .inr ⟨hparent', hF.permits_made (hpermitted _ (.refl _))⟩
      rw [appDir_eq hF hgroup happ]
      exact ⟨⟨_, rfl⟩, fun q hq => hF.kind_of_onPath hq ((hF.kind_made happ).mpr (hother hgroup))⟩
    · intro dir hdir
      obtain ⟨hgroup, happ⟩ := goesThrough_of_appDir hF hdir
      rw [appDir_eq hF hgroup happ]
      exact (hF.kind_made happ).mpr (hother hgroup)

/-- A tree with nothing but its root. -/
def bare : Tree where
  kind l := if l = [] then some .directory else none
  root := rfl
  parent _ _ h := absurd rfl h
  cwd := []
  kind_cwd := rfl

/-- In a tree with nothing but its root, under the root. -/
theorem makesAppDir_iff_bare : MakesAppDir Tree.fileSystem [] (str "g") (str "a") bare := by
  refine (makesAppDir_iff Tree.posix [] (str "g") (str "a") bare).mpr
    ⟨fun _ _ => ⟨?_, ?_⟩, fun _ => ?_⟩
  · decide +kernel
  · decide +kernel
  · decide +kernel

/-- A base directory that is not there yet. -/
theorem appDir_missing_base :
    ¬ ∀ (base group app : Str) (t : Tree), MakesAppDir Tree.fileSystem base group app t := by
  intro hall
  have hclear : Clear Tree.fileSystem bare (appPath (str "/data") (str "g") (str "a")) := by
    intro q _ hother
    obtain ⟨l, -, hl⟩ := Option.bind_eq_some_iff.mp hother
    have hkind : (if l = [] then some Kind.directory else none) = some .other := hl
    split at hkind
    · cases hkind
    · cases hkind
  obtain ⟨⟨dir, hdir⟩, -⟩ := (hall (str "/data") (str "g") (str "a") bare).1 hclear
    fun _ _ => trivial
  have hgroup := Tree.posix.kind_parent_of_goesThrough (goesThrough_of_appDir Tree.posix hdir).1
  revert hgroup
  decide +kernel

end RaCommon.SystemSettings
