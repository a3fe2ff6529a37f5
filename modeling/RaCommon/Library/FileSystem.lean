import Mathlib.Data.List.Basic
import Mathlib.Data.List.Induction
import Mathlib.Logic.Function.Iterate
import Mathlib.Tactic.Common

set_option relaxedAutoImplicit false
set_option autoImplicit false

/-!
# File systems

Pathnames, what a file system says of them, and `mkdir`. A program that makes directories is
verified against any file system that behaves as POSIX says; the trees of files and directories
are one.

## Main definitions

* `FileSystem.Path` — a pathname, as its components.
* `FileSystem`, `FileSystem.Posix` — a file system, and what POSIX says of `mkdir`.
* `FileSystem.Path.OnPath` — the pathname, the directory that it is in, and so on.
* `FileSystem.GoesThrough`, `FileSystem.made` — where `mkdir` goes through, and what it leaves.
* `FileSystem.Tree` — a file system as a tree of files and directories.

## Main results

* `FileSystem.Posix.kind_of_onPath` — whatever is there is in directories, all the way up.
* `FileSystem.Posix.mkdir_of_goesThrough`, `FileSystem.Posix.mkdir_of_not_goesThrough` — what
  `mkdir` does.
* `FileSystem.Posix.kind_made` — what is there afterwards.
* `FileSystem.Tree.posix` — the trees behave as POSIX says.
-/

namespace FileSystem

/-! ## Pathnames -/

/-- A component of a pathname. -/
abbrev Name := List UInt8

/-- A pathname: whether it begins with a slash, and its components. The empty pathname is the
relative one without components. -/
structure Path where
  absolute : Bool
  parts : List Name
  deriving DecidableEq, Repr

namespace Path

/-- The pathname in some bytes. Several slashes are as good as one, and a slash at the end does not
matter. -/
def ofBytes (s : List UInt8) : Path := ⟨s.head? = some 47, (s.splitOn 47).filter (· ≠ [])⟩

/-- The directory that a pathname is in: `.` for a single name. -/
def parent (p : Path) : Path :=
  if p.absolute = false ∧ p.parts.length = 1 then ⟨false, [[46]]⟩
  else ⟨p.absolute, p.parts.dropLast⟩

/-- A pathname is on another's path when it is the same or on the path of the directory that the
other is in. -/
def OnPath (q p : Path) : Prop := ∃ n, q = parent^[n] p

/-- A pathname is on its own path. -/
lemma OnPath.refl (p : Path) : OnPath p p := ⟨0, rfl⟩

/-- **A pathname with more components behind it** has the pathname on its path. -/
theorem onPath_append {absolute : Bool} {parts : List Name} (h : absolute = true ∨ parts ≠ [])
    (more : List Name) : OnPath ⟨absolute, parts⟩ ⟨absolute, parts ++ more⟩ := by
  induction more using List.reverseRecOn with
  | nil =>
    rw [List.append_nil]
    exact .refl _
  | append_singleton more n ih =>
    obtain ⟨k, hk⟩ := ih
    refine ⟨k + 1, ?_⟩
    rw [Function.iterate_succ_apply, hk]
    congr 1
    have hlong : ¬(absolute = false ∧ (parts ++ (more ++ [n])).length = 1) := by
      rintro ⟨hrel, hlen⟩
      rcases h with habs | hne
      · rw [habs] at hrel
        cases hrel
      · have hpos := List.length_pos_of_ne_nil hne
        simp only [List.length_append, List.length_cons, List.length_nil] at hlen
        omega
    rw [parent, if_neg hlong, ← List.append_assoc, List.dropLast_concat]

/-- **A pathname with a slash and more behind it** has the pathname on its path. -/
theorem onPath_ofBytes {s : List UInt8} (h : s ≠ []) (more : List UInt8) :
    OnPath (ofBytes s) (ofBytes (s ++ 47 :: more)) := by
  obtain ⟨c, t, rfl⟩ := List.exists_cons_of_ne_nil h
  have hparts : c = 47 ∨ ((c :: t).splitOn 47).filter (· ≠ []) ≠ [] := by
    by_cases hc : c = 47
    · exact .inl hc
    · obtain ⟨piece, pieces, ht⟩ := List.exists_cons_of_ne_nil (List.splitOn_ne_nil 47 t)
      exact .inr (by simp [List.splitOn_cons_eq_if_modifyHead, hc, ht])
  rw [ofBytes, ofBytes, List.splitOn_append_cons_self, List.filter_append]
  exact onPath_append (hparts.imp_left fun hc => by simp [hc]) _

end Path

/-! ## File systems -/

/-- What is at a pathname: a directory, or something else, as a link that leads nowhere. -/
inductive Kind where
  | directory
  | other
  deriving DecidableEq, Repr

/-- An error number: `EEXIST`, or another one. -/
inductive Errno where
  | eexist
  | other (code : ℕ)
  deriving DecidableEq, Repr

end FileSystem

open FileSystem in
/-- A file system: what is at a pathname, where it is permitted to create something, what a new
directory makes of it, and `mkdir`. -/
structure FileSystem (σ : Type) where
  kind : σ → Path → Option Kind
  Permits : σ → Path → Prop
  create : Path → σ → σ
  mkdir : Path → σ → Except Errno Unit × σ

namespace FileSystem

variable {σ : Type}

/-- What POSIX says of pathnames and of `mkdir`: whatever is there is in a directory; `mkdir` fails
with `EEXIST` where something is there, and fails otherwise where the directory to make something in
is not one or it is not permitted; elsewhere it creates a directory. What was permitted is so
still. -/
structure Posix (F : FileSystem σ) : Prop where
  kind_parent {s : σ} {p : Path} {k : Kind} :
    F.kind s p = some k → F.kind s p.parent = some .directory
  mkdir_of_kind {s : σ} {p : Path} {k : Kind} :
    F.kind s p = some k → F.mkdir p s = (.error .eexist, s)
  mkdir_of_parent {s : σ} {p : Path} :
    F.kind s p = none → F.kind s p.parent ≠ some .directory →
      ∃ code, F.mkdir p s = (.error (.other code), s)
  mkdir_of_not_permits {s : σ} {p : Path} :
    F.kind s p = none → ¬F.Permits s p → ∃ code, F.mkdir p s = (.error (.other code), s)
  mkdir_of_permits {s : σ} {p : Path} :
    F.kind s p = none → F.kind s p.parent = some .directory → F.Permits s p →
      F.mkdir p s = (.ok (), F.create p s)
  kind_create {s : σ} {p : Path} :
    F.kind s p = none → F.kind s p.parent = some .directory →
      F.kind (F.create p s) p = some .directory
  permits_create {s : σ} {p q : Path} : F.Permits s q → F.Permits (F.create p s) q

/-- `mkdir` goes through where something is there already, and where a directory can be made. -/
def GoesThrough (F : FileSystem σ) (s : σ) (p : Path) : Prop :=
  F.kind s p ≠ none ∨ F.kind s p.parent = some .directory ∧ F.Permits s p

/-- The file system once something is at a pathname: a new directory, if nothing is there yet. -/
def made (F : FileSystem σ) (p : Path) (s : σ) : σ :=
  match F.kind s p with
  | none => F.create p s
  | some _ => s

namespace Posix

variable {F : FileSystem σ}

/-- **Whatever is there is in directories, all the way up.** -/
theorem kind_of_onPath (hF : F.Posix) {s : σ} {p q : Path} (hq : q.OnPath p)
    (hp : F.kind s p = some .directory) : F.kind s q = some .directory := by
  obtain ⟨n, rfl⟩ := hq
  induction n with
  | zero => exact hp
  | succ n ih =>
    rw [Function.iterate_succ_apply']
    exact hF.kind_parent ih

/-- Where `mkdir` goes through, there is a directory to make something in. -/
lemma kind_parent_of_goesThrough (hF : F.Posix) {s : σ} {p : Path} (h : F.GoesThrough s p) :
    F.kind s p.parent = some .directory := by
  rcases h with hkind | ⟨hparent, -⟩
  · obtain ⟨k, hk⟩ := Option.ne_none_iff_exists'.mp hkind
    exact hF.kind_parent hk
  · exact hparent

/-- **Where `mkdir` goes through**, it makes a directory or fails with `EEXIST`. -/
theorem mkdir_of_goesThrough (hF : F.Posix) {s : σ} {p : Path} (h : F.GoesThrough s p) :
    F.mkdir p s = (.ok (), F.made p s) ∨ F.mkdir p s = (.error .eexist, F.made p s) := by
  rw [made]
  cases hkind : F.kind s p with
  | some k => exact .inr (hF.mkdir_of_kind hkind)
  | none =>
    obtain ⟨hparent, hpermits⟩ := h.resolve_left (not_not.mpr hkind)
    exact .inl (hF.mkdir_of_permits hkind hparent hpermits)

/-- **Elsewhere** it fails otherwise. -/
theorem mkdir_of_not_goesThrough (hF : F.Posix) {s : σ} {p : Path} (h : ¬F.GoesThrough s p) :
    ∃ code, F.mkdir p s = (.error (.other code), s) := by
  obtain ⟨hkind, hmake⟩ := not_or.mp h
  have hnone : F.kind s p = none := not_not.mp hkind
  by_cases hparent : F.kind s p.parent = some .directory
  · exact hF.mkdir_of_not_permits hnone fun hpermits => hmake ⟨hparent, hpermits⟩
  · exact hF.mkdir_of_parent hnone hparent

/-- **What is there afterwards**: a directory, unless something else was there before. -/
theorem kind_made (hF : F.Posix) {s : σ} {p : Path} (h : F.GoesThrough s p) :
    F.kind (F.made p s) p = some .directory ↔ F.kind s p ≠ some .other := by
  rw [made]
  cases hkind : F.kind s p with
  | some k => cases k <;> simp [hkind]
  | none =>
    obtain ⟨hparent, -⟩ := h.resolve_left (not_not.mpr hkind)
    simp [hF.kind_create hkind hparent]

/-- What was permitted is so still. -/
lemma permits_made (hF : F.Posix) {s : σ} {p q : Path} (h : F.Permits s q) :
    F.Permits (F.made p s) q := by
  rw [made]
  split
  · exact hF.permits_create h
  · exact h

end Posix

/-! ## Trees -/

/-- The names from something up to the root, the root being the empty list. -/
abbrev Location := List Name

/-- A tree of files and directories, without links, and the working directory in it: whatever is
there is in a directory. -/
structure Tree where
  kind : Location → Option Kind
  root : kind [] = some .directory
  parent : ∀ n l, kind (n :: l) ≠ none → kind l = some .directory
  cwd : Location
  kind_cwd : kind cwd = some .directory

namespace Tree

/-- Where a component leads from a directory. -/
def next (l : Location) (n : Name) : Location :=
  if n = [46] then l else if n = [46, 46] then l.tail else n :: l

/-- Where some components lead, if each of them is looked up in a directory. -/
def walk (t : Tree) : Location → List Name → Option Location
  | l, [] => some l
  | l, n :: ns => if t.kind l = some .directory then t.walk (next l n) ns else none

/-- Where a pathname begins. -/
def start (t : Tree) (absolute : Bool) : Location := if absolute then [] else t.cwd

/-- The place that a pathname names, whether something is there or not. -/
def place (t : Tree) (p : Path) : Option Location :=
  if p.absolute = false ∧ p.parts = [] then none else t.walk (t.start p.absolute) p.parts

/-- What is at a pathname. -/
def kindAt (t : Tree) (p : Path) : Option Kind := (t.place p).bind t.kind

/-- A new directory in a directory. -/
def create (t : Tree) (n : Name) (l : Location) (h : t.kind l = some .directory) : Tree where
  kind m := if m = n :: l then some .directory else t.kind m
  root := t.root
  parent := by
    intro n' m hm
    split
    · rfl
    · by_cases heq : n' :: m = n :: l
      · obtain ⟨-, rfl⟩ := List.cons.inj heq
        exact h
      · rw [if_neg heq] at hm
        exact t.parent n' m hm
  cwd := t.cwd
  kind_cwd := by
    split
    · rfl
    · exact t.kind_cwd

/-- A new directory at a pathname, if the pathname leads to a name in a directory. -/
def createAt (p : Path) (t : Tree) : Tree :=
  match t.place p with
  | some (n :: l) => if h : t.kind l = some .directory then t.create n l h else t
  | _ => t

/-- `mkdir`: `ENOENT` where there is no directory to make something in, `EEXIST` where something is
there, and a new directory elsewhere. -/
def mkdir (p : Path) (t : Tree) : Except Errno Unit × Tree :=
  match t.place p with
  | none => (.error (.other 2), t)
  | some l => if t.kind l = none then (.ok (), t.createAt p) else (.error .eexist, t)

/-- The trees as a file system in which everything is permitted. -/
def fileSystem : FileSystem Tree where
  kind := kindAt
  Permits _ _ := True
  create := createAt
  mkdir := mkdir

/-- Components one after the other. -/
lemma walk_concat (t : Tree) (l : Location) (ns : List Name) (n : Name) :
    t.walk l (ns ++ [n]) = (t.walk l ns).bind fun l' =>
      if t.kind l' = some .directory then some (next l' n) else none := by
  induction ns generalizing l with
  | nil => rfl
  | cons n' ns ih =>
    rw [List.cons_append, walk, walk, ih]
    split
    · rfl
    · rfl

/-- The directory that a directory is in is a directory; the root is in itself. -/
lemma kind_tail {t : Tree} {l : Location} (h : t.kind l = some .directory) :
    t.kind l.tail = some .directory := by
  cases l with
  | nil => exact h
  | cons n l => exact t.parent n l (by simp [h])

/-- A pathname begins in a directory. -/
lemma kind_start (t : Tree) (absolute : Bool) : t.kind (t.start absolute) = some .directory := by
  cases absolute with
  | false => exact t.kind_cwd
  | true => exact t.root

/-- The place of a pathname with a last component. -/
lemma place_concat (t : Tree) (absolute : Bool) (ns : List Name) (n : Name) :
    t.place ⟨absolute, ns ++ [n]⟩ = (t.walk (t.start absolute) ns).bind fun l =>
      if t.kind l = some .directory then some (next l n) else none := by
  rw [place, if_neg (by simp), walk_concat]

/-- What is at the directory that a pathname with a last component is in. -/
lemma kindAt_parent_concat (t : Tree) (absolute : Bool) (ns : List Name) (n : Name) :
    t.kindAt (Path.parent ⟨absolute, ns ++ [n]⟩) =
      (t.walk (t.start absolute) ns).bind t.kind := by
  by_cases hsingle : absolute = false ∧ ns = []
  · obtain ⟨rfl, rfl⟩ := hsingle
    have hstart := t.kind_start false
    simp [Path.parent, kindAt, place, walk, next, hstart]
  · have hlong : ¬(absolute = false ∧ (ns ++ [n]).length = 1) := by
      simpa using hsingle
    rw [Path.parent, if_neg hlong, List.dropLast_concat, kindAt, place, if_neg hsingle]

/-- **A pathname leads somewhere** exactly when it is in a directory. -/
theorem place_ne_none_iff {t : Tree} {p : Path} :
    t.place p ≠ none ↔ t.kindAt p.parent = some .directory := by
  obtain ⟨absolute, parts⟩ := p
  induction parts using List.reverseRecOn with
  | nil =>
    cases absolute with
    | false => simp [Path.parent, kindAt, place]
    | true => simp [Path.parent, kindAt, place, walk, start, t.root]
  | append_singleton ns n _ =>
    rw [place_concat, kindAt_parent_concat]
    cases t.walk (t.start absolute) ns with
    | none => simp
    | some l => simp

/-- Where nothing is, a pathname leads to a name in a directory. -/
lemma eq_cons_of_place {t : Tree} {p : Path} {l : Location} (h : t.place p = some l)
    (hkind : t.kind l = none) : ∃ n l', l = n :: l' ∧ t.kind l' = some .directory := by
  obtain ⟨absolute, parts⟩ := p
  induction parts using List.reverseRecOn with
  | nil =>
    have hstart := t.kind_start absolute
    rw [place] at h
    split at h
    · cases h
    · obtain rfl := Option.some.inj h
      rw [hstart] at hkind
      cases hkind
  | append_singleton ns n _ =>
    rw [place_concat, Option.bind_eq_some_iff] at h
    obtain ⟨l', -, hl⟩ := h
    split at hl
    · next hdir =>
      obtain rfl := Option.some.inj hl
      unfold next at hkind ⊢
      split at hkind
      · rw [hdir] at hkind
        cases hkind
      · split at hkind
        · rw [kind_tail hdir] at hkind
          cases hkind
        · next hdot hdots => exact ⟨n, l', by rw [if_neg hdot, if_neg hdots], hdir⟩
    · cases hl

/-- A new directory is a directory. -/
lemma kind_create_self (t : Tree) (n : Name) (l : Location) (h : t.kind l = some .directory) :
    (t.create n l h).kind (n :: l) = some .directory := if_pos rfl

/-- What was there stays. -/
lemma kind_create {t : Tree} {n : Name} {l : Location} (h : t.kind l = some .directory)
    (hnone : t.kind (n :: l) = none) {m : Location} {k : Kind} (hm : t.kind m = some k) :
    (t.create n l h).kind m = some k := by
  have hne : m ≠ n :: l := by
    rintro rfl
    rw [hnone] at hm
    cases hm
  exact (if_neg hne).trans hm

/-- The pathnames that led somewhere lead to the same place. -/
lemma place_create {t : Tree} {n : Name} {l : Location} (h : t.kind l = some .directory)
    (hnone : t.kind (n :: l) = none) {p : Path} {m : Location} (hp : t.place p = some m) :
    (t.create n l h).place p = some m := by
  have hwalk : ∀ (ns : List Name) (l' : Location), t.walk l' ns = some m →
      (t.create n l h).walk l' ns = some m := by
    intro ns
    induction ns with
    | nil => exact fun _ hw => hw
    | cons n' ns ih =>
      intro l' hw
      rw [walk] at hw ⊢
      split at hw
      · next hdir => rw [if_pos (kind_create h hnone hdir), ih _ hw]
      · cases hw
  rw [place] at hp ⊢
  split at hp
  · cases hp
  · next hne => rw [if_neg hne]; exact hwalk _ _ hp

/-- **Where a directory can be made**, and what is made there. -/
theorem exists_create {t : Tree} {p : Path} (hkind : t.kindAt p = none)
    (hparent : t.kindAt p.parent = some .directory) : ∃ n l h, t.place p = some (n :: l) ∧
      t.kind (n :: l) = none ∧ t.createAt p = t.create n l h := by
  obtain ⟨m, hplace⟩ := Option.ne_none_iff_exists'.mp (place_ne_none_iff.mpr hparent)
  have hnone : t.kind m = none := by
    rwa [kindAt, hplace] at hkind
  obtain ⟨n, l, rfl, hdir⟩ := eq_cons_of_place hplace hnone
  exact ⟨n, l, hdir, hplace, hnone, by simp [createAt, hplace, hdir]⟩

/-- **The trees behave as POSIX says.** -/
theorem posix : fileSystem.Posix where
  kind_parent {t p k} h := by
    have hkind : t.kindAt p = some k := h
    refine place_ne_none_iff.mp fun hnone => ?_
    simp [kindAt, hnone] at hkind
  mkdir_of_kind {t p k} h := by
    obtain ⟨l, hplace, hl⟩ := Option.bind_eq_some_iff.mp h
    simp [fileSystem, mkdir, hplace, hl]
  mkdir_of_parent {t p} _ hparent := by
    have hplace : t.place p = none := not_not.mp fun hne => hparent (place_ne_none_iff.mp hne)
    exact ⟨2, by simp [fileSystem, mkdir, hplace]⟩
  mkdir_of_not_permits _ hpermits := absurd trivial hpermits
  mkdir_of_permits {t p} hkind hparent _ := by
    obtain ⟨n, l, h, hplace, hnone, -⟩ := exists_create hkind hparent
    simp [fileSystem, mkdir, hplace, hnone]
  kind_create {t p} hkind hparent := by
    obtain ⟨n, l, h, hplace, hnone, hcreate⟩ := exists_create hkind hparent
    change (t.createAt p).kindAt p = some .directory
    rw [hcreate, kindAt, place_create h hnone hplace, Option.bind_some, kind_create_self]
  permits_create := id

end Tree

end FileSystem
