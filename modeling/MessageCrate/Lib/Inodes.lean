import Mathlib.Logic.Function.Basic
import Mathlib.Order.MinMax

/- A file system in which names and files are apart: a name stands for a file, several may stand
   for one, and a program that has opened a file goes on writing to it under whatever name it has
   by then.

   1. `create`, `writeAt`, `remove`, `rename` and `link` are the operations; `read` is what stands
      under a name.
   2. `Own` is a name whose file has no other name, and `OnlyAt` a change to such a name: nothing
      else reads differently (`OnlyAt.read`), and another name that was alone with its file still
      is (`OnlyAt.own_of_ne`). The first three operations are such changes. -/
namespace Inodes

/-- Names for files, and the files' bytes. -/
structure Disk (Path : Type) where
  names : Path → Option Nat
  data : Nat → List UInt8
  next : Nat
  fresh : ∀ p file, names p = some file → file < next

namespace Disk

section names
variable {Path : Type}

def read (d : Disk Path) (p : Path) : Option (List UInt8) := (d.names p).map d.data

/-- The file of that name, or a new one. -/
def fileAt (d : Disk Path) (p : Path) : Nat := (d.names p).getD d.next

/-- A file's bytes after `bytes` are written `offset` bytes into it. -/
def overwritten (old : List UInt8) (offset : Nat) (bytes : List UInt8) : List UInt8 :=
  old.take offset ++ List.replicate (offset - old.length) 0 ++ bytes ++
    old.drop (offset + bytes.length)

def writeAt (d : Disk Path) (file offset : Nat) (bytes : List UInt8) : Disk Path :=
  { d with data := Function.update d.data file (overwritten (d.data file) offset bytes) }

/-! Names that share no file. -/

/-- The file named `p` has no other name. -/
def Own (d : Disk Path) (p : Path) : Prop :=
  ∀ file, d.names p = some file → ∀ q, d.names q = some file → q = p

/-- A change to what stands under `p`, which is then alone with its file. -/
structure OnlyAt (p : Path) (d d' : Disk Path) : Prop where
  names : ∀ q, q ≠ p → d'.names q = d.names q
  data : ∀ q file, q ≠ p → d.names q = some file → d'.data file = d.data file
  own : d'.Own p

variable {d d' : Disk Path} {p q : Path} {file offset : Nat} {bytes : List UInt8}

theorem OnlyAt.refl (h : d.Own p) : OnlyAt p d d := ⟨fun _ _ => rfl, fun _ _ _ _ => rfl, h⟩

theorem read_congr (hnames : d'.names q = d.names q)
    (hdata : ∀ file, d.names q = some file → d'.data file = d.data file) : d'.read q = d.read q := by
  rw [Disk.read, Disk.read, hnames]
  cases hname : d.names q with
  | none => rfl
  | some file => rw [Option.map_some, Option.map_some, hdata file hname]

/-- Nothing else reads differently. -/
theorem OnlyAt.read (h : OnlyAt p d d') (hq : q ≠ p) : d'.read q = d.read q :=
  read_congr (h.names q hq) fun file => h.data q file hq

theorem OnlyAt.trans {d'' : Disk Path} (h : OnlyAt p d d') (h' : OnlyAt p d' d'') :
    OnlyAt p d d'' where
  names q hq := (h'.names q hq).trans (h.names q hq)
  data q file hq hname := by
    have hname' : d'.names q = some file := (h.names q hq).trans hname
    exact (h'.data q file hq hname').trans (h.data q file hq hname)
  own := h'.own

theorem OnlyAt.own_of_ne (h : OnlyAt p d d') (hown : d.Own q) (hq : q ≠ p) : d'.Own q := by
  intro file hfile r hr
  by_cases hrp : r = p
  · subst hrp
    exact absurd (h.own file hr q hfile) hq
  · rw [h.names q hq] at hfile
    rw [h.names r hrp] at hr
    exact hown file hfile r hr

/-- No other name stands for the file that is opened. -/
theorem fileAt_ne (hown : d.Own p) (hq : q ≠ p) (hname : d.names q = some file) :
    file ≠ d.fileAt p := by
  rw [fileAt]
  cases hp : d.names p with
  | none =>
    have hlt := d.fresh q file hname
    rw [Option.getD_none]
    omega
  | some g =>
    rw [Option.getD_some]
    intro heq
    subst heq
    exact hq (hown file hp q hname)

theorem onlyAt_writeAt (hown : d.Own p) (hp : d.names p = some file) :
    OnlyAt p d (d.writeAt file offset bytes) where
  names _ _ := rfl
  data q g hq hname := by
    apply Function.update_of_ne
    intro heq
    subst heq
    exact hq (hown g hp q hname)
  own := hown

theorem data_writeAt_self :
    (d.writeAt file offset bytes).data file = overwritten (d.data file) offset bytes :=
  Function.update_self ..

/-- A file that is written at its end grows. -/
theorem data_writeAt (h : (d.data file).length = offset) :
    (d.writeAt file offset bytes).data file = d.data file ++ bytes := by
  rw [data_writeAt_self, overwritten, List.take_of_length_le (by omega), h, Nat.sub_self,
    List.replicate_zero, List.append_nil, List.drop_eq_nil_of_le (by omega), List.append_nil]

end names

section changes
variable {Path : Type} [DecidableEq Path]

/-- Open a file for writing: the file of that name, emptied, or a new one. -/
def create (d : Disk Path) (p : Path) : Disk Path where
  names := Function.update d.names p (some (d.fileAt p))
  data := Function.update d.data (d.fileAt p) []
  next := max d.next (d.fileAt p + 1)
  fresh := by
    intro q file hq
    by_cases hqp : q = p
    · subst hqp
      rw [Function.update_self] at hq
      cases hq
      omega
    · rw [Function.update_of_ne hqp] at hq
      have hlt := d.fresh q file hq
      omega

def remove (d : Disk Path) (p : Path) : Disk Path where
  names := Function.update d.names p none
  data := d.data
  next := d.next
  fresh := by
    intro q file hq
    by_cases hqp : q = p
    · subst hqp
      rw [Function.update_self] at hq
      cases hq
    · rw [Function.update_of_ne hqp] at hq
      exact d.fresh q file hq

/-- The file named `src` is named `dst` from here on, in the place of the one that was. -/
def rename (d : Disk Path) (src dst : Path) : Disk Path where
  names := Function.update (Function.update d.names dst (d.names src)) src none
  data := d.data
  next := d.next
  fresh := by
    intro q file hq
    by_cases hsrc : q = src
    · subst hsrc
      rw [Function.update_self] at hq
      cases hq
    rw [Function.update_of_ne hsrc] at hq
    by_cases hdst : q = dst
    · subst hdst
      rw [Function.update_self] at hq
      exact d.fresh src file hq
    · rw [Function.update_of_ne hdst] at hq
      exact d.fresh q file hq

/-- `dst` stands for the file named `src` too. -/
def link (d : Disk Path) (src dst : Path) : Disk Path where
  names := Function.update d.names dst (d.names src)
  data := d.data
  next := d.next
  fresh := by
    intro q file hq
    by_cases hdst : q = dst
    · subst hdst
      rw [Function.update_self] at hq
      exact d.fresh src file hq
    · rw [Function.update_of_ne hdst] at hq
      exact d.fresh q file hq

variable {d : Disk Path} {p q src dst : Path} {file : Nat}

theorem names_create : (d.create p).names p = some (d.fileAt p) := Function.update_self ..

theorem names_create_of_ne (hq : q ≠ p) : (d.create p).names q = d.names q :=
  Function.update_of_ne hq _ _

theorem data_create : (d.create p).data (d.fileAt p) = [] := Function.update_self ..

theorem onlyAt_create (hown : d.Own p) : OnlyAt p d (d.create p) where
  names _ hq := names_create_of_ne hq
  data q file hq hname := Function.update_of_ne (fileAt_ne hown hq hname) _ _
  own := by
    intro file hfile q hq
    by_contra hqp
    rw [names_create] at hfile
    rw [names_create_of_ne hqp] at hq
    exact fileAt_ne hown hqp hq (Option.some.inj hfile).symm

theorem names_remove : (d.remove p).names p = none := Function.update_self ..

theorem onlyAt_remove : OnlyAt p d (d.remove p) where
  names _ hq := Function.update_of_ne hq _ _
  data _ _ _ _ := rfl
  own := by
    intro file hfile
    rw [names_remove] at hfile
    cases hfile

theorem names_rename (hsrc : q ≠ src) (hdst : q ≠ dst) :
    (d.rename src dst).names q = d.names q := by
  show Function.update (Function.update d.names dst (d.names src)) src none q = _
  rw [Function.update_of_ne hsrc, Function.update_of_ne hdst]

theorem names_rename_src : (d.rename src dst).names src = none := Function.update_self ..

theorem names_rename_dst (h : dst ≠ src) : (d.rename src dst).names dst = d.names src := by
  show Function.update (Function.update d.names dst (d.names src)) src none dst = _
  rw [Function.update_of_ne h, Function.update_self]

theorem read_rename (hsrc : q ≠ src) (hdst : q ≠ dst) : (d.rename src dst).read q = d.read q :=
  read_congr (names_rename hsrc hdst) fun _ _ => rfl

theorem read_rename_dst (h : dst ≠ src) : (d.rename src dst).read dst = d.read src := by
  rw [Disk.read, names_rename_dst h]
  rfl

/-- Another name that was alone with its file still is. -/
theorem own_rename (hown : d.Own p) (hsrc : p ≠ src) (hdst : p ≠ dst) :
    (d.rename src dst).Own p := by
  intro file hfile q hq
  rw [names_rename hsrc hdst] at hfile
  by_cases hqs : q = src
  · subst hqs
    rw [names_rename_src] at hq
    cases hq
  by_cases hqd : q = dst
  · subst hqd
    rw [names_rename_dst hqs] at hq
    exact absurd (hown file hfile src hq).symm hsrc
  · rw [names_rename hqs hqd] at hq
    exact hown file hfile q hq

theorem names_link_dst : (d.link src dst).names dst = d.names src := Function.update_self ..

theorem names_link (hdst : q ≠ dst) : (d.link src dst).names q = d.names q :=
  Function.update_of_ne hdst _ _

theorem read_link (hdst : q ≠ dst) : (d.link src dst).read q = d.read q :=
  read_congr (names_link hdst) fun _ _ => rfl

theorem read_link_dst : (d.link src dst).read dst = d.read src := by
  rw [Disk.read, names_link_dst]
  rfl

theorem own_link (hown : d.Own p) (hsrc : p ≠ src) (hdst : p ≠ dst) : (d.link src dst).Own p := by
  intro file hfile q hq
  rw [names_link hdst] at hfile
  by_cases hqd : q = dst
  · subst hqd
    rw [names_link_dst] at hq
    exact absurd (hown file hfile src hq).symm hsrc
  · rw [names_link hqd] at hq
    exact hown file hfile q hq

theorem own_rename_src : (d.rename src dst).Own src := by
  intro file hfile
  rw [names_rename_src] at hfile
  cases hfile

end changes

end Disk

end Inodes
