import Mathlib.Logic.Function.Basic
import X32PRos.Vfs.Fs

/-!
`initrd_node_from_file` of `core/fs/ext2_initrd.c`: the node of an ext2 inode. The
type is gathered with `&=` from zero, so every node is left without one, and no
directory is ever looked up in.
-/

namespace X32PRos

def ext2SIflnk : UInt16 := 0xA000

def ext2SIfreg : UInt16 := 0x8000

def ext2SIfblk : UInt16 := 0x6000

def ext2SIfdir : UInt16 := 0x4000

def ext2SIfchr : UInt16 := 0x2000

def ext2SIfifo : UInt16 := 0x1000

/-- What is read of an `ext2_inodetable_t`. -/
structure Ext2Inodetable where
  mode : UInt16
  uid : UInt16
  size : UInt32
  gid : UInt16

/-- What is read of an `ext2_dir_t`; the name is as long as `name_len` says. -/
structure Ext2Dir where
  inode : UInt32
  nameLen : UInt8
  name : Nat → UInt8

structure InitrdCode (H : Type) where
  readInitrd : H
  writeInitrd : H
  openInitrd : H
  closeInitrd : H
  readdirInitrd : H
  finddirInitrd : H

section Initrd

variable {ι H : Type}

def initrdFlags (mode : UInt16) : UInt32 :=
  let flags : UInt32 := 0
  let flags := if mode &&& ext2SIfreg ≠ 0 then flags &&& fsFile else flags
  let flags := if mode &&& ext2SIfdir ≠ 0 then flags &&& fsDirectory else flags
  let flags := if mode &&& ext2SIfblk ≠ 0 then flags &&& fsBlockdevice else flags
  let flags := if mode &&& ext2SIfchr ≠ 0 then flags &&& fsChardevice else flags
  let flags := if mode &&& ext2SIfifo ≠ 0 then flags &&& fsPipe else flags
  if mode &&& ext2SIflnk ≠ 0 then flags &&& fsSymlink else flags

def initrdName (direntry : Ext2Dir) (name : Fin 256 → UInt8) : Fin 256 → UInt8 := fun i =>
  if i.val < direntry.nameLen.toNat then direntry.name i.val
  else if i.val = direntry.nameLen.toNat then 0
  else name i

/-- The node behind `fnode` once it is filled in; `impl` and `ptr` stay as they are. -/
def FsNode.fromFile (code : InitrdCode H) (inode : Ext2Inodetable) (direntry : Ext2Dir)
    (node : FsNode ι H) : FsNode ι H :=
  { node with
    inode := direntry.inode
    name := initrdName direntry node.name
    uid := inode.uid.toUInt32
    gid := inode.gid.toUInt32
    length := inode.size
    mask := (inode.mode &&& 0xFFF).toUInt32
    flags := initrdFlags inode.mode
    read := some code.readInitrd
    write := some code.writeInitrd
    openNode := some code.openInitrd
    closeNode := some code.closeInitrd
    readdir := some code.readdirInitrd
    finddir := some code.finddirInitrd }

/-- Nothing is done with a null `fnode`. The result is never used, and there is none
unless `fnode` is null. -/
def initrdNodeFromFile [DecidableEq ι] (code : InitrdCode H) (inode : Ext2Inodetable)
    (direntry : Ext2Dir) (fnode : Option ι) (nodes : ι → FsNode ι H) : ι → FsNode ι H :=
  match fnode with
  | none => nodes
  | some fnode => Function.update nodes fnode ((nodes fnode).fromFile code inode direntry)

def ext2Types : List (UInt16 × UInt32) :=
  [(ext2SIfreg, fsFile), (ext2SIfdir, fsDirectory), (ext2SIfchr, fsChardevice),
    (ext2SIfblk, fsBlockdevice), (ext2SIfifo, fsPipe), (ext2SIflnk, fsSymlink)]

/-- The lookups of the driver are reached, if the node is to be a directory. -/
structure LookupsAgree (code : InitrdCode H) (nodes : ι → FsNode ι H) (fnode : ι)
    (kind : UInt32) : Prop where
  readdir : ∀ index, readdirFs nodes fnode index =
    .ok (.handler code.readdirInitrd (.readdirFs fnode index)) ↔ kind = fsDirectory
  finddir : ∀ name, finddirFs nodes fnode name =
    .ok (.handler code.finddirInitrd (.finddirFs fnode name)) ↔ kind = fsDirectory

/-- The driver and the VFS agree on what a node is. -/
structure NodeAgrees (code : InitrdCode H) (nodes : ι → FsNode ι H) (fnode : ι)
    (kind : UInt32) : Prop extends LookupsAgree code nodes fnode kind where
  flags : (nodes fnode).flags &&& 0x07 = kind

theorem initrdFlags_eq (mode : UInt16) : initrdFlags mode = 0 := by
  simp only [initrdFlags, UInt32.zero_and, ite_self]

/-- A node without a type is looked up in by nobody. -/
theorem lookups_of_typeless {nodes : ι → FsNode ι H} {fnode : ι}
    (h : (nodes fnode).flags &&& 0x07 = 0) :
    (∀ index, readdirFs nodes fnode index = .ok .zero) ∧
      ∀ name, finddirFs nodes fnode name = .ok .zero := by
  have hdir : ¬(nodes fnode).flags &&& 0x07 = fsDirectory := by
    rw [h]
    decide
  exact ⟨fun _ => if_neg fun h => hdir h.1, fun _ => if_neg fun h => hdir h.1⟩

variable [DecidableEq ι] (code : InitrdCode H) (inode : Ext2Inodetable) (direntry : Ext2Dir)
  (nodes : ι → FsNode ι H) (fnode : ι)

theorem initrd_flags :
    (initrdNodeFromFile code inode direntry (some fnode) nodes fnode).flags &&& 0x07 = 0 := by
  have hflags : (initrdNodeFromFile code inode direntry (some fnode) nodes fnode).flags = 0 := by
    rw [initrdNodeFromFile, Function.update_self]
    exact initrdFlags_eq inode.mode
  rw [hflags, UInt32.zero_and]

/-- No inode gets the node it should have; the lookups are as they should be where there
is nothing to look up. -/
theorem initrd_never_agrees {kind : UInt32} (hkind : (inode.mode &&& 0xF000, kind) ∈ ext2Types) :
    ¬NodeAgrees code (initrdNodeFromFile code inode direntry (some fnode) nodes) fnode kind ∧
      (LookupsAgree code (initrdNodeFromFile code inode direntry (some fnode) nodes) fnode kind ↔
        kind ≠ fsDirectory) := by
  have hflags := initrd_flags code inode direntry nodes fnode
  obtain ⟨hreaddir, hfinddir⟩ := lookups_of_typeless hflags
  constructor
  · intro h
    have htyped : ext2Types.all (fun entry => entry.2 ≠ 0) = true := by decide
    have hne := of_decide_eq_true (List.all_eq_true.mp htyped _ hkind)
    exact hne (h.flags.symm.trans hflags)
  · constructor
    · intro h hdir
      have hreached := (h.readdir 0).mpr hdir
      rw [hreaddir] at hreached
      cases hreached
    · intro hdir
      constructor
      case readdir =>
        intro index
        rw [hreaddir]
        exact iff_of_false nofun hdir
      case finddir =>
        intro name
        rw [hfinddir]
        exact iff_of_false nofun hdir

/-- The regular file 0644. -/
theorem initrd_never_agrees_file :
    let code : InitrdCode Nat := ⟨1, 2, 3, 4, 5, 6⟩
    let nodes : Unit → FsNode Unit Nat := fun _ =>
      ⟨fun _ => 0, 0, 0, 0, 0, 0, 0, 0, none, none, none, none, none, none, none⟩
    let made := initrdNodeFromFile code ⟨0x81A4, 0, 1024, 0⟩ ⟨12, 1, fun _ => 0x61⟩ (some ()) nodes
    ¬NodeAgrees code made () fsFile ∧ (LookupsAgree code made () fsFile ↔ fsFile ≠ fsDirectory) := by
  intro code nodes made
  have hkind : ((0x81A4 : UInt16) &&& 0xF000, fsFile) ∈ ext2Types := by decide
  exact initrd_never_agrees code _ _ nodes () hkind

/-- The directory 0755 is given no type, and `readdir_fs` does not reach the driver. -/
theorem initrd_directory_typeless :
    let code : InitrdCode Nat := ⟨1, 2, 3, 4, 5, 6⟩
    let nodes : Unit → FsNode Unit Nat := fun _ =>
      ⟨fun _ => 0, 0, 0, 0, 0, 0, 0, 0, none, none, none, none, none, none, none⟩
    let made := initrdNodeFromFile code ⟨0x41ED, 0, 1024, 0⟩ ⟨2, 1, fun _ => 0x2E⟩ (some ()) nodes
    ((0x41ED : UInt16) &&& 0xF000, fsDirectory) ∈ ext2Types ∧
      ¬((made ()).flags &&& 0x07 = fsDirectory) ∧
      ¬(readdirFs made () 0 = .ok (.handler code.readdirInitrd (.readdirFs () 0)) ↔
        fsDirectory = fsDirectory) := by
  intro code nodes made
  have hflags : (made ()).flags &&& 0x07 = 0 := initrd_flags code _ _ nodes ()
  have hreaddir := (lookups_of_typeless hflags).1 0
  refine ⟨by decide, ?_, fun h => ?_⟩
  · rw [hflags]
    decide
  · have hreached := h.mpr rfl
    rw [hreaddir] at hreached
    cases hreached

end Initrd

end X32PRos
