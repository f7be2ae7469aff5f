import X32PRos.Core.Panic

/-!
`include/fs.h` and `core/vfs.c`: nodes with six handlers, any of which may be
missing, and the wrappers that call the handler of a node or return zero. What
a handler does is the driver's business; here a wrapper says which code it
calls, with which arguments. The nodes lie at pointers `ι`, the code at `H`.
-/

namespace X32PRos

def fsFile : UInt32 := 0x01

def fsDirectory : UInt32 := 0x02

def fsChardevice : UInt32 := 0x03

def fsBlockdevice : UInt32 := 0x04

def fsPipe : UInt32 := 0x05

def fsSymlink : UInt32 := 0x06

/-- `fs_node_t`; `none` is the null pointer. -/
structure FsNode (ι H : Type) where
  name : Fin 256 → UInt8
  mask : UInt32
  uid : UInt32
  gid : UInt32
  flags : UInt32
  inode : UInt32
  length : UInt32
  impl : UInt32
  read : Option H
  write : Option H
  openNode : Option H
  closeNode : Option H
  readdir : Option H
  finddir : Option H
  ptr : Option ι

inductive VfsCall (ι : Type)
  | readFs (node : ι) (offset size : UInt32) (buffer : Nat)
  | writeFs (node : ι) (offset size : UInt32) (buffer : Nat)
  | openFs (node : ι) (read write : UInt8)
  | closeFs (node : ι)
  | readdirFs (node : ι) (index : UInt32)
  | finddirFs (node : ι) (name : Nat)
deriving DecidableEq, Repr

inductive Dispatch (ι H : Type)
  | handler (code : H) (call : VfsCall ι)
  | zero
deriving DecidableEq, Repr

section Wrappers

variable {ι H : Type}

/-- `node->handler(…)`, whatever the pointer holds. -/
def jump (code : Option H) (call : VfsCall ι) : Except Fault (Dispatch ι H) :=
  match code with
  | none => .error .nullPointer
  | some code => .ok (.handler code call)

def readFs (nodes : ι → FsNode ι H) (node : ι) (offset size : UInt32) (buffer : Nat) :
    Except Fault (Dispatch ι H) :=
  if (nodes node).read.isSome then jump (nodes node).read (.readFs node offset size buffer)
  else .ok .zero

def writeFs (nodes : ι → FsNode ι H) (node : ι) (offset size : UInt32) (buffer : Nat) :
    Except Fault (Dispatch ι H) :=
  if (nodes node).write.isSome then jump (nodes node).write (.writeFs node offset size buffer)
  else .ok .zero

def openFs (nodes : ι → FsNode ι H) (node : ι) (read write : UInt8) : Except Fault (Dispatch ι H) :=
  if (nodes node).openNode.isSome then jump (nodes node).openNode (.openFs node read write)
  else .ok .zero

def closeFs (nodes : ι → FsNode ι H) (node : ι) : Except Fault (Dispatch ι H) :=
  if (nodes node).closeNode.isSome then jump (nodes node).closeNode (.closeFs node)
  else .ok .zero

def readdirFs (nodes : ι → FsNode ι H) (node : ι) (index : UInt32) : Except Fault (Dispatch ι H) :=
  if (nodes node).flags &&& 0x07 = fsDirectory ∧ (nodes node).readdir.isSome then
    jump (nodes node).readdir (.readdirFs node index)
  else .ok .zero

/-- The pointer that is tested is `readdir`, the one that is called is `finddir`. -/
def finddirFs (nodes : ι → FsNode ι H) (node : ι) (name : Nat) : Except Fault (Dispatch ι H) :=
  if (nodes node).flags &&& 0x07 = fsDirectory ∧ (nodes node).readdir.isSome then
    jump (nodes node).finddir (.finddirFs node name)
  else .ok .zero

def vfs (nodes : ι → FsNode ι H) : VfsCall ι → Except Fault (Dispatch ι H)
  | .readFs node offset size buffer => readFs nodes node offset size buffer
  | .writeFs node offset size buffer => writeFs nodes node offset size buffer
  | .openFs node read write => openFs nodes node read write
  | .closeFs node => closeFs nodes node
  | .readdirFs node index => readdirFs nodes node index
  | .finddirFs node name => finddirFs nodes node name

end Wrappers

/-- The nodes, what the drivers keep for themselves, and the result of the last call;
`open_fs` and `close_fs` have none. -/
structure VfsState (ι H δ : Type) where
  nodes : ι → FsNode ι H
  driver : δ
  returned : UInt32

/-- A call; `effect` is what the code of the drivers does. -/
def VfsState.step {ι H δ : Type} (effect : H → VfsCall ι → VfsState ι H δ → VfsState ι H δ)
    (s : VfsState ι H δ) (call : VfsCall ι) : Except Fault (VfsState ι H δ) :=
  match vfs s.nodes call with
  | .error e => .error e
  | .ok (.handler code call) => .ok (effect code call s)
  | .ok .zero => .ok { s with returned := 0 }

end X32PRos
