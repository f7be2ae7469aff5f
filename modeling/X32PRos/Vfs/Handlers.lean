import X32PRos.Foundation.Run
import X32PRos.Vfs.Fs

/-!
Which handler a call of the VFS reaches. Five wrappers test the pointer they
call; `finddir_fs` tests `readdir`, so it is right on directories that have both
handlers or neither. The result for a call carries over to whole runs, whatever
the drivers do to the nodes in between.
-/

namespace X32PRos

open Foundation

variable {ι H δ : Type}

/-- The handler of the call's name; only a directory is looked up in. -/
def VfsCall.named (nodes : ι → FsNode ι H) : VfsCall ι → Option H
  | .readFs node .. => (nodes node).read
  | .writeFs node .. => (nodes node).write
  | .openFs node .. => (nodes node).openNode
  | .closeFs node => (nodes node).closeNode
  | .readdirFs node _ =>
      if (nodes node).flags &&& 0x07 = fsDirectory then (nodes node).readdir else none
  | .finddirFs node _ =>
      if (nodes node).flags &&& 0x07 = fsDirectory then (nodes node).finddir else none

/-- The handler of that name is called with the arguments, or there is none and nothing is. -/
def ReachesNamed (nodes : ι → FsNode ι H) (call : VfsCall ι) : Prop :=
  vfs nodes call = .ok ((call.named nodes).elim .zero (.handler · call))

/-- A directory that `finddir_fs` is called on has both lookups or neither. -/
def LookupsPaired (nodes : ι → FsNode ι H) : VfsCall ι → Prop
  | .finddirFs node _ => (nodes node).flags &&& 0x07 = fsDirectory →
      ((nodes node).readdir = none ↔ (nodes node).finddir = none)
  | _ => True

/-- A pointer is called right behind the test of another one if both are null or neither is. -/
theorem jump_behind_iff (tested code : Option H) (call : VfsCall ι) :
    (if tested.isSome then jump code call else .ok .zero) =
        .ok (code.elim .zero (.handler · call)) ↔ (tested = none ↔ code = none) := by
  cases tested with
  | none =>
      cases code with
      | none => exact iff_of_true rfl Iff.rfl
      -- a handler that is there is not called
      | some code => exact iff_of_false nofun (fun h => nomatch h.mp rfl)
  | some tested =>
      cases code with
      -- the jump through the null pointer
      | none => exact iff_of_false nofun (fun h => nomatch h.mpr rfl)
      | some code => exact iff_of_true rfl (iff_of_false nofun nofun)

theorem jump_of_tested (code : Option H) (call : VfsCall ι) :
    (if code.isSome then jump code call else .ok .zero) =
      .ok (code.elim .zero (.handler · call)) :=
  (jump_behind_iff code code call).mpr Iff.rfl

theorem readdirFs_reaches (nodes : ι → FsNode ι H) (node : ι) (index : UInt32) :
    ReachesNamed nodes (.readdirFs node index) := by
  simp only [ReachesNamed, vfs, VfsCall.named, readdirFs]
  by_cases hdir : (nodes node).flags &&& 0x07 = fsDirectory
  · simp only [hdir, true_and, if_true]
    exact jump_of_tested _ _
  · simp only [hdir, false_and, if_false]
    rfl

theorem finddirFs_reaches_iff (nodes : ι → FsNode ι H) (node : ι) (name : Nat) :
    ReachesNamed nodes (.finddirFs node name) ↔ LookupsPaired nodes (.finddirFs node name) := by
  simp only [ReachesNamed, LookupsPaired, vfs, VfsCall.named, finddirFs]
  by_cases hdir : (nodes node).flags &&& 0x07 = fsDirectory
  · simp only [hdir, true_and, if_true, true_imp_iff]
    exact jump_behind_iff _ _ _
  · simp only [hdir, false_and, if_false, false_imp_iff, iff_true]
    rfl

theorem reachesNamed_iff (nodes : ι → FsNode ι H) (call : VfsCall ι) :
    ReachesNamed nodes call ↔ LookupsPaired nodes call := by
  cases call with
  | readFs => exact iff_of_true (jump_of_tested _ _) trivial
  | writeFs => exact iff_of_true (jump_of_tested _ _) trivial
  | openFs => exact iff_of_true (jump_of_tested _ _) trivial
  | closeFs => exact iff_of_true (jump_of_tested _ _) trivial
  | readdirFs node index => exact iff_of_true (readdirFs_reaches nodes node index) trivial
  | finddirFs node name => exact finddirFs_reaches_iff nodes node name

/-- A call that reaches the handler of its name jumps through no null pointer. -/
theorem step_of_reachesNamed (effect : H → VfsCall ι → VfsState ι H δ → VfsState ι H δ)
    (s : VfsState ι H δ) (call : VfsCall ι) (h : ReachesNamed s.nodes call) :
    ∃ s', s.step effect call = .ok s' := by
  unfold ReachesNamed at h
  rw [VfsState.step, h]
  cases call.named s.nodes with
  | none => exact ⟨_, rfl⟩
  | some code => exact ⟨_, rfl⟩

/-- In a run every call reaches the handler of its name, and none jumps through a null
pointer, when each directory that is searched has both lookups or neither. -/
theorem vfs_run_iff (effect : H → VfsCall ι → VfsState ι H δ → VfsState ι H δ)
    (s : VfsState ι H δ) (calls : List (VfsCall ι)) :
    (Run.Each (VfsState.step effect) (fun s call => ReachesNamed s.nodes call) s calls ∧
        ∃ t, Run.exec (VfsState.step effect) s calls = .ok t) ↔
      Run.Each (VfsState.step effect) (fun s call => LookupsPaired s.nodes call) s calls := by
  have hcongr : Run.Each (VfsState.step effect) (fun s call => ReachesNamed s.nodes call) s calls ↔
      Run.Each (VfsState.step effect) (fun s call => LookupsPaired s.nodes call) s calls :=
    Run.each_congr (fun s call => reachesNamed_iff s.nodes call) calls s
  constructor
  · intro h
    exact hcongr.mp h.1
  · intro h
    have hreach := hcongr.mpr h
    exact ⟨hreach, Run.exec_returns (step_of_reachesNamed effect) calls s hreach⟩

/-- A directory that is read but not searched. -/
theorem finddirFs_jumps :
    let node : FsNode Unit Nat :=
      ⟨fun _ => 0, 0, 0, 0, fsDirectory, 2, 0, 0, none, none, none, none, some 0x100000, none, none⟩
    ¬ReachesNamed (fun _ => node) (.finddirFs () 0) ∧
      Run.exec (VfsState.step fun _ _ s => s) ⟨fun _ => node, (), 0⟩ [.finddirFs () 0] =
        .error .nullPointer := by
  intro node
  have hdir : node.flags &&& 0x07 = fsDirectory := by decide
  have hjump : vfs (fun _ => node) (.finddirFs () 0) = .error .nullPointer := if_pos ⟨hdir, rfl⟩
  refine ⟨fun h => ?_, ?_⟩
  · rw [ReachesNamed, hjump] at h
    cases h
  · simp only [Run.exec, VfsState.step, hjump]

end X32PRos
