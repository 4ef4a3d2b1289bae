import TorchOS.Filesystem.Ramdisk

/-!
# What the filesystem may change

Apart from what `kalloc` does, the filesystem changes memory, the log and `root`,
whether it returns or halts. So any relation between machines that allows these
changes, and that `kalloc` respects, holds between the machine before a call and
the machine it stops in.
-/

namespace TorchOS.Filesystem

open Base Base.Program Lib

/-- A relation that holds across any change of the log. -/
structure AllowsLog (R : Machine → Machine → Prop) : Prop where
  refl : ∀ s, R s s
  trans : ∀ a b c, R a b → R b c → R a c
  serial : ∀ s serial, R s (s.withSerial serial)

/-- A relation that holds across any change of memory, the log and `root`. -/
structure Allows (R : Machine → Machine → Prop) : Prop extends AllowsLog R where
  mem : ∀ s mem, R s (s.withMem mem)
  root : ∀ s root, R s { s with root := root }

namespace AllowsLog

variable {R : Machine → Machine → Prop} (allows : AllowsLog R)

include allows

theorem bind {α β : Type} {first : Kernel α} {rest : α → Kernel β} (left : Respects R first)
    (right : ∀ value, Respects R (rest value)) : Respects R (first >>= rest) :=
  Respects.bind allows.trans left right

theorem loop {α : Type} {guard : α → Machine → Bool} {body : α → Kernel α}
    (rounds : ∀ value, Respects R (body value)) (fuel : Nat) (value : α) :
    Respects R (Program.loop guard body Halt.endless fuel value) :=
  Respects.loop allows.refl allows.trans rounds fuel value

theorem pure {α : Type} (value : α) : Respects R (Pure.pure value : Kernel α) := allows.refl

theorem halt {α : Type} (reason : Halt) : Respects R (Program.halt reason : Kernel α) :=
  allows.refl

theorem read {α : Type} (view : Machine → α) : Respects R (Program.read view : Kernel α) :=
  allows.refl

theorem panicIf (failed : Bool) (message : String) : Respects R (panicIf failed message) := by
  cases failed with
  | true => exact allows.refl
  | false => exact allows.refl

theorem getByte (address : UInt32) : Respects R (getByte address) := allows.refl

theorem getWord (address : UInt32) : Respects R (getWord address) := allows.refl

theorem logf (format : String) (arguments : List Argument) :
    Respects R (logf format arguments) := by
  intro s
  unfold Lib.logf
  split
  · exact allows.serial s _
  · exact allows.refl s

end AllowsLog

namespace Allows

variable {R : Machine → Machine → Prop} (allows : Allows R)

include allows

theorem putByte (address : UInt32) (value : UInt8) : Respects R (putByte address value) :=
  fun s => allows.mem s _

theorem putWord (address value : UInt32) : Respects R (putWord address value) :=
  fun s => allows.mem s _

theorem memset (bufptr : UInt32) (value : UInt8) (size : UInt32) :
    Respects R (memset bufptr value size) :=
  Respects.times allows.refl allows.trans (fun _ => allows.putByte _ _) _

theorem memcpy (destination source num : UInt32) : Respects R (memcpy destination source num) :=
  Respects.times allows.refl allows.trans
    (fun _ => allows.bind (allows.getByte _) fun _ => allows.putByte _ _) _

theorem strcpyLoop (fuel : Nat) (destination source : UInt32) :
    Respects R (strcpyLoop fuel destination source) := by
  induction fuel generalizing destination source with
  | zero => exact allows.refl
  | succ fuel ih =>
      refine allows.bind (allows.getByte _) fun c => allows.bind (allows.putByte _ _) fun _ => ?_
      split
      · exact allows.pure ()
      · exact ih _ _

theorem strncmpLoop (n : Nat) (s1 s2 : UInt32) : Respects R (strncmpLoop n s1 s2) := by
  induction n generalizing s1 s2 with
  | zero => exact allows.refl
  | succ n ih =>
      refine allows.bind (allows.getByte _) fun left =>
        allows.bind (allows.getByte _) fun right => ?_
      split
      · exact allows.pure _
      · exact ih _ _

/-! ## Ramdisk operations -/

theorem ramdiskRead (node offset size buffer : UInt32) :
    Respects R (ramdiskRead node offset size buffer) := by
  refine allows.bind (allows.getWord _) fun _ => allows.bind (allows.panicIf _ _) fun _ =>
    allows.bind ?_ fun _ => allows.bind (allows.getWord _) fun _ =>
      allows.bind (allows.memcpy _ _ _) fun _ => allows.bind (allows.putWord _ _) fun _ =>
        allows.pure _
  refine allows.bind (allows.getWord _) fun _ => ?_
  split
  · exact allows.bind (allows.logf _ _) fun _ => allows.halt _
  · exact allows.pure ()

theorem ramdiskWrite (node offset size buffer : UInt32) :
    Respects R (ramdiskWrite node offset size buffer) :=
  allows.bind (allows.getWord _) fun _ => allows.bind (allows.panicIf _ _) fun _ =>
    allows.bind (allows.getWord _) fun _ => allows.bind (allows.panicIf _ _) fun _ =>
      allows.bind (allows.getWord _) fun _ => allows.bind (allows.panicIf _ _) fun _ =>
        allows.bind (allows.getWord _) fun _ => allows.bind (allows.memcpy _ _ _) fun _ =>
          allows.bind (allows.getWord _) fun _ => allows.bind (allows.putWord _ _) fun _ =>
            allows.bind (allows.putWord _ _) fun _ => allows.pure _

theorem ramdiskSeek (node position : UInt32) : Respects R (ramdiskSeek node position) :=
  allows.bind (allows.getWord _) fun _ => allows.bind (allows.panicIf _ _) fun _ =>
    allows.bind (allows.getWord _) fun _ => allows.bind (allows.panicIf _ _) fun _ =>
      allows.bind (allows.putWord _ _) fun _ => allows.pure _

variable (layout : Layout)

theorem callTransfer (pointer node offset size buffer : UInt32) :
    Respects R (callTransfer layout pointer node offset size buffer) := by
  unfold Filesystem.callTransfer
  split
  · exact allows.ramdiskRead _ _ _ _
  · split
    · exact allows.ramdiskWrite _ _ _ _
    · exact allows.halt _

theorem callSeek (pointer node position : UInt32) :
    Respects R (callSeek layout pointer node position) := by
  unfold Filesystem.callSeek
  split
  · exact allows.ramdiskSeek _ _
  · exact allows.halt _

/-! ## General operations -/

theorem fsRead (node size buffer : UInt32) : Respects R (fsRead layout node size buffer) :=
  allows.bind (allows.getWord _) fun _ => allows.bind (allows.panicIf _ _) fun _ =>
    allows.bind (allows.getWord _) fun _ => allows.bind (allows.getWord _) fun _ =>
      allows.callTransfer layout _ _ _ _ _

theorem fsWrite (node size buffer : UInt32) : Respects R (fsWrite layout node size buffer) :=
  allows.bind (allows.getWord _) fun _ => allows.bind (allows.panicIf _ _) fun _ =>
    allows.bind (allows.getWord _) fun _ => allows.bind (allows.getWord _) fun _ =>
      allows.callTransfer layout _ _ _ _ _

theorem fsSeek (node position : UInt32) : Respects R (fsSeek layout node position) :=
  allows.bind (allows.getWord _) fun _ => allows.bind (allows.panicIf _ _) fun _ =>
    allows.bind (allows.getWord _) fun _ => allows.callSeek layout _ _ _

theorem direntLink (directory : UInt32) : Respects R (direntLink directory) := by
  refine allows.bind (allows.getWord _) fun _ => ?_
  split
  · exact allows.pure _
  · exact allows.bind (allows.loop (fun _ => allows.getWord _) _ _) fun _ => allows.pure _

theorem initHeader (node name : UInt32) (type : NodeType) :
    Respects R (initHeader layout node name type) :=
  allows.bind (allows.memset _ _ _) fun _ => allows.bind (allows.strcpyLoop _ _ _) fun _ =>
    allows.bind (allows.putWord _ _) fun _ => allows.bind (allows.putWord _ _) fun _ =>
      allows.bind (allows.putWord _ _) fun _ => allows.putWord _ _

theorem listEntry (current : UInt32) : Respects R (listEntry layout current) :=
  allows.bind (allows.getWord _) fun _ => allows.bind (allows.fsSeek layout _ _) fun _ =>
    allows.bind (allows.getWord _) fun _ => allows.bind (allows.getWord _) fun _ =>
      allows.bind (allows.fsRead layout _ _ _) fun _ => allows.bind (allows.getWord _) fun _ =>
        allows.bind (allows.logf _ _) fun _ => allows.bind (allows.getWord _) fun _ =>
          allows.bind (allows.logf _ _) fun _ => allows.bind (allows.logf _ _) fun _ =>
            allows.getWord _

theorem listRoot : Respects R (listRoot layout) :=
  allows.bind (allows.logf _ _) fun _ => allows.bind (allows.read _) fun _ =>
    allows.bind (allows.getWord _) fun _ =>
      allows.bind (allows.loop (fun _ => allows.listEntry layout _) _ _) fun _ => allows.pure ()

theorem checkReadBack : Respects R (checkReadBack layout) := by
  refine allows.bind (allows.strncmpLoop _ _ _) fun _ => ?_
  split
  · exact allows.halt _
  · exact allows.logf _ _

variable {kalloc : UInt32 → Kernel UInt32} (kallocs : ∀ size, Respects R (kalloc size))

include kallocs

theorem fsAddDirent (directory file : UInt32) : Respects R (fsAddDirent kalloc directory file) := by
  refine allows.bind (allows.logf _ _) fun _ => allows.bind (allows.getWord _) fun _ =>
    allows.bind (allows.panicIf _ _) fun _ => allows.bind (allows.getWord _) fun _ =>
      allows.bind (allows.panicIf _ _) fun _ => allows.bind (allows.direntLink _) fun link =>
        allows.bind ?_ fun _ => allows.bind (allows.getWord _) fun _ => allows.putWord _ _
  exact allows.bind (kallocs _) fun _ => allows.bind (allows.putWord _ _) fun _ =>
    allows.bind (allows.getWord _) fun _ => allows.bind (allows.putWord _ _) fun _ =>
      allows.putWord _ _

theorem initContents (node : UInt32) (type : NodeType) :
    Respects R (initContents kalloc node type) := by
  cases type with
  | file =>
      exact allows.bind (allows.putWord _ _) fun _ => allows.bind (kallocs _) fun _ =>
        allows.bind (allows.putWord _ _) fun _ => allows.bind (allows.putWord _ _) fun _ =>
          allows.putWord _ _
  | directory =>
      exact allows.bind (allows.putWord _ _) fun _ => allows.bind (allows.putWord _ _) fun _ =>
        allows.putWord _ _

theorem fsConstructNode (name : UInt32) (type : NodeType) :
    Respects R (fsConstructNode layout kalloc name type) :=
  allows.bind (kallocs _) fun _ => allows.bind (allows.initHeader layout _ _ _) fun _ =>
    allows.bind (allows.initContents kallocs _ _) fun _ => allows.pure _

theorem readBlock (current : UInt32) : Respects R (readBlock layout kalloc current) :=
  allows.bind (allows.logf _ _) fun _ => allows.bind (allows.getWord _) fun _ =>
    allows.bind (allows.logf _ _) fun _ => allows.bind (allows.logf _ _) fun _ =>
      allows.bind (allows.fsConstructNode layout kallocs _ _) fun _ =>
        allows.bind (allows.getWord _) fun _ => allows.bind (allows.logf _ _) fun _ =>
          allows.bind (allows.getWord _) fun _ => allows.bind (allows.logf _ _) fun _ =>
            allows.bind (allows.getWord _) fun _ =>
              allows.bind (allows.fsWrite layout _ _ _) fun _ =>
                allows.bind (allows.read _) fun _ =>
                  allows.bind (allows.fsAddDirent kallocs _ _) fun _ =>
                    allows.bind (allows.getWord _) fun _ => allows.pure _

theorem readRamdisk (initrdStart initrdEnd : UInt32) :
    Respects R (readRamdisk layout kalloc initrdStart initrdEnd) :=
  allows.bind (allows.logf _ _) fun _ =>
    allows.bind (allows.loop (fun _ => allows.readBlock layout kallocs _) _ _) fun _ =>
      allows.pure ()

theorem testReadBack : Respects R (testReadBack layout kalloc) :=
  allows.bind (fun s => allows.mem s _) fun _ => allows.bind (allows.memset _ _ _) fun _ =>
    allows.bind (allows.logf _ _) fun _ =>
      allows.bind (allows.fsConstructNode layout kallocs _ _) fun _ =>
        allows.bind (allows.fsSeek layout _ _) fun _ =>
          allows.bind (allows.fsWrite layout _ _ _) fun _ =>
            allows.bind (allows.fsSeek layout _ _) fun _ =>
              allows.bind (allows.fsRead layout _ _ _) fun _ =>
                allows.bind (allows.checkReadBack layout) fun _ =>
                  allows.bind (allows.getWord _) fun _ => allows.panicIf _ _

end Allows

end TorchOS.Filesystem
