/-!
# Control codes

Requests come through a control file, as a number to the kernel's device or as one byte to the FUSE
device. Listing is an operation of development builds alone.
-/

namespace Interlock.Blocks

/-- What a control request asks for. -/
inductive ControlOp where
  | add
  | delete
  /-- Writes the current blocks to the log. -/
  | list
  deriving DecidableEq, Repr

namespace ControlOp

/-- The number of an operation. -/
def code : ControlOp → UInt32
  | add => 98
  | delete => 99
  | list => 100

/-- The FUSE byte of an operation: a letter. -/
def fuseByte : ControlOp → UInt8
  | add => 97
  | delete => 100
  | list => 108

/-- The operations of a build. -/
def known (devel : Bool) : List ControlOp := if devel then [add, delete, list] else [add, delete]

/-- The operation with a number, if the build has one. -/
def ofCode (devel : Bool) (code : UInt32) : Option ControlOp :=
  (known devel).find? fun op => op.code = code

/-- The operation with a FUSE byte, if the build has one. -/
def ofFuseByte (devel : Bool) (byte : UInt8) : Option ControlOp :=
  (known devel).find? fun op => op.fuseByte = byte

/-- The name of an operation. -/
def name : ControlOp → String
  | add => "Add"
  | delete => "Delete"
  | list => "List"

end ControlOp

/-- Where a control file and the tree it blocks are found. Open modes are 1 for writing and 2 for
reading and writing. -/
structure Endpoint where
  fsName : String
  mountPoint : String
  fsRoot : String
  device : String
  deviceMode : Nat
  deriving DecidableEq, Repr

namespace Endpoint

/-- The kernel's device. -/
def kernel : Endpoint where
  fsName := "vmblock"
  mountPoint := "/proc/fs/vmblock/mountPoint"
  fsRoot := "/proc/fs/vmblock/mountPoint"
  device := "/proc/fs/vmblock/dev"
  deviceMode := 1

/-- The directory of the FUSE file system that holds the tree. -/
def fuseTree : String := "blockdir"

/-- The name of the FUSE device. -/
def fuseDeviceName : String := "dev"

/-- What a read of the FUSE device answers, to tell it from the kernel's. -/
def fuseReadResponse : String := "I am VMBLOCK-FUSE"

/-- The FUSE device. -/
def fuse : Endpoint where
  fsName := "fuse.vmware-vmblock"
  mountPoint := "/tmp/vmblock-fuse"
  fsRoot := "/tmp/vmblock-fuse/" ++ fuseTree
  device := "/tmp/vmblock-fuse/" ++ fuseDeviceName
  deviceMode := 2

end Endpoint

end Interlock.Blocks
