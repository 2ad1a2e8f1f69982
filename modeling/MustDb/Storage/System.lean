import MustDb.Storage.Database

/-!
# `MustDb.Storage.System`: the extent manager under its clients

The operations of a client on one database file: the entries of `single_file_block_manager_vtable`,
and the end of a session followed by `create_new_database(path, false)`. `step` executes one of
them.

`interruptedWriteHeader` is a `write_header` that dies while its header page goes to the file.
-/

set_option autoImplicit false

namespace MustDb.Storage

/-- A call of a client. -/
inductive Op where
  /-- `read`, into a block of the client. -/
  | read (id : BlockId)
  /-- `write` -/
  | write (block : Block)
  /-- `get_free_block_id` -/
  | getFreeBlockId
  /-- `create_block` -/
  | createBlock
  /-- `write_header` -/
  | writeHeader (header : DatabaseHeader)
  /-- `destroy`, then `create_new_database(path, false)`. -/
  | reopen

/-- The call is a checkpoint. -/
def Op.isWriteHeader : Op → Bool
  | .writeHeader _ => true
  | _ => false

/-- The call is a checkpoint or a reopening. -/
def Op.isCheckpointOrReopen : Op → Bool
  | .writeHeader _ => true
  | .reopen => true
  | _ => false

/-- The manager after one call. -/
def step (fuel : Nat) (manager : SingleFileExtentManager) : Op →
    Except Fault SingleFileExtentManager
  | .read id => .ok (singleFileBlockManagerRead manager (blockCreate id)).1
  | .write block => .ok (singleFileBlockManagerWrite manager block).1
  | .getFreeBlockId => .ok (singleFileBlockManagerGetFreeBlockId manager).1
  | .createBlock => .ok (singleFileBlockManagerCreateBlock manager).1
  | .writeHeader header => singleFileBlockManagerWriteHeader fuel manager header
  | .reopen => do
      match ← createNewDatabase fuel manager.fileHandle false with
      | some manager => return manager
      | none => throw .nullPointer

/-- The ids that a call returns to its client. -/
def returnedIds (manager : SingleFileExtentManager) : Op → List BlockId
  | .getFreeBlockId => [(singleFileBlockManagerGetFreeBlockId manager).2]
  | .createBlock => [(singleFileBlockManagerCreateBlock manager).2.id]
  | _ => []

/-- A manager, and the ids that its clients got: `window` since the last checkpoint, `session` since
the last checkpoint or reopening. -/
structure Traced where
  manager : SingleFileExtentManager
  window : List BlockId
  session : List BlockId

/-- The manager after one call, with the trace of the ids. -/
def tracedStep (fuel : Nat) (t : Traced) (op : Op) : Except Fault Traced := do
  let manager ← step fuel t.manager op
  return {
    manager
    window := if op.isWriteHeader then [] else t.window ++ returnedIds t.manager op
    session := if op.isCheckpointOrReopen then [] else t.session ++ returnedIds t.manager op }

/-- The manager, with the outcomes of its next file writes. -/
def withOutcomes (manager : SingleFileExtentManager) (outcomes : List WriteOutcome) :
    SingleFileExtentManager :=
  { manager with fileHandle := { manager.fileHandle with outcomes } }

/-- A call of a client, with the outcomes of its file writes. -/
structure IoOp where
  op : Op
  outcomes : List WriteOutcome

/-- The manager after one call whose file writes have these outcomes. -/
def ioStep (fuel : Nat) (manager : SingleFileExtentManager) (io : IoOp) :
    Except Fault SingleFileExtentManager :=
  step fuel (withOutcomes manager io.outcomes) io.op

/-- The file that `write_header` leaves behind when it dies in the write of the header page, of
which the first `stored` bytes arrive. -/
def interruptedWriteHeader (fuel : Nat) (manager : SingleFileExtentManager)
    (header : DatabaseHeader) (stored : Nat) : Except Fault FileHandle := do
  let w ← writeHeaderPrepare fuel manager header
  let fileHandle := { w.manager.fileHandle with outcomes := [.short stored] }
  return (fileBufferWrite w.page fileHandle w.location).2.1

/-- A call of a client, or a crash. -/
inductive CrashOp where
  | op (op : Op)
  /-- A `write_header` that dies, then `create_new_database(path, false)`. -/
  | crash (header : DatabaseHeader) (stored : Nat)

/-- The manager after one call or crash. -/
def crashStep (fuel : Nat) (manager : SingleFileExtentManager) : CrashOp →
    Except Fault SingleFileExtentManager
  | .op op => step fuel manager op
  | .crash header stored => do
      let fileHandle ← interruptedWriteHeader fuel manager header stored
      step fuel { manager with fileHandle } .reopen

end MustDb.Storage
