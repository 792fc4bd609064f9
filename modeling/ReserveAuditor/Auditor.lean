import ReserveAuditor.SyncBlock
import ReserveAuditor.GnosisSync

/-! The threads of the auditor (`bin/main.rs`): the loop that syncs the ledger, and one
thread for each safe that processes its Gnosis transactions. All of them share the
database, in transactions that exclude each other. -/
namespace ReserveAuditor
open Txn

/-- Perform gnosis auditing of any data found in the block. How the matching goes is only
logged. -/
def auditBlockData (config : GnosisSafeConfig) (syncBlockData : SyncBlockData) : Conn Unit := do
  Program.forEach syncBlockData.mintTxs fun mintTx => do
    let _ ← Program.attempt (AuditedMint.tryMatchMintWithDeposit mintTx config)
    pure ()
  Program.forEach syncBlockData.burnTxOuts fun burnTxOut => do
    let _ ← Program.attempt (AuditedBurn.tryMatchBurnWithWithdrawal burnTxOut config)
    pure ()

/-- The audit of a block, if safes are configured. -/
def auditIfConfigured (config : Option GnosisSafeConfig) (syncBlockData : SyncBlockData) :
    Conn Unit :=
  match config with
  | some config => auditBlockData config syncBlockData
  | none => pure ()

/-- The exclusive transaction of the ledger loop. -/
def syncAndAudit (ext : Externals) (config : Option GnosisSafeConfig) (b : BlockData) :
    Conn Unit := exclusiveTransaction do
  let syncBlockData ← syncBlockWithConn ext b.block b.contents b.timestamp
  auditIfConfigured config syncBlockData

/-- The block that the ledger loop syncs next, as far as it can tell from the database. -/
def nextBlockToSync (s : Db) : UInt64 :=
  match BlockAuditData.lastSyncedBlockIndex s with
  | some blockIndex => blockIndex+1
  | none => 0

/-- Synchronizes the database with the ledger, until all blocks have been synced or `fuel`
turns have been made. -/
def syncLoop (ext : Externals) (config : Option GnosisSafeConfig) (ledger : List BlockData) :
    ℕ → Conn Unit
  | 0 => Program.fail (.other "out of fuel")
  | fuel+1 => do
    let numBlocksSynced ← Program.query nextBlockToSync
    match ledger[numBlocksSynced.toNat]? with
    -- synced as many blocks as there are in the ledger, or somehow more
    | none => pure ()
    | some blockData => do
      syncAndAudit ext config blockData
      syncLoop ext config ledger fuel

/-- The database that the threads start from. -/
def initialDb : Db := (newFromPath Db.empty).state

/-! ### Interleavings of the threads -/

/-- One transaction of one of the threads. -/
inductive Step (config : GnosisSafeConfig) where
  /-- The ledger loop syncs and audits a block. -/
  | ledger (b : BlockData)
  /-- The thread of a safe processes a transaction. -/
  | gnosis (safe : AuditedSafeConfig) (configured : safe ∈ config.safes)
      (tx : RawGnosisTransaction)

namespace Step
variable {config : GnosisSafeConfig}

/-- What runs in the step. -/
def program (ext : Externals) (serde : Serde) : Step config → Conn Unit
  | ledger b => syncAndAudit ext (some config) b
  | gnosis safe _ tx => safe.processRawTransaction serde tx

/-- The database after the step, which a step that ends in an error or a panic leaves as it
was. This includes a panic that leaves its transaction open (`AuditedSafeConfig.LeavesOpen`). -/
def exec (ext : Externals) (serde : Serde) (s : Db) (step : Step config) : Db :=
  (step.program ext serde s).state

/-- The database after the steps of an interleaving. -/
def run (ext : Externals) (serde : Serde) (steps : List (Step config)) : Db :=
  steps.foldl (exec ext serde) initialDb

end Step
end ReserveAuditor
