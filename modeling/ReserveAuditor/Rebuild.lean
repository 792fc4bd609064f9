import ReserveAuditor.RecordIsolation

/-! Rebuilding a database: the raw transactions in `gnosis_safe_txs` are a journal of the safes, and
with the blocks of the ledger they tell all tables but those of the matches. -/
namespace ReserveAuditor
open Txn Relational

variable {ext : Externals} {serde : Serde} {s s' t : Db}

/-! ### Stored transactions -/

/-- Deserialize transaction from JSON, of which `readValue` reads the value. -/
def RawGnosisTransaction.fromJson (readValue : String → Except String Json) (src : String) :
    Except GnosisError RawGnosisTransaction :=
  ((readValue src).mapError GnosisError.json).map RawGnosisTransaction.mk

/-- Decode a Gnosis Safe transaction. -/
def GnosisSafeTx.decode (readValue : String → Except String Json) (row : GnosisSafeTx) :
    Except Error RawGnosisTransaction :=
  (RawGnosisTransaction.fromJson readValue row.rawTxJson).mapError Error.gnosis

namespace AuditedSafeConfig

/-- The deposits that a raw transaction stands for. -/
def readDeposits (safe : AuditedSafeConfig) (serde : Serde) (tx : RawGnosisTransaction) :
    List GnosisSafeDeposit :=
  match tx.decode serde with
  | .ok decoded => safe.recordedDeposits decoded
  | .error _ => []

/-- The withdrawals that a raw transaction stands for. -/
def readWithdrawals (safe : AuditedSafeConfig) (serde : Serde) (tx : RawGnosisTransaction) :
    List GnosisSafeWithdrawal :=
  match tx.decode serde with
  | .ok decoded => safe.recordedWithdrawals decoded
  | .error _ => []

end AuditedSafeConfig

/-- The row stores the transaction, whichever thread had it. -/
structure StoresRaw (serde : Serde) (row : GnosisSafeTx)
    (p : AuditedSafeConfig × RawGnosisTransaction) : Prop where
  hash : ∃ hash, p.2.txHash = .ok hash ∧ row.ethTxHash = hash.toString
  text : row.rawTxJson = p.2.toJsonString serde

/-- The transactions of the journal are stored in its order, and the deposits and withdrawals are
those that they stand for. -/
structure ReadFrom (serde : Serde) (journal : List (AuditedSafeConfig × RawGnosisTransaction))
    (s : Db) : Prop where
  rows : List.Forall₂ (StoresRaw serde) s.gnosisSafeTxs journal
  deposits : storedDeposits s =
    journal.flatMap fun p => (p.1.readDeposits serde p.2).map GnosisSafeDeposit.unsaved
  withdrawals : storedWithdrawals s =
    journal.flatMap fun p => (p.1.readWithdrawals serde p.2).map GnosisSafeWithdrawal.unsaved

theorem RecordsKept.readFrom {journal : List (AuditedSafeConfig × RawGnosisTransaction)}
    (h : RecordsKept s s') (hs : ReadFrom serde journal s) : ReadFrom serde journal s' where
  rows := h.txs ▸ hs.rows
  deposits := by rw [← hs.deposits, storedDeposits, storedDeposits, h.deposits]
  withdrawals := by rw [← hs.withdrawals, storedWithdrawals, storedWithdrawals, h.withdrawals]

theorem processAlone_concat (txs : List (AuditedSafeConfig × RawGnosisTransaction))
    (p : AuditedSafeConfig × RawGnosisTransaction) : processAlone serde (txs ++ [p]) =
      (p.1.processRawTransaction serde p.2 (processAlone serde txs)).state := by
  rw [processAlone, List.foldl_append]
  rfl

/-- A transaction is recorded with what it stands for, or it leaves no trace. -/
theorem processRawTransaction_traces (serde : Serde) (safe : AuditedSafeConfig)
    (tx : RawGnosisTransaction) (s : Db) : (safe.processRawTransaction serde tx s).state = s ∨
      ∃ hash decoded, tx.txHash = .ok hash ∧ tx.decode serde = .ok decoded ∧
        RowsAdded (recordHash serde tx hash s) (safe.recordedDeposits decoded)
          (safe.recordedWithdrawals decoded) (safe.processRawTransaction serde tx s).state := by
  rcases activity_cases Reference.externals serde none (.gnosis safe tx) s with h | ⟨-,h⟩
  · obtain ⟨hash,hhash,⟨-,hold⟩ | ⟨-,decoded,hdecoded,hp⟩⟩ := returns_processRawTransaction h
    · exact Or.inl hold
    · exact Or.inr ⟨hash,decoded,hhash,hdecoded,hp.rowsAdded⟩
  · exact Or.inl h

/-- What was recorded is a journal of what is stored. -/
theorem exists_journal (serde : Serde) (txs : List (AuditedSafeConfig × RawGnosisTransaction)) :
    ∃ journal : List (AuditedSafeConfig × RawGnosisTransaction), journal.Sublist txs ∧
      processAlone serde journal = processAlone serde txs ∧
      ReadFrom serde journal (processAlone serde txs) := by
  induction txs using List.reverseRecOn with
  | nil => exact ⟨[],.slnil,rfl,.nil,rfl,rfl⟩
  | append_singleton txs p ih =>
    obtain ⟨journal,hsub,halone,hread⟩ := ih
    obtain ⟨safe,tx⟩ := p
    rw [processAlone_concat]
    rcases processRawTransaction_traces serde safe tx (processAlone serde txs) with
      h | ⟨hash,decoded,hhash,hdecoded,hadded⟩
    · rw [h]
      exact ⟨journal,hsub.trans (List.sublist_append_left _ _),halone,hread⟩
    · refine ⟨journal ++ [(safe,tx)],hsub.append (.refl _),?_,?_,?_,?_⟩
      · rw [processAlone_concat, halone]
      · rw [hadded.txs]
        exact List.rel_append hread.rows (.cons ⟨⟨hash,hhash,rfl⟩,rfl⟩ .nil)
      · rw [hadded.deposits, List.flatMap_append, ← hread.deposits, List.flatMap_singleton,
          AuditedSafeConfig.readDeposits, hdecoded]
        rfl
      · rw [hadded.withdrawals, List.flatMap_append, ← hread.withdrawals, List.flatMap_singleton,
          AuditedSafeConfig.readWithdrawals, hdecoded]
        rfl

/-- The records of a run are read from a journal of the transactions that its threads had. -/
theorem run_journal (ext : Externals) (serde : Serde) (config : Option GnosisSafeConfig)
    (as : List Activity) : ∃ journal : List (AuditedSafeConfig × RawGnosisTransaction),
      journal.Sublist (as.filterMap Activity.gnosis?) ∧
      RecordsKept (processAlone serde journal) (Activity.run ext serde config as).1 ∧
      ReadFrom serde journal (Activity.run ext serde config as).1 := by
  have hrecords := run_records ext serde config as
  obtain ⟨journal,hsub,halone,hread⟩ :=
    exists_journal serde (as.filterMap Activity.gnosis?)
  exact ⟨journal,hsub,halone ▸ hrecords,hrecords.readFrom hread⟩

theorem StoresRaw.decode {row : GnosisSafeTx} {p : AuditedSafeConfig × RawGnosisTransaction}
    {readValue : String → Except String Json} (h : StoresRaw serde row p)
    (hread : readValue (serde.toJsonString p.2.raw) = .ok p.2.raw) :
    row.decode readValue = .ok p.2 := by
  rw [GnosisSafeTx.decode, RawGnosisTransaction.fromJson, h.text,
    RawGnosisTransaction.toJsonString, hread]
  rfl

/-! ### Replaying -/

section replay
variable {config : Option GnosisSafeConfig}

/-- Blocks that can be synced are synced in a run that has nothing but them. -/
theorem run_blocks (serde : Serde) (config : Option GnosisSafeConfig) {blocks : List BlockData}
    (h : (syncBlocks ext blocks).Returns initialDb () t) :
    (Activity.run ext serde config (blocks.map .ledger)).2 = blocks ∧
      LedgerKept t (Activity.run ext serde config (blocks.map .ledger)).1 := by
  induction blocks using List.reverseRecOn generalizing t with
  | nil =>
    obtain rfl := (Program.returns_forEach_nil _ _ _ _).mp h
    exact ⟨rfl,.refl _⟩
  | append_singleton blocks b ih =>
    obtain ⟨t₁,hbefore,hlast⟩ := (Program.returns_forEach_append _ _ _ _ _ _).mp h
    obtain ⟨t₂,hb,hnil⟩ := (Program.returns_forEach_cons _ _ _ _ _ _).mp hlast
    obtain rfl := (Program.returns_forEach_nil _ _ _ _).mp hnil
    simp only [Program.returns_bind, Program.returns_pure] at hb
    obtain ⟨data,_,hsync,-,rfl⟩ := hb
    obtain ⟨hblocks,hkept⟩ := ih hbefore
    -- the run syncs the block as well, from the same ledger
    obtain ⟨u,hu,hsame⟩ := (respects_syncBlockWithConn b).returns hkept hsync
    obtain ⟨u',hu'⟩ := (syncAndAudit_returns_iff ext config b _).mpr ⟨data,u,hu⟩
    have haudit := hu'
    simp only [syncAndAudit, returns_exclusiveTransaction, Program.returns_bind] at haudit
    obtain ⟨data',u₁,hsync',haudit⟩ := haudit
    obtain ⟨-,rfl⟩ := hu.unique hsync'
    rw [List.map_append, List.map_singleton, Activity.run_concat]
    have hstate : ((Activity.ledger b).program ext serde config
        (Activity.run ext serde config (blocks.map .ledger)).1).state = u' := hu'.2
    have hok : ((Activity.ledger b).program ext serde config
        (Activity.run ext serde config (blocks.map .ledger)).1).outcome.isOk = true := by
      rw [show (Activity.ledger b).program ext serde config = syncAndAudit ext config b from rfl,
        hu'.1]
      rfl
    rw [hstate, if_pos hok, hblocks]
    exact ⟨rfl,hsame.trans (ledgerKept_audit haudit)⟩

/-- What the threads of the safes do after a run leaves its ledger and its blocks alone. -/
theorem run_append_gnosis (ext : Externals) (serde : Serde) (config : Option GnosisSafeConfig)
    (as : List Activity)
    (txs : List (AuditedSafeConfig × RawGnosisTransaction)) :
    (Activity.run ext serde config (as ++ txs.map fun p => .gnosis p.1 p.2)).2 =
      (Activity.run ext serde config as).2 ∧
    LedgerKept (Activity.run ext serde config as).1
      (Activity.run ext serde config (as ++ txs.map fun p => .gnosis p.1 p.2)).1 := by
  induction txs using List.reverseRecOn with
  | nil =>
    rw [List.map_nil, List.append_nil]
    exact ⟨rfl,.refl _⟩
  | append_singleton txs p ih =>
    obtain ⟨hblocks,hkept⟩ := ih
    rw [List.map_append, List.map_singleton, ← List.append_assoc, Activity.run_concat]
    refine ⟨?_,hkept.trans ?_⟩
    · simpa [Activity.block?] using hblocks
    · rcases activity_cases ext serde config (.gnosis p.1 p.2)
        (Activity.run ext serde config (as ++ txs.map fun p => .gnosis p.1 p.2)).1 with h | ⟨-,h⟩
      · exact ledgerKept_processRawTransaction h
      · rw [h]
        exact .refl _

/-- A run that syncs the blocks and then processes the transactions. -/
def replay (ext : Externals) (serde : Serde) (config : Option GnosisSafeConfig)
    (blocks : List BlockData) (txs : List (AuditedSafeConfig × RawGnosisTransaction)) :
    Db × List BlockData :=
  Activity.run ext serde config (blocks.map .ledger ++ txs.map fun p => .gnosis p.1 p.2)

theorem replay_records (blocks : List BlockData)
    (txs : List (AuditedSafeConfig × RawGnosisTransaction)) :
    RecordsKept (processAlone serde txs) (replay ext serde config blocks txs).1 := by
  have htxs : (blocks.map Activity.ledger ++ txs.map fun p => Activity.gnosis p.1 p.2).filterMap
      Activity.gnosis? = txs := by
    rw [List.filterMap_append, List.filterMap_map, List.filterMap_map]
    have hblocks : blocks.filterMap (Activity.gnosis? ∘ Activity.ledger) = [] :=
      List.filterMap_eq_nil_iff.mpr fun b _ => rfl
    rw [hblocks, List.nil_append]
    exact List.filterMap_some
  have hrecords := run_records ext serde config
    (blocks.map .ledger ++ txs.map fun p => .gnosis p.1 p.2)
  rwa [htxs] at hrecords

end replay

/-- The journal is what the table of raw transactions decodes to. Replayed after the blocks, it
rebuilds what the run left: the same blocks are synced, and the ledger and the records are the
same. -/
structure Rebuilds (ext : Externals) (serde : Serde) (readValue : String → Except String Json)
    (config : Option GnosisSafeConfig) (journal : List (AuditedSafeConfig × RawGnosisTransaction))
    (run : Db × List BlockData) : Prop where
  decoded : List.Forall₂ (fun row p => row.decode readValue = .ok p.2) run.1.gnosisSafeTxs journal
  read : ReadFrom serde journal run.1
  blocks : (replay ext serde config run.2 journal).2 = run.2
  ledger : LedgerKept (replay ext serde config run.2 journal).1 run.1
  records : RecordsKept (replay ext serde config run.2 journal).1 run.1

/-- The table of raw transactions is a journal of the safes: what it stores can be decoded, and
processing it again by the threads that had the transactions, after syncing the blocks again, with
or without auditing, makes the same ledger and the same records. -/
theorem run_rebuilt (ext : Externals) (serde : Serde) (readValue : String → Except String Json)
    (config config' : Option GnosisSafeConfig) (as : List Activity)
    (hread : ∀ p ∈ as.filterMap Activity.gnosis?,
      readValue (serde.toJsonString p.2.raw) = .ok p.2.raw) :
    ∃ journal, journal.Sublist (as.filterMap Activity.gnosis?) ∧
      Rebuilds ext serde readValue config' journal (Activity.run ext serde config as) := by
  obtain ⟨journal,hsub,hrecords,hfrom⟩ := run_journal ext serde config as
  obtain ⟨t,ht,hkept⟩ := run_ledger ext serde config as
  obtain ⟨hblocks,hledger⟩ := run_blocks serde config' ht
  obtain ⟨hsame,hleft⟩ := run_append_gnosis ext serde config'
    ((Activity.run ext serde config as).2.map .ledger) journal
  refine ⟨journal,hsub,?_,hfrom,hsame.trans hblocks,(hledger.trans hleft).symm.trans hkept,?_⟩
  · have hall : ∀ p ∈ journal, readValue (serde.toJsonString p.2.raw) = .ok p.2.raw :=
      fun p hp => hread p (hsub.subset hp)
    have hboth := (List.forall₂_and_left _ _).mpr ⟨hall,hfrom.rows.flip⟩
    exact (hboth.imp fun p row h => StoresRaw.decode h.2 h.1).flip
  · exact trans_of RecordsKept (symm_of RecordsKept (replay_records _ journal)) hrecords

/-- A reader of JSON that knows the texts of some values. -/
def readKnown (known : List Json) (text : String) : Except String Json :=
  match known.find? fun v => Reference.printJson v == text with
  | some v => .ok v
  | none => .error "expected value"

theorem readKnown_printJson {known : List Json} (h : (known.map Reference.printJson).Nodup)
    {v : Json} (hv : v ∈ known) : readKnown known (Reference.printJson v) = .ok v := by
  have hsome : (known.find? fun x => Reference.printJson x == Reference.printJson v).isSome = true :=
    List.find?_isSome.mpr ⟨v,hv,beq_self_eq_true _⟩
  obtain ⟨x,hx⟩ := Option.isSome_iff_exists.mp hsome
  have htext : Reference.printJson x = Reference.printJson v := by
    simpa using List.find?_some hx
  -- no other value has the text
  obtain rfl := List.inj_on_of_nodup_map h (List.mem_of_find?_eq_some hx) hv htext
  rw [readKnown, hx]

theorem depositActivity_rebuilt :
    let tx := Reference.depositTx '1' [(Reference.safeAddrA,"3000000000000")]
    ∃ journal, journal.Sublist [(Reference.safeA,tx)] ∧
      Rebuilds Reference.externals Reference.serde (readKnown [tx.raw]) none journal
        (Activity.run Reference.externals Reference.serde (some Reference.config)
          [depositActivity,.ledger mintBlock]) := by
  refine run_rebuilt Reference.externals Reference.serde _ (some Reference.config) none
    [depositActivity,.ledger mintBlock] ?_
  intro p hp
  obtain rfl := List.mem_singleton.mp hp
  exact readKnown_printJson (by simp) List.mem_cons_self

end ReserveAuditor
