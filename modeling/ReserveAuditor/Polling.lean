import ReserveAuditor.Interleaving
import ReserveAuditor.Reference

/-! Polling fetches the whole history of a safe again and again: transactions whose hash was
recorded are skipped. -/
namespace ReserveAuditor
open Txn Relational

variable {safe safe' : AuditedSafeConfig} {serde : Serde} {s s' : Db}

theorem Processed.hashProcessed_iff {tx : Transaction} (h : Processed safe s tx s') (hash : String) :
    hashProcessed s' hash = true ↔ hashProcessed s hash = true := by
  rw [hashProcessed, hashProcessed, h.rowsAdded.txs]

/-- What processing a raw transaction does: it is skipped, or recorded and processed. -/
inductive RawProcessed (safe : AuditedSafeConfig) (serde : Serde) (s : Db)
    (tx : RawGnosisTransaction) (hash : EthTxHash) (s' : Db) : Prop where
  | skipped (seen : hashProcessed s hash.toString = true) (same : s' = s)
  | recorded (fresh : hashProcessed s hash.toString = false) (decoded : Transaction)
      (decodes : tx.decode serde = .ok decoded)
      (processed : Processed safe (recordHash serde tx hash s) decoded s')

theorem rawProcessed_of_returns {tx : RawGnosisTransaction} {hash : EthTxHash} {u : Unit}
    (hhash : tx.txHash = .ok hash) (h : (safe.processRawTransaction serde tx).Returns s u s') :
    RawProcessed safe serde s tx hash s' := by
  obtain ⟨hash',hhash',hcases⟩ := returns_processRawTransaction h
  obtain rfl : hash = hash' := Except.ok.inj (hhash.symm.trans hhash')
  rcases hcases with ⟨hseen,rfl⟩ | ⟨hfresh,decoded,hdec,hp⟩
  · exact .skipped hseen rfl
  · exact .recorded hfresh decoded hdec hp

theorem RawProcessed.hashProcessed_iff {tx : RawGnosisTransaction} {hash : EthTxHash}
    (h : RawProcessed safe serde s tx hash s') (x : EthTxHash) :
    hashProcessed s' x.toString = true ↔ hashProcessed s x.toString = true ∨ x = hash := by
  cases h with
  | skipped seen same =>
    rw [same]
    refine ⟨Or.inl,fun h => h.elim id ?_⟩
    rintro rfl
    exact seen
  | recorded _ decoded _ processed =>
    exact (processed.hashProcessed_iff x.toString).trans (hashProcessed_recordHash serde tx hash s x)

/-- The hash of a processed transaction is recorded, with those that were before. -/
theorem processRawTransaction_records {tx : RawGnosisTransaction} {u : Unit}
    (h : (safe.processRawTransaction serde tx).Returns s u s') :
    ∃ hash, tx.txHash = .ok hash ∧ ∀ x : EthTxHash,
      hashProcessed s' x.toString = true ↔ hashProcessed s x.toString = true ∨ x = hash := by
  obtain ⟨hash,hhash,-⟩ := returns_processRawTransaction h
  exact ⟨hash,hhash,(rawProcessed_of_returns hhash h).hashProcessed_iff⟩

/-- The hashes of processed transactions are recorded, with those that were before. -/
theorem processTransactions_records {txs : List RawGnosisTransaction} {u : Unit}
    (h : (safe.processTransactions serde txs).Returns s u s') (x : EthTxHash) :
    hashProcessed s' x.toString = true ↔
      hashProcessed s x.toString = true ∨ ∃ tx ∈ txs, tx.txHash = .ok x := by
  unfold AuditedSafeConfig.processTransactions at h
  induction txs generalizing s with
  | nil =>
    rw [(Program.returns_forEach_nil _ s s' u).mp h]
    simp
  | cons tx txs ih =>
    obtain ⟨s₁,hone,hrest⟩ := (Program.returns_forEach_cons _ _ _ s s' u).mp h
    obtain ⟨hash,hhash,hiff⟩ := processRawTransaction_records hone
    -- what one transaction recorded the later ones keep
    rw [ih hrest, hiff]
    simp [hhash, or_assoc, eq_comm (a := hash)]

/-- A transaction whose hash is recorded is skipped. -/
theorem processRawTransaction_skips {tx : RawGnosisTransaction} {hash : EthTxHash}
    (hhash : tx.txHash = .ok hash) (hrec : hashProcessed s hash.toString = true) :
    (safe.processRawTransaction serde tx).Returns s () s :=
  (returns_processRawTransaction_iff serde tx s s ()).mpr ⟨hash,hhash,Or.inl ⟨hrec,rfl⟩⟩

/-- Once transactions were processed, processing any transactions with the same hashes again
changes nothing. -/
theorem processTransactions_again (safe : AuditedSafeConfig) (serde : Serde) (s s' : Db)
    (txs again : List RawGnosisTransaction)
    (h : (safe.processTransactions serde txs).Returns s () s')
    (hagain : ∀ tx ∈ again, ∃ tx₀ ∈ txs, ∃ hash, tx₀.txHash = .ok hash ∧ tx.txHash = .ok hash) :
    (safe.processTransactions serde again).Returns s' () s' := by
  have hrec := processTransactions_records h
  unfold AuditedSafeConfig.processTransactions
  induction again with
  | nil => simp
  | cons tx again ih =>
    obtain ⟨tx₀,htx₀,hash,hhash₀,hhash⟩ := hagain tx List.mem_cons_self
    -- the hash was recorded in the first round, so the transaction is passed over
    have hproc := (hrec hash).mpr (Or.inr ⟨tx₀,htx₀,hhash₀⟩)
    exact (Program.returns_forEach_cons _ _ _ _ _ _).mpr
      ⟨s',processRawTransaction_skips hhash hproc,
        ih fun x hx => hagain x (List.mem_cons_of_mem tx hx)⟩

/-- The hash of a processed deposit in capital letters, with another body, fetched twice. -/
theorem depositTx_again :
    let txs := [Reference.depositTx 'a' [(Reference.safeA.safeAddr,"3000000000000")]]
    let s' := (Reference.safeA.processTransactions Reference.serde txs initialDb).state
    (Reference.safeA.processTransactions Reference.serde
      [Reference.depositTx 'A' [],Reference.depositTx 'A' []]).Returns s' () s' := by
  have hsame : (Reference.depositTx 'a' [(Reference.safeA.safeAddr,"3000000000000")]).txHash =
      .ok (Reference.hashOf 0xaa) := by
    decide +kernel
  have hupper : (Reference.depositTx 'A' []).txHash = .ok (Reference.hashOf 0xaa) := by
    decide +kernel
  refine processTransactions_again _ _ initialDb _ _ _ (Program.returns_of_isOk (by decide +kernel))
    fun tx htx => ⟨_,List.mem_singleton.mpr rfl,Reference.hashOf 0xaa,hsame,?_⟩
  obtain rfl : tx = Reference.depositTx 'A' [] := by simpa using htx
  exact hupper

end ReserveAuditor
