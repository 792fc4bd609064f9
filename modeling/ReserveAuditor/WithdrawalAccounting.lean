import ReserveAuditor.Intact
import ReserveAuditor.ProcessingReturns

/-! A multi-sig transaction of the audited safe is accounted for once: its withdrawal is stored under
the hash that was recorded for it, or it is counted as invalid. -/
namespace ReserveAuditor
open Txn Relational
open Counters (Counts)

/-- Reading a multi-sig transaction takes its hash from the text of the member that the field is
named after. -/
def Serde.ReadsTxHash (serde : Serde) : Prop :=
  ∀ raw tx, serde.fromValue raw = .ok (.multiSig tx) →
    ∃ text, raw.get "transactionHash" = some (.string text) ∧ EthTxHash.fromStr text = .ok tx.txHash

def invalidMultiSigs (s : Db) : ℕ := Counters.get s .numInvalidMultiSigTransactions

/-- One withdrawal was stored, with the hash. -/
structure WithdrawalStored (hash : EthTxHash) (s s' : Db) : Prop where
  row : ∃ w, s'.gnosisSafeWithdrawals.rows = s.gnosisSafeWithdrawals.rows ++ [w] ∧ w.ethTxHash = hash
  counted : invalidMultiSigs s' = invalidMultiSigs s

/-- No withdrawal was stored, and one more transaction was invalid. -/
structure WithdrawalRefused (s s' : Db) : Prop where
  rows : s'.gnosisSafeWithdrawals.rows = s.gnosisSafeWithdrawals.rows
  counted : invalidMultiSigs s' = invalidMultiSigs s+1

variable {safe : AuditedSafeConfig} {serde : Serde} {s s' : Db} {hash : EthTxHash}

theorem WithdrawalStored.not_refused (h : WithdrawalStored hash s s') :
    ¬WithdrawalRefused s s' := by
  rintro ⟨hrows,-⟩
  obtain ⟨w,hw,-⟩ := h.row
  exact List.cons_ne_nil w [] (List.self_eq_append_right.mp (hrows.symm.trans hw))

/-! ### The two ways to the hash -/

/-- The hash that is recorded is the one that is read into the transaction. -/
theorem txHash_of_decode (hserde : serde.ReadsTxHash) {raw : RawGnosisTransaction}
    {tx : MultiSigTransaction} (hdec : raw.decode serde = .ok (.multiSig tx)) :
    raw.txHash = .ok tx.txHash := by
  have hread : serde.fromValue raw.raw = .ok (.multiSig tx) := by
    cases h : serde.fromValue raw.raw with
    | ok decoded => simpa [RawGnosisTransaction.decode, h, Except.mapError] using hdec
    | error e => simp [RawGnosisTransaction.decode, h, Except.mapError] at hdec
  obtain ⟨text,htext,hhash⟩ := hserde raw.raw tx hread
  have hstr : raw.hashStr = some text := by simp [RawGnosisTransaction.hashStr, htext, Json.asStr]
  simp [RawGnosisTransaction.txHash, hstr, hhash, Except.mapError]

theorem parse_ethTxHash {tx : MultiSigTransaction} {w : GnosisSafeWithdrawal}
    (h : safe.parseWithdrawalWithPubKeyMultiSigTx tx = .ok w) : w.ethTxHash = tx.txHash := by
  have hno : (safe.parseWithdrawalWithPubKeyMultiSigTx tx).NoErr := by
    rw [h]
    exact Outcome.noErr_ok w
  obtain ⟨p,hp⟩ := exists_of_parse hno
  rw [parse_eq_of hp] at h
  obtain ⟨_,_,_,_,_,_,-,-,-,-,-,-,rfl⟩ := (withdrawal_eq_ok p w).mp h
  rfl

/-! ### Storing a withdrawal -/

/-- No withdrawal has a hash that was not recorded. -/
theorem Intact.not_mem_withdrawalHashes (hi : Intact s)
    (hnew : hashProcessed s hash.toString = false) : hash ∉ withdrawalHashes s := by
  intro hmem
  obtain ⟨w,hw,rfl⟩ := List.mem_map.mp hmem
  rw [hi.withdrawals w hw] at hnew
  exact absurd hnew (by decide)

/-- Storing the withdrawal breaks no constraint: its hash was just recorded, and is new. -/
theorem Intact.insert_returns (hi : Intact s) (safe : AuditedSafeConfig) (serde : Serde)
    (raw : RawGnosisTransaction) {w₀ : GnosisSafeWithdrawal}
    (hnew : hashProcessed s hash.toString = false) (hid : w₀.id = none)
    (hhash : w₀.ethTxHash = hash) :
    (∃ w s₁, w₀.insert.Returns (recordHash serde raw hash s) w s₁) ∧
    ∃ s', (safe.storeWithdrawal w₀).Returns (recordHash serde raw hash s) () s' := by
  have hfresh : w₀.ethTxHash ∉ withdrawalHashes s := hhash ▸ hi.not_mem_withdrawalHashes hnew
  have hstore := (storeWithdrawal_returns_iff safe (recordHash serde raw hash s) hid).mpr
    ⟨by simp [hashProcessed_recordHash, hhash],hfresh⟩
  refine ⟨?_,hstore⟩
  obtain ⟨s',h⟩ := hstore
  obtain ⟨w,s₁,hins,-⟩ := (Program.returns_bind _ _ _ _ _).mp h
  exact ⟨w,s₁,hins⟩

/-- Whatever comes of the match, the withdrawal stays and nothing is counted as invalid. -/
theorem withdrawalStored_of_returns {w₀ : GnosisSafeWithdrawal}
    (ha : (w₀.safeAddr == safe.safeAddr) = true) (h : (safe.storeWithdrawal w₀).Returns s () s') :
    WithdrawalStored w₀.ethTxHash s s' ∧ s'.gnosisSafeTxs = s.gnosisSafeTxs := by
  have hcounts : Counts Counter.ofBurns s s' := (counts_storeWithdrawal safe w₀).returns h
  obtain ⟨n,hadd⟩ := returns_storeWithdrawal ha h
  have hrows := hadd.rows
  obtain ⟨t,u,c,-,rfl⟩ := hadd.frame
  exact ⟨⟨⟨Record.withId w₀ n,hrows,rfl⟩,hcounts.get rfl⟩,rfl⟩

/-! ### Multi-sig transactions -/

/-- A transaction of the safe that the parser does not panic on is stored or counted. -/
theorem Intact.processMultiSigTransaction (hi : Intact s) (hc : s.counters.isSome = true)
    (serde : Serde) (raw : RawGnosisTransaction) {tx : MultiSigTransaction}
    (hnew : hashProcessed s tx.txHash.toString = false)
    (hsafe : (tx.safe == safe.safeAddr) = true)
    (hparse : ∀ m, safe.parseWithdrawalWithPubKeyMultiSigTx tx ≠ .panic m) :
    ∃ s', (safe.processMultiSigTransaction tx).Returns (recordHash serde raw tx.txHash s) () s' ∧
      s'.gnosisSafeTxs = (recordHash serde raw tx.txHash s).gnosisSafeTxs ∧
      (WithdrawalStored tx.txHash s s' ∨ WithdrawalRefused s s') := by
  simp only [AuditedSafeConfig.processMultiSigTransaction_eq, hsafe, ite_true]
  cases hp : safe.parseWithdrawalWithPubKeyMultiSigTx tx with
  | ok w₀ =>
    obtain ⟨hid,haddr⟩ := parse_safeAddr hp
    have hhash := parse_ethTxHash hp
    obtain ⟨s',h⟩ := (hi.insert_returns safe serde raw hnew hid hhash).2
    obtain ⟨⟨hrow,hcount⟩,htxs⟩ := withdrawalStored_of_returns (haddr ▸ hsafe) h
    exact ⟨s',h,htxs,Or.inl ⟨hhash ▸ hrow,hcount⟩⟩
  | err e =>
    obtain ⟨row,hrow⟩ := Option.isSome_iff_exists.mp hc
    refine ⟨{ recordHash serde raw tx.txHash s with
        counters := some (row.bump .numInvalidMultiSigTransactions) },
      (Counters.returns_inc _ _ _ _).mpr ⟨row,hrow,rfl⟩,rfl,Or.inr ⟨rfl,?_⟩⟩
    simp [invalidMultiSigs, Counters.get, hrow]
  | panic m => exact (hparse m hp).elim

/-- A multi-sig transaction of the safe that was not seen before is processed and accounted for
exactly once, from whatever state was reached, and its withdrawal breaks no constraint. -/
theorem multiSig_accounted_once (ext : Externals) (serde : Serde) (hserde : serde.ReadsTxHash)
    {ι : Type} [DecidableEq ι] (c : ScanState ι) (h : Scanned ext serde c) (safe : AuditedSafeConfig)
    (raw : RawGnosisTransaction) (tx : MultiSigTransaction)
    (hdec : raw.decode serde = .ok (.multiSig tx)) (hsafe : (tx.safe == safe.safeAddr) = true)
    (hparse : ∀ m, safe.parseWithdrawalWithPubKeyMultiSigTx tx ≠ .panic m)
    (hnew : ∀ hash, raw.txHash = .ok hash → hashProcessed c.db hash.toString = false) :
    ∃ hash s', raw.txHash = .ok hash ∧
      (safe.processTransactions serde [raw]).Returns c.db () s' ∧
      s'.gnosisSafeTxs = c.db.gnosisSafeTxs ++ [⟨hash.toString,raw.toJsonString serde⟩] ∧
      Xor (WithdrawalStored hash c.db s') (WithdrawalRefused c.db s') ∧
      ∀ w₀, safe.parseWithdrawalWithPubKeyMultiSigTx tx = .ok w₀ →
        ∃ w s₁, w₀.insert.Returns (recordHash serde raw hash c.db) w s₁ := by
  have hhash := txHash_of_decode hserde hdec
  have hfresh := hnew tx.txHash hhash
  obtain ⟨s',hr,htxs,hor⟩ := h.intact.processMultiSigTransaction h.syncedTo.counters serde raw
    hfresh hsafe hparse
  refine ⟨tx.txHash,s',hhash,?_,htxs,?_,fun w₀ hw₀ =>
    (h.intact.insert_returns safe serde raw hfresh (parse_safeAddr hw₀).1 (parse_ethTxHash hw₀)).1⟩
  · refine (Program.returns_forEach_cons _ _ _ _ _ _).mpr ⟨s',?_,
      (Program.returns_forEach_nil _ _ _ _).mpr rfl⟩
    exact (returns_processRawTransaction_iff serde raw c.db s' ()).mpr
      ⟨tx.txHash,hhash,Or.inr ⟨hfresh,_,hdec,hr⟩⟩
  -- it cannot be both, as only one of the two adds a row
  · rcases hor with hstored | hrefused
    · exact Or.inl ⟨hstored,hstored.not_refused⟩
    · exact Or.inr ⟨hrefused,fun hstored => hstored.not_refused hrefused⟩

/-! ### A withdrawal of 2 -/

theorem field_eq_ok {key : String} {v x : Json} (h : Reference.field key v = .ok x) :
    v.get key = some x := by
  unfold Reference.field at h
  cases hv : v.get key <;> simp_all

theorem readTxHash_eq_ok {v : Json} (h : Reference.txHash v = .ok hash) :
    ∃ text, v = .string text ∧ EthTxHash.fromStr text = .ok hash := by
  simp only [Reference.txHash, Outcome.except_bind_eq_ok, Outcome.except_mapError_eq_ok] at h
  obtain ⟨text,htext,h⟩ := h
  refine ⟨text,?_,h⟩
  cases v <;> simp_all [Reference.str, Json.asStr]

theorem reference_readsTxHash : Reference.serde.ReadsTxHash := by
  intro raw tx h
  change Reference.transaction raw = _ at h
  simp only [Reference.transaction, Outcome.except_bind_eq_ok] at h
  obtain ⟨_,-,tag,-,h⟩ := h
  split at h
  · obtain ⟨read,hread,htx⟩ := (Outcome.except_map_eq_ok _ _ _).mp h
    obtain rfl := Transaction.multiSig.inj htx
    simp only [Reference.multiSigTransaction, Outcome.except_bind_eq_ok] at hread
    obtain ⟨_,-,_,-,_,-,_,-,_,-,_,-,_,-,_,-,_,-,x,hx,hash,hhash,_,-,_,-,_,-,_,-,_,-,_,-,hread⟩ := hread
    obtain rfl := Except.ok.inj hread
    -- the field that was read is a string that parses as a hash
    obtain ⟨text,rfl,htext⟩ := readTxHash_eq_ok hhash
    exact ⟨text,field_eq_ok hx,htext⟩
  -- the other tags give other kinds of transactions
  · obtain ⟨_,-,htx⟩ := (Outcome.except_map_eq_ok _ _ _).mp h
    simp at htx
  · simp at h
  · simp at h

def withdrawalOfTwo : RawGnosisTransaction :=
  Reference.withdrawalTx '2' Reference.safeAddrB "2000000000000" (List.replicate 32 9)

def checkMultiSig (p : MultiSigTransaction → Bool) : Except GnosisError Transaction → Bool
  | .ok (.multiSig tx) => p tx
  | _ => false

theorem exists_of_checkMultiSig {p : MultiSigTransaction → Bool} {x : Except GnosisError Transaction}
    (h : checkMultiSig p x = true) : ∃ tx, x = .ok (.multiSig tx) ∧ p tx = true := by
  rcases x with e | (tx | tx | v)
  · cases h
  · exact ⟨tx,rfl,h⟩
  · cases h
  · cases h

theorem withdrawalOfTwo_accounted_once : ∃ tx,
    withdrawalOfTwo.decode Reference.serde = .ok (.multiSig tx) ∧ ∃ hash s',
      withdrawalOfTwo.txHash = .ok hash ∧
      (Reference.safeB.processTransactions Reference.serde [withdrawalOfTwo]).Returns initialDb () s' ∧
      s'.gnosisSafeTxs = [⟨hash.toString,withdrawalOfTwo.toJsonString Reference.serde⟩] ∧
      Xor (WithdrawalStored hash initialDb s') (WithdrawalRefused initialDb s') ∧
      ∀ w₀, Reference.safeB.parseWithdrawalWithPubKeyMultiSigTx tx = .ok w₀ → ∃ w s₁,
        w₀.insert.Returns (recordHash Reference.serde withdrawalOfTwo hash initialDb) w s₁ := by
  have hcheck : checkMultiSig (fun tx => tx.safe == Reference.safeB.safeAddr &&
      (Reference.safeB.parseWithdrawalWithPubKeyMultiSigTx tx).isOk)
      (withdrawalOfTwo.decode Reference.serde) = true := by
    decide +kernel
  obtain ⟨tx,hdec,hboth⟩ := exists_of_checkMultiSig hcheck
  obtain ⟨hsafe,hok⟩ := Bool.and_eq_true_iff.mp hboth
  obtain ⟨w,hw⟩ := (Outcome.isOk_iff _).mp hok
  exact ⟨tx,hdec,multiSig_accounted_once Reference.externals Reference.serde reference_readsTxHash
    ⟨initialDb,fun _ : Unit => none⟩ .start Reference.safeB withdrawalOfTwo tx hdec hsafe
    (fun m hm => by simp [hw] at hm) fun _ _ => rfl⟩

end ReserveAuditor
