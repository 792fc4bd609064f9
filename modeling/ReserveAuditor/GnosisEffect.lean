import ReserveAuditor.GnosisSync
import ReserveAuditor.MatchSteps

/-! What processing a Gnosis transaction leaves in the database. -/
namespace ReserveAuditor
open Txn Relational Matching

/-! ### What a transaction stands for -/

namespace AuditedSafeConfig

/-- The deposits that the transfers of a transaction stand for, up to the first transfer
into the safe that is not a deposit. -/
def depositsOf (safe : AuditedSafeConfig) (tx : EthereumTransaction) :
    List EthereumTransfer → List GnosisSafeDeposit
  | [] => []
  | transfer :: transfers =>
    if transfer.toAddr == safe.safeAddr then
      match safe.depositOfTransfer tx transfer with
      | .ok deposit => deposit :: safe.depositsOf tx transfers
      | _ => []
    else safe.depositsOf tx transfers

/-- The withdrawals that a multi-sig transaction stands for. -/
def withdrawalsOf (safe : AuditedSafeConfig) (tx : MultiSigTransaction) :
    List GnosisSafeWithdrawal :=
  if tx.safe == safe.safeAddr then
    match safe.parseWithdrawalWithPubKeyMultiSigTx tx with
    | .ok withdrawal => [withdrawal]
    | _ => []
  else []

def recordedDeposits (safe : AuditedSafeConfig) : Transaction → List GnosisSafeDeposit
  | .ethereum tx => safe.depositsOf tx tx.transfers
  | _ => []

def recordedWithdrawals (safe : AuditedSafeConfig) : Transaction → List GnosisSafeWithdrawal
  | .multiSig tx => safe.withdrawalsOf tx
  | _ => []

end AuditedSafeConfig

/-- The deposit came from a transfer of an audited token into the safe. -/
structure DepositValid (safe : AuditedSafeConfig) (d : GnosisSafeDeposit) : Prop where
  nonce : d.expectedMcMintTxNonceHex = Hex.encode (mintTxNonceBytes d.ethTxHash)
  safeAddr : (d.safeAddr == safe.safeAddr) = true
  value : ∃ token, safe.getTokenByEthContractAddr d.tokenAddr = some token ∧
    truncateValue d.ethTxValue token.decimals safe.tokenDecimalsMax = .ok d.getAmount

theorem depositOfTransfer_valid {safe : AuditedSafeConfig} {tx : EthereumTransaction}
    {transfer : EthereumTransfer} {d : GnosisSafeDeposit}
    (ha : (transfer.toAddr == safe.safeAddr) = true)
    (h : safe.depositOfTransfer tx transfer = .ok d) : d.id = none ∧ DepositValid safe d := by
  simp only [AuditedSafeConfig.depositOfTransfer, Outcome.bind_eq_ok, Outcome.okOr_eq_ok,
    Outcome.unwrap_eq_ok, Outcome.pure_eq_ok] at h
  obtain ⟨tokenAddr,-,token,htoken,value,-,amount,hamount,rfl⟩ := h
  exact ⟨rfl,rfl,ha,token,htoken,hamount⟩

theorem DepositValid.withId {safe : AuditedSafeConfig} {d : GnosisSafeDeposit} (n : ℕ)
    (h : DepositValid safe d) : DepositValid safe (Record.withId d n) := ⟨h.nonce,h.safeAddr,h.value⟩

theorem parse_safeAddr {safe : AuditedSafeConfig} {tx : MultiSigTransaction}
    {w : GnosisSafeWithdrawal} (h : safe.parseWithdrawalWithPubKeyMultiSigTx tx = .ok w) :
    w.id = none ∧ w.safeAddr = tx.safe := by
  simp only [AuditedSafeConfig.parseWithdrawalWithPubKeyMultiSigTx, Outcome.bind_eq_ok,
    Outcome.pure_eq_ok] at h
  obtain ⟨_,-,_,-,_,-,_,-,_,-,_,-,_,-,_,-,_,-,_,-,_,-,_,-,_,-,_,-,_,-,_,-,_,-,_,-,_,-,_,-,rfl⟩ := h
  exact ⟨rfl,rfl⟩

/-! ### Deposits -/

variable {safe : AuditedSafeConfig} {s s' : Db}

/-- A deposit was stored and an attempt made to match it. -/
structure DepositAdded (safe : AuditedSafeConfig) (s : Db) (d : GnosisSafeDeposit) (s' : Db) :
    Prop where
  frame : ∃ t u c, Counters.SameLedger s.counters c ∧
    s' = { s with gnosisSafeDeposits := t, auditedMints := u, counters := c }
  rows : s'.gnosisSafeDeposits.rows = s.gnosisSafeDeposits.rows ++ [d]
  processed : hashProcessed s d.ethTxHash.toString = true
  board : ∀ config : GnosisSafeConfig, config.Distinct → safe ∈ config.safes → MintRefs s →
    mintBoard s' = (mintBoard s).arriveRight (mintSides config) d

/-- Deposits were stored one after the other. -/
inductive DepositsAdded (safe : AuditedSafeConfig) : Db → List GnosisSafeDeposit → Db → Prop where
  | nil {s s' : Db} (counted : CountFrame s s') : DepositsAdded safe s [] s'
  | cons {s s' s'' : Db} {d₀ : GnosisSafeDeposit} {ds : List GnosisSafeDeposit} (n : ℕ)
      (valid : DepositValid safe d₀) (head : DepositAdded safe s (Record.withId d₀ n) s')
      (tail : DepositsAdded safe s' ds s'') : DepositsAdded safe s (d₀ :: ds) s''

theorem frame_matchDeposit {d : GnosisSafeDeposit} {r : Except Error MintTx}
    (h : (AuditedMint.tryMatchDepositWithMint d safe).attempt.Returns s r s') : MintFrame s s' := by
  cases r with
  -- a match writes one row of `auditedMints` and counts nothing
  | ok m =>
    obtain ⟨id,-,-,-,-,-,ha⟩ := (returns_tryMatch s s' m).mp ((Program.returns_attempt_ok _ s s' m).mp h)
    simp only [AuditedMint.associateDepositWithMint, Program.returns_bind, Program.returns_ofOutcome,
      returns_insertInto, Program.returns_pure] at ha
    obtain ⟨mid,s₁,⟨-,h₁⟩,n,_,⟨t,-,-,rfl⟩,-,rfl⟩ := ha
    subst s₁
    exact ⟨t,s.counters,.refl _,rfl⟩
  -- a failure was rolled back, and then counted
  | error e =>
    obtain ⟨c,hc,rfl⟩ := fails_tryMatch (by intro e; cases e <;> rfl)
      ((Program.returns_attempt_error _ s s' e).mp h)
    exact ⟨s.auditedMints,c,hc,rfl⟩

theorem returns_storeDeposit {d₀ : GnosisSafeDeposit} {u : Unit} (hvalid : DepositValid safe d₀)
    (h : (safe.storeDeposit d₀).Returns s u s') :
    ∃ n, DepositAdded safe s (Record.withId d₀ n) s' := by
  simp only [AuditedSafeConfig.storeDeposit, Program.returns_bind, Program.returns_pure] at h
  obtain ⟨d,s₁,hins,r,_,h,-,rfl⟩ := h
  obtain ⟨-,n,t,hi,hp,rfl,rfl⟩ := (returns_insertUnsaved _ _ _ _ _ _ _ _).mp hins
  obtain ⟨-,-,ht⟩ := (Table.insert_eq_ok _ _ _ _).mp hi
  obtain ⟨v,c,hc,hs'⟩ := frame_matchDeposit h
  refine ⟨n,⟨t,v,c,hc,hs'⟩,by rw [hs']; exact ht,hp,fun config hd hsafe hr => ?_⟩
  -- the attempt runs on the table that already holds the new deposit
  obtain ⟨hb,-⟩ := attempt_matchDeposit hd hsafe (hr.insertDeposit ht) (Table.mem_append ht)
    (hvalid.withId n).safeAddr h
  have hadd : mintBoard { s with gnosisSafeDeposits := t } =
      (mintBoard s).addRight (Record.withId d₀ n) := by
    simp only [mintBoard, Board.addRight, ht]
  rw [hb, hadd]
  rfl

theorem returns_processTransfer {tx : EthereumTransaction} {transfer : EthereumTransfer} {u : Unit}
    (h : (safe.processTransfer tx transfer).Returns s u s') :
    ((transfer.toAddr == safe.safeAddr) = false ∧ s' = s) ∨
    ((transfer.toAddr == safe.safeAddr) = true ∧ ∃ d₀ n, safe.depositOfTransfer tx transfer = .ok d₀ ∧
      DepositValid safe d₀ ∧ DepositAdded safe s (Record.withId d₀ n) s') := by
  rcases AuditedSafeConfig.returns_processTransfer_iff.mp h with hout | ⟨ha,d₀,hd₀,hstore⟩
  · exact Or.inl hout
  · have hvalid := (depositOfTransfer_valid ha hd₀).2
    obtain ⟨n,hadd⟩ := returns_storeDeposit hvalid hstore
    exact Or.inr ⟨ha,d₀,n,hd₀,hvalid,hadd⟩

/-- Only the insert can fail, and it fails before it writes. -/
theorem fails_storeDeposit {d₀ : GnosisSafeDeposit} {e : Error}
    (h : (safe.storeDeposit d₀).Fails s e s') : s' = s ∧ ∀ g, e ≠ .gnosis g := by
  simp only [AuditedSafeConfig.storeDeposit, Program.fails_bind, Program.fails_attempt,
    Program.fails_pure, and_false, exists_false, or_false] at h
  exact fails_insertUnsaved h

theorem fails_processTransfer {tx : EthereumTransaction} {transfer : EthereumTransfer} {e : Error}
    (h : (safe.processTransfer tx transfer).Fails s e s') :
    CountFrame s s' ∧ ((∃ m, e = .gnosis (.unknownToken m)) → (transfer.toAddr == safe.safeAddr) = true ∧
      ∀ d₀, safe.depositOfTransfer tx transfer ≠ .ok d₀) := by
  obtain ⟨ha,⟨err,herr,h⟩ | ⟨d₀,-,h⟩⟩ := AuditedSafeConfig.fails_processTransfer_iff.mp h
  · refine ⟨?_,fun _ => ⟨ha,fun d₀ hd₀ => by simp [hd₀] at herr⟩⟩
    -- a transfer that cannot be read is counted, and then fails
    simp only [Program.fails_bind, Counters.fails_inc, Program.fails_fail] at h
    rcases h with ⟨-,-,rfl⟩ | ⟨_,_,hinc,-,rfl⟩
    · exact .refl s'
    · exact countFrame_inc rfl hinc
  · obtain ⟨rfl,hne⟩ := fails_storeDeposit h
    refine ⟨.refl s',?_⟩
    rintro ⟨m,hm⟩
    exact (hne _ hm).elim

/-- An Ethereum transaction that is processed, perhaps up to a transfer of an unknown token,
stores the deposits that it stands for. -/
theorem depositsAdded_transfers {tx : EthereumTransaction} (transfers : List EthereumTransfer)
    (h : (∃ u, (Program.forEach transfers (safe.processTransfer tx)).Returns s u s') ∨
      ∃ m, (Program.forEach transfers (safe.processTransfer tx)).Fails s
        (.gnosis (.unknownToken m)) s') :
    DepositsAdded safe s (safe.depositsOf tx transfers) s' := by
  induction transfers generalizing s with
  | nil =>
    rcases h with ⟨u,h⟩ | ⟨m,h⟩
    · rw [(Program.returns_forEach_nil _ s s' u).mp h]
      exact .nil (.refl s)
    · simp at h
  | cons transfer transfers ih =>
    -- a transfer that was processed adds its own deposit, if any, before those of the rest
    have step {s₁ : Db} (hone : (safe.processTransfer tx transfer).Returns s () s₁)
        (hrest : DepositsAdded safe s₁ (safe.depositsOf tx transfers) s') :
        DepositsAdded safe s (safe.depositsOf tx (transfer :: transfers)) s' := by
      rcases returns_processTransfer hone with ⟨ha,rfl⟩ | ⟨ha,d₀,n,hd₀,hvalid,hadd⟩
      · simpa only [AuditedSafeConfig.depositsOf, ha, Bool.false_eq_true, ite_false] using hrest
      · simp only [AuditedSafeConfig.depositsOf, ha, ite_true, hd₀]
        exact .cons n hvalid hadd hrest
    rcases h with ⟨u,h⟩ | ⟨m,h⟩
    · obtain ⟨s₁,hone,hrest⟩ := (Program.returns_forEach_cons _ _ _ s s' u).mp h
      exact step hone (ih (Or.inl ⟨u,hrest⟩))
    · rcases (Program.fails_forEach_cons _ _ _ s s' _).mp h with h | ⟨s₁,hone,hrest⟩
      · obtain ⟨hcounted,hunknown⟩ := fails_processTransfer h
        obtain ⟨ha,hno⟩ := hunknown ⟨m,rfl⟩
        -- an unknown token ends the loop here, and so ends the list of deposits
        have hnil : safe.depositsOf tx (transfer :: transfers) = [] := by
          cases hd : safe.depositOfTransfer tx transfer with
          | ok d => exact (hno d hd).elim
          | err e => simp [AuditedSafeConfig.depositsOf, ha, hd]
          | panic m => simp [AuditedSafeConfig.depositsOf, ha, hd]
        rw [hnil]
        exact .nil hcounted
      · exact step hone (ih (Or.inr ⟨m,hrest⟩))

/-! ### Withdrawals -/

/-- A withdrawal was stored and an attempt made to match it. -/
structure WithdrawalAdded (safe : AuditedSafeConfig) (s : Db) (w : GnosisSafeWithdrawal) (s' : Db) :
    Prop where
  frame : ∃ t u c, Counters.SameLedger s.counters c ∧
    s' = { s with gnosisSafeWithdrawals := t, auditedBurns := u, counters := c }
  rows : s'.gnosisSafeWithdrawals.rows = s.gnosisSafeWithdrawals.rows ++ [w]
  processed : hashProcessed s w.ethTxHash.toString = true
  board : ∀ config : GnosisSafeConfig, config.Distinct → safe ∈ config.safes → BurnRefs s →
    burnBoard s' = (burnBoard s).arriveRight (burnSides config) w

theorem frame_matchWithdrawal {w : GnosisSafeWithdrawal} {r : Except Error BurnTxOut}
    (h : (AuditedBurn.tryMatchWithdrawalWithBurn w safe).attempt.Returns s r s') :
    BurnFrame s s' := by
  cases r with
  | ok b =>
    obtain ⟨id,-,-,-,-,-,ha⟩ := (returns_tryMatch s s' b).mp ((Program.returns_attempt_ok _ s s' b).mp h)
    simp only [AuditedBurn.associateWithdrawalWithBurn, Program.returns_bind,
      Program.returns_ofOutcome, returns_insertInto, Program.returns_pure] at ha
    obtain ⟨bid,s₁,⟨-,h₁⟩,n,_,⟨t,-,-,rfl⟩,-,rfl⟩ := ha
    subst s₁
    exact ⟨t,s.counters,.refl _,rfl⟩
  | error e =>
    obtain ⟨c,hc,rfl⟩ := fails_tryMatch (by intro e; cases e <;> rfl)
      ((Program.returns_attempt_error _ s s' e).mp h)
    exact ⟨s.auditedBurns,c,hc,rfl⟩

theorem returns_storeWithdrawal {w₀ : GnosisSafeWithdrawal} {u : Unit}
    (ha : (w₀.safeAddr == safe.safeAddr) = true) (h : (safe.storeWithdrawal w₀).Returns s u s') :
    ∃ n, WithdrawalAdded safe s (Record.withId w₀ n) s' := by
  simp only [AuditedSafeConfig.storeWithdrawal, Program.returns_bind, Program.returns_pure] at h
  obtain ⟨w,s₁,hins,r,_,h,-,rfl⟩ := h
  obtain ⟨-,n,t,hi,hp,rfl,rfl⟩ := (returns_insertUnsaved _ _ _ _ _ _ _ _).mp hins
  obtain ⟨-,-,ht⟩ := (Table.insert_eq_ok _ _ _ _).mp hi
  obtain ⟨v,c,hc,hs'⟩ := frame_matchWithdrawal h
  refine ⟨n,⟨t,v,c,hc,hs'⟩,by rw [hs']; exact ht,hp,fun config hd hsafe hr => ?_⟩
  -- as for deposits, the attempt already sees the new row
  obtain ⟨hb,-⟩ := attempt_matchWithdrawal hd hsafe (hr.insertWithdrawal ht) (Table.mem_append ht)
    ha h
  have hadd : burnBoard { s with gnosisSafeWithdrawals := t } =
      (burnBoard s).addRight (Record.withId w₀ n) := by
    simp only [burnBoard, Board.addRight, ht]
  rw [hb, hadd]
  rfl

theorem fails_storeWithdrawal {w₀ : GnosisSafeWithdrawal} {e : Error}
    (h : (safe.storeWithdrawal w₀).Fails s e s') : s' = s := by
  simp only [AuditedSafeConfig.storeWithdrawal, Program.fails_bind, Program.fails_attempt,
    Program.fails_pure, and_false, exists_false, or_false] at h
  exact (fails_insertUnsaved h).1

theorem returns_processMultiSigTransaction {tx : MultiSigTransaction} {u : Unit}
    (h : (safe.processMultiSigTransaction tx).Returns s u s') :
    (safe.withdrawalsOf tx = [] ∧ CountFrame s s') ∨
    ∃ w₀ n, safe.withdrawalsOf tx = [w₀] ∧ (w₀.safeAddr == safe.safeAddr) = true ∧
      WithdrawalAdded safe s (Record.withId w₀ n) s' := by
  unfold AuditedSafeConfig.withdrawalsOf
  rcases AuditedSafeConfig.returns_processMultiSigTransaction_iff.mp h with
    ⟨hout,rfl⟩ | ⟨ha,⟨err,herr,h⟩ | ⟨w₀,hw₀,h⟩⟩
  · exact Or.inl ⟨by simp [hout],.refl s'⟩
  -- what does not parse as a withdrawal is counted and otherwise ignored
  · exact Or.inl ⟨by simp [herr],countFrame_inc rfl h⟩
  · have hsafe : (w₀.safeAddr == safe.safeAddr) = true := by rw [(parse_safeAddr hw₀).2, ha]
    obtain ⟨n,hadd⟩ := returns_storeWithdrawal hsafe h
    exact Or.inr ⟨w₀,n,by simp [ha, hw₀],hsafe,hadd⟩

/-! ### Raw transactions -/

/-- A decoded transaction was processed. -/
inductive Processed (safe : AuditedSafeConfig) (s : Db) (tx : Transaction) (s' : Db) : Prop where
  | deposits (added : DepositsAdded safe s (safe.recordedDeposits tx) s')
      (none : safe.recordedWithdrawals tx = [])
  | withdrawal (none : safe.recordedDeposits tx = []) (w₀ : GnosisSafeWithdrawal) (n : ℕ)
      (recorded : safe.recordedWithdrawals tx = [w₀])
      (configured : (w₀.safeAddr == safe.safeAddr) = true)
      (added : WithdrawalAdded safe s (Record.withId w₀ n) s')

/-- The transfers of an Ethereum transaction are processed, perhaps up to one of an unknown
token. -/
theorem returns_processDecoded_ethereum (tx : EthereumTransaction) (s s' : Db) (u : Unit) :
    (safe.processDecoded (.ethereum tx)).Returns s u s' ↔
      (∃ v, (safe.processEthTransaction tx).Returns s v s') ∨
      ∃ m, (safe.processEthTransaction tx).Fails s (.gnosis (.unknownToken m)) s' := by
  simp only [AuditedSafeConfig.processDecoded, Program.returns_bind]
  constructor
  · rintro ⟨r,s₁,hr,h⟩
    cases r with
    | ok v =>
      obtain ⟨-,rfl⟩ := (Program.returns_pure () u s₁ s').mp h
      exact Or.inl ⟨v,(Program.returns_attempt_ok _ s s' v).mp hr⟩
    | error e =>
      have hf := (Program.returns_attempt_error _ s s₁ e).mp hr
      split at h
      · rename_i heq
        simp at heq
      · rename_i m heq
        obtain ⟨-,rfl⟩ := (Program.returns_pure () u s₁ s').mp h
        -- of the errors only an unknown token is swallowed
        obtain rfl := Except.error.inj heq
        exact Or.inr ⟨m,hf⟩
      · simp at h
  · rintro (⟨v,h⟩ | ⟨m,h⟩)
    · exact ⟨.ok v,s',(Program.returns_attempt_ok _ s s' v).mpr h,
        (Program.returns_pure () u s' s').mpr ⟨rfl,rfl⟩⟩
    · exact ⟨.error (.gnosis (.unknownToken m)),s',(Program.returns_attempt_error _ s s' _).mpr h,
        (Program.returns_pure () u s' s').mpr ⟨rfl,rfl⟩⟩

theorem returns_processDecoded {tx : Transaction} {u : Unit}
    (h : (safe.processDecoded tx).Returns s u s') : Processed safe s tx s' := by
  cases tx with
  | ethereum tx =>
    exact .deposits (depositsAdded_transfers tx.transfers
      ((returns_processDecoded_ethereum tx s s' u).mp h)) rfl
  | multiSig tx =>
    rcases returns_processMultiSigTransaction h with ⟨hn,hcounted⟩ | ⟨w₀,n,hw,ha,hadd⟩
    · exact .deposits (.nil hcounted) hn
    · exact .withdrawal rfl w₀ n hw ha hadd
  | module v =>
    obtain ⟨-,rfl⟩ := (Program.returns_pure () u s s').mp h
    exact .deposits (.nil (.refl s')) rfl

/-- The hash was recorded. -/
def recordHash (serde : Serde) (tx : RawGnosisTransaction) (hash : EthTxHash) (s : Db) : Db :=
  { s with gnosisSafeTxs := s.gnosisSafeTxs ++ [⟨hash.toString,tx.toJsonString serde⟩] }

theorem returns_insertTx (serde : Serde) (tx : RawGnosisTransaction) (s s' : Db) (u : Unit) :
    (GnosisSafeTx.insert serde tx).Returns s u s' ↔ ∃ hash, tx.txHash = .ok hash ∧
      hashProcessed s hash.toString = false ∧ s' = recordHash serde tx hash s := by
  simp only [GnosisSafeTx.insert, Program.returns_bind, Program.returns_ofExcept,
    Outcome.except_mapError_eq_ok, Program.returns_tryUpdate]
  constructor
  · rintro ⟨hash,s₁,⟨hhash,h₁⟩,h⟩
    subst h₁
    split at h
    · simp at h
    · rename_i hnew
      exact ⟨hash,hhash,by simpa using hnew,((Prod.mk.inj (Except.ok.inj h)).2).symm⟩
  · rintro ⟨hash,hhash,hnew,rfl⟩
    refine ⟨hash,s,⟨hhash,rfl⟩,?_⟩
    rw [hnew]
    rfl

/-- Recording a hash is refused as a duplicate only for a hash that is recorded. -/
theorem fails_insertTx (serde : Serde) (tx : RawGnosisTransaction) (s s' : Db) :
    (∃ m, (GnosisSafeTx.insert serde tx).Fails s (.alreadyExists m) s') ↔
      ∃ hash, tx.txHash = .ok hash ∧ hashProcessed s hash.toString = true ∧ s' = s := by
  simp only [GnosisSafeTx.insert, Program.fails_bind, Program.returns_ofExcept,
    Outcome.except_mapError_eq_ok, Program.fails_ofExcept, Outcome.except_mapError_eq_error,
    reduceCtorEq, and_false, exists_false, false_and, false_or, Program.fails_tryUpdate]
  constructor
  · rintro ⟨m,hash,s₁,⟨hhash,h₁⟩,h,rfl⟩
    subst h₁
    split at h
    · rename_i hold
      exact ⟨hash,hhash,hold,rfl⟩
    · simp at h
  · rintro ⟨hash,hhash,hold,rfl⟩
    refine ⟨"UNIQUE constraint failed: gnosis_safe_txs.eth_tx_hash",hash,s',⟨hhash,rfl⟩,?_,rfl⟩
    rw [hold]
    rfl

/-- A raw transaction is processed: it is skipped because of its hash, or its hash is recorded
and the decoded transaction is processed. -/
theorem returns_processRawTransaction_iff (serde : Serde) (tx : RawGnosisTransaction) (s s' : Db)
    (u : Unit) : (safe.processRawTransaction serde tx).Returns s u s' ↔
    ∃ hash, tx.txHash = .ok hash ∧
      ((hashProcessed s hash.toString = true ∧ s' = s) ∨
      (hashProcessed s hash.toString = false ∧ ∃ decoded, tx.decode serde = .ok decoded ∧
        (safe.processDecoded decoded).Returns (recordHash serde tx hash s) () s')) := by
  simp only [AuditedSafeConfig.processRawTransaction, Program.returns_expect,
    returns_exclusiveTransaction, Program.returns_bind]
  constructor
  · rintro ⟨r,s₁,hr,h⟩
    cases r with
    | ok v =>
      obtain ⟨hash,hhash,hnew,h₁⟩ :=
        (returns_insertTx serde tx s s₁ v).mp ((Program.returns_attempt_ok _ s s₁ v).mp hr)
      simp only [Program.returns_bind, Program.returns_ofExcept, Outcome.except_mapError_eq_ok] at h
      obtain ⟨decoded,s₂,⟨hd,h₂⟩,hp⟩ := h
      subst h₁ h₂
      exact ⟨hash,hhash,Or.inr ⟨hnew,decoded,hd,hp⟩⟩
    | error e =>
      have hf := (Program.returns_attempt_error _ s s₁ e).mp hr
      split at h
      · rename_i m heq
        obtain ⟨-,rfl⟩ := (Program.returns_pure () u s₁ s').mp h
        obtain rfl := Except.error.inj heq
        -- the hash was there: the source takes the transaction as processed
        obtain ⟨hash,hhash,hold,hs⟩ := (fails_insertTx serde tx s s').mp ⟨m,hf⟩
        exact ⟨hash,hhash,Or.inl ⟨hold,hs⟩⟩
      · simp at h
      · rename_i heq
        simp at heq
  · rintro ⟨hash,hhash,⟨hold,rfl⟩ | ⟨hnew,decoded,hd,hp⟩⟩
    · obtain ⟨m,hf⟩ := (fails_insertTx serde tx s' s').mpr ⟨hash,hhash,hold,rfl⟩
      exact ⟨.error (.alreadyExists m),s',(Program.returns_attempt_error _ _ _ _).mpr hf,
        (Program.returns_pure _ _ _ _).mpr ⟨rfl,rfl⟩⟩
    · refine ⟨.ok (),recordHash serde tx hash s,(Program.returns_attempt_ok _ _ _ _).mpr
        ((returns_insertTx serde tx s _ ()).mpr ⟨hash,hhash,hnew,rfl⟩),?_⟩
      simp only [Program.returns_bind, Program.returns_ofExcept, Outcome.except_mapError_eq_ok]
      exact ⟨decoded,_,⟨hd,rfl⟩,hp⟩

/-- A raw transaction that is processed is skipped because of its hash, or its hash is
recorded with what it stands for. -/
theorem returns_processRawTransaction {serde : Serde} {tx : RawGnosisTransaction} {u : Unit}
    (h : (safe.processRawTransaction serde tx).Returns s u s') :
    ∃ hash, tx.txHash = .ok hash ∧
      ((hashProcessed s hash.toString = true ∧ s' = s) ∨
      (hashProcessed s hash.toString = false ∧ ∃ decoded, tx.decode serde = .ok decoded ∧
        Processed safe (recordHash serde tx hash s) decoded s')) := by
  obtain ⟨hash,hhash,hold | ⟨hnew,decoded,hd,hp⟩⟩ :=
    (returns_processRawTransaction_iff serde tx s s' u).mp h
  · exact ⟨hash,hhash,Or.inl hold⟩
  · exact ⟨hash,hhash,Or.inr ⟨hnew,decoded,hd,returns_processDecoded hp⟩⟩

/-! ### Rows -/

/-- Nothing that the ledger loop writes was touched. -/
structure LedgerKept (s s' : Db) : Prop where
  blockAuditData : s'.blockAuditData = s.blockAuditData
  blockBalance : s'.blockBalance = s.blockBalance
  mintConfigTxs : s'.mintConfigTxs = s.mintConfigTxs
  mintConfigs : s'.mintConfigs = s.mintConfigs
  mintTxs : s'.mintTxs = s.mintTxs
  burnTxOuts : s'.burnTxOuts = s.burnTxOuts
  counters : Counters.SameLedger s.counters s'.counters

theorem LedgerKept.trans {s s' s'' : Db} (h : LedgerKept s s') (h' : LedgerKept s' s'') :
    LedgerKept s s'' where
  blockAuditData := h'.blockAuditData.trans h.blockAuditData
  blockBalance := h'.blockBalance.trans h.blockBalance
  mintConfigTxs := h'.mintConfigTxs.trans h.mintConfigTxs
  mintConfigs := h'.mintConfigs.trans h.mintConfigs
  mintTxs := h'.mintTxs.trans h.mintTxs
  burnTxOuts := h'.burnTxOuts.trans h.burnTxOuts
  counters := h.counters.trans h'.counters

/-- The deposit before it was stored. -/
def GnosisSafeDeposit.unsaved (d : GnosisSafeDeposit) : GnosisSafeDeposit := { d with id := none }

/-- The withdrawal before it was stored. -/
def GnosisSafeWithdrawal.unsaved (w : GnosisSafeWithdrawal) : GnosisSafeWithdrawal :=
  { w with id := none }

/-- The deposits of the database, ignoring ids. -/
def storedDeposits (s : Db) : List GnosisSafeDeposit :=
  s.gnosisSafeDeposits.rows.map GnosisSafeDeposit.unsaved

/-- The withdrawals of the database, ignoring ids. -/
def storedWithdrawals (s : Db) : List GnosisSafeWithdrawal :=
  s.gnosisSafeWithdrawals.rows.map GnosisSafeWithdrawal.unsaved

/-- Deposits and withdrawals were added in order. -/
structure RowsAdded (s : Db) (ds : List GnosisSafeDeposit) (ws : List GnosisSafeWithdrawal)
    (s' : Db) : Prop where
  txs : s'.gnosisSafeTxs = s.gnosisSafeTxs
  deposits : storedDeposits s' = storedDeposits s ++ ds.map GnosisSafeDeposit.unsaved
  withdrawals : storedWithdrawals s' = storedWithdrawals s ++ ws.map GnosisSafeWithdrawal.unsaved
  ledger : LedgerKept s s'

theorem CountFrame.rowsAdded (h : CountFrame s s') : RowsAdded s [] [] s' := by
  obtain ⟨c,hc,rfl⟩ := h
  exact ⟨rfl,by simp [storedDeposits],by simp [storedWithdrawals],rfl,rfl,rfl,rfl,rfl,rfl,hc⟩

theorem DepositAdded.rowsAdded {d₀ : GnosisSafeDeposit} {n : ℕ}
    (h : DepositAdded safe s (Record.withId d₀ n) s') : RowsAdded s [d₀] [] s' := by
  have hrows := h.rows
  obtain ⟨t,u,c,hc,rfl⟩ := h.frame
  refine ⟨rfl,?_,by simp [storedWithdrawals],rfl,rfl,rfl,rfl,rfl,rfl,hc⟩
  rw [storedDeposits, hrows, List.map_append]
  rfl

theorem DepositsAdded.rowsAdded {ds : List GnosisSafeDeposit} (h : DepositsAdded safe s ds s') :
    RowsAdded s ds [] s' := by
  induction h with
  | nil counted => exact counted.rowsAdded
  | cons n _ head _ ih =>
    have hone := head.rowsAdded
    refine ⟨ih.txs.trans hone.txs,?_,ih.withdrawals.trans ?_,hone.ledger.trans ih.ledger⟩
    · rw [ih.deposits, hone.deposits, List.append_assoc]
      rfl
    · rw [hone.withdrawals]
      simp

theorem WithdrawalAdded.rowsAdded {w₀ : GnosisSafeWithdrawal} {n : ℕ}
    (h : WithdrawalAdded safe s (Record.withId w₀ n) s') : RowsAdded s [] [w₀] s' := by
  have hrows := h.rows
  obtain ⟨t,u,c,hc,rfl⟩ := h.frame
  refine ⟨rfl,by simp [storedDeposits],?_,rfl,rfl,rfl,rfl,rfl,rfl,hc⟩
  rw [storedWithdrawals, hrows, List.map_append]
  rfl

theorem Processed.rowsAdded {tx : Transaction} (h : Processed safe s tx s') :
    RowsAdded s (safe.recordedDeposits tx) (safe.recordedWithdrawals tx) s' := by
  cases h with
  | deposits added none =>
    rw [none]
    exact added.rowsAdded
  | withdrawal none w₀ n recorded _ added =>
    rw [none, recorded]
    exact added.rowsAdded

theorem hashProcessed_recordHash (serde : Serde) (tx : RawGnosisTransaction) (hash : EthTxHash)
    (s : Db) (h : EthTxHash) : hashProcessed (recordHash serde tx hash s) h.toString = true ↔
      hashProcessed s h.toString = true ∨ h = hash := by
  have hinj : hash.toString = h.toString ↔ h = hash :=
    ⟨fun he => (EthTxHash.toString_injective he).symm,fun he => by rw [he]⟩
  simp [hashProcessed, recordHash, hinj]

end ReserveAuditor
