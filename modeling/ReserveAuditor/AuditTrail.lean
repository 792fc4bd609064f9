import ReserveAuditor.Rebuild
import ReserveAuditor.Reserve

/-! The trail of an audit: from the mints and burns that are audited back to the stored texts of the
Ethereum transactions that they were matched for. -/
namespace ReserveAuditor
open Txn Relational

variable {serde : Serde} {config : GnosisSafeConfig} {safe : AuditedSafeConfig} {s : Db}
  {journal : List (AuditedSafeConfig × RawGnosisTransaction)}

/-! ### What a transaction says -/

/-- The transfer is what the mint is for: it pays an audited token into the safe. -/
structure TransferFor (safe : AuditedSafeConfig) (transfer : EthereumTransfer) (m : MintTx) :
    Prop where
  intoSafe : (transfer.toAddr == safe.safeAddr) = true
  nonce : m.nonceHex = Hex.encode (mintTxNonceBytes transfer.txHash)
  paid : ∃ tokenAddr token value, transfer.tokenAddr = some tokenAddr ∧
    safe.getTokenByEthContractAddr tokenAddr = some token ∧ token.tokenId = m.getTokenId ∧
    transfer.value = some value ∧
    truncateValue value token.decimals safe.tokenDecimalsMax = .ok m.getAmount

/-- The multi-sig transaction is what the burn is for: it withdraws an audited token from the safe
and records the key of the burned output. -/
structure WithdrawalFor (safe : AuditedSafeConfig) (tx : MultiSigTransaction) (b : BurnTxOut) :
    Prop where
  fromSafe : (tx.safe == safe.safeAddr) = true
  withdrawn : ∃ w token, safe.parseWithdrawalWithPubKeyMultiSigTx tx = .ok w ∧
    w.mcTxOutPublicKeyHex = b.publicKeyHex ∧ w.getAmount = b.getAmount ∧
    safe.getTokenByEthContractAddr w.tokenAddr = some token ∧ token.tokenId = b.getTokenId

theorem mem_depositsOf {tx : EthereumTransaction} {transfers : List EthereumTransfer}
    {d : GnosisSafeDeposit} (h : d ∈ safe.depositsOf tx transfers) : ∃ transfer ∈ transfers,
      (transfer.toAddr == safe.safeAddr) = true ∧ safe.depositOfTransfer tx transfer = .ok d := by
  induction transfers with
  | nil => simp [AuditedSafeConfig.depositsOf] at h
  | cons transfer transfers ih =>
    have hrest (h : d ∈ safe.depositsOf tx transfers) :
        ∃ t ∈ transfer :: transfers, (t.toAddr == safe.safeAddr) = true ∧
          safe.depositOfTransfer tx t = .ok d := by
      obtain ⟨t,ht,hd⟩ := ih h
      exact ⟨t,List.mem_cons_of_mem transfer ht,hd⟩
    rw [AuditedSafeConfig.depositsOf] at h
    split_ifs at h with hto
    · split at h
      · rename_i d' hd'
        rcases List.mem_cons.mp h with rfl | h
        · exact ⟨transfer,List.mem_cons_self,hto,hd'⟩
        · exact hrest h
      -- the deposits end before a transfer that is none
      · simp at h
    · exact hrest h

theorem mem_readDeposits {tx : RawGnosisTransaction} {d : GnosisSafeDeposit}
    (h : d ∈ safe.readDeposits serde tx) : ∃ decoded transfer,
      tx.decode serde = .ok (.ethereum decoded) ∧ transfer ∈ decoded.transfers ∧
      (transfer.toAddr == safe.safeAddr) = true ∧
      safe.depositOfTransfer decoded transfer = .ok d := by
  rw [AuditedSafeConfig.readDeposits] at h
  cases hdecoded : tx.decode serde with
  | error e => simp [hdecoded] at h
  | ok decoded =>
    rw [hdecoded] at h
    cases decoded with
    | ethereum decoded =>
      obtain ⟨transfer,hmem,hto,hd⟩ := mem_depositsOf h
      exact ⟨decoded,transfer,rfl,hmem,hto,hd⟩
    | multiSig decoded => simp [AuditedSafeConfig.recordedDeposits] at h
    | module v => simp [AuditedSafeConfig.recordedDeposits] at h

theorem mem_readWithdrawals {tx : RawGnosisTransaction} {w : GnosisSafeWithdrawal}
    (h : w ∈ safe.readWithdrawals serde tx) : ∃ decoded,
      tx.decode serde = .ok (.multiSig decoded) ∧ (decoded.safe == safe.safeAddr) = true ∧
      safe.parseWithdrawalWithPubKeyMultiSigTx decoded = .ok w := by
  rw [AuditedSafeConfig.readWithdrawals] at h
  cases hdecoded : tx.decode serde with
  | error e => simp [hdecoded] at h
  | ok decoded =>
    rw [hdecoded] at h
    cases decoded with
    | ethereum decoded => simp [AuditedSafeConfig.recordedWithdrawals] at h
    | multiSig decoded =>
      refine ⟨decoded,rfl,?_⟩
      change w ∈ safe.withdrawalsOf decoded at h
      rw [AuditedSafeConfig.withdrawalsOf] at h
      split_ifs at h with hsafe
      · refine ⟨hsafe,?_⟩
        split at h
        · rename_i w' hw'
          rw [List.mem_singleton.mp h, hw']
        · simp at h
      · simp at h
    | module v => simp [AuditedSafeConfig.recordedWithdrawals] at h

/-! ### From a pair to its transaction -/

/-- A deposit that matches a mint came from a transfer that the mint is for. -/
theorem MintMatches.transferFor {m : MintTx} {d d₀ : GnosisSafeDeposit}
    {tx : EthereumTransaction} {transfer : EthereumTransfer} (h : MintMatches config m d)
    (hd : config.Distinct) (hsafe : safe ∈ config.safes)
    (hto : (transfer.toAddr == safe.safeAddr) = true)
    (hread : safe.depositOfTransfer tx transfer = .ok d₀) (hsame : d₀.unsaved = d.unsaved) :
    TransferFor safe transfer m := by
  -- the match does not depend on the id that the deposit has got
  have hunsaved : MintMatches config m d.unsaved := ⟨h.nonce,h.amount,h.token⟩
  rw [← hsame] at hunsaved
  obtain ⟨hnonce,hmamount,safe',hsafe',token',htoken',hid⟩ := hunsaved
  simp only [AuditedSafeConfig.depositOfTransfer, Outcome.bind_eq_ok, Outcome.okOr_eq_ok,
    Outcome.unwrap_eq_ok, Outcome.pure_eq_ok] at hread
  obtain ⟨tokenAddr,haddr,token,htoken,value,hvalue,amount,hamount,rfl⟩ := hread
  obtain rfl := Option.some.inj ((get_safe_config_of_beq config hd safe hsafe _ hto).symm.trans hsafe')
  obtain rfl := Option.some.inj (htoken.symm.trans htoken')
  refine ⟨hto,hnonce,tokenAddr,token,value,haddr,htoken,hid,hvalue,?_⟩
  rw [hmamount]
  exact hamount

/-- A withdrawal that matches a burn came from a transaction that the burn is for. -/
theorem BurnMatches.withdrawalFor {b : BurnTxOut} {w w₀ : GnosisSafeWithdrawal}
    {tx : MultiSigTransaction} (h : BurnMatches config b w) (hd : config.Distinct)
    (hsafe : safe ∈ config.safes) (hfrom : (tx.safe == safe.safeAddr) = true)
    (hread : safe.parseWithdrawalWithPubKeyMultiSigTx tx = .ok w₀)
    (hsame : w₀.unsaved = w.unsaved) : WithdrawalFor safe tx b := by
  have hunsaved : BurnMatches config b w.unsaved := ⟨h.key,h.amount,h.token⟩
  rw [← hsame] at hunsaved
  obtain ⟨hkey,hamount,safe',hsafe',token,htoken,hid⟩ := hunsaved
  have hfrom' : (w₀.safeAddr == safe.safeAddr) = true := by rw [(parse_safeAddr hread).2, hfrom]
  obtain rfl :=
    Option.some.inj ((get_safe_config_of_beq config hd safe hsafe _ hfrom').symm.trans hsafe')
  exact ⟨hfrom,w₀,token,hread,hkey.symm,hamount.symm,htoken,hid⟩

/-! ### Runs -/

/-- The trail of the audited mints and burns: a stored row decodes to an Ethereum transaction that
pays for the mint, or to a multi-sig transaction that withdraws what was burned. -/
structure AuditsTraced (config : GnosisSafeConfig) (serde : Serde)
    (readValue : String → Except String Json) (s : Db) : Prop where
  mints : ∀ p ∈ AuditedMint.withMintAndDeposit s, ∃ row ∈ s.gnosisSafeTxs, ∃ raw tx,
    row.decode readValue = .ok raw ∧ raw.decode serde = .ok (.ethereum tx) ∧
    ∃ safe ∈ config.safes, ∃ transfer ∈ tx.transfers, TransferFor safe transfer p.2.1
  burns : ∀ p ∈ AuditedBurn.withBurnAndWithdrawal s, ∃ row ∈ s.gnosisSafeTxs, ∃ raw tx,
    row.decode readValue = .ok raw ∧ raw.decode serde = .ok (.multiSig tx) ∧
    ∃ safe ∈ config.safes, WithdrawalFor safe tx p.2.1

theorem Audited.traced {readValue : String → Except String Json} (hi : Audited config s)
    (hd : config.Distinct) (hfrom : ReadFrom serde journal s)
    (hsafes : ∀ q ∈ journal, q.1 ∈ config.safes)
    (hread : ∀ q ∈ journal, readValue (serde.toJsonString q.2.raw) = .ok q.2.raw) :
    AuditsTraced config serde readValue s where
  mints p hp := by
    obtain ⟨-,-,hdep⟩ := (mem_withMintAndDeposit s p).mp hp
    have hstored : p.2.2.unsaved ∈ storedDeposits s :=
      List.mem_map_of_mem ((Table.find_eq_some _ _ _).mp hdep).1
    rw [hfrom.deposits] at hstored
    obtain ⟨q,hq,hstored⟩ := List.mem_flatMap.mp hstored
    obtain ⟨d₀,hd₀,hsame⟩ := List.mem_map.mp hstored
    obtain ⟨tx,transfer,hdecoded,hmem,hto,hof⟩ := mem_readDeposits hd₀
    obtain ⟨row,hrow,hstores⟩ := forall₂_mem_right hfrom.rows hq
    exact ⟨row,hrow,q.2,tx,hstores.decode (hread q hq),hdecoded,q.1,hsafes q hq,transfer,hmem,
      (hi.joined_mint hp).transferFor hd (hsafes q hq) hto hof hsame⟩
  burns p hp := by
    obtain ⟨-,-,hw⟩ := (mem_withBurnAndWithdrawal s p).mp hp
    have hstored : p.2.2.unsaved ∈ storedWithdrawals s :=
      List.mem_map_of_mem ((Table.find_eq_some _ _ _).mp hw).1
    rw [hfrom.withdrawals] at hstored
    obtain ⟨q,hq,hstored⟩ := List.mem_flatMap.mp hstored
    obtain ⟨w₀,hw₀,hsame⟩ := List.mem_map.mp hstored
    obtain ⟨tx,hdecoded,hsafe,hparse⟩ := mem_readWithdrawals hw₀
    obtain ⟨row,hrow,hstores⟩ := forall₂_mem_right hfrom.rows hq
    exact ⟨row,hrow,q.2,tx,hstores.decode (hread q hq),hdecoded,q.1,hsafes q hq,
      (hi.joined_burn hp).withdrawalFor hd (hsafes q hq) hsafe hparse hsame⟩

/-- The transactions that the steps process, and the safes for which. -/
def Step.gnosis? : Step config → Option (AuditedSafeConfig × RawGnosisTransaction)
  | .ledger _ => none
  | .gnosis safe _ tx => some (safe,tx)

theorem gnosis?_activity (steps : List (Step config)) :
    (steps.map Step.activity).filterMap Activity.gnosis? = steps.filterMap Step.gnosis? := by
  rw [List.filterMap_map]
  refine List.filterMap_congr fun step _ => ?_
  cases step <;> rfl

/-- After every interleaving, each audited mint and each audited burn can be traced back to the text
that is stored of the transaction on Ethereum that it was matched for. -/
theorem run_audits_traced (ext : Externals) (serde : Serde)
    (readValue : String → Except String Json) (config : GnosisSafeConfig) (hd : config.Distinct)
    (steps : List (Step config)) (hread : ∀ q ∈ steps.filterMap Step.gnosis?,
      readValue (serde.toJsonString q.2.raw) = .ok q.2.raw) :
    AuditsTraced config serde readValue (Step.run ext serde steps) := by
  obtain ⟨journal,hsub,-,hfrom⟩ := run_journal ext serde (some config) (steps.map Step.activity)
  rw [gnosis?_activity] at hsub
  rw [run_activities] at hfrom
  refine (audited_run hd steps).traced hd hfrom (fun q hq => ?_) fun q hq =>
    hread q (hsub.subset hq)
  obtain ⟨step,-,hstep⟩ := List.mem_filterMap.mp (hsub.subset hq)
  cases step with
  | ledger b => simp [Step.gnosis?] at hstep
  | gnosis safe hsafe tx =>
    obtain rfl := Option.some.inj hstep
    exact hsafe

/-- Both pairs of the run can be traced. -/
theorem auditedPair_audits_traced :
    AuditsTraced Reference.config Reference.serde
      (readKnown ((auditedPair.filterMap Step.gnosis?).map fun q => q.2.raw))
      (Step.run Reference.externals Reference.serde auditedPair) := by
  refine run_audits_traced Reference.externals Reference.serde _ Reference.config
    Reference.config_distinct auditedPair ?_
  intro q hq
  refine readKnown_printJson ?_ (List.mem_map_of_mem hq)
  decide +kernel

end ReserveAuditor
