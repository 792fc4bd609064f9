import ReserveAuditor.Matching
import ReserveAuditor.Lib.Board

/-! The audit tables as boards on which mints are matched with deposits and burns with
withdrawals. Each matching function of the code is one search on its board. -/
namespace ReserveAuditor
open Txn Relational Matching

/-! ### When two objects match -/

/-- The mint, the deposit and the config of the deposit's safe agree. -/
structure MintMatches (config : GnosisSafeConfig) (mintTx : MintTx) (deposit : GnosisSafeDeposit) :
    Prop where
  nonce : mintTx.nonceHex = deposit.expectedMcMintTxNonceHex
  amount : mintTx.getAmount = deposit.getAmount
  token : ∃ safe, config.getAuditedSafeConfigBySafeAddr deposit.safeAddr = some safe ∧
    ∃ token, safe.getTokenByEthContractAddr deposit.tokenAddr = some token ∧
      token.tokenId = mintTx.getTokenId

/-- The burn, the withdrawal and the config of the withdrawal's safe agree. -/
structure BurnMatches (config : GnosisSafeConfig) (burnTxOut : BurnTxOut)
    (withdrawal : GnosisSafeWithdrawal) : Prop where
  key : burnTxOut.publicKeyHex = withdrawal.mcTxOutPublicKeyHex
  amount : burnTxOut.getAmount = withdrawal.getAmount
  token : ∃ safe, config.getAuditedSafeConfigBySafeAddr withdrawal.safeAddr = some safe ∧
    ∃ token, safe.getTokenByEthContractAddr withdrawal.tokenAddr = some token ∧
      token.tokenId = burnTxOut.getTokenId

theorem get_safe_config_beq {config : GnosisSafeConfig} {addr : EthAddr} {safe : AuditedSafeConfig}
    (h : config.getAuditedSafeConfigBySafeAddr addr = some safe) :
    (addr == safe.safeAddr) = true := by
  have hb : (safe.safeAddr == addr) = true := by simpa using List.find?_some h
  rw [EthAddr.beq_iff] at hb ⊢
  exact hb.symm

theorem verifyMint_eq_ok (m : MintTx) (d : GnosisSafeDeposit) (safe : AuditedSafeConfig) (u : Unit) :
    AuditedMint.verifyMintTxMatchesDeposit m d safe = .ok u ↔
      (d.safeAddr == safe.safeAddr) = true ∧ m.nonceHex = d.expectedMcMintTxNonceHex ∧
      m.getAmount = d.getAmount ∧ ∃ token,
        safe.getTokenByEthContractAddr d.tokenAddr = some token ∧ token.tokenId = m.getTokenId := by
  unfold AuditedMint.verifyMintTxMatchesDeposit
  cases hs : (d.safeAddr == safe.safeAddr) with
  | false => simp
  | true =>
    cases ht : safe.getTokenByEthContractAddr d.tokenAddr with
    | none => simp
    | some token =>
      by_cases hid : token.tokenId = m.getTokenId <;>
        by_cases hn : m.nonceHex = d.expectedMcMintTxNonceHex <;>
        by_cases ha : m.getAmount = d.getAmount <;> simp [hid, hn, ha]

theorem verifyBurn_eq_ok (b : BurnTxOut) (w : GnosisSafeWithdrawal) (safe : AuditedSafeConfig)
    (u : Unit) : AuditedBurn.verifyBurnTxOutMatchesWithdrawal b w safe = .ok u ↔
      (w.safeAddr == safe.safeAddr) = true ∧ b.publicKeyHex = w.mcTxOutPublicKeyHex ∧
      b.getAmount = w.getAmount ∧ ∃ token,
        safe.getTokenByEthContractAddr w.tokenAddr = some token ∧ token.tokenId = b.getTokenId := by
  unfold AuditedBurn.verifyBurnTxOutMatchesWithdrawal
  cases hs : (w.safeAddr == safe.safeAddr) with
  | false => simp
  | true =>
    cases ht : safe.getTokenByEthContractAddr w.tokenAddr with
    | none => simp
    | some token =>
      by_cases hid : token.tokenId = b.getTokenId <;>
        by_cases hk : b.publicKeyHex = w.mcTxOutPublicKeyHex <;>
        by_cases ha : b.getAmount = w.getAmount <;> simp [hid, hk, ha]

theorem verifyDepositOfMint_eq_ok (config : GnosisSafeConfig) (m : MintTx) (d : GnosisSafeDeposit)
    (u : Unit) : AuditedMint.verifyDepositOfMint m config d = .ok u ↔ MintMatches config m d := by
  unfold AuditedMint.verifyDepositOfMint
  constructor
  · intro h
    split at h
    · simp at h
    · rename_i safe hsafe
      obtain ⟨-,hn,ha,token,ht,hid⟩ := (verifyMint_eq_ok m d safe u).mp h
      exact ⟨hn,ha,safe,hsafe,token,ht,hid⟩
  · rintro ⟨hn,ha,safe,hsafe,token,ht,hid⟩
    simp only [hsafe]
    exact (verifyMint_eq_ok m d safe u).mpr ⟨get_safe_config_beq hsafe,hn,ha,token,ht,hid⟩

theorem verifyWithdrawalOfBurn_eq_ok (config : GnosisSafeConfig) (b : BurnTxOut)
    (w : GnosisSafeWithdrawal) (u : Unit) :
    AuditedBurn.verifyWithdrawalOfBurn b config w = .ok u ↔ BurnMatches config b w := by
  unfold AuditedBurn.verifyWithdrawalOfBurn
  constructor
  · intro h
    split at h
    · simp at h
    · rename_i safe hsafe
      obtain ⟨-,hk,ha,token,ht,hid⟩ := (verifyBurn_eq_ok b w safe u).mp h
      exact ⟨hk,ha,safe,hsafe,token,ht,hid⟩
  · rintro ⟨hk,ha,safe,hsafe,token,ht,hid⟩
    simp only [hsafe]
    exact (verifyBurn_eq_ok b w safe u).mpr ⟨get_safe_config_beq hsafe,hk,ha,token,ht,hid⟩

/-- For a configured safe, its own config is the one that the deposit's address finds. -/
theorem verifyMint_of_configured {config : GnosisSafeConfig} (hd : config.Distinct)
    {safe : AuditedSafeConfig} (hs : safe ∈ config.safes) (m : MintTx) {d : GnosisSafeDeposit}
    (ha : (d.safeAddr == safe.safeAddr) = true) (u : Unit) :
    AuditedMint.verifyMintTxMatchesDeposit m d safe = .ok u ↔ MintMatches config m d := by
  rw [← verifyDepositOfMint_eq_ok config m d u, AuditedMint.verifyDepositOfMint,
    get_safe_config_of_beq config hd safe hs d.safeAddr ha]

theorem verifyBurn_of_configured {config : GnosisSafeConfig} (hd : config.Distinct)
    {safe : AuditedSafeConfig} (hs : safe ∈ config.safes) (b : BurnTxOut) {w : GnosisSafeWithdrawal}
    (ha : (w.safeAddr == safe.safeAddr) = true) (u : Unit) :
    AuditedBurn.verifyBurnTxOutMatchesWithdrawal b w safe = .ok u ↔ BurnMatches config b w := by
  rw [← verifyWithdrawalOfBurn_eq_ok config b w u, AuditedBurn.verifyWithdrawalOfBurn,
    get_safe_config_of_beq config hd safe hs w.safeAddr ha]

/-! ### The boards -/

/-- Mints on the left, deposits on the right; they are found by their nonce. -/
def mintSides (config : GnosisSafeConfig) :
    Sides MintTx GnosisSafeDeposit (Option ℕ) (Option ℕ) String where
  nameL := MintTx.id
  nameR := GnosisSafeDeposit.id
  keyL := MintTx.nonceHex
  keyR := GnosisSafeDeposit.expectedMcMintTxNonceHex
  fits m d := (AuditedMint.verifyDepositOfMint m config d).isOk
  key_of_fits m d h := by
    obtain ⟨u,hu⟩ : ∃ u, AuditedMint.verifyDepositOfMint m config d = .ok u := by
      cases hv : AuditedMint.verifyDepositOfMint m config d with
      | ok u => exact ⟨u,rfl⟩
      | error e => simp [hv, Except.isOk, Except.toBool] at h
    exact ((verifyDepositOfMint_eq_ok config m d u).mp hu).nonce

/-- Burns on the left, withdrawals on the right; they are found by the key of the output. -/
def burnSides (config : GnosisSafeConfig) :
    Sides BurnTxOut GnosisSafeWithdrawal (Option ℕ) (Option ℕ) String where
  nameL := BurnTxOut.id
  nameR := GnosisSafeWithdrawal.id
  keyL := BurnTxOut.publicKeyHex
  keyR := GnosisSafeWithdrawal.mcTxOutPublicKeyHex
  fits b w := (AuditedBurn.verifyWithdrawalOfBurn b config w).isOk
  key_of_fits b w h := by
    obtain ⟨u,hu⟩ : ∃ u, AuditedBurn.verifyWithdrawalOfBurn b config w = .ok u := by
      cases hv : AuditedBurn.verifyWithdrawalOfBurn b config w with
      | ok u => exact ⟨u,rfl⟩
      | error e => simp [hv, Except.isOk, Except.toBool] at h
    exact ((verifyWithdrawalOfBurn_eq_ok config b w u).mp hu).key

def mintBoard (s : Db) : Board MintTx GnosisSafeDeposit (Option ℕ) (Option ℕ) where
  lefts := s.mintTxs.rows
  rights := s.gnosisSafeDeposits.rows
  links := s.auditedMints.rows.map fun a => (some a.mintTxId,some a.gnosisSafeDepositId)

def burnBoard (s : Db) : Board BurnTxOut GnosisSafeWithdrawal (Option ℕ) (Option ℕ) where
  lefts := s.burnTxOuts.rows
  rights := s.gnosisSafeWithdrawals.rows
  links := s.auditedBurns.rows.map fun a => (some a.burnTxOutId,some a.gnosisSafeWithdrawalId)

theorem mintSides_fits (config : GnosisSafeConfig) (m : MintTx) (d : GnosisSafeDeposit) :
    (mintSides config).fits m d = true ↔ MintMatches config m d := by
  rw [← verifyDepositOfMint_eq_ok config m d ()]
  change (AuditedMint.verifyDepositOfMint m config d).isOk = true ↔ _
  cases AuditedMint.verifyDepositOfMint m config d <;> simp [Except.isOk, Except.toBool]

theorem burnSides_fits (config : GnosisSafeConfig) (b : BurnTxOut) (w : GnosisSafeWithdrawal) :
    (burnSides config).fits b w = true ↔ BurnMatches config b w := by
  rw [← verifyWithdrawalOfBurn_eq_ok config b w ()]
  change (AuditedBurn.verifyWithdrawalOfBurn b config w).isOk = true ↔ _
  cases AuditedBurn.verifyWithdrawalOfBurn b config w <;> simp [Except.isOk, Except.toBool]

end ReserveAuditor
