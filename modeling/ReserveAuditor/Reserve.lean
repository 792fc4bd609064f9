import ReserveAuditor.Balances
import ReserveAuditor.Listings

/-! The reserve: minted tokens against deposits and burned tokens against withdrawals, per token, and
the supply that the ledger tells against what the safes hold. -/
namespace ReserveAuditor
open Txn Relational Matching

variable {config : GnosisSafeConfig} {ext : Externals} {serde : Serde} {s s' : Db}

/-! ### Amounts by token -/

/-- The token that the addresses of a safe and of a token contract are audited as. -/
def auditedTokenId (config : GnosisSafeConfig) (safeAddr tokenAddr : EthAddr) : Option TokenId := do
  let safe ← config.getAuditedSafeConfigBySafeAddr safeAddr
  let token ← safe.getTokenByEthContractAddr tokenAddr
  pure token.tokenId

def GnosisSafeDeposit.auditedTokenId (config : GnosisSafeConfig) (d : GnosisSafeDeposit) :
    Option TokenId := ReserveAuditor.auditedTokenId config d.safeAddr d.tokenAddr

def GnosisSafeWithdrawal.auditedTokenId (config : GnosisSafeConfig) (w : GnosisSafeWithdrawal) :
    Option TokenId := ReserveAuditor.auditedTokenId config w.safeAddr w.tokenAddr

def mintedAmount (t : TokenId) (rows : List MintTx) : ℕ :=
  (rows.map fun m => if m.getTokenId = t then m.getAmount.toNat else 0).sum

def burnedAmount (t : TokenId) (rows : List BurnTxOut) : ℕ :=
  (rows.map fun b => if b.getTokenId = t then b.getAmount.toNat else 0).sum

def depositedAmount (config : GnosisSafeConfig) (t : TokenId) (rows : List GnosisSafeDeposit) : ℕ :=
  (rows.map fun d => if d.auditedTokenId config = some t then d.getAmount.toNat else 0).sum

def withdrawnAmount (config : GnosisSafeConfig) (t : TokenId) (rows : List GnosisSafeWithdrawal) :
    ℕ :=
  (rows.map fun w => if w.auditedTokenId config = some t then w.getAmount.toNat else 0).sum

theorem getMintTotal_eq_mintedAmount (t : TokenId) (s : Db) :
    getMintTotal t s = mintedAmount t s.mintTxs.rows := by
  have htoken (m : MintTx) : m.tokenId = t.toInt64 ↔ m.getTokenId = t :=
    ⟨fun h => congrArg Int64.toUInt64 h,fun h => congrArg UInt64.toInt64 h⟩
  simp only [getMintTotal_eq, mintedAmount, htoken]

theorem getBurnTotal_eq_burnedAmount (t : TokenId) (s : Db) :
    getBurnTotal t s = burnedAmount t s.burnTxOuts.rows := by
  have htoken (b : BurnTxOut) : b.tokenId = t.toInt64 ↔ b.getTokenId = t :=
    ⟨fun h => congrArg Int64.toUInt64 h,fun h => congrArg UInt64.toInt64 h⟩
  simp only [getBurnTotal_eq, burnedAmount, htoken]

theorem MintMatches.tokenId {m : MintTx} {d : GnosisSafeDeposit} (h : MintMatches config m d) :
    d.auditedTokenId config = some m.getTokenId := by
  obtain ⟨safe,hsafe,token,htoken,hid⟩ := h.token
  simp [GnosisSafeDeposit.auditedTokenId, auditedTokenId, hsafe, htoken, hid]

theorem BurnMatches.tokenId {b : BurnTxOut} {w : GnosisSafeWithdrawal}
    (h : BurnMatches config b w) : w.auditedTokenId config = some b.getTokenId := by
  obtain ⟨safe,hsafe,token,htoken,hid⟩ := h.token
  simp [GnosisSafeWithdrawal.auditedTokenId, auditedTokenId, hsafe, htoken, hid]

/-! ### The reserve equations -/

/-- Minted and deposited amounts differ by what is unaudited, and so do burned and withdrawn
amounts; each deposit and each withdrawal is of an audited token. -/
structure ReserveBalanced (config : GnosisSafeConfig) (s : Db) : Prop where
  mints : ∀ t, getMintTotal t s+
      depositedAmount config t (GnosisSafeDeposit.findUnauditedDeposits s) =
    depositedAmount config t s.gnosisSafeDeposits.rows+
      mintedAmount t (MintTx.findUnauditedMintTxs s)
  burns : ∀ t, getBurnTotal t s+
      withdrawnAmount config t (GnosisSafeWithdrawal.findUnauditedWithdrawals s) =
    withdrawnAmount config t s.gnosisSafeWithdrawals.rows+
      burnedAmount t (BurnTxOut.findUnauditedBurnTxOuts s)
  deposits : ∀ d ∈ s.gnosisSafeDeposits.rows, (d.auditedTokenId config).isSome = true
  withdrawals : ∀ w ∈ s.gnosisSafeWithdrawals.rows, (w.auditedTokenId config).isSome = true

/-- The rows of a joined pair match. -/
theorem Audited.joined_mint (hi : Audited config s) {p : AuditedMint × MintTx × GnosisSafeDeposit}
    (hp : p ∈ AuditedMint.withMintAndDeposit s) : MintMatches config p.2.1 p.2.2 := by
  obtain ⟨ha,hm,hd⟩ := (mem_withMintAndDeposit s p).mp hp
  obtain ⟨m,hmem,d,hdmem,hmid,hdid,hmatch⟩ := hi.mint_row ha
  obtain rfl := Option.some.inj (((Table.find_eq_some _ _ _).mpr ⟨hmem,hmid⟩).symm.trans hm)
  obtain rfl := Option.some.inj (((Table.find_eq_some _ _ _).mpr ⟨hdmem,hdid⟩).symm.trans hd)
  exact hmatch

theorem Audited.joined_burn (hi : Audited config s) {p : AuditedBurn × BurnTxOut × GnosisSafeWithdrawal}
    (hp : p ∈ AuditedBurn.withBurnAndWithdrawal s) : BurnMatches config p.2.1 p.2.2 := by
  obtain ⟨ha,hb,hw⟩ := (mem_withBurnAndWithdrawal s p).mp hp
  obtain ⟨b,hmem,w,hwmem,hbid,hwid,hmatch⟩ := hi.burn_row ha
  obtain rfl := Option.some.inj (((Table.find_eq_some _ _ _).mpr ⟨hmem,hbid⟩).symm.trans hb)
  obtain rfl := Option.some.inj (((Table.find_eq_some _ _ _).mpr ⟨hwmem,hwid⟩).symm.trans hw)
  exact hmatch

theorem Audited.mints_balance (hi : Audited config s) (hintact : Intact s) (t : TokenId) :
    getMintTotal t s+depositedAmount config t (GnosisSafeDeposit.findUnauditedDeposits s) =
      depositedAmount config t s.gnosisSafeDeposits.rows+
        mintedAmount t (MintTx.findUnauditedMintTxs s) := by
  rw [getMintTotal_eq_mintedAmount]
  refine hintact.splits_mints.balance hintact.splits_deposits _ _ fun p hp => ?_
  have hmatch := hi.joined_mint hp
  simp only [hmatch.tokenId, hmatch.amount, Option.some.injEq]

theorem Audited.burns_balance (hi : Audited config s) (hintact : Intact s) (t : TokenId) :
    getBurnTotal t s+withdrawnAmount config t (GnosisSafeWithdrawal.findUnauditedWithdrawals s) =
      withdrawnAmount config t s.gnosisSafeWithdrawals.rows+
        burnedAmount t (BurnTxOut.findUnauditedBurnTxOuts s) := by
  rw [getBurnTotal_eq_burnedAmount]
  refine hintact.splits_burns.balance hintact.splits_withdrawals _ _ fun p hp => ?_
  have hmatch := hi.joined_burn hp
  simp only [hmatch.tokenId, hmatch.amount, Option.some.injEq]

/-! ### Deposits and withdrawals are of audited tokens -/

theorem auditedTokenId_isSome (hd : config.Distinct) {safe : AuditedSafeConfig}
    (hsafe : safe ∈ config.safes) {safeAddr tokenAddr : EthAddr}
    (ha : (safeAddr == safe.safeAddr) = true) {token : AuditedToken}
    (ht : safe.getTokenByEthContractAddr tokenAddr = some token) :
    (auditedTokenId config safeAddr tokenAddr).isSome = true := by
  simp [auditedTokenId, get_safe_config_of_beq config hd safe hsafe safeAddr ha, ht]

theorem parse_token {safe : AuditedSafeConfig} {tx : MultiSigTransaction} {w : GnosisSafeWithdrawal}
    (h : safe.parseWithdrawalWithPubKeyMultiSigTx tx = .ok w) :
    ∃ token, safe.getTokenByEthContractAddr w.tokenAddr = some token := by
  simp only [AuditedSafeConfig.parseWithdrawalWithPubKeyMultiSigTx, Outcome.bind_eq_ok,
    Outcome.okOr_eq_ok, Outcome.pure_eq_ok] at h
  obtain ⟨_,-,_,-,_,-,_,-,_,-,_,-,_,-,token,htoken,_,-,_,-,_,-,_,-,_,-,_,-,_,-,_,-,_,-,_,-,_,-,
    _,-,rfl⟩ := h
  exact ⟨token,htoken⟩

theorem recordedWithdrawals_token {safe : AuditedSafeConfig} {tx : Transaction}
    {w : GnosisSafeWithdrawal} (h : w ∈ safe.recordedWithdrawals tx) :
    ∃ token, safe.getTokenByEthContractAddr w.tokenAddr = some token := by
  cases tx with
  | ethereum tx => simp [AuditedSafeConfig.recordedWithdrawals] at h
  | module v => simp [AuditedSafeConfig.recordedWithdrawals] at h
  | multiSig tx =>
    rw [AuditedSafeConfig.recordedWithdrawals, AuditedSafeConfig.withdrawalsOf] at h
    split at h
    · split at h
      · rename_i w₀ hw₀
        obtain rfl := List.mem_singleton.mp h
        exact parse_token hw₀
      · simp at h
    · simp at h

/-- The withdrawals that are stored are of audited tokens. -/
def WithdrawalsAudited (config : GnosisSafeConfig) (s : Db) : Prop :=
  ∀ w ∈ s.gnosisSafeWithdrawals.rows, (w.auditedTokenId config).isSome = true

theorem DepositsAdded.withdrawals {safe : AuditedSafeConfig} {ds : List GnosisSafeDeposit}
    (h : DepositsAdded safe s ds s') : s'.gnosisSafeWithdrawals = s.gnosisSafeWithdrawals := by
  induction h with
  | nil counted =>
    obtain ⟨c,-,rfl⟩ := counted
    rfl
  | cons n valid head _ ih =>
    obtain ⟨t,u,c,-,rfl⟩ := head.frame
    exact ih

theorem Processed.withdrawalsAudited {safe : AuditedSafeConfig} {tx : Transaction}
    (h : Processed safe s tx s') (hd : config.Distinct) (hsafe : safe ∈ config.safes)
    (hi : WithdrawalsAudited config s) : WithdrawalsAudited config s' := by
  cases h with
  | deposits added _ =>
    rw [WithdrawalsAudited, added.withdrawals]
    exact hi
  | withdrawal _ w₀ n recorded configured added =>
    obtain ⟨token,htoken⟩ := recordedWithdrawals_token (recorded ▸ List.mem_singleton.mpr rfl)
    intro w hw
    rw [added.rows] at hw
    rcases List.mem_append.mp hw with hw | hw
    · exact hi w hw
    · obtain rfl := List.mem_singleton.mp hw
      exact auditedTokenId_isSome hd hsafe configured htoken

theorem withdrawalsAudited_run (hd : config.Distinct) (steps : List (Step config)) :
    WithdrawalsAudited config (Step.run ext serde steps) := by
  refine run_induction ext serde steps (by simp [WithdrawalsAudited, initialDb_eq, Db.empty, Table.empty])
    fun before step _ s' hi h => ?_
  cases step with
  | ledger b =>
    obtain ⟨data,s₁,hsynced,⟨t,u,c,-,rfl⟩,-⟩ := (returns_syncAndAudit (audited_run hd before) h).moved
    change ∀ w ∈ s₁.gnosisSafeWithdrawals.rows, _
    rw [hsynced.gnosis.withdrawals]
    exact hi
  | gnosis safe hsafe tx =>
    obtain ⟨hash,-,⟨-,rfl⟩ | ⟨-,decoded,-,hp⟩⟩ := returns_processRawTransaction h
    · exact hi
    · exact hp.withdrawalsAudited hd hsafe hi

/-! ### Runs -/

def Step.activity : Step config → Activity
  | .ledger b => .ledger b
  | .gnosis safe _ tx => .gnosis safe tx

/-- The blocks that the interleaving synced. -/
def Step.syncedBlocks (ext : Externals) (serde : Serde) (steps : List (Step config)) :
    List BlockData := (Activity.run ext serde (some config) (steps.map Step.activity)).2

theorem run_activities (steps : List (Step config)) :
    (Activity.run ext serde (some config) (steps.map Step.activity)).1 = Step.run ext serde steps := by
  induction steps using List.reverseRecOn with
  | nil => rfl
  | append_singleton steps step ih =>
    rw [run_append, ← ih, List.map_append, Activity.run, List.foldl_append]
    cases step <;> rfl

theorem intact_activities (config : Option GnosisSafeConfig) (as : List Activity) :
    Intact (Activity.run ext serde config as).1 := by
  refine activity_induction ext serde config intact_initial (fun a s s' hi h => ?_) as
  cases a with
  | ledger b => exact h.2 ▸ intact_syncAndAudit ext config b s hi
  | gnosis safe tx => exact h.2 ▸ intact_processRawTransaction safe serde tx s hi

theorem intact_run (steps : List (Step config)) : Intact (Step.run ext serde steps) :=
  run_activities steps ▸ intact_activities _ _

theorem depositsAudited_run (hd : config.Distinct) (steps : List (Step config)) :
    ∀ d ∈ (Step.run ext serde steps).gnosisSafeDeposits.rows,
      (d.auditedTokenId config).isSome = true := by
  have hi : Audited config (Step.run ext serde steps) := audited_run hd steps
  intro d hdep
  obtain ⟨safe,hsafe,hvalid⟩ := hi.deposits d hdep
  obtain ⟨token,htoken,-⟩ := hvalid.value
  exact auditedTokenId_isSome hd hsafe hvalid.safeAddr htoken

/-- For every token, what was minted and what was deposited differ by what the listings report as
unaudited, and so do burns and withdrawals, after every interleaving. -/
theorem run_reserve_balanced (ext : Externals) (serde : Serde) (config : GnosisSafeConfig)
    (hd : config.Distinct) (steps : List (Step config)) :
    ReserveBalanced config (Step.run ext serde steps) := by
  have hi : Audited config (Step.run ext serde steps) := audited_run hd steps
  exact ⟨hi.mints_balance (intact_run steps),hi.burns_balance (intact_run steps),
    depositsAudited_run hd steps,withdrawalsAudited_run hd steps⟩

theorem auditedPair_reserve_balanced :
    ReserveBalanced Reference.config (Step.run Reference.externals Reference.serde auditedPair) :=
  run_reserve_balanced Reference.externals Reference.serde Reference.config
    Reference.config_distinct auditedPair

/-! ### The supply -/

theorem LedgerKept.keepsBooks {blocks : List BlockData} (h : LedgerKept s s')
    (hk : KeepsBooks ext blocks s) : KeepsBooks ext blocks s' where
  balances := by
    rw [← hk.balances, storedBalances, storedBalances, h.counters.get rfl]
    cases Counters.get s .numBlocksSynced with
    | zero => rfl
    | succ n => simp only [BlockBalance.getBalancesForBlock, h.blockBalance]
  minted t := by rw [← hk.minted, getMintTotal_eq, getMintTotal_eq, h.mintTxs]
  burned t := by rw [← hk.burned, getBurnTotal_eq, getBurnTotal_eq, h.burnTxOuts]
  overBurns := (h.counters.get rfl).trans hk.overBurns

/-- What is left in the safes of what came in. -/
def custody (config : GnosisSafeConfig) (t : TokenId) (s : Db) : ℤ :=
  (depositedAmount config t s.gnosisSafeDeposits.rows : ℤ)-
    withdrawnAmount config t s.gnosisSafeWithdrawals.rows

/-- What the unaudited objects make the supply differ from the custody by. -/
def unauditedSupply (config : GnosisSafeConfig) (t : TokenId) (s : Db) : ℤ :=
  ((mintedAmount t (MintTx.findUnauditedMintTxs s) : ℤ)-
      depositedAmount config t (GnosisSafeDeposit.findUnauditedDeposits s))-
    ((burnedAmount t (BurnTxOut.findUnauditedBurnTxOuts s) : ℤ)-
      withdrawnAmount config t (GnosisSafeWithdrawal.findUnauditedWithdrawals s))

/-- The supply that the ledger tells is in the custody of the safes, up to what is unaudited: it is
never less, and it is equal for every token exactly when no over-burn was counted. -/
theorem run_supply_in_custody (ext : Externals) (serde : Serde) (config : GnosisSafeConfig)
    (hd : config.Distinct) (steps : List (Step config)) (hb : Account.Below (2^64) (fun _ => 0)
      (history ext (Step.syncedBlocks ext serde steps))) :
    let s := Step.run ext serde steps
    (∀ t, custody config t s+unauditedSupply config t s ≤ ((storedBalances s).balance t).toNat) ∧
    (Counters.get s .numBurnsExceedingBalance = 0 ↔ ∀ t,
      (((storedBalances s).balance t).toNat : ℤ) = custody config t s+unauditedSupply config t s) := by
  intro s
  obtain ⟨t₀,hsync,hkept⟩ := run_ledger ext serde (some config) (steps.map Step.activity)
  rw [run_activities] at hkept
  have hk : KeepsBooks ext (Step.syncedBlocks ext serde steps) s :=
    hkept.keepsBooks (syncBlocks_keepsBooks hb hsync)
  have hi : Audited config s := audited_run hd steps
  have hbal (t : TokenId) : ((storedBalances s).balance t).toNat =
      Account.post (fun _ => 0) (history ext (Step.syncedBlocks ext serde steps)) t :=
    congrFun hk.balances t
  constructor
  · intro t
    have hle := Account.le_post (fun _ => 0) (history ext (Step.syncedBlocks ext serde steps)) t
    have hmint := hi.mints_balance (intact_run steps) t
    have hburn := hi.burns_balance (intact_run steps) t
    rw [hk.minted] at hmint
    rw [hk.burned] at hburn
    rw [custody, unauditedSupply, hbal]
    omega
  -- the reserve equations turn the books of the ledger into those of the safes
  · rw [hk.overBurns, Account.overdrafts_eq_zero_iff]
    refine forall_congr' fun t => ?_
    have hmint := hi.mints_balance (intact_run steps) t
    have hburn := hi.burns_balance (intact_run steps) t
    rw [hk.minted] at hmint
    rw [hk.burned] at hburn
    rw [custody, unauditedSupply, hbal]
    omega

theorem auditedPair_supply_in_custody :
    let s := Step.run Reference.externals Reference.serde auditedPair
    (∀ t, custody Reference.config t s+unauditedSupply Reference.config t s ≤
      ((storedBalances s).balance t).toNat) ∧
    (Counters.get s .numBurnsExceedingBalance = 0 ↔ ∀ t, (((storedBalances s).balance t).toNat : ℤ) =
      custody Reference.config t s+unauditedSupply Reference.config t s) := by
  have hhist : history Reference.externals (Step.syncedBlocks Reference.externals Reference.serde
      auditedPair) = [.deposit 1 3,.charge 1 2] := by
    decide +kernel
  refine run_supply_in_custody Reference.externals Reference.serde Reference.config
    Reference.config_distinct auditedPair ?_
  rw [hhist]
  refine Account.below_of_deposited fun k => ?_
  simp only [Account.deposited_cons, Account.deposited_nil, Account.Entry.depositOn]
  split <;> norm_num

end ReserveAuditor
