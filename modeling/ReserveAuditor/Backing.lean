import ReserveAuditor.Interleaving
import ReserveAuditor.Reference

/-! Audited mints are backed: the audit tables are one to one, they only hold pairs that
match, and the mints they hold add up to no more than the value that was deposited. -/
namespace ReserveAuditor
open Txn Relational Matching

variable {config : GnosisSafeConfig} {s : Db}

/-! ### One to one -/

/-- Every row of `audited_mints` stands for a mint and a deposit that match. -/
theorem Audited.mint_row (hi : Audited config s) {a : AuditedMint} (ha : a ∈ s.auditedMints.rows) :
    ∃ m ∈ s.mintTxs.rows, ∃ d ∈ s.gnosisSafeDeposits.rows, m.id = some a.mintTxId ∧
      d.id = some a.gnosisSafeDepositId ∧ MintMatches config m d := by
  have hmem : (some a.mintTxId,some a.gnosisSafeDepositId) ∈ (mintBoard s).links :=
    List.mem_map_of_mem ha
  obtain ⟨⟨m,hm,hma⟩,d,hd,hda⟩ := hi.mints.refs _ hmem
  have hlink : ((mintSides config).nameL m,(mintSides config).nameR d) ∈ (mintBoard s).links := by
    rw [hma, hda]
    exact hmem
  exact ⟨m,hm,d,hd,hma,hda,(mintSides_fits config m d).mp (hi.mints.fit m hm d hd hlink)⟩

/-- Every row of `audited_burns` stands for a burn and a withdrawal that match. -/
theorem Audited.burn_row (hi : Audited config s) {a : AuditedBurn} (ha : a ∈ s.auditedBurns.rows) :
    ∃ b ∈ s.burnTxOuts.rows, ∃ w ∈ s.gnosisSafeWithdrawals.rows, b.id = some a.burnTxOutId ∧
      w.id = some a.gnosisSafeWithdrawalId ∧ BurnMatches config b w := by
  have hmem : (some a.burnTxOutId,some a.gnosisSafeWithdrawalId) ∈ (burnBoard s).links :=
    List.mem_map_of_mem ha
  obtain ⟨⟨b,hb,hba⟩,w,hw,hwa⟩ := hi.burns.refs _ hmem
  have hlink : ((burnSides config).nameL b,(burnSides config).nameR w) ∈ (burnBoard s).links := by
    rw [hba, hwa]
    exact hmem
  exact ⟨b,hb,w,hw,hba,hwa,(burnSides_fits config b w).mp (hi.burns.fit b hb w hw hlink)⟩

theorem nodup_of_links {α : Type} {rows : List α} {f : α → ℕ}
    (h : (rows.map fun a => some (f a)).Nodup) : (rows.map f).Nodup := by
  refine List.Nodup.of_map some ?_
  rwa [List.map_map]

/-- No mint, deposit, burn or withdrawal is matched twice. -/
structure MatchedOnce (s : Db) : Prop where
  mints : (s.auditedMints.rows.map AuditedMint.mintTxId).Nodup
  deposits : (s.auditedMints.rows.map AuditedMint.gnosisSafeDepositId).Nodup
  burns : (s.auditedBurns.rows.map AuditedBurn.burnTxOutId).Nodup
  withdrawals : (s.auditedBurns.rows.map AuditedBurn.gnosisSafeWithdrawalId).Nodup

/-- Whatever is matched agrees. -/
structure MatchesAgree (config : GnosisSafeConfig) (s : Db) : Prop where
  mints : ∀ a ∈ s.auditedMints.rows, ∃ m ∈ s.mintTxs.rows, ∃ d ∈ s.gnosisSafeDeposits.rows,
    m.id = some a.mintTxId ∧ d.id = some a.gnosisSafeDepositId ∧ MintMatches config m d
  burns : ∀ a ∈ s.auditedBurns.rows, ∃ b ∈ s.burnTxOuts.rows, ∃ w ∈ s.gnosisSafeWithdrawals.rows,
    b.id = some a.burnTxOutId ∧ w.id = some a.gnosisSafeWithdrawalId ∧ BurnMatches config b w

theorem Audited.matchedOnce (hi : Audited config s) : MatchedOnce s := by
  have hml := hi.mints.nodupL
  have hmr := hi.mints.nodupR
  have hbl := hi.burns.nodupL
  have hbr := hi.burns.nodupR
  simp only [mintBoard, burnBoard, List.map_map] at hml hmr hbl hbr
  exact ⟨nodup_of_links hml,nodup_of_links hmr,nodup_of_links hbl,nodup_of_links hbr⟩

/-- Matching is one to one and sound in both audit tables, after every interleaving. -/
theorem run_matched_once_and_agree (ext : Externals) (serde : Serde) (config : GnosisSafeConfig)
    (hd : config.Distinct) (steps : List (Step config)) :
    MatchedOnce (Step.run ext serde steps) ∧ MatchesAgree config (Step.run ext serde steps) := by
  have hi : Audited config (Step.run ext serde steps) := audited_run hd steps
  exact ⟨hi.matchedOnce,fun a ha => hi.mint_row ha,fun a ha => hi.burn_row ha⟩

/-- A deposit, then a block with its mint and with a burn, then the withdrawal for the burn. -/
def auditedPair : List (Step Reference.config) :=
  [.gnosis Reference.safeA Reference.safeA_configured
      (Reference.depositTx '1' [(Reference.safeAddrA,"3000000500000")]),
    .ledger (Reference.blockOf 0 [] [Reference.mintFor 0x11 3]
      [Reference.burnOf (List.replicate 32 9) 2]),
    .gnosis Reference.safeB Reference.safeB_configured
      (Reference.withdrawalTx '2' Reference.safeAddrB "2000000000000" (List.replicate 32 9))]

theorem auditedPair_matched_once_and_agree :
    let s := Step.run Reference.externals Reference.serde auditedPair
    MatchedOnce s ∧ MatchesAgree Reference.config s :=
  run_matched_once_and_agree Reference.externals Reference.serde Reference.config
    Reference.config_distinct auditedPair

/-! ### Backed by value -/

/-- The safe and the token that a deposit's addresses resolve to. -/
def depositToken (config : GnosisSafeConfig) (d : GnosisSafeDeposit) :
    Option (AuditedSafeConfig × AuditedToken) := do
  let safe ← config.getAuditedSafeConfigBySafeAddr d.safeAddr
  let token ← safe.getTokenByEthContractAddr d.tokenAddr
  pure (safe,token)

/-- The decimals of the deposit's token beyond the audited precision. -/
def excessDecimals (config : GnosisSafeConfig) (d : GnosisSafeDeposit) : ℕ :=
  match depositToken config d with
  | some (safe,token) => token.decimals.toNat-safe.tokenDecimalsMax.toNat
  | none => 0

/-- What the audited mints of a token stand for, in units of the deposited tokens. -/
def auditedMintValue (config : GnosisSafeConfig) (t : TokenId) (s : Db) : ℕ :=
  (((AuditedMint.withMintAndDeposit s).filter fun p => decide (p.2.1.getTokenId = t)).map
    fun p => p.2.1.getAmount.toNat*10^excessDecimals config p.2.2).sum

/-- The value of the deposits of tokens that are configured for a token id. -/
def depositedValue (config : GnosisSafeConfig) (t : TokenId) (s : Db) : ℕ :=
  ((s.gnosisSafeDeposits.rows.filter fun d =>
    decide ((depositToken config d).map (fun p => p.2.tokenId) = some t)).map
      fun d => d.ethTxValue.toNat).sum

theorem map_filterMap_sublist {α β : Type} {f : β → α} {g : α → Option β}
    (h : ∀ a b, g a = some b → f b = a) (l : List α) : ((l.filterMap g).map f).Sublist l := by
  induction l with
  | nil => simp
  | cons a l ih =>
    cases hg : g a with
    | none =>
      rw [List.filterMap_cons_none hg]
      exact ih.cons a
    | some b =>
      rw [List.filterMap_cons_some hg, List.map_cons, h a b hg]
      exact ih.cons_cons a

theorem withMintAndDeposit_sublist (s : Db) :
    ((AuditedMint.withMintAndDeposit s).map Prod.fst).Sublist s.auditedMints.rows := by
  refine map_filterMap_sublist (fun a p hp => ?_) _
  simp only [Option.bind_eq_bind, Option.bind_eq_some_iff, Option.pure_def,
    Option.some.injEq] at hp
  obtain ⟨_,-,_,-,rfl⟩ := hp
  rfl

/-- No deposit occurs twice among the audited pairs. -/
theorem Audited.deposits_nodup (hi : Audited config s)
    (q : AuditedMint × MintTx × GnosisSafeDeposit → Bool) :
    (((AuditedMint.withMintAndDeposit s).filter q).map fun p => p.2.2).Nodup := by
  refine List.Nodup.of_map GnosisSafeDeposit.id ?_
  have hsub : (((AuditedMint.withMintAndDeposit s).filter q).map Prod.fst).Sublist
      s.auditedMints.rows :=
    (List.filter_sublist.map Prod.fst).trans (withMintAndDeposit_sublist s)
  -- each deposit is named by one match at most
  have hids := ((hsub.map AuditedMint.gnosisSafeDepositId).nodup hi.matchedOnce.deposits).map
    (Option.some_injective ℕ)
  rw [List.map_map, List.map_map] at hids
  rw [List.map_map]
  refine (List.map_congr_left fun p hp => ?_).symm ▸ hids
  exact ((Table.find_eq_some _ _ _).mp
    ((mem_withMintAndDeposit s p).mp (List.mem_filter.mp hp).1).2.2).2

/-- The audited amount of one deposit never overstates its value. -/
theorem Audited.mint_value_le (hi : Audited config s) (hd : config.Distinct)
    (h38 : ∀ safe ∈ config.safes, ∀ token ∈ safe.tokens,
      token.decimals.toNat-safe.tokenDecimalsMax.toNat ≤ 38)
    {p : AuditedMint × MintTx × GnosisSafeDeposit} (hp : p ∈ AuditedMint.withMintAndDeposit s) :
    p.2.2 ∈ s.gnosisSafeDeposits.rows ∧
    (depositToken config p.2.2).map (fun q => q.2.tokenId) = some p.2.1.getTokenId ∧
    p.2.1.getAmount.toNat*10^excessDecimals config p.2.2 ≤ p.2.2.ethTxValue.toNat := by
  obtain ⟨ha,hm,hdep⟩ := (mem_withMintAndDeposit s p).mp hp
  obtain ⟨m,hmm,d,hdd,hmid,hdid,hmatch⟩ := hi.mint_row ha
  obtain rfl : m = p.2.1 := Option.some.inj (((Table.find_eq_some _ _ _).mpr ⟨hmm,hmid⟩).symm.trans hm)
  obtain rfl : d = p.2.2 :=
    Option.some.inj (((Table.find_eq_some _ _ _).mpr ⟨hdd,hdid⟩).symm.trans hdep)
  obtain ⟨safe,hsafe,hvalid⟩ := hi.deposits _ hdd
  obtain ⟨token,htoken,hvalue⟩ := hvalid.value
  have hget := get_safe_config_of_beq config hd safe hsafe _ hvalid.safeAddr
  -- the safe and the token that the match was checked against are the deposit's own
  have htok : depositToken config p.2.2 = some (safe,token) := by
    simp [depositToken, hget, htoken]
  obtain ⟨safe',hsafe',token',htoken',hid⟩ := hmatch.token
  obtain rfl := Option.some.inj (hget.symm.trans hsafe')
  obtain rfl := Option.some.inj (htoken.symm.trans htoken')
  refine ⟨hdd,by simp [htok, hid],?_⟩
  rw [hmatch.amount, excessDecimals, htok]
  exact truncateValue_mul_le _ _ _ (h38 safe hsafe token (List.mem_of_find?_eq_some htoken)) _ hvalue

/-- Audited mints are backed by deposited value, after every interleaving. -/
theorem run_audited_mints_backed (ext : Externals) (serde : Serde) (config : GnosisSafeConfig)
    (hd : config.Distinct) (h38 : ∀ safe ∈ config.safes, ∀ token ∈ safe.tokens,
      token.decimals.toNat-safe.tokenDecimalsMax.toNat ≤ 38)
    (steps : List (Step config)) (t : TokenId) :
    auditedMintValue config t (Step.run ext serde steps) ≤
      depositedValue config t (Step.run ext serde steps) := by
  have hi : Audited config (Step.run ext serde steps) := audited_run hd steps
  refine sum_le_of_nodup (hi.deposits_nodup _) fun p hp => ?_
  obtain ⟨hp,ht⟩ := List.mem_filter.mp hp
  obtain ⟨hmem,htok,hle⟩ := hi.mint_value_le hd h38 hp
  refine ⟨List.mem_filter.mpr ⟨hmem,?_⟩,hle⟩
  rw [decide_eq_true_eq] at ht ⊢
  rw [htok, ht]

example :
    let s := Step.run Reference.externals Reference.serde auditedPair
    s.auditedMints.rows.length = 1 ∧ s.auditedBurns.rows.length = 1 ∧
      auditedMintValue Reference.config 1 s = 3*10^12 := by
  decide +kernel

theorem auditedPair_backed :
    let s := Step.run Reference.externals Reference.serde auditedPair
    auditedMintValue Reference.config 1 s ≤ depositedValue Reference.config 1 s :=
  run_audited_mints_backed Reference.externals Reference.serde Reference.config
    Reference.config_distinct (by decide +kernel) auditedPair 1

end ReserveAuditor
