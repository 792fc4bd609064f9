import ReserveAuditor.Lib.Journal
import ReserveAuditor.Listings
import ReserveAuditor.MintInfo
import ReserveAuditor.PublishedCounters
import ReserveAuditor.Services

/-! What the auditor answered stays its answer: whatever is synced and processed later, a block
that was synced is reported as before, and listings, totals and counters only grow. -/
namespace ReserveAuditor
open Txn Relational

variable {ext : Externals} {serde : Serde} {s s' s'' : Db} {n n' : ℕ}

/-! ### The history of the ledger -/

/-- The tables of the ledger gained rows, but none that belongs to a block below `n`. -/
structure HistoryKept (n : ℕ) (s s' : Db) : Prop where
  blockAuditData : Appended (fun r => n ≤ r.getBlockIndex.toNat) s.blockAuditData s'.blockAuditData
  blockBalance : Appended (fun r => n ≤ r.getBlockIndex.toNat) s.blockBalance s'.blockBalance
  mintConfigTxs : Appended (fun t => n ≤ t.getBlockIndex.toNat) s.mintConfigTxs.rows
    s'.mintConfigTxs.rows
  mintConfigs : Appended (fun c => ∀ t ∈ s.mintConfigTxs.rows, c.mintConfigTxId ≠ key t)
    s.mintConfigs.rows s'.mintConfigs.rows
  mints : Appended (fun m => n ≤ m.getBlockIndex.toNat) s.mintTxs.rows s'.mintTxs.rows
  burns : Appended (fun b => n ≤ b.getBlockIndex.toNat) s.burnTxOuts.rows s'.burnTxOuts.rows

theorem HistoryKept.trans (h : HistoryKept n s s') (h' : HistoryKept n' s' s'') (hn : n ≤ n') :
    HistoryKept n s s'' where
  blockAuditData := h.blockAuditData.trans (h'.blockAuditData.mono fun _ hr => hn.trans hr)
  blockBalance := h.blockBalance.trans (h'.blockBalance.mono fun _ hr => hn.trans hr)
  mintConfigTxs := h.mintConfigTxs.trans (h'.mintConfigTxs.mono fun _ ht => hn.trans ht)
  -- a config of no later mint config tx is a config of no earlier one
  mintConfigs := h.mintConfigs.trans (h'.mintConfigs.mono fun _ hc t ht =>
    hc t (h.mintConfigTxs.isPrefix.subset ht))
  mints := h.mints.trans (h'.mints.mono fun _ hm => hn.trans hm)
  burns := h.burns.trans (h'.burns.mono fun _ hb => hn.trans hb)

theorem LedgerKept.history (h : LedgerKept s s') (n : ℕ) : HistoryKept n s s' where
  blockAuditData := .of_eq h.blockAuditData
  blockBalance := .of_eq h.blockBalance
  mintConfigTxs := .of_eq (congrArg Table.rows h.mintConfigTxs)
  mintConfigs := .of_eq (congrArg Table.rows h.mintConfigs)
  mints := .of_eq (congrArg Table.rows h.mintTxs)
  burns := .of_eq (congrArg Table.rows h.burnTxOuts)

section BlockSynced
variable {b : BlockData} {data : SyncBlockData}

/-- No audited block is replaced. -/
theorem BlockSynced.audited (h : BlockSynced ext b s data s') (hg : Gapless n s) :
    s'.blockAuditData = s.blockAuditData ++ [.new b.block.index] := by
  have hkeep : s.blockAuditData.filter
      (fun x => decide (x.blockIndex ≠ b.block.index.toInt64)) = s.blockAuditData := by
    refine List.filter_eq_self.mpr fun r hr => decide_eq_true (ne_toInt64_of_lt ?_)
    have hmem : r.getBlockIndex.toNat ∈ List.range n := by
      rw [← hg.audited]
      exact List.mem_map_of_mem hr
    rw [h.index, hg.counted]
    exact List.mem_range.mp hmem
  rw [h.blockAudit, hkeep]

theorem ConfigTxsStored.configs_new {added : List (MintConfigTx × List MintConfig)}
    (h : ConfigTxsStored ext b s s' added) : ∀ c ∈ added.flatMap Prod.snd,
      ∀ t ∈ s.mintConfigTxs.rows, c.mintConfigTxId ≠ key t := by
  intro c hc t ht
  obtain ⟨rows,hrows,hc⟩ := List.mem_flatMap.mp hc
  obtain ⟨tx,-,hst⟩ := forall₂_mem_right h.stored hrows
  have hinc := s'.mintConfigTxs.increasing
  rw [h.configTxs, List.pairwise_append] at hinc
  -- the mint config tx of the config was stored later
  have hlt := hinc.2.2 t ht rows.1 (List.mem_map_of_mem hrows)
  rw [hst.owner c hc]
  exact hlt.ne'

theorem BlockSynced.history (h : BlockSynced ext b s data s') (hg : Gapless n s)
    {added : List (MintConfigTx × List MintConfig)} (ha : ConfigTxsStored ext b s s' added) :
    HistoryKept n s s' := by
  have hidx (i : UInt64) (hi : i = b.block.index) : n ≤ i.toNat := by
    rw [hi, h.index, hg.counted]
  obtain ⟨ts,hts,htidx⟩ := h.configTxs
  refine ⟨⟨_,h.audited hg,fun r hr => hidx _ ?_⟩,⟨_,h.blockBalance,fun r hr => hidx _ ?_⟩,
    ⟨ts,hts,fun t ht => hidx _ ?_⟩,⟨_,ha.configs,ha.configs_new⟩,
    ⟨_,h.mints,fun m hm => hidx _ (h.mintIndex m hm)⟩,
    ⟨_,h.burns,fun x hx => hidx _ (h.burnIndex x hx)⟩⟩
  · rw [List.mem_singleton.mp hr]
    rfl
  · obtain ⟨e,-,rfl⟩ := List.mem_map.mp hr
    rfl
  · rw [MintConfigTx.getBlockIndex, htidx t ht]
    rfl

end BlockSynced

theorem history_syncAndAudit {config : Option GnosisSafeConfig} {b : BlockData}
    (hs : SyncedTo n s) (h : (syncAndAudit ext config b).Returns s () s') : HistoryKept n s s' := by
  simp only [syncAndAudit, returns_exclusiveTransaction, Program.returns_bind] at h
  obtain ⟨data,s₁,hsync,haudit⟩ := h
  obtain ⟨added,hadded⟩ := returns_configTxsStored hs.refs hsync
  exact ((returns_syncBlockWithConn hs.refs hsync).history hs.gapless hadded).trans
    ((ledgerKept_audit haudit).history n) le_rfl

/-! ### Answers about a block -/

/-- What is answered about the block. -/
structure SameAnswers (ext : Externals) (b : UInt64) (s s' : Db) : Prop where
  blockAuditData : ReserveAuditorHttpService.getBlockAuditData b s' =
    ReserveAuditorHttpService.getBlockAuditData b s
  mintInfo : getMintInfoByBlock ext b s' = getMintInfoByBlock ext b s
  burns : ∀ burnRedemptionMemo, ReserveAuditorHttpService.getBurnsByBlock burnRedemptionMemo b s' =
    ReserveAuditorHttpService.getBurnsByBlock burnRedemptionMemo b s

/-- No row that is added later answers a question about the block. -/
theorem block_ne_of_le {b : UInt64} (hb : b.toNat < n) {i : Int64} (hi : n ≤ i.toUInt64.toNat) :
    decide (i = b.toInt64) = false := by
  refine decide_eq_false ?_
  rintro rfl
  exact absurd hi (not_le.mpr hb)

theorem mapM_congr {ε α β : Type} {f g : α → Except ε β} {as : List α} (h : ∀ a ∈ as, f a = g a) :
    as.mapM f = as.mapM g := by
  induction as with
  | nil => rfl
  | cons a as ih =>
    rw [List.mapM_cons, List.mapM_cons, h a List.mem_cons_self,
      ih fun x hx => h x (List.mem_cons_of_mem a hx)]

namespace HistoryKept
variable (h : HistoryKept n s s') (hr : ConfigRefs s)
include h

theorem configTxInfo_eq {t : MintConfigTx} (ht : t ∈ s.mintConfigTxs.rows) :
    configTxInfo ext s' t = configTxInfo ext s t := by
  have hid : t.id = some (key t) := s.mintConfigTxs.keyed t ht
  have hconfigs : MintConfig.getByMintConfigTxId (key t) s' =
      MintConfig.getByMintConfigTxId (key t) s :=
    h.mintConfigs.filter_eq fun c hc => decide_eq_false (hc t ht)
  simp only [configTxInfo, hid, hconfigs]

theorem balances {b : UInt64} (hb : b.toNat < n) :
    BlockBalance.getBalancesForBlock s' b = BlockBalance.getBalancesForBlock s b := by
  rw [BlockBalance.getBalancesForBlock, BlockBalance.getBalancesForBlock,
    h.blockBalance.filter_eq fun r hr => block_ne_of_le hb hr]

include hr

/-- The config of a mint, and its mint config tx, stay where they were found. -/
theorem mintInfo_eq {m : MintTx} (hm : m ∈ s.mintTxs.rows) :
    mintInfo ext s' m = mintInfo ext s m := by
  obtain ⟨cs,hcs,-⟩ := h.mintConfigs
  obtain ⟨ts,hts,-⟩ := h.mintConfigTxs
  have hsigners : m.getSigners ext s' = m.getSigners ext s := by
    unfold MintTx.getSigners
    congr 1
    funext tx
    cases hid : m.mintConfigId with
    | none => rfl
    | some id =>
      obtain ⟨c,hc⟩ := hr.ofMint m hm id hid
      simp only [okOr, bind, Except.bind, MintConfig.getById, hc, Table.find_append hcs hc]
  unfold mintInfo
  rw [hsigners]
  congr 1
  funext signers
  cases hid : m.mintConfigId with
  | none => rfl
  | some id =>
    obtain ⟨c,hc⟩ := hr.ofMint m hm id hid
    obtain ⟨t,ht⟩ := hr.ofConfig c ((Table.find_eq_some _ _ _).mp hc).1
    simp only [MintConfig.getById, MintConfigTx.getById, hc, ht, Table.find_append hcs hc,
      Table.find_append hts ht]

theorem answers {b : UInt64} (hb : b.toNat < n) : SameAnswers ext b s s' where
  blockAuditData := by
    have hfind : s'.blockAuditData.find? (fun r => decide (r.blockIndex = b.toInt64)) =
        s.blockAuditData.find? (fun r => decide (r.blockIndex = b.toInt64)) :=
      h.blockAuditData.find?_eq fun r hr => block_ne_of_le hb hr
    unfold ReserveAuditorHttpService.getBlockAuditData BlockAuditData.get
    rw [hfind]
    cases hrow : s.blockAuditData.find? (fun r => decide (r.blockIndex = b.toInt64)) with
    | none => rfl
    | some r =>
      -- the row that is found is the one of the block, so the balances are, too
      have hfound := List.find?_some hrow
      have hidx : r.getBlockIndex = b := congrArg Int64.toUInt64 (of_decide_eq_true hfound)
      simp only [bind, Except.bind, hidx, h.balances hb]
  mintInfo := by
    have hconfigTxs : MintConfigTx.getByBlockIndex b s' = MintConfigTx.getByBlockIndex b s :=
      h.mintConfigTxs.filter_eq fun t ht => block_ne_of_le hb ht
    have hmints : MintTx.getMintTxsByBlockIndex b s' = MintTx.getMintTxsByBlockIndex b s :=
      h.mints.filter_eq fun m hm => block_ne_of_le hb hm
    have hconfigInfos : (MintConfigTx.getByBlockIndex b s).mapM (configTxInfo ext s') =
        (MintConfigTx.getByBlockIndex b s).mapM (configTxInfo ext s) :=
      mapM_congr fun t ht => h.configTxInfo_eq (List.mem_filter.mp ht).1
    have hmintInfos : (MintTx.getMintTxsByBlockIndex b s).mapM (mintInfo ext s') =
        (MintTx.getMintTxsByBlockIndex b s).mapM (mintInfo ext s) :=
      mapM_congr fun m hm => h.mintInfo_eq hr (List.mem_filter.mp hm).1
    rw [getMintInfoByBlock, getMintInfoByBlock, hconfigTxs, hmints, hconfigInfos, hmintInfos]
  burns memo := by
    have hburns : BurnTxOut.getBurnTxsByBlock b s' = BurnTxOut.getBurnTxsByBlock b s :=
      h.burns.filter_eq fun x hx => block_ne_of_le hb hx
    simp only [ReserveAuditorHttpService.getBurnsByBlock, hburns]

end HistoryKept

/-! ### Growth -/

/-- What was found, what was matched and what was counted is never taken back. -/
structure Grows (s s' : Db) : Prop where
  mints : s.mintTxs.rows <+: s'.mintTxs.rows
  deposits : s.gnosisSafeDeposits.rows <+: s'.gnosisSafeDeposits.rows
  burns : s.burnTxOuts.rows <+: s'.burnTxOuts.rows
  withdrawals : s.gnosisSafeWithdrawals.rows <+: s'.gnosisSafeWithdrawals.rows
  auditedMints : s.auditedMints.rows <+: s'.auditedMints.rows
  auditedBurns : s.auditedBurns.rows <+: s'.auditedBurns.rows
  counters : Counters.get s ≤ Counters.get s'

instance : IsPreorder Db Grows where
  refl _ := ⟨List.prefix_rfl,List.prefix_rfl,List.prefix_rfl,List.prefix_rfl,List.prefix_rfl,
    List.prefix_rfl,le_rfl⟩
  trans _ _ _ h h' := ⟨h.mints.trans h'.mints,h.deposits.trans h'.deposits,h.burns.trans h'.burns,
    h.withdrawals.trans h'.withdrawals,h.auditedMints.trans h'.auditedMints,
    h.auditedBurns.trans h'.auditedBurns,h.counters.trans h'.counters⟩

theorem grows_inc (c : Counter) : Program.Within Grows (Counters.inc c) := by
  refine Program.within_of_ends (Counters.not_panics_inc c) (fun s u s' h => ?_) fun s e s' h => ?_
  · obtain ⟨row,hrow,rfl⟩ := (Counters.returns_inc c s s' u).mp h
    refine { refl_of Grows s with counters := ?_ }
    rw [Counters.get, Counters.get, hrow]
    exact (Counters.lt_bump row c).le
  · obtain ⟨-,-,rfl⟩ := (Counters.fails_inc c s s' e).mp h
    exact refl_of Grows _

theorem grows_associateMint (depositId mintId : ℕ) :
    Program.Within Grows (AuditedMint.associateDepositWithMint depositId mintId) :=
  Program.within_bind (leaves_insertInto (P := fun s _ s' => Grows s s') _ fun s _ _ hins _ =>
    { refl_of Grows s with auditedMints := prefix_of_insert hins }) fun _ => Program.within_pure _

theorem grows_associateBurn (withdrawalId burnId : ℕ) :
    Program.Within Grows (AuditedBurn.associateWithdrawalWithBurn withdrawalId burnId) :=
  Program.within_bind (leaves_insertInto (P := fun s _ s' => Grows s s') _ fun s _ _ hins _ =>
    { refl_of Grows s with auditedBurns := prefix_of_insert hins }) fun _ => Program.within_pure _

section tryMatch
variable {β : Type} {objectId : Option ℕ} {precheck : Except Error Unit}
  {existing : ℕ → Db → Option String} {onExisting : Conn Unit} {find : Db → Option β}
  {check : β → Except Error Unit} {associate : ℕ → β → Conn Unit} {countError : Error → Counter}

theorem grows_tryMatch (hexisting : Program.Within Grows onExisting)
    (hassociate : ∀ id b, Program.Within Grows (associate id b)) : Program.Within Grows
      (tryMatch objectId precheck existing onExisting find check associate countError) :=
  leaves_tryMatch (P := fun s _ s' => Grows s s') within_transaction hexisting hassociate
    fun e => grows_inc (countError e)

end tryMatch

theorem gnosisParts_grows (safe : AuditedSafeConfig) :
    GnosisParts (fun s (_ : List Counters) s' => Grows s s') safe where
  count c _ := grows_inc c
  deposit d := leaves_insertUnsaved _ d fun s _ _ hins _ =>
    { refl_of Grows s with deposits := prefix_of_insert hins }
  withdrawal w := leaves_insertUnsaved _ w fun s _ _ hins _ =>
    { refl_of Grows s with withdrawals := prefix_of_insert hins }
  matchDeposit _ := grows_tryMatch (grows_inc _) fun _ _ =>
    Program.within_bind (Program.within_ofOutcome _) fun _ => grows_associateMint _ _
  matchWithdrawal _ := grows_tryMatch (Program.within_pure ()) fun _ _ =>
    Program.within_bind (Program.within_ofOutcome _) fun _ => grows_associateBurn _ _

theorem ledgerParts_grows (ext : Externals) (b : BlockData) :
    LedgerParts (fun s (_ : List Counters) s' => Grows s s') ext b where
  configTx tx := leaves_insertConfigTx (P := fun s _ s' => Grows s s') within_transaction ext _ _ tx
    (fun s _ => { refl_of Grows s with }) fun s _ => { refl_of Grows s with }
  mint m := leaves_insertUnsaved _ m fun s _ _ hins _ =>
    { refl_of Grows s with mints := prefix_of_insert hins }
  burn b := leaves_insertUnsaved _ b fun s _ _ hins _ =>
    { refl_of Grows s with burns := prefix_of_insert hins }
  count c _ := grows_inc c
  audited := Program.within_update fun s => { refl_of Grows s with }
  balances m := leaves_setBalances (P := fun s _ s' => Grows s s') within_transaction _ m
    fun s _ => { refl_of Grows s with }

theorem auditParts_grows (config : GnosisSafeConfig) :
    AuditParts (fun s (_ : List Counters) s' => Grows s s') config where
  matchMint _ := grows_tryMatch (Program.within_pure ()) fun _ _ =>
    Program.within_bind (Program.within_ofOutcome _) fun _ => grows_associateMint _ _
  matchBurn _ := grows_tryMatch (Program.within_pure ()) fun _ _ =>
    Program.within_bind (Program.within_ofOutcome _) fun _ => grows_associateBurn _ _

theorem grows_processRawTransaction (safe : AuditedSafeConfig) (serde : Serde)
    (tx : RawGnosisTransaction) :
    Program.Within Grows (safe.processRawTransaction serde tx) := by
  rw [processRawTransaction_eq]
  exact Program.within_expect _ (Program.within_savepoint ((gnosisParts_grows safe).recordAndProcess
    (leaves_insertTx serde tx fun s _ => { refl_of Grows s with })))

theorem grows_syncBlockWithConn (ext : Externals) (b : BlockData) :
    Program.Within Grows (syncBlockWithConn ext b.block b.contents b.timestamp) := by
  rw [syncBlockWithConn_eq]
  exact within_transaction (ledgerParts_grows ext b).syncBlockStages

theorem grows_syncAndAudit (ext : Externals) (config : Option GnosisSafeConfig) (b : BlockData) :
    Program.Within Grows (syncAndAudit ext config b) :=
  Program.within_savepoint (Program.within_bind (grows_syncBlockWithConn ext b)
    fun data => leaves_auditIfConfigured auditParts_grows data)

/-! ### Reports -/

/-- What a page showed it still shows, so that a full page does not change. What was not answered is
still not answered. -/
structure ListingGrows {α : Type}
    (listing listing' : Option UInt64 → Option UInt64 → Except Error (List α)) : Prop where
  grows : ∀ offset limit rows, listing offset limit = .ok rows →
    ∃ rows', listing' offset limit = .ok rows' ∧ rows <+: rows'
  full : ∀ offset (limit : UInt64) rows, limit.toNat < 2^63 →
    listing offset (some limit) = .ok rows → rows.length = limit.toNat →
    listing' offset (some limit) = .ok rows
  fails : ∀ offset limit e, listing offset limit = .error e → listing' offset limit = .error e

/-- The reports over all blocks. -/
structure ReportsGrow (burnRedemptionMemo : BurnTxOut → Except Error Bytes) (s s' : Db) : Prop where
  mints : ListingGrows (fun o l => ReserveAuditorHttpService.getAuditedMints o l s)
    (fun o l => ReserveAuditorHttpService.getAuditedMints o l s')
  burns : ListingGrows
    (fun o l => ReserveAuditorHttpService.getAuditedBurns burnRedemptionMemo o l s)
    (fun o l => ReserveAuditorHttpService.getAuditedBurns burnRedemptionMemo o l s')
  mintTotal : ∀ tokenId, getMintTotal tokenId s ≤ getMintTotal tokenId s'
  burnTotal : ∀ tokenId, getBurnTotal tokenId s ≤ getBurnTotal tokenId s'
  counters : Counters.get s ≤ Counters.get s'

section page
variable {α β : Type} {rows rows' : List α}

theorem isPrefix_offset (h : rows <+: rows') (offset : Option UInt64) :
    (match offset with
      | some o => rows.drop o.toInt64.toInt.toNat
      | none => rows) <+: match offset with
      | some o => rows'.drop o.toInt64.toInt.toNat
      | none => rows' := by
  cases offset with
  | none => exact h
  | some o => exact h.drop _

theorem page_grows (h : rows <+: rows') {offset limit : Option UInt64} {as : List α}
    (hpage : page offset limit rows = .ok as) :
    ∃ as', page offset limit rows' = .ok as' ∧ as <+: as' := by
  cases limit with
  | none =>
    cases offset with
    | none =>
      obtain rfl := Except.ok.inj hpage
      exact ⟨rows',rfl,h⟩
    | some o => exact absurd hpage (by simp [page])
  | some l =>
    obtain rfl := Except.ok.inj hpage
    refine ⟨_,rfl,?_⟩
    split
    · exact isPrefix_offset h offset
    · exact (isPrefix_offset h offset).take _

theorem page_length_le {offset : Option UInt64} {limit : UInt64} (hl : limit.toNat < 2^63)
    {as : List α} (h : page offset (some limit) rows = .ok as) : as.length ≤ limit.toNat := by
  have hpos : ¬limit.toInt64 < 0 := by
    rw [Int64.lt_iff_toInt_lt, toInt_toInt64, if_pos hl]
    exact not_lt.mpr (Int.natCast_nonneg _)
  simp only [page, hpos, ite_false, toInt64_toInt_toNat hl, Except.ok.injEq] at h
  exact h ▸ List.length_take_le _ _

/-- Whether a page is answered does not depend on the rows. -/
theorem page_fails {offset limit : Option UInt64} {e : Error}
    (h : page offset limit rows = .error e) : page offset limit rows' = .error e := by
  cases limit with
  | none =>
    cases offset with
    | none => exact absurd h (by simp [page])
    | some o => exact h
  | some l => exact absurd h (by simp [page])

theorem listingGrows_page (h : rows <+: rows') (f : α → β) :
    ListingGrows (fun o l => (page o l rows).map (List.map f))
      (fun o l => (page o l rows').map (List.map f)) where
  grows offset limit as hlist := by
    obtain ⟨as₀,hpage,rfl⟩ := (Outcome.except_map_eq_ok _ _ _).mp hlist
    obtain ⟨as',hpage',hpre⟩ := page_grows h hpage
    exact ⟨as'.map f,by rw [hpage']; rfl,hpre.map f⟩
  full offset limit as hl hlist hfull := by
    obtain ⟨as₀,hpage,rfl⟩ := (Outcome.except_map_eq_ok _ _ _).mp hlist
    obtain ⟨as',hpage',hpre⟩ := page_grows h hpage
    rw [List.length_map] at hfull
    have hle := page_length_le hl hpage'
    rw [hpage', hpre.eq_of_length_le (hfull ▸ hle)]
    rfl
  fails offset limit e hlist := by
    cases hpage : page offset limit rows with
    | ok as => rw [hpage] at hlist; cases hlist
    | error e' => rw [hpage] at hlist; rw [page_fails hpage]; exact hlist

end page

/-- What is referred to is found where it was, so that joined rows stay, too. -/
theorem isPrefix_filterMap {α β : Type} {as as' : List α} {f f' : α → Option β} (h : as <+: as')
    (hf : ∀ a ∈ as, f' a = f a) : as.filterMap f <+: as'.filterMap f' := by
  obtain ⟨more,rfl⟩ := h
  rw [List.filterMap_append, List.filterMap_congr hf]
  exact List.prefix_append _ _

theorem sum_le_of_prefix {α : Type} {as as' : List α} (h : as <+: as') (p : α → Bool) (f : α → ℕ) :
    ((as.filter p).map f).sum ≤ ((as'.filter p).map f).sum := by
  obtain ⟨more,rfl⟩ := h
  rw [List.filter_append, List.map_append, List.sum_append]
  exact Nat.le_add_right _ _

namespace Grows
variable (h : Grows s s') (hi : Intact s)
include h hi

theorem joinedMints :
    AuditedMint.withMintAndDeposit s <+: AuditedMint.withMintAndDeposit s' := by
  refine isPrefix_filterMap h.auditedMints fun a ha => ?_
  obtain ⟨⟨m,hm⟩,d,hd⟩ := hi.mints a ha
  obtain ⟨ms,hms⟩ := h.mints
  obtain ⟨ds,hds⟩ := h.deposits
  simp only [hm, hd, Table.find_append hms.symm hm, Table.find_append hds.symm hd]

theorem joinedBurns :
    AuditedBurn.withBurnAndWithdrawal s <+: AuditedBurn.withBurnAndWithdrawal s' := by
  refine isPrefix_filterMap h.auditedBurns fun a ha => ?_
  obtain ⟨⟨b,hb⟩,w,hw⟩ := hi.burns a ha
  obtain ⟨bs,hbs⟩ := h.burns
  obtain ⟨ws,hws⟩ := h.withdrawals
  simp only [hb, hw, Table.find_append hbs.symm hb, Table.find_append hws.symm hw]

theorem reports (burnRedemptionMemo : BurnTxOut → Except Error Bytes) :
    ReportsGrow burnRedemptionMemo s s' where
  mints := listingGrows_page (h.joinedMints hi) _
  burns := listingGrows_page (h.joinedBurns hi) _
  mintTotal tokenId := by
    simp only [getMintTotal, MintTx.getMintAmounts, List.map_map]
    exact sum_le_of_prefix h.mints _ _
  burnTotal tokenId := by
    simp only [getBurnTotal, BurnTxOut.getBurnAmounts, List.map_map]
    exact sum_le_of_prefix h.burns _ _
  counters := h.counters

end Grows

/-! ### Runs -/

section ScanStep
variable {ι : Type} [DecidableEq ι] {c c' : ScanState ι}

theorem ScanStep.grows (h : ScanStep ext serde c c') (hc : c.db.counters.isSome = true) :
    Grows c.db c'.db := by
  cases h with
  | read i => exact refl_of Grows _
  | sync i config b held => exact grows_syncAndAudit ext config b c.db
  | crash i =>
    change Grows c.db (newFromPath c.db).state
    rw [newFromPath_state hc]
    exact refl_of Grows _
  | gnosis safe tx => exact grows_processRawTransaction safe serde tx c.db

/-- A step changes the database by an activity that commits, or not at all. -/
theorem ScanStep.activity (h : ScanStep ext serde c c') (hc : c.db.counters.isSome = true) :
    c'.db = c.db ∨ ∃ config a, (Activity.program ext serde config a).Returns c.db () c'.db := by
  cases h with
  | read i => exact Or.inl rfl
  | sync i config b held =>
    exact (activity_cases ext serde config (.ledger b) c.db).symm.imp And.right
      fun h => ⟨config,_,h⟩
  | crash i => exact Or.inl (newFromPath_state hc)
  | gnosis safe tx =>
    exact (activity_cases ext serde none (.gnosis safe tx) c.db).symm.imp And.right
      fun h => ⟨none,_,h⟩

/-- What every activity keeps that commits holds in every state that is reached. -/
theorem Scanned.induction {I : Db → Prop} (h₀ : I initialDb)
    (hstep : ∀ n config a s s', SyncedTo n s → I s →
      (Activity.program ext serde config a).Returns s () s' → I s')
    (h : Scanned ext serde c) : I c.db := by
  induction h with
  | start => exact h₀
  | step before next ih =>
    rcases next.activity before.syncedTo.counters with h | ⟨config,a,h⟩
    · rwa [h]
    · exact hstep _ config a _ _ before.syncedTo ih h

theorem ScanStep.history (h : ScanStep ext serde c c') (hs : SyncedTo n c.db) :
    HistoryKept n c.db c'.db := by
  rcases h.activity hs.counters with h | ⟨config,a,h⟩
  · rw [h]
    exact (LedgerKept.refl _).history n
  · cases a with
    | ledger b => exact history_syncAndAudit hs h
    | gnosis safe tx => exact (ledgerKept_processRawTransaction h).history n

/-- A run keeps the history of the blocks that were synced before it, and takes nothing back. -/
theorem Scanned.later (h : Scanned ext serde c)
    (hrun : Relation.ReflTransGen (ScanStep ext serde) c c') : Scanned ext serde c' ∧
      HistoryKept (Counters.get c.db .numBlocksSynced) c.db c'.db ∧ Grows c.db c'.db := by
  induction hrun with
  | refl => exact ⟨h,(LedgerKept.refl c.db).history _,refl_of Grows _⟩
  | tail _ next ih =>
    obtain ⟨hmid,hhistory,hgrows⟩ := ih
    -- more blocks are synced by then, so less is added to the history
    exact ⟨hmid.step next,hhistory.trans (next.history hmid.syncedTo) (hgrows.counters _),
      trans_of Grows hgrows (next.grows hmid.syncedTo.counters)⟩

end ScanStep

/-- From any state that scanners and Gnosis threads reach, and whatever they do next: the answers
about the blocks that were synced stay the same, and the reports over all blocks only grow. -/
theorem scanned_answers_kept {ι : Type} [DecidableEq ι] (ext : Externals) (serde : Serde)
    (burnRedemptionMemo : BurnTxOut → Except Error Bytes) (c c' : ScanState ι)
    (h : Scanned ext serde c) (hrun : Relation.ReflTransGen (ScanStep ext serde) c c') :
    (∀ b : UInt64, b.toNat < Counters.get c.db .numBlocksSynced → SameAnswers ext b c.db c'.db) ∧
      ReportsGrow burnRedemptionMemo c.db c'.db := by
  obtain ⟨-,hhistory,hgrows⟩ := h.later hrun
  exact ⟨fun b hb => hhistory.answers h.syncedTo.refs hb,hgrows.reports h.intact burnRedemptionMemo⟩

/-- A deposit and its mint, before the withdrawal is processed. -/
def mintedScan : ScanState Unit :=
  depositScan.synced Reference.externals (some Reference.config) mintAndBurn ()

theorem mintedScan_answers_kept :
    (∀ b : UInt64, b.toNat < Counters.get mintedScan.db .numBlocksSynced →
      SameAnswers Reference.externals b mintedScan.db auditedScan.db) ∧
    ReportsGrow (fun _ => .ok []) mintedScan.db auditedScan.db := by
  have hdeposit : Scanned Reference.externals Reference.serde depositScan :=
    Scanned.start.processed Reference.safeA depositOfThree
  have hminted : Scanned Reference.externals Reference.serde mintedScan :=
    hdeposit.synced (some Reference.config) () (by decide +kernel)
  exact scanned_answers_kept Reference.externals Reference.serde (fun _ => .ok []) mintedScan
    auditedScan hminted (.single (.gnosis mintedScan Reference.safeB burnWithdrawal))

end ReserveAuditor
