import ReserveAuditor.BlockAcceptance

/-! The balances that a block leaves, from those of the block before it. -/
namespace ReserveAuditor
open Txn Relational

variable {ext : Externals} {s s' : Db} {b b' : BlockData} {data : SyncBlockData} {n : ℕ}

/-! ### What a block mints and burns -/

/-- The sum of the amounts that the block mints of a token. -/
def BlockData.minted (b : BlockData) (t : TokenId) : ℕ :=
  ((b.contents.mintTxs.filter fun tx => decide (tx.txPrefix.tokenId = t)).map fun tx =>
    tx.txPrefix.amount.toNat).sum

/-- The sum of the amounts of the block's outputs that burn a token. -/
def BlockData.burned (ext : Externals) (b : BlockData) (t : TokenId) : ℕ :=
  (((burnTxOutsOf ext b.block.index b.timestamp b.contents.outputs).filter fun burn =>
    decide (burn.getTokenId = t)).map fun burn => burn.getAmount.toNat).sum

theorem deposited_mints (txs : List CoreMintTx) (t : TokenId) :
    Account.deposited t (txs.map mintEntry) = ((txs.filter fun tx =>
      decide (tx.txPrefix.tokenId = t)).map fun tx => tx.txPrefix.amount.toNat).sum := by
  simp only [sum_filter_map, decide_eq_true_eq, Account.deposited, List.map_map]
  rfl

theorem charged_burns (burns : List BurnTxOut) (t : TokenId) :
    Account.charged t (burns.map burnEntry) = ((burns.filter fun burn =>
      decide (burn.getTokenId = t)).map fun burn => burn.getAmount.toNat).sum := by
  simp only [sum_filter_map, decide_eq_true_eq, Account.charged, List.map_map]
  rfl

/-- No balance reaches the limit exactly when the mints alone, which come first, do not. -/
theorem below_entries_iff (ext : Externals) (b : BlockData) {limit : ℕ} {m : TokenId → ℕ} :
    Account.Below limit m (b.entries ext) ↔ ∀ t, m t+b.minted t < limit := by
  constructor
  · intro h t
    have hmints := (Account.below_deposits_iff (charged_mints b.contents.mintTxs)).mp h.left t
    rwa [deposited_mints] at hmints
  · refine fun h => Account.below_of_deposited fun t => ?_
    rw [BlockData.entries, Account.deposited_append, deposited_burns, deposited_mints]
    exact h t

/-- The balances of a block: what there was and what was minted, less what was burned, but not
below zero. -/
theorem BlockSynced.amounts_eq (h : BlockSynced ext b s data s')
    (hb : ∀ t, (storedBalances s).amounts t+b.minted t < 2^64) (t : TokenId) :
    data.balanceMap.amounts t = (storedBalances s).amounts t+b.minted t-b.burned ext t := by
  have hbelow := (below_entries_iff ext b).mpr hb
  have hprev := previousBalances_eq (s := s) h.index
  have hmints : (mintBalances (storedBalances s) b.contents.mintTxs).amounts t =
      (storedBalances s).amounts t+b.minted t := by
    rw [mintBalances_amounts _ hbelow.left, Account.post_deposits (charged_mints _),
      deposited_mints]
    rfl
  rw [h.balances, hprev, (chargeBurns_amounts _ _).1, Account.post_charges (deposited_burns _),
    hmints, charged_burns]
  rfl

/-! ### The tokens with a balance -/

theorem mem_mintBalances (txs : List CoreMintTx) (m : BalanceMap) (t : TokenId) :
    t ∈ mintBalances m txs ↔ t ∈ m ∨ ∃ tx ∈ txs, tx.txPrefix.tokenId = t := by
  induction txs generalizing m with
  | nil => simp [mintBalances]
  | cons tx txs ih =>
    have hstep := ih (m.insert tx.txPrefix.tokenId
      (m.balance tx.txPrefix.tokenId+tx.txPrefix.amount))
    rw [mintBalances, List.foldl_cons]
    refine hstep.trans ?_
    simp only [AList.mem_insert, List.exists_mem_cons_iff]
    tauto

theorem mem_chargeBurns (burns : List BurnTxOut) (m : BalanceMap) (t : TokenId) :
    t ∈ burns.foldl chargeBurn m ↔ t ∈ m ∨ ∃ burn ∈ burns, burn.getTokenId = t := by
  induction burns generalizing m with
  | nil => simp
  | cons burn burns ih =>
    rw [List.foldl_cons, ih]
    simp only [chargeBurn, AList.mem_insert, List.exists_mem_cons_iff]
    tauto

/-- The tokens that had a balance keep one, and those that are minted or burned get one. -/
theorem BlockSynced.mem_balanceMap (h : BlockSynced ext b s data s') (t : TokenId) :
    t ∈ data.balanceMap ↔ t ∈ storedBalances s ∨
      (∃ tx ∈ b.contents.mintTxs, tx.txPrefix.tokenId = t) ∨
      ∃ burn ∈ burnTxOutsOf ext b.block.index b.timestamp b.contents.outputs,
        burn.getTokenId = t := by
  rw [h.balances, mem_chargeBurns, mem_mintBalances, previousBalances_eq h.index, or_assoc]

theorem BalanceMap.lookup_congr {m m' : BalanceMap} {t : TokenId} (hmem : t ∈ m ↔ t ∈ m')
    (hamount : m.amounts t = m'.amounts t) : m.lookup t = m'.lookup t := by
  rw [← AList.lookup_isSome, ← AList.lookup_isSome] at hmem
  have hbalance : m.balance t = m'.balance t := UInt64.toNat_inj.mp hamount
  rw [BalanceMap.balance, BalanceMap.balance] at hbalance
  cases hm : m.lookup t <;> cases hm' : m'.lookup t <;> simp_all

theorem minted_eq_zero {t : TokenId} (h : ∀ tx ∈ b.contents.mintTxs, tx.txPrefix.tokenId ≠ t) :
    b.minted t = 0 := by
  rw [BlockData.minted, List.filter_eq_nil_iff.mpr]
  · rfl
  · simpa using h

theorem burned_eq_zero {t : TokenId}
    (h : ∀ burn ∈ burnTxOutsOf ext b.block.index b.timestamp b.contents.outputs,
      burn.getTokenId ≠ t) : b.burned ext t = 0 := by
  rw [BlockData.burned, List.filter_eq_nil_iff.mpr]
  · rfl
  · simpa using h

/-! ### Blocks in another order -/

/-- The same block, with its mints and its outputs in another order. -/
structure Permuted (b b' : BlockData) : Prop where
  block : b'.block = b.block
  timestamp : b'.timestamp = b.timestamp
  configTxs : b'.contents.validatedMintConfigTxs = b.contents.validatedMintConfigTxs
  mints : b'.contents.mintTxs.Perm b.contents.mintTxs
  outputs : b'.contents.outputs.Perm b.contents.outputs

namespace Permuted

theorem minted (h : Permuted b b') (t : TokenId) : b'.minted t = b.minted t :=
  ((h.mints.filter _).map _).sum_eq

theorem burns (h : Permuted b b') : (burnTxOutsOf ext b'.block.index b'.timestamp
    b'.contents.outputs).Perm (burnTxOutsOf ext b.block.index b.timestamp b.contents.outputs) := by
  rw [h.block, h.timestamp]
  exact h.outputs.filterMap _

theorem burned (h : Permuted b b') (t : TokenId) : b'.burned ext t = b.burned ext t :=
  ((h.burns.filter _).map _).sum_eq

theorem acceptable (h : Permuted b b') (ha : Acceptable ext b s) : Acceptable ext b' s where
  next := h.block ▸ ha.next
  configTxTokens := h.configTxs ▸ ha.configTxTokens
  configTxNonces := h.configTxs ▸ ha.configTxNonces
  mintNonces := ha.mintNonces.perm (h.mints.map _)
  burnKeys := ha.burnKeys.perm ((h.outputs.filter _).map _)

theorem readable (h : Permuted b b') (hr : Readable ext b s) : Readable ext b' s where
  configTxs := h.configTxs ▸ hr.configTxs
  lookups := fun tx htx => h.block ▸ hr.lookups tx (h.mints.mem_iff.mp htx)
  recipients := fun tx htx => hr.recipients tx (h.mints.mem_iff.mp htx)

end Permuted

/-- The row that a mint is stored as, apart from its id. -/
def mintRow (ext : Externals) (b : BlockData) (s : Db) (tx : CoreMintTx) : Except Error MintTx := do
  let cfg ← lookupMintConfig ext b.block.index tx s
  let row ← MintTx.fromCoreMintTx ext b.block.index b.timestamp (cfg.bind MintConfig.id) tx
  pure (Record.withId row 0)

theorem BlockSynced.mintRows (h : BlockSynced ext b s data s') :
    data.mintTxs.map (fun m => (.ok (Record.withId m 0) : Except Error MintTx)) =
      b.contents.mintTxs.map (mintRow ext b s) := by
  refine forall₂_map_eq h.mintsStored fun tx row hst => ?_
  obtain ⟨cfg,row₀,n,hl,hrow,rfl⟩ := hst.stored
  simp only [mintRow, hl, hrow, bind, Except.bind, pure, Except.pure]
  rfl

/-- The balances that are stored for a block, the tokens that have one, and, for the block in
another order, that it is synced too and leaves the same balances and the same mints, attributed
to the same configs. -/
theorem syncBlocks_balance_law (ext : Externals) (blocks : List BlockData) (s : Db)
    (h : (syncBlocks ext blocks).Returns initialDb () s) (b : BlockData) (data : SyncBlockData)
    (s' : Db) (hsync : (syncBlockWithConn ext b.block b.contents b.timestamp).Returns s data s')
    (hb : Account.Below (2^64) (storedBalances s).amounts (b.entries ext)) :
    (∀ t, (storedBalances s').amounts t =
      (storedBalances s).amounts t+b.minted t-b.burned ext t) ∧
    (∀ t ∈ storedBalances s, t ∈ storedBalances s') ∧
    (∀ t, (∀ tx ∈ b.contents.mintTxs, tx.txPrefix.tokenId ≠ t) →
      (∀ burn ∈ burnTxOutsOf ext b.block.index b.timestamp b.contents.outputs,
        burn.getTokenId ≠ t) → (storedBalances s').lookup t = (storedBalances s).lookup t) ∧
    ∀ b', Permuted b b' → ∃ data' s'',
      (syncBlockWithConn ext b'.block b'.contents b'.timestamp).Returns s data' s'' ∧
      (∀ t, (storedBalances s'').lookup t = (storedBalances s').lookup t) ∧
      (data'.mintTxs.map fun m => Record.withId m 0).Perm
        (data.mintTxs.map fun m => Record.withId m 0) := by
  obtain ⟨hr,hg,hi⟩ := syncBlocks_encoded h
  have hsynced := returns_syncBlockWithConn hr hsync
  have hlimit := (below_entries_iff ext b).mp hb
  have hstored := hsynced.lookup_stored hg
  have hamounts (t : TokenId) : (storedBalances s').amounts t = data.balanceMap.amounts t := by
    simp only [BalanceMap.amounts, BalanceMap.balance, hstored]
  have hmem (t : TokenId) : t ∈ storedBalances s' ↔ t ∈ data.balanceMap := by
    rw [← AList.lookup_isSome, hstored, AList.lookup_isSome]
  refine ⟨fun t => ?_,fun t ht => ?_,fun t hmints hburns => ?_,fun b' hp => ?_⟩
  · rw [hamounts, hsynced.amounts_eq hlimit]
  · exact (hmem t).mpr ((hsynced.mem_balanceMap t).mpr (Or.inl ht))
  -- a token that the block does not touch has an entry exactly when it had one
  · refine BalanceMap.lookup_congr ?_ ?_
    · rw [hmem, hsynced.mem_balanceMap]
      refine or_iff_left ?_
      rintro (⟨tx,htx,he⟩ | ⟨burn,hburn,he⟩)
      · exact hmints tx htx he
      · exact hburns burn hburn he
    · rw [hamounts, hsynced.amounts_eq hlimit, minted_eq_zero hmints, burned_eq_zero hburns]
      rfl
  -- whether a block is accepted does not depend on the order of its contents
  · obtain ⟨ha,hread⟩ := (syncBlockWithConn_returns_iff _ _ hr hg hi.counters).mp ⟨data,s',hsync⟩
    obtain ⟨data',s'',hsync'⟩ := (syncBlockWithConn_returns_iff _ _ hr hg hi.counters).mpr
      ⟨hp.acceptable ha,hp.readable hread⟩
    have hsynced' := returns_syncBlockWithConn hr hsync'
    -- the sums are the same in both orders
    have hlimit' (t : TokenId) : (storedBalances s).amounts t+b'.minted t < 2^64 := by
      rw [hp.minted]
      exact hlimit t
    refine ⟨data',s'',hsync',fun t => ?_,?_⟩
    · rw [hstored, hsynced'.lookup_stored hg]
      refine BalanceMap.lookup_congr ?_ ?_
      · simp only [hsynced.mem_balanceMap, hsynced'.mem_balanceMap, hp.mints.mem_iff,
          hp.burns.mem_iff]
      · rw [hsynced.amounts_eq hlimit, hsynced'.amounts_eq hlimit', hp.minted, hp.burned]
    -- each mint gives the same row, up to the id
    · have hrow : mintRow ext b' s = mintRow ext b s := by
        funext tx
        rw [mintRow, mintRow, hp.block, hp.timestamp]
      have hrows := hp.mints.map (mintRow ext b s)
      rw [← hsynced.mintRows, ← hrow, ← hsynced'.mintRows] at hrows
      refine (List.map_perm_map_iff (f := (.ok : MintTx → Except Error MintTx))
        fun x y he => Except.ok.inj he).mp ?_
      simpa only [List.map_map, Function.comp_def] using hrows

/-- A config with room for one of two mints, and two burns of which one is of more than there is. -/
def busyBlock : BlockData :=
  Reference.blockOf 1 [] [Reference.mintFor 0x12 9,Reference.mintFor 0x13 5]
    [Reference.burnOf (List.replicate 32 8) 3,Reference.burnOf (List.replicate 32 9) 20]

theorem busyBlock_balance_law :
    let s := (syncBlocks Reference.externals [firstBlock] initialDb).state
    let b := busyBlock
    let r := syncBlockWithConn Reference.externals b.block b.contents b.timestamp s
    ∃ data, r.outcome = .ok data ∧
    (∀ t, (storedBalances r.state).amounts t =
      (storedBalances s).amounts t+b.minted t-b.burned Reference.externals t) ∧
    (∀ t ∈ storedBalances s, t ∈ storedBalances r.state) ∧
    (∀ t, (∀ tx ∈ b.contents.mintTxs, tx.txPrefix.tokenId ≠ t) →
      (∀ burn ∈ burnTxOutsOf Reference.externals b.block.index b.timestamp b.contents.outputs,
        burn.getTokenId ≠ t) → (storedBalances r.state).lookup t = (storedBalances s).lookup t) ∧
    ∀ b', Permuted b b' → ∃ data' s'',
      (syncBlockWithConn Reference.externals b'.block b'.contents b'.timestamp).Returns s data' s'' ∧
      (∀ t, (storedBalances s'').lookup t = (storedBalances r.state).lookup t) ∧
      (data'.mintTxs.map fun m => Record.withId m 0).Perm
        (data.mintTxs.map fun m => Record.withId m 0) := by
  intro s b r
  have hs : (syncBlocks Reference.externals [firstBlock] initialDb).outcome.isOk = true := by
    decide +kernel
  have hr : r.outcome.isOk = true := by
    decide +kernel
  have hlimit : (storedBalances s).entries = [⟨1,4⟩] ∧
      b.entries Reference.externals = [.deposit 1 9,.deposit 1 5,.charge 1 3,.charge 1 20] := by
    decide +kernel
  obtain ⟨data,hdata⟩ := (Outcome.isOk_iff _).mp hr
  refine ⟨data,hdata,syncBlocks_balance_law Reference.externals [firstBlock] s
    (Program.returns_of_isOk hs) b data r.state ⟨hdata,rfl⟩ ?_⟩
  rw [hlimit.2]
  -- 4 stored and 14 deposited stay far below the limit
  refine Account.below_of_deposited fun t => ?_
  have hbalance : (storedBalances s).amounts t ≤ 4 := by
    rw [BalanceMap.amounts, BalanceMap.balance, AList.lookup, hlimit.1]
    by_cases ht : t = 1
    · subst ht
      decide
    · rw [List.dlookup_cons_ne [] ⟨1,4⟩ ht]
      simp
  simp only [Account.deposited_cons, Account.deposited_nil, Account.Entry.depositOn]
  split <;> omega

/-! ### Running balances -/

/-- Each mint adds its amount to the balance of its token. -/
def AddsMints (m : BalanceMap) (txs : List CoreMintTx) : Prop :=
  ∀ before tx, before ++ [tx] <+: txs →
    (mintBalances m (before ++ [tx])).amounts tx.txPrefix.tokenId =
      (mintBalances m before).amounts tx.txPrefix.tokenId+tx.txPrefix.amount.toNat

theorem AddsMints.of_prefix {m : BalanceMap} {txs txs' : List CoreMintTx} (h : AddsMints m txs)
    (hp : txs' <+: txs) : AddsMints m txs' := fun before tx hb => h before tx (hb.trans hp)

theorem mintBalances_append (m : BalanceMap) (txs txs' : List CoreMintTx) :
    mintBalances m (txs ++ txs') = mintBalances (mintBalances m txs) txs' := List.foldl_append

/-- Exact running balances post the mints, so none of them reaches the limit of `u64`. -/
theorem AddsMints.amounts {m : BalanceMap} {txs : List CoreMintTx} (h : AddsMints m txs) :
    (mintBalances m txs).amounts = Account.post m.amounts (txs.map mintEntry) := by
  induction txs using List.reverseRecOn with
  | nil => rfl
  | append_singleton txs tx ih =>
    have hlast : mintBalances m (txs ++ [tx]) = (mintBalances m txs).insert tx.txPrefix.tokenId
        ((mintBalances m txs).balance tx.txPrefix.tokenId+tx.txPrefix.amount) :=
      mintBalances_append m txs [tx]
    have hstep := h txs tx List.prefix_rfl
    rw [hlast, BalanceMap.amounts_insert, Function.update_self] at hstep
    rw [hlast, BalanceMap.amounts_insert, hstep, ih (h.of_prefix (List.prefix_append _ _)),
      List.map_append, Account.post_append]
    rfl

theorem addsMints_iff {m : BalanceMap} {txs : List CoreMintTx} : AddsMints m txs ↔
    ∀ t, m.amounts t+Account.deposited t (txs.map mintEntry) < 2^64 := by
  constructor
  · intro h t
    rw [← Account.post_deposits (charged_mints txs), ← h.amounts]
    exact UInt64.toNat_lt _
  · rintro h before tx ⟨rest,rfl⟩
    have hbelow := (Account.below_deposits_iff (charged_mints _)).mpr h
    rw [List.map_append] at hbelow
    have hmore := hbelow.left
    have hless := hmore
    rw [List.map_append] at hless
    rw [mintBalances_amounts _ hmore, mintBalances_amounts _ hless.left, List.map_append,
      Account.post_append]
    simp [mintEntry, Account.post, Account.Entry.apply]

/-- In the mint loop of a sync that starts from `s`, each turn returns, and adds the amount of its
mint to the balance of its token and nothing to the others. -/
def ExactMints (ext : Externals) (b : BlockData) (s : Db) : Prop :=
  ∃ s₁, Opened ext b s s₁ ∧ ∀ before tx, before ++ [tx] <+: b.contents.mintTxs →
    ∃ q s₂ p s₃, (mintsLoop ext b s₁ before).Returns s₁ q s₂ ∧
      (processMint ext b.block.index b.timestamp q.1 tx).Returns s₂ p s₃ ∧
      p.1.amounts = Function.update q.1.amounts tx.txPrefix.tokenId
        (q.1.amounts tx.txPrefix.tokenId+tx.txPrefix.amount.toNat)

/-- The running balances of the loop are those that its mints add up to. -/
theorem mintsLoop_balances {s₁ s₂ s₃ : Db} {before : List CoreMintTx} {tx : CoreMintTx}
    {q : BalanceMap × List MintTx} {p : BalanceMap × MintTx} (hr : ConfigRefs s)
    (hopened : Opened ext b s s₁) (hloop : (mintsLoop ext b s₁ before).Returns s₁ q s₂)
    (hturn : (processMint ext b.block.index b.timestamp q.1 tx).Returns s₂ p s₃) :
    q.1 = mintBalances (previousBalances b.block.index s) before ∧
      p.1 = mintBalances (previousBalances b.block.index s) (before ++ [tx]) := by
  obtain ⟨hq,hadded⟩ := returns_processMints _ (hopened.refs hr) hloop
  rw [hopened.previousBalances] at hq
  obtain ⟨hp,-⟩ := returns_processMint hadded.refs hturn
  exact ⟨hq,by rw [hp, hq, mintBalances_append]⟩

theorem ExactMints.addsMints (h : ExactMints ext b s) (hr : ConfigRefs s) :
    AddsMints (previousBalances b.block.index s) b.contents.mintTxs := by
  obtain ⟨s₁,hopened,hexact⟩ := h
  intro before tx htx
  obtain ⟨q,s₂,p,s₃,hloop,hturn,hadd⟩ := hexact before tx htx
  obtain ⟨hq,hp⟩ := mintsLoop_balances hr hopened hloop hturn
  rw [← hq, ← hp, hadd, Function.update_self]

/-- A sync that returns has gone through each turn of its mint loop. -/
theorem mintsLoop_turns
    (h : (syncBlockWithConn ext b.block b.contents b.timestamp).Returns s data s') :
    ∃ s₁, Opened ext b s s₁ ∧ ∀ before tx, before ++ [tx] <+: b.contents.mintTxs →
      ∃ q s₂ p s₃, (mintsLoop ext b s₁ before).Returns s₁ q s₂ ∧
        (processMint ext b.block.index b.timestamp q.1 tx).Returns s₂ p s₃ := by
  obtain ⟨hnext,s₁,mints,s₂,-,-,hcfg,hmints,-⟩ := returns_syncBlockWithConn_iff.mp h
  refine ⟨s₁,⟨hnext,hcfg⟩,fun before tx htx => ?_⟩
  obtain ⟨rest,hrest⟩ := htx
  rw [← hrest, List.append_assoc] at hmints
  obtain ⟨q,r,t,hloop,htail,-⟩ := (Program.returns_accumEach_append _ _ _ _ _ _ _).mp hmints
  obtain ⟨p,-,t',hturn,-⟩ := (Program.returns_accumEach_cons _ _ _ _ _ _ _).mp htail
  exact ⟨q,t,p,t',hloop,hturn⟩

/-- When a block is accepted, its mints are added exactly if and only if no token's balance before
the block and the amounts that the block mints of it add up to more than `u64` holds. -/
theorem syncBlocks_mints_exact_iff (ext : Externals) (blocks : List BlockData) (s : Db)
    (h : (syncBlocks ext blocks).Returns initialDb () s) (b : BlockData) (data : SyncBlockData)
    (s' : Db) (hsync : (syncBlockWithConn ext b.block b.contents b.timestamp).Returns s data s') :
    ExactMints ext b s ↔ ∀ t, (storedBalances s).amounts t+b.minted t < 2^64 := by
  obtain ⟨hr,-,-⟩ := syncBlocks_encoded h
  have hsum : AddsMints (previousBalances b.block.index s) b.contents.mintTxs ↔
      ∀ t, (storedBalances s).amounts t+b.minted t < 2^64 := by
    rw [addsMints_iff, previousBalances_eq (returns_syncBlockWithConn hr hsync).index]
    simp only [deposited_mints]
    rfl
  rw [← hsum]
  refine ⟨fun hexact => hexact.addsMints hr,fun hadds => ?_⟩
  obtain ⟨s₁,hopened,hturns⟩ := mintsLoop_turns hsync
  refine ⟨s₁,hopened,fun before tx htx => ?_⟩
  obtain ⟨q,s₂,p,s₃,hloop,hturn⟩ := hturns before tx htx
  obtain ⟨hq,hp⟩ := mintsLoop_balances hr hopened hloop hturn
  refine ⟨q,s₂,p,s₃,hloop,hturn,?_⟩
  have hadd := hadds before tx htx
  have hinsert : p.1 = q.1.insert tx.txPrefix.tokenId
      (q.1.balance tx.txPrefix.tokenId+tx.txPrefix.amount) := by
    rw [hp, hq, mintBalances_append]
    rfl
  -- the other balances are those before
  rw [← hp, ← hq, hinsert, BalanceMap.amounts_insert, Function.update_self] at hadd
  rw [hinsert, BalanceMap.amounts_insert, hadd]

theorem firstBlock_mints_exact_iff :
    ExactMints Reference.externals firstBlock initialDb ↔
      ∀ t, (storedBalances initialDb).amounts t+firstBlock.minted t < 2^64 := by
  have hr : (syncBlockWithConn Reference.externals firstBlock.block firstBlock.contents
      firstBlock.timestamp initialDb).outcome.isOk = true := by
    decide +kernel
  obtain ⟨data,hdata⟩ := (Outcome.isOk_iff _).mp hr
  exact syncBlocks_mints_exact_iff Reference.externals [] initialDb
    ((Program.returns_forEach_nil _ _ _ _).mpr rfl) firstBlock data _ ⟨hdata,rfl⟩

/-- Two mints that no config allows. -/
def wrappingBlock : BlockData :=
  Reference.blockOf 0 [] [Reference.mintFor 0x11 (2^63),Reference.mintFor 0x12 (2^63)] []

/-- The block is accepted, and the second mint takes the balance from `2^63` to 0. -/
theorem wrappingBlock_not_exact :
    (syncBlockWithConn Reference.externals wrappingBlock.block wrappingBlock.contents
      wrappingBlock.timestamp initialDb).outcome.isOk = true ∧
    ¬ExactMints Reference.externals wrappingBlock initialDb ∧
    (storedBalances (syncBlockWithConn Reference.externals wrappingBlock.block
      wrappingBlock.contents wrappingBlock.timestamp initialDb).state).amounts 1 = 0 := by
  have hrun : (syncBlockWithConn Reference.externals wrappingBlock.block wrappingBlock.contents
        wrappingBlock.timestamp initialDb).outcome.isOk = true ∧
      (storedBalances (syncBlockWithConn Reference.externals wrappingBlock.block
        wrappingBlock.contents wrappingBlock.timestamp initialDb).state).amounts 1 = 0 := by
    decide +kernel
  refine ⟨hrun.1,fun h => ?_,hrun.2⟩
  have hsum := addsMints_iff.mp (h.addsMints configRefs_initial) 1
  revert hsum
  decide +kernel

end ReserveAuditor
