import ReserveAuditor.Balances

/-! The attribution of each mint can be computed again from the database as it is later. -/
namespace ReserveAuditor
open Txn Relational

/-! ### Block indices as columns -/

/-- From `2^63` on a column reads as negative. -/
theorem toInt_toInt64 (a : UInt64) :
    a.toInt64.toInt = if a.toNat < 2^63 then (a.toNat : ℤ) else a.toNat-2^64 := by
  have hb : a.toInt64.toBitVec = a.toBitVec := rfl
  rw [Int64.toInt, hb, BitVec.toInt_eq_toNat_cond]
  change (if 2*a.toNat < 2^64 then (a.toNat : ℤ) else a.toNat-((2^64 : ℕ) : ℤ)) = _
  split <;> split <;> omega

theorem toInt64_le_iff {a b : UInt64} (ha : a.toNat < 2^63) (hb : b.toNat < 2^63) :
    a.toInt64 ≤ b.toInt64 ↔ a ≤ b := by
  rw [Int64.le_iff_toInt_le, toInt_toInt64 a, toInt_toInt64 b, if_pos ha, if_pos hb,
    UInt64.le_iff_toNat_le]
  omega

theorem toInt64_lt_iff {a b : UInt64} (ha : a.toNat < 2^63) (hb : b.toNat < 2^63) :
    a.toInt64 < b.toInt64 ↔ a < b := by
  rw [Int64.lt_iff_toInt_lt, toInt_toInt64 a, toInt_toInt64 b, if_pos ha, if_pos hb,
    UInt64.lt_iff_toNat_lt]
  omega

/-- A block between two that are in order as columns is in order with the later one. -/
theorem toInt64_lt_of_between {a b c : UInt64} (hac : a.toInt64 < c.toInt64)
    (hab : a.toNat ≤ b.toNat) (hbc : b.toNat < c.toNat) : b.toInt64 < c.toInt64 := by
  rw [Int64.lt_iff_toInt_lt, toInt_toInt64, toInt_toInt64] at hac ⊢
  have hlt := c.toNat_lt
  split at hac <;> split at hac <;> split <;> omega

/-! ### The attribution of stored mints -/

variable {ext : Externals} {s s' : Db} {b : BlockData} {data : SyncBlockData}

/-- The mint was stored with the config that the lookup finds in `s`. -/
structure Replays (ext : Externals) (s : Db) (m : MintTx) (tx : CoreMintTx) : Prop where
  protobuf : m.protobuf = ext.encodeMintTx tx
  token : m.tokenId = tx.txPrefix.tokenId.toInt64
  amount : m.amount = tx.txPrefix.amount.toInt64
  lookup : ∃ cfg, lookupMintConfig ext m.getBlockIndex tx s = .ok cfg ∧
    m.mintConfigId = cfg.bind MintConfig.id

/-- Every mint replays, and the mints without a config are counted. -/
structure Attributed (ext : Externals) (s : Db) : Prop where
  replays : ∀ m ∈ s.mintTxs.rows, ∃ tx, Replays ext s m tx
  unattributed : Counters.get s .numMintTxsWithoutMatchingMintConfig = unattributed s.mintTxs.rows

theorem attributed_initial : Attributed ext initialDb where
  replays := by simp [initialDb_eq, Db.empty, Table.empty]
  unattributed := rfl

/-- A later block does not change what a mint replays to. -/
theorem Replays.grown {m : MintTx} {tx : CoreMintTx} (hr : ConfigRefs s)
    (hg : Grown m.getBlockIndex.toInt64 s s') (h : Replays ext s m tx) : Replays ext s' m tx := by
  obtain ⟨cfg,hl,hid⟩ := h.lookup
  refine ⟨h.protobuf,h.token,h.amount,cfg,?_,hid⟩
  rw [lookupMintConfig_grown ext tx hr hg, hl]

theorem MintStored.replays {idx : UInt64} {ts : Option DateTime} {tx : CoreMintTx} {m : MintTx}
    (hr : ConfigRefs s) (hg : Grown idx.toInt64 s s') (h : MintStored ext idx ts s tx m) :
    Replays ext s' m tx := by
  obtain ⟨hb,ht,ha,-,hp⟩ := h.fields
  obtain ⟨cfg,row₀,n,hl,hrow,rfl⟩ := h.stored
  obtain ⟨-,-,-,-,-,-,hid⟩ := fromCoreMintTx_fields hrow
  have hidx : (Record.withId row₀ n : MintTx).getBlockIndex = idx := by
    rw [MintTx.getBlockIndex, hb]
    rfl
  refine ⟨hp,ht,ha,cfg,?_,hid⟩
  rw [hidx, lookupMintConfig_grown ext tx hr hg, hl]

/-- A block counts its mints without a config. -/
theorem BlockSynced.unattributed_eq (h : BlockSynced ext b s data s')
    (hi : Counters.get s .numMintTxsWithoutMatchingMintConfig =
      unattributed s.mintTxs.rows) :
    Counters.get s' .numMintTxsWithoutMatchingMintConfig =
      unattributed s'.mintTxs.rows := by
  obtain ⟨row,hrow,hrow'⟩ := h.counters
  have hcount : Counters.get s' .numMintTxsWithoutMatchingMintConfig =
      Counters.get s .numMintTxsWithoutMatchingMintConfig+
        unattributed data.mintTxs := by
    simp [Counters.get, hrow, hrow', Counters.addBlock, Counters.add_ne]
  rw [hcount, hi, h.mints, unattributed, unattributed,
    unattributed, List.countP_append]

theorem BlockSynced.attributed {n : ℕ} (h : BlockSynced ext b s data s') (hr : ConfigRefs s)
    (hg : Gapless n s) (hn : n < 2^63) (hi : Attributed ext s) : Attributed ext s' := by
  have hidx : b.block.index.toNat = n := h.index.trans hg.counted
  refine ⟨fun m hm => ?_,h.unattributed_eq hi.unattributed⟩
  rw [h.mints] at hm
  rcases List.mem_append.mp hm with hm | hm
  · obtain ⟨tx,htx⟩ := hi.replays m hm
    have hlt := hg.mints m hm
    -- the block comes after the mint's own, so its lookup still finds the same
    have hle : m.getBlockIndex.toInt64 ≤ b.block.index.toInt64 := by
      rw [toInt64_le_iff (by omega) (by omega), UInt64.le_iff_toNat_le]
      omega
    exact ⟨tx,htx.grown hr (h.grown.mono hle)⟩
  · obtain ⟨tx,-,hst⟩ := forall₂_mem_right h.mintsStored hm
    exact ⟨tx,hst.replays hr h.grown⟩

theorem syncBlocks_attributed {blocks : List BlockData} (hlen : blocks.length ≤ 2^63)
    (h : (syncBlocks ext blocks).Returns initialDb () s) :
    Gapless blocks.length s ∧ Attributed ext s := by
  refine (syncBlocks_induction (I := fun _ s => Attributed ext s) attributed_initial ?_ h).2
  intro before b s data s' hpre _ hr hg hi _ hsynced
  have hlt := hpre.length_le
  rw [List.length_append, List.length_singleton] at hlt
  exact hsynced.attributed hr hg (by omega) hi

/-! ### Replaying the attribution -/

/-- The config belongs to the mint config tx for the mint's token that was set last before the
mint's block, and its signer set verifies the mint's signature. -/
structure AttributedTo (ext : Externals) (s : Db) (m : MintTx) (tx : CoreMintTx) (c : MintConfig) :
    Prop where
  stored : c ∈ s.mintConfigs.rows
  configTx : ∃ t ∈ s.mintConfigTxs.rows, t.id = some c.mintConfigTxId ∧ t.tokenId = m.tokenId ∧
    t.getBlockIndex < m.getBlockIndex ∧
    ∀ t' ∈ s.mintConfigTxs.rows, t'.tokenId = m.tokenId → t'.getBlockIndex < m.getBlockIndex →
      t'.getBlockIndex ≤ t.getBlockIndex
  signed : ∃ core signers, c.decode ext = .ok core ∧
    ext.verify core.signerSet (ext.mintTxPrefixHash tx.txPrefix) tx.signature = .ok signers

theorem Gapless.attributedTo {n : ℕ} (hg : Gapless n s) (hn : n ≤ 2^63) {m : MintTx}
    (hm : m ∈ s.mintTxs.rows) {tx : CoreMintTx} (htoken : m.tokenId = tx.txPrefix.tokenId.toInt64)
    {c : MintConfig} (h : lookupMintConfig ext m.getBlockIndex tx s = .ok (some c)) :
    AttributedTo ext s m tx c := by
  obtain ⟨t,ht,hc,hid,hsigned,-,-⟩ := lookupMintConfig_eq_some h
  obtain ⟨htm,htok,hlt,hmax⟩ := mostRecentForToken_eq_some ht
  have hmlt := hg.mints m hm
  -- below 2^63 the signed columns are ordered as the indices
  have hcol (x : MintConfigTx) (hx : x ∈ s.mintConfigTxs.rows) :
      (x.blockIndex < m.getBlockIndex.toInt64 ↔ x.getBlockIndex < m.getBlockIndex) ∧
      ∀ y ∈ s.mintConfigTxs.rows, x.blockIndex ≤ y.blockIndex → x.getBlockIndex ≤ y.getBlockIndex := by
    have hxlt := hg.configTxs x hx
    have hcast (z : MintConfigTx) : z.blockIndex = z.getBlockIndex.toInt64 := rfl
    refine ⟨?_,fun y hy hxy => ?_⟩
    · rw [hcast, toInt64_lt_iff (by omega) (by omega)]
    · have hylt := hg.configTxs y hy
      rwa [hcast x, hcast y, toInt64_le_iff (by omega) (by omega)] at hxy
  refine ⟨hc,⟨t,htm,hid,htok.trans htoken.symm,(hcol t htm).1.mp hlt,fun t' ht' htok' hlt' => ?_⟩,
    hsigned⟩
  exact (hcol t' ht').2 t htm (hmax t' ht' (htok'.trans htoken) ((hcol t' ht').1.mpr hlt'))

/-- Looking up the config of a stored mint again finds the config it was stored with, which is
the right one, and the mints without a config are counted. -/
theorem syncBlocks_attribution_replays (ext : Externals)
    (hdec : ∀ tx, ext.decodeMintTx (ext.encodeMintTx tx) = .ok tx) (blocks : List BlockData)
    (hlen : blocks.length ≤ 2^63) (s : Db) (h : (syncBlocks ext blocks).Returns initialDb () s) :
    (∀ m ∈ s.mintTxs.rows, ∃ tx, m.decode ext = .ok tx ∧
      (m.mintConfigId = none → lookupMintConfig ext m.getBlockIndex tx s = .ok none) ∧
      ∀ n, m.mintConfigId = some n → ∃ c, lookupMintConfig ext m.getBlockIndex tx s = .ok (some c) ∧
        c.id = some n ∧ AttributedTo ext s m tx c) ∧
    Counters.get s .numMintTxsWithoutMatchingMintConfig =
      (s.mintTxs.rows.filter fun m => m.mintConfigId.isNone).length := by
  obtain ⟨hg,hi⟩ := syncBlocks_attributed hlen h
  refine ⟨fun m hm => ?_,?_⟩
  · obtain ⟨tx,hrep⟩ := hi.replays m hm
    obtain ⟨cfg,hl,hid⟩ := hrep.lookup
    refine ⟨tx,?_,fun hnone => ?_,fun n hn => ?_⟩
    · rw [MintTx.decode, hrep.protobuf, hdec]
      rfl
    -- the lookup returns a config exactly when the row names one
    · have hiso := (lookup_id hl).1
      rw [← hid, hnone] at hiso
      cases cfg with
      | none => exact hl
      | some c => simp at hiso
    · obtain ⟨c,rfl,-⟩ := (lookup_id hl).2 n (hid.symm.trans hn)
      exact ⟨c,hl,hid.symm.trans hn,hg.attributedTo hlen hm hrep.token hl⟩
  · rw [hi.unattributed, unattributed, List.countP_eq_length_filter]

/-- A config with a limit of 10, then a mint of 4 and a mint of 11. -/
def attributedBlocks : List BlockData :=
  [Reference.blockOf 0 [Reference.configTxOf [1] 10 10] [] [],
    Reference.blockOf 1 [] [Reference.mintFor 0x11 4,Reference.mintFor 0x12 11] []]

theorem attributedBlocks_replay :
    let s := (syncBlocks Reference.externals attributedBlocks initialDb).state
    (∀ m ∈ s.mintTxs.rows, ∃ tx, m.decode Reference.externals = .ok tx ∧
      (m.mintConfigId = none →
        lookupMintConfig Reference.externals m.getBlockIndex tx s = .ok none) ∧
      ∀ n, m.mintConfigId = some n → ∃ c,
        lookupMintConfig Reference.externals m.getBlockIndex tx s = .ok (some c) ∧
          c.id = some n ∧ AttributedTo Reference.externals s m tx c) ∧
    Counters.get s .numMintTxsWithoutMatchingMintConfig =
      (s.mintTxs.rows.filter fun m => m.mintConfigId.isNone).length :=
  syncBlocks_attribution_replays Reference.externals
    (fun tx => Reference.readMessage_encode Reference.mintTxCodec tx) attributedBlocks
    (by decide +kernel) _ (Program.returns_of_isOk (by decide +kernel))

example : ((syncBlocks Reference.externals attributedBlocks initialDb).state.mintTxs.rows.map
    fun m => (m.amount,m.mintConfigId)) = [(4,some 1),(11,none)] := by
  decide +kernel

end ReserveAuditor
