import ReserveAuditor.MintLimits

/-! The total of a mint config tx is the sum of the totals of its configs, and both are what was
minted exactly. -/
namespace ReserveAuditor
open Txn Relational

/-! ### Sums over groups -/

section sums
variable {α β : Type} {l : List α} {f : α → ℕ}

theorem sum_filter_or {p q : α → Bool} (h : ∀ a ∈ l, ¬(p a = true ∧ q a = true)) :
    ((l.filter fun a => p a || q a).map f).sum =
      ((l.filter p).map f).sum+((l.filter q).map f).sum := by
  rw [sum_filter_map, sum_filter_map, sum_filter_map, ← List.sum_map_add]
  refine congrArg List.sum (List.map_congr_left fun a ha => ?_)
  have hapart := h a ha
  cases hp : p a <;> cases hq : q a <;> simp_all

/-- The sums of groups that share no member add up to the sum over all members. -/
theorem sum_groups {R : β → α → Bool} (groups : List β)
    (h : groups.Pairwise fun g g' => ∀ a ∈ l, ¬(R g a = true ∧ R g' a = true)) :
    (groups.map fun g => ((l.filter (R g)).map f).sum).sum =
      ((l.filter fun a => groups.any fun g => R g a).map f).sum := by
  induction groups with
  | nil => simp
  | cons g groups ih =>
    obtain ⟨hapart,hrest⟩ := List.pairwise_cons.mp h
    have hor : ∀ a ∈ l, ¬(R g a = true ∧ (groups.any fun g' => R g' a) = true) := by
      rintro a ha ⟨hg,hany⟩
      obtain ⟨g',hg',hR⟩ := List.any_eq_true.mp hany
      exact hapart g' hg' a ha ⟨hg,hR⟩
    simp only [List.map_cons, List.sum_cons, List.any_cons, sum_filter_or hor, ih hrest]

theorem sum_filter_mono {p q : α → Bool} (h : ∀ a, p a = true → q a = true) :
    ((l.filter p).map f).sum ≤ ((l.filter q).map f).sum := by
  rw [sum_filter_map, sum_filter_map]
  refine List.sum_le_sum fun a _ => ?_
  cases hp : p a with
  | false => exact Nat.zero_le _
  | true => rw [h a hp]

end sums

/-! ### What was minted before a block -/

/-- The mint is of an earlier block, and attributed to the config. -/
def MintConfig.mintedEarlier (c : MintConfig) (b : UInt64) (m : MintTx) : Bool :=
  decide (m.getBlockIndex < b) && decide (m.mintConfigId = c.id)

/-- The exact sum over the mints of earlier blocks that are attributed to the config. -/
def MintConfig.mintedBefore (c : MintConfig) (b : UInt64) (s : Db) : ℕ :=
  mintedWhere (c.mintedEarlier b) s

def MintConfigTx.configs (t : MintConfigTx) (s : Db) : List MintConfig :=
  MintConfig.getByMintConfigTxId (t.id.getD 0) s

/-- The exact sum over the mints of earlier blocks that are attributed to a config of the mint config
tx. -/
def MintConfigTx.mintedBefore (t : MintConfigTx) (b : UInt64) (s : Db) : ℕ :=
  mintedWhere (fun m => (t.configs s).any fun c => c.mintedEarlier b m) s

/-- The sum of the totals of the configs. -/
def MintConfigTx.configTotals (t : MintConfigTx) (b : UInt64) (s : Db) : ℕ :=
  ((t.configs s).map fun c => (c.getTotalMintedBeforeBlock b s).toNat).sum

variable {ext : Externals} {s s' : Db} {t : MintConfigTx} {c : MintConfig} {b : UInt64}

theorem mem_configs (ht : t ∈ s.mintConfigTxs.rows) : c ∈ t.configs s ↔ Joined s c t := by
  have hid : t.id = some (key t) := s.mintConfigTxs.keyed t ht
  simp only [MintConfigTx.configs, MintConfig.getByMintConfigTxId, hid, Option.getD_some,
    List.mem_filter, decide_eq_true_eq]
  constructor
  · rintro ⟨hc,hkey⟩
    exact ⟨hc,ht,by rw [hid, hkey]⟩
  · rintro ⟨hc,-,hb⟩
    exact ⟨hc,(Option.some.inj (hid.symm.trans hb)).symm⟩

/-- What the configs minted adds up to what the mint config tx did: a mint has one config. -/
theorem sum_mintedBefore (t : MintConfigTx) (b : UInt64) (s : Db) :
    ((t.configs s).map fun c => c.mintedBefore b s).sum = t.mintedBefore b s := by
  refine sum_groups (t.configs s) ?_
  have hids : (t.configs s).Pairwise fun c c' => c.id ≠ c'.id := by
    have hnodup := s.mintConfigs.ids_nodup
    rw [List.Nodup, List.pairwise_map] at hnodup
    exact hnodup.sublist List.filter_sublist
  refine hids.imp fun {c c'} hne m _ hboth => ?_
  simp only [MintConfig.mintedEarlier, Bool.and_eq_true, decide_eq_true_eq] at hboth
  exact hne (hboth.1.2.symm.trans hboth.2.2)

theorem MintConfig.mintedBefore_le (ht : t ∈ s.mintConfigTxs.rows) (hc : Joined s c t) :
    c.mintedBefore b s ≤ t.mintedBefore b s := by
  rw [← sum_mintedBefore]
  exact List.single_le_sum (fun _ _ => Nat.zero_le _) _
    (List.mem_map_of_mem ((mem_configs ht).mpr hc))

theorem MintConfig.mintedBefore_mono (c : MintConfig) {b' : UInt64} (hle : b' ≤ b) :
    c.mintedBefore b' s ≤ c.mintedBefore b s := by
  refine sum_filter_mono fun m hm => ?_
  simp only [MintConfig.mintedEarlier, Bool.and_eq_true, decide_eq_true_eq] at hm ⊢
  exact ⟨UInt64.lt_of_lt_of_le hm.1 hle,hm.2⟩

theorem MintConfigTx.mintedBefore_mono (t : MintConfigTx) {b' : UInt64} (hle : b' ≤ b) :
    t.mintedBefore b' s ≤ t.mintedBefore b s := by
  rw [← sum_mintedBefore, ← sum_mintedBefore]
  exact List.sum_le_sum fun c _ => c.mintedBefore_mono hle

/-! ### The totals are exact -/

/-- After a config whose block is not negative in its column, a column is below `b` if the block is. -/
theorem toInt64_lt_iff_of_lt {i : UInt64} {j : Int64} (hi : i.toNat < 2^63) (hb : b.toNat < 2^63)
    (hij : i.toInt64 < j) : j < b.toInt64 ↔ j.toUInt64 < b := by
  have hj : j.toUInt64.toInt64 = j := rfl
  rw [← hj] at hij ⊢
  have hpos : j.toUInt64.toNat < 2^63 := by
    by_contra hge
    rw [Int64.lt_iff_toInt_lt, toInt_toInt64, toInt_toInt64, if_pos hi, if_neg hge] at hij
    have hlt := j.toUInt64.toNat_lt
    omega
  exact toInt64_lt_iff hpos hb

section exact_totals
variable (hr : ConfigRefs s) (hafter : MintsAfterConfigs s) (ht : t ∈ s.mintConfigTxs.rows)
  (ht63 : t.getBlockIndex.toNat < 2^63) (hb : b.toNat < 2^63)
include hr hafter ht ht63 hb

/-- Where `owner` selects mints of the mint config tx only, the total before a block is exact: the
mints are of later blocks than the mint config tx. -/
theorem totalMintedBeforeBlock_exact {owner : MintConfig → MintConfigTx → Bool} {q : MintTx → Bool}
    (howner : ∀ c t', Joined s c t' → owner c t' = true → t' = t)
    (hq : ∀ m ∈ s.mintTxs.rows, q m = (decide (m.getBlockIndex < b) &&
      (mintWithConfig s m).any fun p => owner p.2.1 p.2.2))
    (hlt : mintedWhere q s < 2^64) :
    (totalMintedBeforeBlock owner b s).toNat = mintedWhere q s := by
  refine totalMintedBeforeBlock_eq_mintedWhere (fun m hm => ?_) hlt
  rw [hq m hm]
  rcases hr.join hm with ⟨-,hnone⟩ | ⟨c,t',hjoin,-,hj⟩
  · simp [hnone]
  · rw [hjoin, Option.any_some, Option.any_some]
    cases ho : owner c t' with
    | false => simp
    | true =>
      obtain rfl := howner c t' hj ho
      have hlater : t'.blockIndex < m.blockIndex := (hafter m hm _ hjoin).1
      -- as `t` is not past 2^63, a mint above it in signed order is above it in number too
      have hiff : m.blockIndex < b.toInt64 ↔ m.getBlockIndex < b :=
        toInt64_lt_iff_of_lt ht63 hb hlater
      simp [hlater, hiff]

theorem MintConfig.total_exact (hc : Joined s c t) (hlt : c.mintedBefore b s < 2^64) :
    (c.getTotalMintedBeforeBlock b s).toNat = c.mintedBefore b s := by
  refine totalMintedBeforeBlock_exact hr hafter ht ht63 hb (fun c' t' hj ho => ?_)
    (fun m hm => congrArg (_ && ·) ?_) hlt
  · obtain rfl := (hj.config_eq hc.config).mp ho
    exact hj.unique hc
  · have hid : c.id = some (key c) := s.mintConfigs.keyed c hc.config
    rcases hr.join hm with ⟨hnone,hjoin⟩ | ⟨c',t',hjoin,hid',hj⟩
    · simp [hnone, hjoin, hid]
    · simp [hjoin, hid', hid]

theorem MintConfigTx.total_exact (hlt : t.mintedBefore b s < 2^64) :
    (t.getTotalMintedBeforeBlock b s).toNat = t.mintedBefore b s := by
  refine totalMintedBeforeBlock_exact hr hafter ht ht63 hb
    (fun c' t' hj ho => (hj.configTx_eq ht).mp ho) (fun m hm => ?_) hlt
  rw [Bool.eq_iff_iff, List.any_eq_true]
  simp only [MintConfig.mintedEarlier, Bool.and_eq_true, decide_eq_true_eq]
  -- a mint without a config is in neither sum
  rcases hr.join hm with ⟨hnone,hjoin⟩ | ⟨c',t',hjoin,hid,hj⟩
  · rw [hjoin, hnone]
    refine iff_of_false ?_ (by simp)
    rintro ⟨c,hc,-,he⟩
    have hcid : c.id = some (key c) := s.mintConfigs.keyed c ((mem_configs ht).mp hc).config
    rw [hcid] at he
    simp at he
  · rw [hjoin, Option.any_some]
    change _ ↔ _ ∧ t.owner c' t' = true
    rw [hj.configTx_eq ht]
    constructor
    · rintro ⟨c,hc,hearlier,he⟩
      have hjc := (mem_configs ht).mp hc
      obtain rfl := s.mintConfigs.eq_of_id_eq hj.config hjc.config (hid.symm.trans he)
      exact ⟨hearlier,hj.unique hjc⟩
    · rintro ⟨hearlier,rfl⟩
      exact ⟨c',(mem_configs ht).mpr hj,hearlier,hid⟩

end exact_totals

/-! ### Later blocks -/

/-- Rows of the blocks from `n` on were added. -/
structure Continued (n : ℕ) (s s' : Db) : Prop where
  configTxs : s.mintConfigTxs.rows <+: s'.mintConfigTxs.rows
  configs : s.mintConfigs.rows <+: s'.mintConfigs.rows
  mints : ∃ ms, s'.mintTxs.rows = s.mintTxs.rows ++ ms ∧ ∀ m ∈ ms, n ≤ m.getBlockIndex.toNat

theorem Continued.refl (n : ℕ) (s : Db) : Continued n s s where
  configTxs := List.prefix_rfl
  configs := List.prefix_rfl
  mints := ⟨[],by simp⟩

theorem Continued.trans {n : ℕ} {s'' : Db} (h : Continued n s s') (h' : Continued n s' s'') :
    Continued n s s'' := by
  obtain ⟨ms,hm,hms⟩ := h.mints
  obtain ⟨ms',hm',hms'⟩ := h'.mints
  refine ⟨h.configTxs.trans h'.configTxs,h.configs.trans h'.configs,ms ++ ms',
    by rw [hm', hm, List.append_assoc],fun m hmem => ?_⟩
  exact (List.mem_append.mp hmem).elim (hms m) (hms' m)

theorem BlockSynced.continued {n : ℕ} {blk : BlockData} {data : SyncBlockData}
    (h : BlockSynced ext blk s data s') (hn : n ≤ blk.block.index.toNat) : Continued n s s' := by
  obtain ⟨ts,hts,-⟩ := h.grown.txs
  obtain ⟨cs,hcs,-⟩ := h.grown.configs
  refine ⟨⟨ts,hts.symm⟩,⟨cs,hcs.symm⟩,data.mintTxs,h.mints,fun m hm => ?_⟩
  rw [h.mintIndex m hm]
  exact hn

theorem continued_of_syncBlocks {n k : ℕ} (more : List BlockData) (hr : ConfigRefs s)
    (hg : Gapless k s) (hn : n ≤ k) (h : (syncBlocks ext more).Returns s () s') :
    Continued n s s' := by
  induction more generalizing s k with
  | nil =>
    rw [(Program.returns_forEach_nil _ _ _ _).mp h]
    exact .refl n s
  | cons blk more ih =>
    obtain ⟨s₁,hone,hrest⟩ := (Program.returns_forEach_cons _ _ _ _ _ _).mp h
    simp only [Program.returns_bind, Program.returns_pure] at hone
    obtain ⟨data,_,hsync,-,rfl⟩ := hone
    have hsynced := returns_syncBlockWithConn hr hsync
    have hidx : blk.block.index.toNat = k := hsynced.index.trans hg.counted
    exact (hsynced.continued (hidx ▸ hn)).trans
      (ih hsynced.refs (hsynced.gapless hg) (hn.trans (Nat.le_succ k)) hrest)

/-- Mints of later blocks do not count towards what was minted before a block. -/
theorem Continued.mintedWhere_eq (h : Continued b.toNat s s') {q q' : MintTx → Bool}
    (hq : ∀ m ∈ s.mintTxs.rows, q' m = q m)
    (hearlier : ∀ m, q' m = true → m.getBlockIndex < b) : mintedWhere q' s' = mintedWhere q s := by
  obtain ⟨ms,hm,hms⟩ := h.mints
  have hnone : ms.filter q' = [] := by
    refine List.filter_eq_nil_iff.mpr fun m hmem hqm => ?_
    have hlt := UInt64.lt_iff_toNat_lt.mp (hearlier m hqm)
    exact absurd (hms m hmem) (not_le.mpr hlt)
  rw [mintedWhere, mintedWhere, hm, List.filter_append, hnone, List.append_nil, List.filter_congr hq]

theorem MintConfig.mintedBefore_continued (c : MintConfig) (h : Continued b.toNat s s') :
    c.mintedBefore b s' = c.mintedBefore b s := by
  refine h.mintedWhere_eq (fun m _ => rfl) fun m hm => ?_
  simp only [MintConfig.mintedEarlier, Bool.and_eq_true, decide_eq_true_eq] at hm
  exact hm.1

/-- A mint that is there is not attributed to a config that is added. -/
theorem MintConfigTx.mintedBefore_continued (t : MintConfigTx) (hr : ConfigRefs s)
    (h : Continued b.toNat s s') : t.mintedBefore b s' = t.mintedBefore b s := by
  obtain ⟨cs,hcs⟩ := h.configs
  refine h.mintedWhere_eq (fun m hm => ?_) fun m hm => ?_
  -- no mint that is stored already refers to a config that comes later
  · have hnew : (cs.filter fun c => decide (c.mintConfigTxId = t.id.getD 0)).any
        (fun c => c.mintedEarlier b m) = false := by
      refine List.any_eq_false.mpr fun c hc hearlier => ?_
      simp only [MintConfig.mintedEarlier, Bool.and_eq_true, decide_eq_true_eq] at hearlier
      have hmem := (List.mem_filter.mp hc).1
      have hid : c.id = some (key c) := s'.mintConfigs.keyed c (by
        rw [← hcs]
        exact List.mem_append_right _ hmem)
      obtain ⟨c₀,hc₀⟩ := hr.ofMint m hm _ (hearlier.2.trans hid)
      obtain ⟨hold,hid₀⟩ := (Table.find_eq_some _ _ _).mp hc₀
      exact Table.id_ne_of_append hcs.symm hold hmem (hid₀.trans hid.symm)
    simp only [MintConfigTx.configs, MintConfig.getByMintConfigTxId, ← hcs, List.filter_append,
      List.any_append, hnew, Bool.or_false]
  · obtain ⟨c,-,hearlier⟩ := List.any_eq_true.mp hm
    simp only [MintConfig.mintedEarlier, Bool.and_eq_true, decide_eq_true_eq] at hearlier
    exact hearlier.1

/-! ### Runs -/

/-- Before block `b` the totals of the mint config tx and of its configs are exact, and the totals of
the configs add up to the shared one. -/
structure TotalsExact (t : MintConfigTx) (b : UInt64) (s : Db) : Prop where
  shared : (t.getTotalMintedBeforeBlock b s).toNat = t.mintedBefore b s
  each : ∀ c ∈ t.configs s, (c.getTotalMintedBeforeBlock b s).toNat = c.mintedBefore b s
  sum : t.configTotals b s = (t.getTotalMintedBeforeBlock b s).toNat

theorem totalsExact (hr : ConfigRefs s) (hafter : MintsAfterConfigs s)
    (ht : t ∈ s.mintConfigTxs.rows) (ht63 : t.getBlockIndex.toNat < 2^63) (hb : b.toNat < 2^63)
    (hlt : t.mintedBefore b s < 2^64) : TotalsExact t b s := by
  have hshared := MintConfigTx.total_exact hr hafter ht ht63 hb hlt
  have heach : ∀ c ∈ t.configs s,
      (c.getTotalMintedBeforeBlock b s).toNat = c.mintedBefore b s := fun c hc =>
    MintConfig.total_exact hr hafter ht ht63 hb ((mem_configs ht).mp hc)
      ((MintConfig.mintedBefore_le ht ((mem_configs ht).mp hc)).trans_lt hlt)
  refine ⟨hshared,heach,?_⟩
  rw [hshared, ← sum_mintedBefore, MintConfigTx.configTotals]
  exact congrArg List.sum (List.map_congr_left heach)

/-- Before block `b` no total is above what it is before block `b'`. -/
structure TotalsLe (t : MintConfigTx) (b b' : UInt64) (s : Db) : Prop where
  shared : t.getTotalMintedBeforeBlock b s ≤ t.getTotalMintedBeforeBlock b' s
  each : ∀ c ∈ t.configs s, c.getTotalMintedBeforeBlock b s ≤ c.getTotalMintedBeforeBlock b' s
  sum : t.configTotals b s ≤ t.configTotals b' s

theorem TotalsExact.le {b' : UInt64} (h' : TotalsExact t b' s) (h : TotalsExact t b s)
    (hle : b' ≤ b) : TotalsLe t b' b s := by
  have hshared : (t.getTotalMintedBeforeBlock b' s).toNat ≤ (t.getTotalMintedBeforeBlock b s).toNat := by
    rw [h'.shared, h.shared]
    exact t.mintedBefore_mono hle
  refine ⟨UInt64.le_iff_toNat_le.mpr hshared,fun c hc => UInt64.le_iff_toNat_le.mpr ?_,?_⟩
  · rw [h'.each c hc, h.each c hc]
    exact c.mintedBefore_mono hle
  · rwa [h'.sum, h.sum]

/-- The totals before block `b` are the same in both databases. -/
structure TotalsKept (t : MintConfigTx) (b : UInt64) (s s' : Db) : Prop where
  shared : t.getTotalMintedBeforeBlock b s' = t.getTotalMintedBeforeBlock b s
  each : ∀ c ∈ t.configs s, c.getTotalMintedBeforeBlock b s' = c.getTotalMintedBeforeBlock b s
  sum : t.configTotals b s' = t.configTotals b s

theorem TotalsExact.kept (h : TotalsExact t b s) (h' : TotalsExact t b s') (hr : ConfigRefs s)
    (hc : Continued b.toNat s s') : TotalsKept t b s s' := by
  have hshared : t.getTotalMintedBeforeBlock b s' = t.getTotalMintedBeforeBlock b s := by
    rw [← UInt64.toNat_inj, h'.shared, h.shared, t.mintedBefore_continued hr hc]
  refine ⟨hshared,fun c hmem => ?_,by rw [h'.sum, h.sum, hshared]⟩
  have hmem' : c ∈ t.configs s' := by
    obtain ⟨hrow,howned⟩ := List.mem_filter.mp hmem
    exact List.mem_filter.mpr ⟨hc.configs.subset hrow,howned⟩
  rw [← UInt64.toNat_inj, h'.each c hmem', h.each c hmem, c.mintedBefore_continued hc]

theorem syncBlocks_mintsAfterConfigs {blocks : List BlockData}
    (h : (syncBlocks ext blocks).Returns initialDb () s) :
    ConfigRefs s ∧ Gapless blocks.length s ∧ MintsAfterConfigs s := by
  refine syncBlocks_induction (I := fun _ s => MintsAfterConfigs s) ?_ ?_ h
  · simp [MintsAfterConfigs, initialDb_eq, Db.empty, Table.empty]
  · intro before blk s data s' _ _ hr hg hafter _ hsynced
    exact hsynced.mintsAfterConfigs hr hg hafter

/-- The totals before a block are exact, the configs' totals add up to the shared one, the totals do
not decrease with the block, and the block itself and later ones do not change them. -/
theorem syncBlocks_mint_totals (ext : Externals) (blocks : List BlockData) (s : Db)
    (h : (syncBlocks ext blocks).Returns initialDb () s) (t : MintConfigTx)
    (ht : t ∈ s.mintConfigTxs.rows) (ht63 : t.getBlockIndex.toNat < 2^63) (b : UInt64)
    (hb : b.toNat < 2^63) (hlt : t.mintedBefore b s < 2^64) :
    TotalsExact t b s ∧
    (∀ m ∈ s.mintTxs.rows, ∀ c ∈ t.configs s, m.mintConfigId = c.id →
      t.blockIndex < m.blockIndex) ∧
    (∀ b' ≤ b, TotalsLe t b' b s) ∧
    ∀ more s', b.toNat ≤ blocks.length →
      (syncBlocks ext (blocks ++ more)).Returns initialDb () s' → TotalsKept t b s s' := by
  obtain ⟨hr,hg,hafter⟩ := syncBlocks_mintsAfterConfigs h
  have hexact := totalsExact hr hafter ht ht63 hb hlt
  refine ⟨hexact,fun m hm c hc hid => ?_,fun b' hle => ?_,fun more s' hn h' => ?_⟩
  · exact (hafter m hm _ (((mem_configs ht).mp hc).mintWithConfig hid)).1
  -- a smaller bound sums fewer mints, so it does not overflow either
  · have hb' : b'.toNat < 2^63 := (UInt64.le_iff_toNat_le.mp hle).trans_lt hb
    exact (totalsExact hr hafter ht ht63 hb' ((t.mintedBefore_mono hle).trans_lt hlt)).le hexact hle
  · obtain ⟨s₁,hs₁,hmore⟩ := (Program.returns_forEach_append _ _ _ _ _ _).mp h'
    obtain ⟨-,rfl⟩ := h.unique hs₁
    have hcont := continued_of_syncBlocks more hr hg hn hmore
    obtain ⟨hr',-,hafter'⟩ := syncBlocks_mintsAfterConfigs h'
    refine hexact.kept (totalsExact hr' hafter' (hcont.configTxs.subset ht) ht63 hb ?_) hr hcont
    rwa [t.mintedBefore_continued hr hcont]

theorem mintBlocks_mint_totals :
    let s := (syncBlocks Reference.externals (mintBlocks [(0x11,4),(0x12,6)]) initialDb).state
    ∃ t ∈ s.mintConfigTxs.rows, TotalsExact t 2 s ∧
      (∀ m ∈ s.mintTxs.rows, ∀ c ∈ t.configs s, m.mintConfigId = c.id →
        t.blockIndex < m.blockIndex) ∧
      (∀ b' ≤ 2, TotalsLe t b' 2 s) ∧
      ∀ more s', 2 ≤ (mintBlocks [(0x11,4),(0x12,6)]).length →
        (syncBlocks Reference.externals (mintBlocks [(0x11,4),(0x12,6)] ++ more)).Returns
          initialDb () s' → TotalsKept t 2 s s' := by
  have hfacts : (syncBlocks Reference.externals (mintBlocks [(0x11,4),(0x12,6)])
        initialDb).outcome.isOk = true ∧
      ((syncBlocks Reference.externals (mintBlocks [(0x11,4),(0x12,6)])
        initialDb).state.mintConfigTxs.rows.any fun t => decide (t.getBlockIndex.toNat < 2^63 ∧
          t.mintedBefore 2 (syncBlocks Reference.externals (mintBlocks [(0x11,4),(0x12,6)])
            initialDb).state < 2^64)) = true := by
    decide +kernel
  obtain ⟨t,ht,hsmall⟩ := List.any_eq_true.mp hfacts.2
  obtain ⟨ht63,hlt⟩ := of_decide_eq_true hsmall
  exact ⟨t,ht,syncBlocks_mint_totals Reference.externals (mintBlocks [(0x11,4),(0x12,6)]) _
    (Program.returns_of_isOk hfacts.1) t ht ht63 2 (by decide) hlt⟩

end ReserveAuditor
