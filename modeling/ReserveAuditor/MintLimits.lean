import ReserveAuditor.Replay

/-! The limits of mint configs and of mint config txs. Each mint is checked on its own, against
what earlier blocks minted, so the mints of one block can exceed a limit together. -/
namespace ReserveAuditor
open Txn Relational

/-! ### What was minted -/

/-- The sum of the amounts of the mints that `q` selects. -/
def mintedWhere (q : MintTx → Bool) (s : Db) : ℕ :=
  ((s.mintTxs.rows.filter q).map fun m => m.getAmount.toNat).sum

/-- The sum over the mints attributed to the config. -/
def MintConfig.minted (c : MintConfig) (s : Db) : ℕ :=
  mintedWhere (fun m => decide (m.mintConfigId = c.id)) s

/-- The sum over the mints attributed to any config of the mint config tx. -/
def MintConfigTx.minted (t : MintConfigTx) (s : Db) : ℕ :=
  mintedWhere (fun m => s.mintConfigs.rows.any fun c =>
    decide (m.mintConfigId = c.id ∧ t.id = some c.mintConfigTxId)) s

/-- No config and no mint config tx minted more than its limit, and the mints that were left
without a config are counted. -/
structure LimitsEnforced (s : Db) : Prop where
  configs : ∀ c ∈ s.mintConfigs.rows, c.minted s ≤ c.getMintLimit.toNat
  configTxs : ∀ t ∈ s.mintConfigTxs.rows, t.minted s ≤ t.getTotalMintLimit.toNat
  unattributed : Counters.get s .numMintTxsWithoutMatchingMintConfig = unattributed s.mintTxs.rows

/-- The sum over the mints whose config and mint config tx `owner` selects. -/
def mintedBy (owner : MintConfig → MintConfigTx → Bool) (s : Db) : ℕ :=
  mintedWhere (fun m => (mintWithConfig s m).any fun p => owner p.2.1 p.2.2) s

def MintConfig.owner (r : MintConfig) : MintConfig → MintConfigTx → Bool :=
  fun c _ => decide (c.id = some (r.id.getD 0))

def MintConfigTx.owner (r : MintConfigTx) : MintConfig → MintConfigTx → Bool :=
  fun _ t => decide (t.id = some (r.id.getD 0))

variable {ext : Externals} {s s' : Db} {b : BlockData} {data : SyncBlockData}

/-- A config and the mint config tx that it belongs to are stored. -/
structure Joined (s : Db) (c : MintConfig) (t : MintConfigTx) : Prop where
  config : c ∈ s.mintConfigs.rows
  configTx : t ∈ s.mintConfigTxs.rows
  belongs : t.id = some c.mintConfigTxId

theorem Joined.config_eq {c c' : MintConfig} {t : MintConfigTx} (h : Joined s c t)
    (hc' : c' ∈ s.mintConfigs.rows) : c'.owner c t = true ↔ c = c' := by
  have hid : c'.id = some (key c') := s.mintConfigs.keyed c' hc'
  simp only [MintConfig.owner, hid, Option.getD_some, decide_eq_true_eq]
  rw [← hid]
  exact ⟨s.mintConfigs.eq_of_id_eq h.config hc',fun he => by rw [he]⟩

theorem Joined.configTx_eq {c : MintConfig} {t t' : MintConfigTx} (h : Joined s c t)
    (ht' : t' ∈ s.mintConfigTxs.rows) : t'.owner c t = true ↔ t = t' := by
  have hid : t'.id = some (key t') := s.mintConfigTxs.keyed t' ht'
  simp only [MintConfigTx.owner, hid, Option.getD_some, decide_eq_true_eq]
  rw [← hid]
  exact ⟨s.mintConfigTxs.eq_of_id_eq h.configTx ht',fun he => by rw [he]⟩

/-- The mint config tx is the only one that a config belongs to. -/
theorem Joined.unique {c : MintConfig} {t t' : MintConfigTx} (h : Joined s c t)
    (h' : Joined s c t') : t = t' :=
  s.mintConfigTxs.eq_of_id_eq h.configTx h'.configTx (h.belongs.trans h'.belongs.symm)

/-- A mint with a config has a join. -/
theorem ConfigRefs.join (hr : ConfigRefs s) {m : MintTx} (hm : m ∈ s.mintTxs.rows) :
    (m.mintConfigId = none ∧ mintWithConfig s m = none) ∨
    ∃ c t, mintWithConfig s m = some (m,c,t) ∧ m.mintConfigId = c.id ∧ Joined s c t := by
  cases hn : m.mintConfigId with
  | none => exact Or.inl ⟨rfl,by simp [mintWithConfig, hn]⟩
  | some n =>
    obtain ⟨c,hc⟩ := hr.ofMint m hm n hn
    obtain ⟨hcm,hcid⟩ := (Table.find_eq_some _ _ _).mp hc
    obtain ⟨t,ht⟩ := hr.ofConfig c hcm
    obtain ⟨htm,htid⟩ := (Table.find_eq_some _ _ _).mp ht
    refine Or.inr ⟨c,t,?_,hcid.symm,⟨hcm,htm,htid⟩⟩
    exact (mintWithConfig_eq_some s m _).mpr ⟨rfl,n,hn,hc,ht⟩

theorem mintedWhere_congr {p q : MintTx → Bool} (h : ∀ m ∈ s.mintTxs.rows, p m = q m) :
    mintedWhere p s = mintedWhere q s := by
  rw [mintedWhere, mintedWhere, List.filter_congr h]

theorem mintedBy_config (hr : ConfigRefs s) {c : MintConfig} (hc : c ∈ s.mintConfigs.rows) :
    mintedBy c.owner s = c.minted s := by
  refine mintedWhere_congr fun m hm => ?_
  have hid : c.id = some (key c) := s.mintConfigs.keyed c hc
  rcases hr.join hm with ⟨hnone,hjoin⟩ | ⟨c',t,hjoin,hid',hj⟩
  · simp [hnone, hjoin, hid]
  · simp [hjoin, hid', MintConfig.owner, hid]

theorem mintedBy_configTx (hr : ConfigRefs s) {t : MintConfigTx} (ht : t ∈ s.mintConfigTxs.rows) :
    mintedBy t.owner s = t.minted s := by
  refine mintedWhere_congr fun m hm => ?_
  rcases hr.join hm with ⟨hnone,hjoin⟩ | ⟨c',t',hjoin,hid',hj⟩
  · have hsome : ∀ c ∈ s.mintConfigs.rows, none ≠ c.id := by
      intro c hc
      rw [show c.id = some (key c) from s.mintConfigs.keyed c hc]
      simp
    -- a mint without a config counts for neither sum
    simpa [hnone, hjoin] using fun c hc he => absurd he (hsome c hc)
  -- the mint's config belongs to `t` just when its transaction is `t`
  · rw [hjoin, Option.any_some, Bool.eq_iff_iff, hj.configTx_eq ht]
    simp only [List.any_eq_true, decide_eq_true_eq]
    constructor
    · rintro rfl
      exact ⟨c',hj.config,hid',hj.belongs⟩
    · rintro ⟨c,hc,hid,hb⟩
      obtain rfl := s.mintConfigs.eq_of_id_eq hj.config hc (hid'.symm.trans hid)
      exact s.mintConfigTxs.eq_of_id_eq hj.configTx ht (hj.belongs.trans hb.symm)

/-! ### The totals that the lookup reads -/

/-- Each mint is of a later block than the mint config tx it is attributed to. -/
def MintsAfterConfigs (s : Db) : Prop :=
  ∀ m ∈ s.mintTxs.rows, ∀ p, mintWithConfig s m = some p →
    p.2.2.blockIndex < m.blockIndex ∧ p.2.2.getBlockIndex.toNat ≤ m.getBlockIndex.toNat

theorem toNat_sum (l : List UInt64) : l.sum.toNat = (l.map UInt64.toNat).sum % 2^64 := by
  induction l with
  | nil => rfl
  | cons a l ih => rw [List.sum_cons, UInt64.toNat_add, ih, List.map_cons, List.sum_cons, Nat.add_mod_mod]

theorem filter_filterMap_any {α β : Type} (f : α → Option β) (p : β → Bool) (l : List α) :
    (l.filterMap f).filter p = (l.filter fun a => (f a).any p).filterMap f := by
  induction l with
  | nil => rfl
  | cons a l ih =>
    cases hf : f a with
    | none => simp [hf, ih]
    | some y => cases hp : p y <;> simp [hf, hp, ih]

/-- The total before a block is the sum over the mints that the query selects, if it fits. -/
theorem totalMintedBeforeBlock_eq_mintedWhere {owner : MintConfig → MintConfigTx → Bool}
    {idx : UInt64} {q : MintTx → Bool}
    (hq : ∀ m ∈ s.mintTxs.rows, (mintWithConfig s m).any (fun p =>
      decide (p.2.2.blockIndex < m.blockIndex) && owner p.2.1 p.2.2 &&
        decide (m.blockIndex < idx.toInt64)) = q m)
    (hlt : mintedWhere q s < 2^64) :
    (totalMintedBeforeBlock owner idx s).toNat = mintedWhere q s := by
  -- the query selects pairs of mint and config, `q` selects the mints
  have hfilter : (s.mintTxs.rows.filter fun m => (mintWithConfig s m).any fun p =>
      decide (p.2.2.blockIndex < p.1.blockIndex) && owner p.2.1 p.2.2 &&
        decide (p.1.blockIndex < idx.toInt64)) = s.mintTxs.rows.filter q := by
    refine List.filter_congr fun m hm => ?_
    rw [← hq m hm]
    cases hj : mintWithConfig s m with
    | none => simp only [Option.any_none]
    | some p =>
      have hp := ((mintWithConfig_eq_some s m p).mp hj).1
      simp only [Option.any_some, hp]
  have hamounts (l : List MintTx) (hl : ∀ m ∈ l, (mintWithConfig s m).isSome) :
      (l.filterMap (mintWithConfig s)).map (fun p => p.1.getAmount.toNat) =
        l.map fun m => m.getAmount.toNat := by
    induction l with
    | nil => rfl
    | cons m l ih =>
      obtain ⟨p,hp⟩ := Option.isSome_iff_exists.mp (hl m List.mem_cons_self)
      have hm := ((mintWithConfig_eq_some s m p).mp hp).1
      simp [hp, hm, ih fun x hx => hl x (List.mem_cons_of_mem m hx)]
  have hsum : ((((mintsWithConfig s).filter fun p => decide (p.2.2.blockIndex < p.1.blockIndex) &&
      owner p.2.1 p.2.2 && decide (p.1.blockIndex < idx.toInt64)).map fun p => p.1.getAmount).map
        UInt64.toNat).sum = mintedWhere q s := by
    rw [mintsWithConfig, filter_filterMap_any, hfilter, List.map_map]
    refine congrArg List.sum (hamounts _ fun m hm => ?_)
    obtain ⟨hmem,hqm⟩ := List.mem_filter.mp hm
    rw [← hq m hmem] at hqm
    cases hj : mintWithConfig s m with
    | none => simp [hj] at hqm
    | some p => rfl
  -- below 2^64 the sum of the words does not wrap
  rw [totalMintedBeforeBlock, toNat_sum, hsum, Nat.mod_eq_of_lt hlt]

/-- The total before a block is what was minted, where the mints are of earlier blocks and their
sum fits. -/
theorem totalMintedBeforeBlock_toNat {owner : MintConfig → MintConfigTx → Bool} {idx : UInt64}
    (hbefore : ∀ m ∈ s.mintTxs.rows, ∀ p, mintWithConfig s m = some p → owner p.2.1 p.2.2 = true →
      p.2.2.blockIndex < m.blockIndex ∧ m.blockIndex < idx.toInt64)
    (hlt : mintedBy owner s < 2^64) :
    (totalMintedBeforeBlock owner idx s).toNat = mintedBy owner s := by
  rw [mintedBy] at hlt ⊢
  refine totalMintedBeforeBlock_eq_mintedWhere (fun m hm => ?_) hlt
  cases hj : mintWithConfig s m with
  | none => rfl
  | some p =>
    rw [Option.any_some, Option.any_some]
    -- for the owner's mints both bounds on the block hold anyway
    cases ho : owner p.2.1 p.2.2 with
    | false => simp
    | true =>
      obtain ⟨h₁,h₂⟩ := hbefore m hm p hj ho
      simp [h₁, h₂]

/-! ### Mints that a config takes -/

/-- The config signed the mint. -/
def MintConfig.signed (ext : Externals) (c : MintConfig) (tx : CoreMintTx) : Bool :=
  match c.decode ext with
  | .ok core => (ext.verify core.signerSet (ext.mintTxPrefixHash tx.txPrefix) tx.signature).isOk
  | .error _ => false

/-- There is room for the amount under a limit. -/
def HasRoom (limit total amount : UInt64) : Prop := total.toNat+amount.toNat ≤ limit.toNat

instance (limit total amount : UInt64) : Decidable (HasRoom limit total amount) :=
  inferInstanceAs (Decidable (_ ≤ _))

/-- The config that takes a mint and the mint config tx it belongs to: of the mint config tx in
force, where that has room for the mint, the first config that signed it and has room for it. -/
def takenBy (ext : Externals) (blockIndex : UInt64) (tx : CoreMintTx) (s : Db) :
    Option (MintConfig × MintConfigTx) := do
  let t ← MintConfigTx.mostRecentForToken blockIndex tx.txPrefix.tokenId s
  guard (HasRoom t.getTotalMintLimit (t.getTotalMintedBeforeBlock blockIndex s) tx.txPrefix.amount)
  let c ← (MintConfig.getByMintConfigTxId (t.id.getD 0) s).find? fun c => c.signed ext tx &&
    decide (HasRoom c.getMintLimit (c.getTotalMintedBeforeBlock blockIndex s) tx.txPrefix.amount)
  pure (c,t)

theorem hasRoom_iff_checkedAdd (limit total amount : UInt64) :
    HasRoom limit total amount ↔ ∃ n, checkedAdd total amount = some n ∧ n ≤ limit := by
  have hlimit := limit.toNat_lt
  unfold HasRoom checkedAdd
  split
  · rename_i hlt
    simp only [Option.some.injEq, exists_eq_left', UInt64.le_iff_toNat_le, UInt64.toNat_add,
      Nat.mod_eq_of_lt hlt]
  · simp only [reduceCtorEq, false_and, exists_false, iff_false]
    omega

theorem findMintConfig_eq_find {idx : UInt64} {tx : CoreMintTx} {cfg : Option MintConfig}
    (cs : List MintConfig) (h : findMintConfig ext idx tx s cs = .ok cfg) :
    (cs.find? fun c => c.signed ext tx && decide (HasRoom c.getMintLimit
      (c.getTotalMintedBeforeBlock idx s) tx.txPrefix.amount)) = cfg := by
  induction cs with
  | nil => simpa [findMintConfig] using h
  | cons c cs ih =>
    rw [findMintConfig] at h
    cases hd : c.decode ext with
    | error e => simp [hd, bind, Except.bind] at h
    | ok core =>
      simp only [hd, bind, Except.bind] at h
      -- a config whose signers did not sign is passed over
      cases hv : ext.verify core.signerSet (ext.mintTxPrefixHash tx.txPrefix) tx.signature with
      | error e =>
        rw [hv] at h
        simpa [MintConfig.signed, hd, hv, Except.isOk, Except.toBool] using ih h
      | ok signers =>
        have hsigned : c.signed ext tx = true := by
          simp [MintConfig.signed, hd, hv, Except.isOk, Except.toBool]
        simp only [hv] at h
        rw [List.find?_cons, hsigned, Bool.true_and]
        split at h
        · rename_i n hn
          split at h
          · rename_i hle
            have hroom := (hasRoom_iff_checkedAdd _ _ _).mpr ⟨n,hn,hle⟩
            simpa [hroom] using h
          · rename_i hle
            have hroom : ¬HasRoom c.getMintLimit (c.getTotalMintedBeforeBlock idx s)
                tx.txPrefix.amount := by
              rw [hasRoom_iff_checkedAdd]
              rintro ⟨n',hn',hle'⟩
              obtain rfl := Option.some.inj (hn.symm.trans hn')
              exact hle hle'
            simpa [hroom] using ih h
        · rename_i hn
          -- the checked addition overflowed, which counts as no room
          have hroom : ¬HasRoom c.getMintLimit (c.getTotalMintedBeforeBlock idx s)
              tx.txPrefix.amount := by
            rw [hasRoom_iff_checkedAdd, hn]
            simp
          simpa [hroom] using ih h

/-- The lookup finds the config that takes the mint. -/
theorem lookupMintConfig_eq_takenBy {idx : UInt64} {tx : CoreMintTx} {cfg : Option MintConfig}
    (h : lookupMintConfig ext idx tx s = .ok cfg) : (takenBy ext idx tx s).map Prod.fst = cfg := by
  unfold lookupMintConfig at h
  unfold takenBy
  cases ht : MintConfigTx.mostRecentForToken idx tx.txPrefix.tokenId s with
  | none => simpa [ht] using h
  | some t =>
    simp only [ht] at h
    by_cases hroom : HasRoom t.getTotalMintLimit (t.getTotalMintedBeforeBlock idx s)
      tx.txPrefix.amount
    · obtain ⟨n,hn,hle⟩ := (hasRoom_iff_checkedAdd _ _ _).mp hroom
      rw [hn] at h
      simp only [if_neg (UInt64.not_lt.mpr hle)] at h
      simp [guard, hroom, findMintConfig_eq_find _ h]
    -- without room under the total limit no config is looked at
    · have hnone : cfg = none := by
        cases hn : checkedAdd (t.getTotalMintedBeforeBlock idx s) tx.txPrefix.amount with
        | none => simpa [hn] using h.symm
        | some n =>
          have hgt : n > t.getTotalMintLimit := by
            by_contra hle
            exact hroom ((hasRoom_iff_checkedAdd _ _ _).mpr ⟨n,hn,UInt64.not_lt.mp hle⟩)
          simpa [hn, hgt] using h.symm
      simp [guard, hroom, hnone]

theorem takenBy_eq_some {idx : UInt64} {tx : CoreMintTx} {c : MintConfig} {t : MintConfigTx}
    (h : takenBy ext idx tx s = some (c,t)) : Joined s c t ∧ t.blockIndex < idx.toInt64 ∧
      HasRoom c.getMintLimit (c.getTotalMintedBeforeBlock idx s) tx.txPrefix.amount ∧
      HasRoom t.getTotalMintLimit (t.getTotalMintedBeforeBlock idx s) tx.txPrefix.amount := by
  simp only [takenBy, Option.bind_eq_bind, Option.bind_eq_some_iff, Option.pure_def,
    Option.some.injEq, Prod.mk.injEq] at h
  obtain ⟨t',ht,_,hguard,c',hc,rfl,rfl⟩ := h
  have hroom : HasRoom t'.getTotalMintLimit (t'.getTotalMintedBeforeBlock idx s)
      tx.txPrefix.amount := by
    by_contra hno
    simp [guard, hno] at hguard
  obtain ⟨htm,-,hlt,-⟩ := mostRecentForToken_eq_some ht
  have hid : t'.id = some (key t') := s.mintConfigTxs.keyed t' htm
  -- the config that was found passed the check, and is one of the transaction's own
  have hfound := List.find?_some hc
  obtain ⟨hcm,hown⟩ := List.mem_filter.mp (List.mem_of_find?_eq_some hc)
  simp only [Bool.and_eq_true, decide_eq_true_eq] at hfound
  simp only [hid, Option.getD_some, decide_eq_true_eq] at hown
  exact ⟨⟨hcm,htm,by rw [hid, hown]⟩,hlt,hfound.2,hroom⟩

/-! ### The mints of a block -/

/-- The mints of the block that go to what `owner` selects. -/
def BlockData.takers (ext : Externals) (b : BlockData) (s : Db)
    (owner : MintConfig → MintConfigTx → Bool) : List CoreMintTx :=
  b.contents.mintTxs.filter fun tx =>
    (takenBy ext b.block.index tx s).any fun p => owner p.1 p.2

/-- Where several mints of the block go to what `owner` selects, the limit has room for all of
them together. -/
def BlockData.FitsTogether (ext : Externals) (b : BlockData) (s : Db)
    (owner : MintConfig → MintConfigTx → Bool) (limit total : UInt64) : Prop :=
  2 ≤ (b.takers ext s owner).length →
    total.toNat+((b.takers ext s owner).map fun tx => tx.txPrefix.amount.toNat).sum ≤ limit.toNat

/-- The mints of the block that go to the same config, or to the same mint config tx, fit under
its limit together with what earlier blocks minted. -/
structure BlockData.FitsLimits (ext : Externals) (b : BlockData) (s : Db) : Prop where
  configs : ∀ c ∈ s.mintConfigs.rows, b.FitsTogether ext s c.owner c.getMintLimit
    (c.getTotalMintedBeforeBlock b.block.index s)
  configTxs : ∀ t ∈ s.mintConfigTxs.rows, b.FitsTogether ext s t.owner t.getTotalMintLimit
    (t.getTotalMintedBeforeBlock b.block.index s)

theorem Joined.grown {i : Int64} {c : MintConfig} {t : MintConfigTx} (hg : Grown i s s')
    (h : Joined s c t) : Joined s' c t := by
  obtain ⟨⟨ts,ht,-⟩,⟨cs,hc,-⟩,-⟩ := hg
  refine ⟨?_,?_,h.belongs⟩
  · rw [hc]
    exact List.mem_append_left cs h.config
  · rw [ht]
    exact List.mem_append_left ts h.configTx

theorem Joined.mintWithConfig {c : MintConfig} {t : MintConfigTx} (h : Joined s c t) {m : MintTx}
    (hm : m.mintConfigId = c.id) : ReserveAuditor.mintWithConfig s m = some (m,c,t) := by
  have hid : c.id = some (key c) := s.mintConfigs.keyed c h.config
  refine (mintWithConfig_eq_some s m _).mpr ⟨rfl,key c,hm.trans hid,?_,?_⟩
  · exact (Table.find_eq_some _ _ _).mpr ⟨h.config,hid⟩
  · exact (Table.find_eq_some _ _ _).mpr ⟨h.configTx,h.belongs⟩

/-- A mint of the block is attributed to the config that takes it. -/
theorem MintStored.join {idx : UInt64} {ts : Option DateTime} {tx : CoreMintTx} {m : MintTx}
    (hg : Grown idx.toInt64 s s') (h : MintStored ext idx ts s tx m) :
    mintWithConfig s' m = (takenBy ext idx tx s).map fun p => (m,p) := by
  obtain ⟨cfg,row₀,n,hl,hrow,rfl⟩ := h.stored
  obtain ⟨-,-,-,-,-,-,hid⟩ := fromCoreMintTx_fields hrow
  have hid' : (Record.withId row₀ n : MintTx).mintConfigId = cfg.bind MintConfig.id := hid
  have htaken := lookupMintConfig_eq_takenBy hl
  cases hp : takenBy ext idx tx s with
  | none =>
    rw [hp, Option.map_none] at htaken
    rw [← htaken, Option.bind_none] at hid'
    simp [mintWithConfig, hid']
  | some p =>
    obtain ⟨c,t⟩ := p
    rw [hp, Option.map_some] at htaken
    rw [← htaken, Option.bind_some] at hid'
    -- config and transaction are still stored when the block is done
    exact ((takenBy_eq_some hp).1.grown hg).mintWithConfig hid'

/-- A block adds the mints that go to what `owner` selects. -/
theorem BlockSynced.mintedBy_eq (h : BlockSynced ext b s data s') (hr : ConfigRefs s)
    (owner : MintConfig → MintConfigTx → Bool) :
    mintedBy owner s' = mintedBy owner s+
      ((b.takers ext s owner).map fun tx => tx.txPrefix.amount.toNat).sum := by
  -- the mints of earlier blocks keep their configs
  have hold : (s.mintTxs.rows.filter fun m => (mintWithConfig s' m).any fun p => owner p.2.1 p.2.2) =
      s.mintTxs.rows.filter fun m => (mintWithConfig s m).any fun p => owner p.2.1 p.2.2 :=
    List.filter_congr fun m hm => by rw [mintWithConfig_grown hr h.grown hm]
  -- those of the block have the configs that their lookups took
  have hnew : (data.mintTxs.map fun m => if (mintWithConfig s' m).any (fun p => owner p.2.1 p.2.2)
        then m.getAmount.toNat else 0) =
      b.contents.mintTxs.map fun tx => if (takenBy ext b.block.index tx s).any
        (fun p => owner p.1 p.2) then tx.txPrefix.amount.toNat else 0 := by
    refine forall₂_map_eq h.mintsStored fun tx m hst => ?_
    have hamount : m.getAmount = tx.txPrefix.amount := by
      rw [MintTx.getAmount, hst.fields.2.2.1]
      rfl
    simp only [hst.join h.grown, hamount, Option.any_map]
  rw [mintedBy, mintedBy, mintedWhere, mintedWhere, h.mints,
    List.filter_append, List.map_append, List.sum_append, hold, BlockData.takers,
    sum_filter_map data.mintTxs, sum_filter_map b.contents.mintTxs, hnew]

theorem BlockSynced.mintsAfterConfigs {n : ℕ} (h : BlockSynced ext b s data s')
    (hr : ConfigRefs s) (hg : Gapless n s) (hi : MintsAfterConfigs s) : MintsAfterConfigs s' := by
  intro m hm p hp
  rw [h.mints] at hm
  rcases List.mem_append.mp hm with hm | hm
  · rw [mintWithConfig_grown hr h.grown hm] at hp
    exact hi m hm p hp
  · obtain ⟨tx,-,hst⟩ := forall₂_mem_right h.mintsStored hm
    rw [hst.join h.grown] at hp
    obtain ⟨⟨c,t⟩,hq,rfl⟩ := Option.map_eq_some_iff.mp hp
    obtain ⟨hj,hlt,-⟩ := takenBy_eq_some hq
    -- the lookup asks for a transaction of an earlier block
    refine ⟨by rw [hst.fields.1]; exact hlt,?_⟩
    have hidx : b.block.index.toNat = n := h.index.trans hg.counted
    rw [h.mintIndex m hm, hidx]
    exact (hg.configTxs t hj.configTx).le

/-- Where a mint of the block goes to what `owner` selects, the total that the block is checked
against is what was minted. -/
theorem Gapless.total_eq {n : ℕ} (hg : Gapless n s) (hi : MintsAfterConfigs s) (hr : ConfigRefs s)
    {owner : MintConfig → MintConfigTx → Bool} {idx : UInt64} (hidx : idx.toNat = n)
    {t : MintConfigTx} (hlt : t.blockIndex < idx.toInt64)
    (hsame : ∀ c' t', Joined s c' t' → owner c' t' = true → t' = t)
    (hsum : mintedBy owner s < 2^64) :
    (totalMintedBeforeBlock owner idx s).toNat = mintedBy owner s := by
  refine totalMintedBeforeBlock_toNat (fun m hm p hp ho => ?_) hsum
  obtain ⟨hafter,hle⟩ := hi m hm p hp
  refine ⟨hafter,?_⟩
  rcases hr.join hm with ⟨-,hnone⟩ | ⟨c',t',hjoin,-,hj⟩
  · simp [hnone] at hp
  · obtain rfl := Option.some.inj (hjoin.symm.trans hp)
    obtain rfl := hsame c' t' hj ho
    -- between two bounds that are no negative words, comparing words is comparing numbers
    exact toInt64_lt_of_between hlt hle (by rw [hidx]; exact hg.mints m hm)

/-- A block keeps a limit exactly when its mints fit together. -/
theorem BlockSynced.mintedBy_le_iff {n : ℕ} (h : BlockSynced ext b s data s') (hr : ConfigRefs s)
    (hg : Gapless n s) (hi : MintsAfterConfigs s) {owner : MintConfig → MintConfigTx → Bool}
    {limit : UInt64} (hsame : ∀ c t c' t', Joined s c t → owner c t = true → Joined s c' t' →
      owner c' t' = true → t' = t)
    (hroom : ∀ tx c t, takenBy ext b.block.index tx s = some (c,t) → owner c t = true →
      HasRoom limit (totalMintedBeforeBlock owner b.block.index s) tx.txPrefix.amount)
    (hw : mintedBy owner s ≤ limit.toNat) :
    mintedBy owner s' ≤ limit.toNat ↔
      b.FitsTogether ext s owner limit (totalMintedBeforeBlock owner b.block.index s) := by
  rw [h.mintedBy_eq hr, BlockData.FitsTogether]
  have htaker : ∀ tx ∈ b.takers ext s owner,
      HasRoom limit (totalMintedBeforeBlock owner b.block.index s) tx.txPrefix.amount ∧
      (totalMintedBeforeBlock owner b.block.index s).toNat = mintedBy owner s := by
    intro tx htx
    obtain ⟨⟨c,t⟩,htaken,ho⟩ := (Option.any_eq_true _ _).mp (List.mem_filter.mp htx).2
    obtain ⟨hj,hlt,-⟩ := takenBy_eq_some htaken
    refine ⟨hroom tx c t htaken ho,?_⟩
    exact hg.total_eq hi hr (h.index.trans hg.counted) hlt (fun c' t' => hsame c t c' t' hj ho)
      (hw.trans_lt limit.toNat_lt)
  -- by the number of mints: none keeps the total, one was checked, more must fit together
  rcases htxs : b.takers ext s owner with _ | ⟨tx,_ | ⟨tx',rest⟩⟩
  · simpa using hw
  · obtain ⟨hone,htotal⟩ := htaker tx (by simp [htxs])
    rw [HasRoom, htotal] at hone
    simpa using hone
  · obtain ⟨-,htotal⟩ := htaker tx (by simp [htxs])
    simp [htotal]

/-- A config or a mint config tx that is new has no mints. -/
theorem BlockSynced.mintedBy_eq_zero (h : BlockSynced ext b s data s') (hr : ConfigRefs s)
    {owner : MintConfig → MintConfigTx → Bool}
    (hnone : ∀ c t, Joined s c t → owner c t = false) : mintedBy owner s' = 0 := by
  have hold : (s.mintTxs.rows.filter fun m =>
      (mintWithConfig s m).any fun p => owner p.2.1 p.2.2) = [] := by
    refine List.filter_eq_nil_iff.mpr fun m hm => ?_
    rcases hr.join hm with ⟨-,hjoin⟩ | ⟨c,t,hjoin,-,hj⟩
    · simp [hjoin]
    · simp [hjoin, hnone c t hj]
  -- a new owner was not there when the lookups ran
  have hnew : b.takers ext s owner = [] := by
    refine List.filter_eq_nil_iff.mpr fun tx _ => ?_
    cases htaken : takenBy ext b.block.index tx s with
    | none => simp
    | some p => simp [hnone p.1 p.2 (takenBy_eq_some htaken).1]
  rw [h.mintedBy_eq hr, hnew, mintedBy, mintedWhere, hold]
  rfl

/-- The limits of the rows of a table hold after a block exactly when they held before and the
mints of the block fit under them; rows that are added have no mints yet. -/
theorem BlockSynced.limits_iff {n : ℕ} (h : BlockSynced ext b s data s') (hr : ConfigRefs s)
    (hg : Gapless n s) (hi : MintsAfterConfigs s) {α : Type} {rows rows' new : List α}
    (owner : α → MintConfig → MintConfigTx → Bool) (limit : α → UInt64)
    (hrows : rows' = rows ++ new)
    (hsame : ∀ a ∈ rows, ∀ c t c' t', Joined s c t → owner a c t = true → Joined s c' t' →
      owner a c' t' = true → t' = t)
    (hroom : ∀ a ∈ rows, ∀ tx c t, takenBy ext b.block.index tx s = some (c,t) →
      owner a c t = true →
      HasRoom (limit a) (totalMintedBeforeBlock (owner a) b.block.index s) tx.txPrefix.amount)
    (hnew : ∀ a ∈ new, ∀ c t, Joined s c t → owner a c t = false) :
    (∀ a ∈ rows', mintedBy (owner a) s' ≤ (limit a).toNat) ↔
      (∀ a ∈ rows, mintedBy (owner a) s ≤ (limit a).toNat) ∧
      ∀ a ∈ rows, b.FitsTogether ext s (owner a) (limit a)
        (totalMintedBeforeBlock (owner a) b.block.index s) := by
  have hold (a : α) (ha : a ∈ rows) (hw : mintedBy (owner a) s ≤ (limit a).toNat) :=
    h.mintedBy_le_iff hr hg hi (hsame a ha) (hroom a ha) hw
  have hmem (a : α) (ha : a ∈ rows) : a ∈ rows' := by
    rw [hrows]
    exact List.mem_append_left new ha
  constructor
  · intro hw
    -- sums never shrink, so what holds after the block held before it
    have hw₀ (a : α) (ha : a ∈ rows) : mintedBy (owner a) s ≤ (limit a).toNat := by
      refine le_trans ?_ (hw a (hmem a ha))
      rw [h.mintedBy_eq hr]
      exact Nat.le_add_right _ _
    exact ⟨hw₀,fun a ha => (hold a ha (hw₀ a ha)).mp (hw a (hmem a ha))⟩
  · rintro ⟨hw,hfits⟩ a ha
    rw [hrows] at ha
    rcases List.mem_append.mp ha with ha | ha
    · exact (hold a ha (hw a ha)).mpr (hfits a ha)
    · rw [h.mintedBy_eq_zero hr (hnew a ha)]
      exact Nat.zero_le _

/-- The limits of the configs hold after a block when they held before and the mints of the block
that go to one config fit. -/
theorem BlockSynced.configLimits_iff {n : ℕ} (h : BlockSynced ext b s data s') (hr : ConfigRefs s)
    (hg : Gapless n s) (hi : MintsAfterConfigs s) :
    (∀ c ∈ s'.mintConfigs.rows, c.minted s' ≤ c.getMintLimit.toNat) ↔
      (∀ c ∈ s.mintConfigs.rows, c.minted s ≤ c.getMintLimit.toNat) ∧
      ∀ c ∈ s.mintConfigs.rows, b.FitsTogether ext s c.owner c.getMintLimit
        (c.getTotalMintedBeforeBlock b.block.index s) := by
  obtain ⟨cs,hcs,-⟩ := h.grown.configs
  have hminted (s : Db) (hr : ConfigRefs s) (c : MintConfig) (hc : c ∈ s.mintConfigs.rows) :
      mintedBy c.owner s ≤ c.getMintLimit.toNat ↔ c.minted s ≤ c.getMintLimit.toNat := by
    rw [mintedBy_config hr hc]
  rw [← forall₂_congr (hminted s' h.refs), ← forall₂_congr (hminted s hr)]
  refine h.limits_iff hr hg hi MintConfig.owner MintConfig.getMintLimit hcs ?_ ?_ ?_
  · intro c hc c₁ t₁ c₂ t₂ hj₁ ho₁ hj₂ ho₂
    obtain rfl := (hj₁.config_eq hc).mp ho₁
    obtain rfl := (hj₂.config_eq hc).mp ho₂
    exact hj₂.unique hj₁
  · intro c hc tx c' t htaken ho
    obtain ⟨hj,-,hroom,-⟩ := takenBy_eq_some htaken
    obtain rfl := (hj.config_eq hc).mp ho
    exact hroom
  · -- a config of the block itself belongs to no mint that is stored already
    intro c hc c' t hj
    have hid : c.id = some (key c) := s'.mintConfigs.keyed c (by
      rw [hcs]
      exact List.mem_append_right _ hc)
    have hne : c'.id ≠ c.id := Table.id_ne_of_append hcs hj.config hc
    simpa [MintConfig.owner, hid] using hne

/-- As above for the mint config txs and their total limits. -/
theorem BlockSynced.configTxLimits_iff {n : ℕ} (h : BlockSynced ext b s data s') (hr : ConfigRefs s)
    (hg : Gapless n s) (hi : MintsAfterConfigs s) :
    (∀ t ∈ s'.mintConfigTxs.rows, t.minted s' ≤ t.getTotalMintLimit.toNat) ↔
      (∀ t ∈ s.mintConfigTxs.rows, t.minted s ≤ t.getTotalMintLimit.toNat) ∧
      ∀ t ∈ s.mintConfigTxs.rows, b.FitsTogether ext s t.owner t.getTotalMintLimit
        (t.getTotalMintedBeforeBlock b.block.index s) := by
  obtain ⟨ts,hts,-⟩ := h.grown.txs
  have hminted (s : Db) (hr : ConfigRefs s) (t : MintConfigTx) (ht : t ∈ s.mintConfigTxs.rows) :
      mintedBy t.owner s ≤ t.getTotalMintLimit.toNat ↔ t.minted s ≤ t.getTotalMintLimit.toNat := by
    rw [mintedBy_configTx hr ht]
  rw [← forall₂_congr (hminted s' h.refs), ← forall₂_congr (hminted s hr)]
  refine h.limits_iff hr hg hi MintConfigTx.owner MintConfigTx.getTotalMintLimit hts ?_ ?_ ?_
  · intro t ht c₁ t₁ c₂ t₂ hj₁ ho₁ hj₂ ho₂
    rw [(hj₁.configTx_eq ht).mp ho₁, (hj₂.configTx_eq ht).mp ho₂]
  · intro t ht tx c t' htaken ho
    obtain ⟨hj,-,-,hroom⟩ := takenBy_eq_some htaken
    obtain rfl := (hj.configTx_eq ht).mp ho
    exact hroom
  · intro t ht c t' hj
    have hid : t.id = some (key t) := s'.mintConfigTxs.keyed t (by
      rw [hts]
      exact List.mem_append_right _ ht)
    have hne : t'.id ≠ t.id := Table.id_ne_of_append hts hj.configTx ht
    simpa [MintConfigTx.owner, hid] using hne

/-- The limits hold after a block exactly when they held before and the mints of the block fit. -/
theorem BlockSynced.limitsEnforced_iff {n : ℕ} (h : BlockSynced ext b s data s')
    (hr : ConfigRefs s) (hg : Gapless n s) (hi : MintsAfterConfigs s)
    (hcount : Counters.get s .numMintTxsWithoutMatchingMintConfig = unattributed s.mintTxs.rows) :
    LimitsEnforced s' ↔ LimitsEnforced s ∧ b.FitsLimits ext s := by
  have hconfigs := h.configLimits_iff hr hg hi
  have hconfigTxs := h.configTxLimits_iff hr hg hi
  constructor
  · rintro ⟨hc,ht,-⟩
    obtain ⟨hc,hcf⟩ := hconfigs.mp hc
    obtain ⟨ht,htf⟩ := hconfigTxs.mp ht
    exact ⟨⟨hc,ht,hcount⟩,hcf,htf⟩
  · rintro ⟨⟨hc,ht,-⟩,hcf,htf⟩
    exact ⟨hconfigs.mpr ⟨hc,hcf⟩,hconfigTxs.mpr ⟨ht,htf⟩,h.unattributed_eq hcount⟩

/-! ### Runs -/

/-- The limits hold exactly when each block fits under them in the database that the blocks
before it left. -/
theorem syncBlocks_limitsEnforced_iff (ext : Externals) (blocks : List BlockData) (s : Db)
    (h : (syncBlocks ext blocks).Returns initialDb () s) :
    LimitsEnforced s ↔ ∀ before b s₀, before ++ [b] <+: blocks →
      (syncBlocks ext before).Returns initialDb () s₀ → b.FitsLimits ext s₀ := by
  let fits (blocks : List BlockData) : Prop := ∀ before b s₀, before ++ [b] <+: blocks →
    (syncBlocks ext before).Returns initialDb () s₀ → b.FitsLimits ext s₀
  have hinit : LimitsEnforced initialDb := by
    constructor <;> simp [initialDb_eq, Db.empty, Table.empty, unattributed, Counters.get]
  refine (syncBlocks_induction (I := fun blocks s => MintsAfterConfigs s ∧
    Counters.get s .numMintTxsWithoutMatchingMintConfig = unattributed s.mintTxs.rows ∧
    (LimitsEnforced s ↔ fits blocks)) ?_ ?_ h).2.2.2.2
  · refine ⟨?_,hinit.unattributed,iff_of_true hinit fun before b s₀ hpre => ?_⟩
    · simp [MintsAfterConfigs, initialDb_eq, Db.empty, Table.empty]
    · simp at hpre
  · rintro before b s data s' - hs hr hg ⟨hafter,hcount,hiff⟩ - hsynced
    refine ⟨hsynced.mintsAfterConfigs hr hg hafter,hsynced.unattributed_eq hcount,?_⟩
    rw [hsynced.limitsEnforced_iff hr hg hafter hcount, hiff]
    constructor
    · rintro ⟨hbefore,hb⟩ pre x s₀ hpre hs₀
      -- the block is the last one, or one of those before it
      rcases List.prefix_concat_iff.mp hpre with heq | hpre
      · obtain ⟨rfl,hx⟩ := List.append_inj' heq rfl
        obtain rfl := List.singleton_inj.mp hx
        -- a run from the initial database ends in one state only
        rw [(hs₀.unique hs).2]
        exact hb
      · exact hbefore pre x s₀ hpre hs₀
    · intro hall
      exact ⟨fun pre x s₀ hpre => hall pre x s₀ (hpre.trans (List.prefix_append _ _)),
        hall before b s List.prefix_rfl hs⟩

/-- A config with a limit of 10, then a block with the mints given. -/
def mintBlocks (amounts : List (UInt8 × UInt64)) : List BlockData :=
  [Reference.blockOf 0 [Reference.configTxOf [1] 10 10] [] [],
    Reference.blockOf 1 [] (amounts.map fun p => Reference.mintFor p.1 p.2) []]

theorem mintBlocks_limits :
    LimitsEnforced (syncBlocks Reference.externals (mintBlocks [(0x11,4),(0x12,6)])
      initialDb).state ↔
    ∀ before b s₀, before ++ [b] <+: mintBlocks [(0x11,4),(0x12,6)] →
      (syncBlocks Reference.externals before).Returns initialDb () s₀ →
        b.FitsLimits Reference.externals s₀ :=
  syncBlocks_limitsEnforced_iff Reference.externals _ _ (Program.returns_of_isOk (by decide +kernel))

/-- The mints of 10 are both attributed to the config with a limit of 10. -/
theorem twoMints_state :
    (syncBlocks Reference.externals (mintBlocks [(0x11,10),(0x12,10)]) initialDb).outcome.isOk =
      true ∧
    ((syncBlocks Reference.externals (mintBlocks [(0x11,10),(0x12,10)])
      initialDb).state.mintConfigs.rows.any fun c => decide (c.getMintLimit.toNat <
        c.minted (syncBlocks Reference.externals (mintBlocks [(0x11,10),(0x12,10)])
          initialDb).state)) = true := by
  decide +kernel

theorem twoMints_exceed_limit :
    let s := (syncBlocks Reference.externals (mintBlocks [(0x11,10),(0x12,10)]) initialDb).state
    (syncBlocks Reference.externals (mintBlocks [(0x11,10),(0x12,10)])).Returns initialDb () s ∧
      ¬LimitsEnforced s := by
  refine ⟨Program.returns_of_isOk twoMints_state.1,fun henforced => ?_⟩
  obtain ⟨c,hc,hlt⟩ := List.any_eq_true.mp twoMints_state.2
  exact absurd (henforced.configs c hc) (not_le.mpr (of_decide_eq_true hlt))

end ReserveAuditor
