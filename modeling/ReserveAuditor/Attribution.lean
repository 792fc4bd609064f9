import ReserveAuditor.SyncBlock

/-! The attribution of a mint to a config only looks at what earlier blocks left in the
database: later rows do not change it. -/
namespace ReserveAuditor
open Txn Relational

/-- Mints refer to configs and configs to mint config txs. -/
structure ConfigRefs (s : Db) : Prop where
  ofMint : ∀ m ∈ s.mintTxs.rows, ∀ n, m.mintConfigId = some n → ∃ c, s.mintConfigs.find n = some c
  ofConfig : ∀ c ∈ s.mintConfigs.rows, ∃ t, s.mintConfigTxs.find c.mintConfigTxId = some t

/-- The tables behind the attribution gained rows, none of a block before `b`. -/
structure Grown (b : Int64) (s s' : Db) : Prop where
  txs : ∃ ts, s'.mintConfigTxs.rows = s.mintConfigTxs.rows ++ ts ∧ ∀ t ∈ ts, b ≤ t.blockIndex
  configs : ∃ cs, s'.mintConfigs.rows = s.mintConfigs.rows ++ cs ∧
    ∀ c ∈ cs, ∃ t, s'.mintConfigTxs.find c.mintConfigTxId = some t ∧ b ≤ t.blockIndex
  mints : ∃ ms, s'.mintTxs.rows = s.mintTxs.rows ++ ms ∧ ∀ m ∈ ms, b ≤ m.blockIndex

namespace Grown
variable {b b' : Int64} {s s' s'' : Db}

theorem refl (b : Int64) (s : Db) : Grown b s s where
  txs := ⟨[],by simp⟩
  configs := ⟨[],by simp⟩
  mints := ⟨[],by simp⟩

theorem mono (hb : b ≤ b') (h : Grown b' s s') : Grown b s s' := by
  obtain ⟨⟨ts,ht,hts⟩,⟨cs,hc,hcs⟩,ms,hm,hms⟩ := h
  refine ⟨⟨ts,ht,fun t h => Int64.le_trans hb (hts t h)⟩,⟨cs,hc,fun c h => ?_⟩,
    ms,hm,fun m h => Int64.le_trans hb (hms m h)⟩
  obtain ⟨t,hf,hle⟩ := hcs c h
  exact ⟨t,hf,Int64.le_trans hb hle⟩

theorem trans (h : Grown b s s') (h' : Grown b s' s'') : Grown b s s'' := by
  obtain ⟨⟨ts,ht,hts⟩,⟨cs,hc,hcs⟩,ms,hm,hms⟩ := h
  obtain ⟨⟨ts',ht',hts'⟩,⟨cs',hc',hcs'⟩,ms',hm',hms'⟩ := h'
  refine ⟨⟨ts ++ ts',by rw [ht', ht, List.append_assoc],?_⟩,
    ⟨cs ++ cs',by rw [hc', hc, List.append_assoc],?_⟩,
    ms ++ ms',by rw [hm', hm, List.append_assoc],?_⟩
  · intro t h
    exact (List.mem_append.mp h).elim (hts t) (hts' t)
  · intro c h
    rcases List.mem_append.mp h with h | h
    · obtain ⟨t,hf,hle⟩ := hcs c h
      exact ⟨t,Table.find_append ht' hf,hle⟩
    · exact hcs' c h
  · intro m h
    exact (List.mem_append.mp h).elim (hms m) (hms' m)

end Grown

variable {b : UInt64} {s s' : Db}

theorem mostRecentForToken_grown (h : Grown b.toInt64 s s') (tokenId : TokenId) :
    MintConfigTx.mostRecentForToken b tokenId s' = MintConfigTx.mostRecentForToken b tokenId s := by
  obtain ⟨ts,ht,hts⟩ := h.txs
  have hnew : ts.filter (fun t => decide (t.tokenId = tokenId.toInt64) &&
      decide (t.blockIndex < b.toInt64)) = [] := by
    refine List.filter_eq_nil_iff.mpr fun t h => ?_
    -- the query asks for earlier blocks only
    simp [Int64.not_lt.mpr (hts t h)]
  rw [MintConfigTx.mostRecentForToken, MintConfigTx.mostRecentForToken, ht, List.filter_append,
    hnew, List.append_nil]

theorem mintWithConfig_eq_some (s : Db) (m : MintTx) (p : MintTx × MintConfig × MintConfigTx) :
    mintWithConfig s m = some p ↔ p.1 = m ∧ ∃ n, m.mintConfigId = some n ∧
      s.mintConfigs.find n = some p.2.1 ∧ s.mintConfigTxs.find p.2.1.mintConfigTxId = some p.2.2 := by
  obtain ⟨m',c,t⟩ := p
  simp only [mintWithConfig, Option.bind_eq_bind, Option.bind_eq_some_iff, Option.pure_def,
    Option.some.injEq, Prod.mk.injEq]
  constructor
  · rintro ⟨n,hn,c',hc,t',ht,rfl,rfl,rfl⟩
    exact ⟨rfl,n,hn,hc,ht⟩
  · rintro ⟨rfl,n,hn,hc,ht⟩
    exact ⟨n,hn,c,hc,t,ht,rfl,rfl,rfl⟩

/-- The join of a mint that was there before is what it was. -/
theorem mintWithConfig_grown {i : Int64} (hr : ConfigRefs s) (h : Grown i s s') {m : MintTx}
    (hm : m ∈ s.mintTxs.rows) : mintWithConfig s' m = mintWithConfig s m := by
  obtain ⟨⟨ts,ht,-⟩,⟨cs,hc,-⟩,-⟩ := h
  unfold mintWithConfig
  cases hn : m.mintConfigId with
  | none => rfl
  | some n =>
    obtain ⟨c,hcf⟩ := hr.ofMint m hm n hn
    obtain ⟨t,htf⟩ := hr.ofConfig c ((Table.find_eq_some _ _ _).mp hcf).1
    -- what the row refers to was stored, and is still found
    simp [hcf, htf, Table.find_append hc hcf, Table.find_append ht htf]

theorem mintsWithConfig_grown (hr : ConfigRefs s) (h : Grown b.toInt64 s s') :
    ∃ new, mintsWithConfig s' = mintsWithConfig s ++ new ∧ ∀ p ∈ new, b.toInt64 ≤ p.1.blockIndex := by
  obtain ⟨ms,hm,hms⟩ := h.mints
  refine ⟨ms.filterMap (mintWithConfig s'),?_,?_⟩
  · rw [mintsWithConfig, mintsWithConfig, hm, List.filterMap_append,
      List.filterMap_congr fun m hmem => mintWithConfig_grown hr h hmem]
  · intro p hp
    obtain ⟨m,hmem,hp⟩ := List.mem_filterMap.mp hp
    rw [((mintWithConfig_eq_some s' m p).mp hp).1]
    exact hms m hmem

theorem totalMintedBeforeBlock_grown (hr : ConfigRefs s) (h : Grown b.toInt64 s s')
    (owner : MintConfig → MintConfigTx → Bool) :
    totalMintedBeforeBlock owner b s' = totalMintedBeforeBlock owner b s := by
  obtain ⟨new,hj,hnew⟩ := mintsWithConfig_grown hr h
  have hnil : new.filter (fun p => decide (p.2.2.blockIndex < p.1.blockIndex) && owner p.2.1 p.2.2 &&
      decide (p.1.blockIndex < b.toInt64)) = [] := by
    refine List.filter_eq_nil_iff.mpr fun p hp => ?_
    simp [Int64.not_lt.mpr (hnew p hp)]
  rw [totalMintedBeforeBlock, totalMintedBeforeBlock, hj, List.filter_append, hnil, List.append_nil]

/-- New configs belong to new mint config txs. -/
theorem getByMintConfigTxId_grown (h : Grown b.toInt64 s s') {t : MintConfigTx} {n : ℕ}
    (ht : s.mintConfigTxs.find n = some t) (hlt : t.blockIndex < b.toInt64) :
    MintConfig.getByMintConfigTxId n s' = MintConfig.getByMintConfigTxId n s := by
  obtain ⟨⟨ts,htx,-⟩,⟨cs,hc,hcs⟩,-⟩ := h
  have hnil : cs.filter (fun c => decide (c.mintConfigTxId = n)) = [] := by
    refine List.filter_eq_nil_iff.mpr fun c hmem => ?_
    obtain ⟨t',hf,hle⟩ := hcs c hmem
    simp only [decide_eq_true_eq]
    rintro rfl
    -- the transaction of a new config is new, while `t` is older than the block
    obtain rfl := Option.some.inj (hf.symm.trans (Table.find_append htx ht))
    exact Int64.not_lt.mpr hle hlt
  rw [MintConfig.getByMintConfigTxId, MintConfig.getByMintConfigTxId, hc, List.filter_append, hnil,
    List.append_nil]

theorem findMintConfig_congr (ext : Externals) (tx : CoreMintTx)
    (h : ∀ owner, totalMintedBeforeBlock owner b s' = totalMintedBeforeBlock owner b s)
    (cs : List MintConfig) : findMintConfig ext b tx s' cs = findMintConfig ext b tx s cs := by
  induction cs with
  | nil => rfl
  | cons c cs ih =>
    simp only [findMintConfig, ih, MintConfig.getTotalMintedBeforeBlock, h]

theorem mostRecentForToken_eq_some {tokenId : TokenId} {t : MintConfigTx}
    (h : MintConfigTx.mostRecentForToken b tokenId s = some t) :
    t ∈ s.mintConfigTxs.rows ∧ t.tokenId = tokenId.toInt64 ∧ t.blockIndex < b.toInt64 ∧
    ∀ t' ∈ s.mintConfigTxs.rows, t'.tokenId = tokenId.toInt64 → t'.blockIndex < b.toInt64 →
      t'.blockIndex ≤ t.blockIndex := by
  obtain ⟨hm,hmax⟩ := maxBy_eq_some h
  simp only [List.mem_filter, Bool.and_eq_true, decide_eq_true_eq] at hm hmax
  refine ⟨hm.1,hm.2.1,hm.2.2,fun t' ht' htok hlt => ?_⟩
  exact Int64.le_iff_toInt_le.mpr (hmax t' ⟨ht',htok,hlt⟩)

/-- Rows of the block itself and of later blocks do not change the attribution. -/
theorem lookupMintConfig_grown (ext : Externals) (tx : CoreMintTx) (hr : ConfigRefs s)
    (h : Grown b.toInt64 s s') : lookupMintConfig ext b tx s' = lookupMintConfig ext b tx s := by
  have htotal := totalMintedBeforeBlock_grown hr h
  simp only [lookupMintConfig, mostRecentForToken_grown h, MintConfigTx.getTotalMintedBeforeBlock,
    htotal, findMintConfig_congr ext tx htotal]
  cases ht : MintConfigTx.mostRecentForToken b tx.txPrefix.tokenId s with
  | none => rfl
  | some t =>
    -- the transaction that is found is stored, and is older than the block
    obtain ⟨hmem,-,hlt,-⟩ := mostRecentForToken_eq_some ht
    have hid : t.id = some (key t) := s.mintConfigTxs.keyed t hmem
    have hf := (Table.find_eq_some _ _ _).mpr ⟨hmem,hid⟩
    simp only [hid, Option.getD_some, getByMintConfigTxId_grown h hf hlt]

/-- What a found config satisfies. -/
theorem findMintConfig_eq_some {ext : Externals} {tx : CoreMintTx} {cs : List MintConfig}
    {c : MintConfig} (h : findMintConfig ext b tx s cs = .ok (some c)) :
    c ∈ cs ∧ (∃ core signers, c.decode ext = .ok core ∧
      ext.verify core.signerSet (ext.mintTxPrefixHash tx.txPrefix) tx.signature = .ok signers) ∧
    (c.getTotalMintedBeforeBlock b s).toNat+tx.txPrefix.amount.toNat ≤ c.getMintLimit.toNat := by
  induction cs with
  | nil => simp [findMintConfig] at h
  | cons x xs ih =>
    -- each way to pass over `x` ends in the search through the rest
    have hrest (hx : findMintConfig ext b tx s xs = .ok (some c)) := by
      obtain ⟨hm,hrest⟩ := ih hx
      exact And.intro (List.mem_cons_of_mem x hm) hrest
    rw [findMintConfig] at h
    cases hd : x.decode ext with
    | error e => simp [hd, bind, Except.bind] at h
    | ok core =>
      simp only [hd, bind, Except.bind] at h
      cases hv : ext.verify core.signerSet (ext.mintTxPrefixHash tx.txPrefix) tx.signature with
      | error e =>
        rw [hv] at h
        exact hrest h
      | ok signers =>
        simp only [hv, checkedAdd] at h
        by_cases hlt : (x.getTotalMintedBeforeBlock b s).toNat+tx.txPrefix.amount.toNat < 2^64
        · rw [if_pos hlt] at h
          simp only at h
          split at h
          · rename_i hle
            obtain rfl : x = c := by simpa using h
            refine ⟨List.mem_cons_self,⟨core,signers,hd,hv⟩,?_⟩
            -- the sum did not overflow, so it is the sum of the numbers
            have hle' := UInt64.le_iff_toNat_le.mp hle
            rwa [UInt64.toNat_add, Nat.mod_eq_of_lt hlt] at hle'
          · exact hrest h
        · rw [if_neg hlt] at h
          exact hrest h

/-- What the config satisfies that a mint is attributed to. -/
theorem lookupMintConfig_eq_some {ext : Externals} {tx : CoreMintTx} {c : MintConfig}
    (h : lookupMintConfig ext b tx s = .ok (some c)) : ∃ t,
      MintConfigTx.mostRecentForToken b tx.txPrefix.tokenId s = some t ∧
      c ∈ s.mintConfigs.rows ∧ t.id = some c.mintConfigTxId ∧
      (∃ core signers, c.decode ext = .ok core ∧
        ext.verify core.signerSet (ext.mintTxPrefixHash tx.txPrefix) tx.signature = .ok signers) ∧
      (t.getTotalMintedBeforeBlock b s).toNat+tx.txPrefix.amount.toNat ≤ t.getTotalMintLimit.toNat ∧
      (c.getTotalMintedBeforeBlock b s).toNat+tx.txPrefix.amount.toNat ≤ c.getMintLimit.toNat := by
  unfold lookupMintConfig at h
  split at h
  · simp at h
  · rename_i t ht
    have hid : t.id = some (key t) := s.mintConfigTxs.keyed t (mostRecentForToken_eq_some ht).1
    unfold checkedAdd at h
    by_cases hlt : (t.getTotalMintedBeforeBlock b s).toNat+tx.txPrefix.amount.toNat < 2^64
    · rw [if_pos hlt] at h
      simp only at h
      split at h
      · simp at h
      · rename_i hle
        obtain ⟨hm,hv,hc⟩ := findMintConfig_eq_some h
        obtain ⟨hmem,hown⟩ := List.mem_filter.mp hm
        simp only [hid, Option.getD_some, decide_eq_true_eq] at hown
        have hle' := UInt64.le_iff_toNat_le.mp (UInt64.not_lt.mp hle)
        rw [UInt64.toNat_add, Nat.mod_eq_of_lt hlt] at hle'
        exact ⟨t,ht,hmem,by rw [hid, hown],hv,hle',hc⟩
    · rw [if_neg hlt] at h
      simp at h

end ReserveAuditor
