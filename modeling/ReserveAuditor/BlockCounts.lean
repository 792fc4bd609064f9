import ReserveAuditor.BlockAcceptance
import ReserveAuditor.PublishedCounters

/-! What the sync of a block counts before it ends, perhaps in an error that puts the counters
back. -/
namespace ReserveAuditor
open Txn Relational

variable {ext : Externals} {b : BlockData} {s s' : Db} {n : ℕ}

namespace BlockData

/-- The block with other mints and outputs. -/
def cut (b : BlockData) (mintTxs : List CoreMintTx) (outputs : List TxOut) : BlockData :=
  { b with contents := { b.contents with mintTxs := mintTxs, outputs := outputs } }

/-- A mint has no config, and the block up to it would be accepted. -/
def CountsMint (ext : Externals) (b : BlockData) (s : Db) : Prop :=
  ∃ before tx after, b.contents.mintTxs = before ++ tx :: after ∧ Accepts ext (b.cut before []) s ∧
    lookupMintConfig ext b.block.index tx s = .ok none

/-- The balances when the burns of the given outputs are charged. -/
def balancesAfter (ext : Externals) (b : BlockData) (s : Db) (outputs : List TxOut) : BalanceMap :=
  (burnTxOutsOf ext b.block.index b.timestamp outputs).foldl chargeBurn
    (mintBalances (previousBalances b.block.index s) b.contents.mintTxs)

/-- An output burns more than there is, and the block up to it would be accepted. -/
def CountsBurn (ext : Externals) (b : BlockData) (s : Db) : Prop :=
  ∃ before txOut after burn, b.contents.outputs = before ++ txOut :: after ∧
    Accepts ext (b.cut b.contents.mintTxs before) s ∧
    BurnTxOut.fromCoreTxOut ext b.block.index b.timestamp txOut = .ok burn ∧
    burn.getAmount > (b.balancesAfter ext s before).balance burn.getTokenId

/-- A sync of the block counts something besides the block itself. -/
def Counts (ext : Externals) (b : BlockData) (s : Db) : Prop :=
  b.CountsMint ext s ∨ b.CountsBurn ext s

end BlockData

/-! ### Loops that are cut -/

theorem opened_cut (mintTxs : List CoreMintTx) (outputs : List TxOut) {s₁ : Db} :
    Opened ext (b.cut mintTxs outputs) s s₁ ↔ Opened ext b s s₁ :=
  ⟨fun h => ⟨h.next,h.configTxs⟩,fun h => ⟨h.next,h.configTxs⟩⟩

/-- A block is accepted exactly if the loops over what is in it return. -/
theorem accepts_iff_loops (ext : Externals) (b : BlockData) (hr : ConfigRefs s) (hg : Gapless n s)
    (hc : s.counters.isSome = true) : Accepts ext b s ↔ ∃ s₁, Opened ext b s s₁ ∧ ∃ mints s₂,
      (mintsLoop ext b s₁ b.contents.mintTxs).Returns s₁ mints s₂ ∧ ∃ burns s₃,
      (Program.accumEach processBurn mints.1 (burnTxOutsOf ext b.block.index b.timestamp
        b.contents.outputs)).Returns s₂ burns s₃ := by
  rw [Accepts, ← syncBlockWithConn_returns_iff ext b hr hg hc]
  constructor
  · rintro ⟨data,s',h⟩
    obtain ⟨hidx,s₁,mints,s₂,burns,s₃,hcfg,hmints,hburns,-⟩ := returns_syncBlockWithConn_iff.mp h
    exact ⟨s₁,⟨hidx,hcfg⟩,mints,s₂,hmints,burns,s₃,hburns⟩
  · rintro ⟨s₁,⟨hidx,hcfg⟩,mints,s₂,hmints,burns,s₃,hburns⟩
    exact syncBlockWithConn_of_stages hr hg hc hidx hcfg hmints hburns

theorem publishes_processMint_iff (idx : UInt64) (ts : Option DateTime) (m : BalanceMap)
    (tx : CoreMintTx) : (processMint ext idx ts m tx).Publishes s ↔
      lookupMintConfig ext idx tx s = .ok none ∧ s.counters.isSome = true := by
  -- storing the mint publishes nothing, so the missing config is all that can be counted
  have hinsert (cfg : Option MintConfig) (t : Db) :
      ¬(MintTx.insertFromCoreMintTx ext idx ts (cfg.bind MintConfig.id) tx).Publishes t :=
    not_publishes_of_quiet (Program.leaves_bind (Program.leaves_ofOutcome _) quiet_insertMint) t
  simp only [processMint, Program.publishes_bind, Program.not_publishes_query,
    Program.returns_query, Program.not_publishes_ofExcept, Program.returns_ofExcept,
    Program.publishes_when, publishes_inc, hinsert, Program.not_publishes_pure, and_false,
    exists_false, or_false, false_or]
  constructor
  · rintro ⟨_,_,⟨rfl,rfl⟩,cfg,_,⟨hl,rfl⟩,hnone,hsome⟩
    exact ⟨hl.trans (congrArg Except.ok (Option.isNone_iff_eq_none.mp hnone)),hsome⟩
  · rintro ⟨hl,hsome⟩
    exact ⟨_,s,⟨rfl,rfl⟩,none,s,⟨hl,rfl⟩,rfl,hsome⟩

theorem publishes_processBurn_iff (m : BalanceMap) (burn : BurnTxOut) :
    (processBurn m burn).Publishes s ↔
      burn.getAmount > m.balance burn.getTokenId ∧ s.counters.isSome = true := by
  have hinsert (t : Db) : ¬burn.insert.Publishes t :=
    not_publishes_of_quiet (quiet_insertBurn burn) t
  simp only [processBurn, Program.publishes_bind, Program.publishes_when, publishes_inc, hinsert,
    Program.not_publishes_pure, and_false, exists_false, or_false]

/-- The burns of a list of outputs are cut where the outputs are. -/
theorem burnTxOutsOf_eq_append {idx : UInt64} {ts : Option DateTime} {outputs : List TxOut}
    {burns burns' : List BurnTxOut} {burn : BurnTxOut} :
    burnTxOutsOf ext idx ts outputs = burns ++ burn :: burns' ↔
      ∃ before txOut after, outputs = before ++ txOut :: after ∧
        burnTxOutsOf ext idx ts before = burns ∧
        BurnTxOut.fromCoreTxOut ext idx ts txOut = .ok burn ∧
        burnTxOutsOf ext idx ts after = burns' := by
  simp only [burnTxOutsOf, List.filterMap_eq_append_iff, List.filterMap_eq_cons_iff,
    Outcome.except_toOption_eq_some]
  constructor
  -- the outputs in between are no burns
  · rintro ⟨before,_,rfl,hbefore,between,txOut,after,rfl,hbetween,hburn,hafter⟩
    refine ⟨before ++ between,txOut,after,by rw [List.append_assoc],?_,hburn,hafter⟩
    rw [List.filterMap_append, hbefore, List.filterMap_eq_nil_iff.mpr hbetween, List.append_nil]
  · rintro ⟨before,txOut,after,rfl,hbefore,hburn,hafter⟩
    exact ⟨before,txOut :: after,rfl,hbefore,[],txOut,after,rfl,by simp,hburn,hafter⟩

/-- Where a sync can publish: in its loops, and when they have returned. -/
theorem publishes_syncBlock_iff_loops (ext : Externals) (b : BlockData)
    (hc : s.counters.isSome = true) :
    (syncBlockWithConn ext b.block b.contents b.timestamp).Publishes s ↔ ∃ s₁, Opened ext b s s₁ ∧
      ((mintsLoop ext b s₁ b.contents.mintTxs).Publishes s₁ ∨ ∃ mints s₂,
        (mintsLoop ext b s₁ b.contents.mintTxs).Returns s₁ mints s₂ ∧
        ((Program.accumEach processBurn mints.1 (burnTxOutsOf ext b.block.index b.timestamp
          b.contents.outputs)).Publishes s₂ ∨ ∃ burns s₃,
          (Program.accumEach processBurn mints.1 (burnTxOutsOf ext b.block.index b.timestamp
            b.contents.outputs)).Returns s₂ burns s₃)) := by
  -- neither the configs nor the audit row nor the balances are counted
  have hconfigTxs (t : Db) : ¬(Program.forEach b.contents.validatedMintConfigTxs fun tx => do
      let _ ← MintConfigTx.insertFromCoreMintConfigTx ext b.block.index b.timestamp tx
      pure () : Conn Unit).Publishes t :=
    not_publishes_of_quiet (Program.leaves_forEach (fun tx => Program.leaves_bind
      (quiet_insertConfigTx ext _ _ tx) fun _ => Program.leaves_pure _) _) t
  have hset (t : Db) : ¬(BlockAuditData.new b.block.index).set.Publishes t :=
    not_publishes_of_quiet (quiet_setAudited _) t
  have hbalances (m : BalanceMap) (t : Db) :
      ¬(BlockBalance.setBalancesForBlock b.block.index m).Publishes t :=
    not_publishes_of_quiet (quiet_setBalances _ m) t
  rw [syncBlockWithConn_eq, publishes_transaction]
  simp only [syncBlockStages, Program.publishes_bind, Program.not_publishes_query,
    Program.returns_query, Program.publishes_when, Program.not_publishes_fail,
    Program.returns_when, Program.returns_fail, and_false, false_or, hconfigTxs, hset, hbalances,
    Program.not_publishes_pure, exists_false, or_false, publishes_inc]
  constructor
  · rintro ⟨_,s₀,⟨rfl,h₀⟩,_,t₀,⟨hidx,ht₀⟩,_,s₁,hcfg,_,t₁,⟨rfl,ht₁⟩,h⟩
    subst s₀ t₀ t₁
    refine ⟨s₁,⟨not_ne_iff.mp hidx,hcfg⟩,h.imp_right ?_⟩
    rintro ⟨mints,s₂,hmints,h⟩
    refine ⟨mints,s₂,hmints,h.imp_right ?_⟩
    rintro ⟨burns,s₃,hburns,-⟩
    exact ⟨burns,s₃,hburns⟩
  · rintro ⟨s₁,hopen,h⟩
    refine ⟨_,s,⟨rfl,rfl⟩,(),s,⟨not_ne_iff.mpr hopen.next,rfl⟩,(),s₁,hopen.configTxs,_,s₁,⟨rfl,rfl⟩,
      h.imp_right ?_⟩
    rintro ⟨mints,s₂,hmints,h⟩
    refine ⟨mints,s₂,hmints,h.imp_right ?_⟩
    rintro ⟨burns,s₃,hburns⟩
    -- after both loops `numBlocksSynced` is counted, as the row is still there
    have hparts := ledgerParts_of_quiet Quiet.leaves_rises rises_inc ext b
    have hsome := isSome_of_rises (Program.leaves_accumEach hparts.processMint _ _) hmints
      (hopen.isSome hc)
    exact ⟨burns,s₃,hburns,
      isSome_of_rises (Program.leaves_accumEach hparts.processBurn _ _) hburns hsome⟩

/-- The mint loop counts a mint without a config if it gets there. -/
theorem countsMint_iff (ext : Externals) (b : BlockData) (hr : ConfigRefs s) (hg : Gapless n s)
    (hc : s.counters.isSome = true) : b.CountsMint ext s ↔
      ∃ s₁, Opened ext b s s₁ ∧ (mintsLoop ext b s₁ b.contents.mintTxs).Publishes s₁ := by
  -- a block cut off before a mint is accepted when the loop gets as far as that mint
  have hcut (before : List CoreMintTx) : Accepts ext (b.cut before []) s ↔
      ∃ s₁, Opened ext b s s₁ ∧ ∃ q t, (mintsLoop ext b s₁ before).Returns s₁ q t := by
    refine (accepts_iff_loops ext (b.cut before []) hr hg hc).trans (exists_congr fun s₁ =>
      and_congr (opened_cut _ _) (exists_congr fun q => exists_congr fun t => ?_))
    exact and_iff_left ⟨_,t,(Program.returns_accumEach_nil _ _ _ _ _).mpr ⟨rfl,rfl⟩⟩
  -- what the block has stored so far does not change the lookup
  have hlookup {s₁ t : Db} {before : List CoreMintTx} {q : BalanceMap × List MintTx}
      (hopen : Opened ext b s s₁) (hq : (mintsLoop ext b s₁ before).Returns s₁ q t)
      (tx : CoreMintTx) : (processMint ext b.block.index b.timestamp q.1 tx).Publishes t ↔
        lookupMintConfig ext b.block.index tx s = .ok none := by
    have hadded := (returns_processMints before (hopen.refs hr) hq).2
    have hsome : t.counters.isSome = true := by
      obtain ⟨u,rfl⟩ := hadded.frame
      rw [Option.isSome_map]
      exact hopen.isSome hc
    rw [publishes_processMint_iff, and_iff_left hsome,
      lookupMintConfig_grown ext tx hr (hopen.grown.trans hadded.grown)]
  constructor
  · rintro ⟨before,tx,after,htxs,haccepts,hnone⟩
    obtain ⟨s₁,hopen,q,t,hq⟩ := (hcut before).mp haccepts
    exact ⟨s₁,hopen,(Program.publishes_accumEach _ _ _).mpr
      ⟨before,tx,after,q,t,htxs,hq,(hlookup hopen hq tx).mpr hnone⟩⟩
  · rintro ⟨s₁,hopen,h⟩
    obtain ⟨before,tx,after,q,t,htxs,hq,htx⟩ := (Program.publishes_accumEach _ _ _).mp h
    exact ⟨before,tx,after,htxs,(hcut before).mpr ⟨s₁,hopen,q,t,hq⟩,(hlookup hopen hq tx).mp htx⟩

/-- The burn loop counts a burn of more than there is if it gets there. -/
theorem countsBurn_iff (ext : Externals) (b : BlockData) (hr : ConfigRefs s) (hg : Gapless n s)
    (hc : s.counters.isSome = true) : b.CountsBurn ext s ↔ ∃ s₁, Opened ext b s s₁ ∧ ∃ mints s₂,
      (mintsLoop ext b s₁ b.contents.mintTxs).Returns s₁ mints s₂ ∧
      (Program.accumEach processBurn mints.1 (burnTxOutsOf ext b.block.index b.timestamp
        b.contents.outputs)).Publishes s₂ := by
  -- the same for the outputs, behind all the mints
  have hcut (before : List TxOut) : Accepts ext (b.cut b.contents.mintTxs before) s ↔
      ∃ s₁, Opened ext b s s₁ ∧ ∃ mints s₂,
        (mintsLoop ext b s₁ b.contents.mintTxs).Returns s₁ mints s₂ ∧ ∃ q t,
        (Program.accumEach processBurn mints.1
          (burnTxOutsOf ext b.block.index b.timestamp before)).Returns s₂ q t :=
    (accepts_iff_loops ext _ hr hg hc).trans (exists_congr fun s₁ =>
      and_congr (opened_cut _ _) Iff.rfl)
  -- the running balances are those of the mints and of the burns before
  have hburn {s₁ s₂ t : Db} {mints : BalanceMap × List MintTx} {q : BalanceMap × List BurnTxOut}
      {before : List TxOut} (hopen : Opened ext b s s₁)
      (hmints : (mintsLoop ext b s₁ b.contents.mintTxs).Returns s₁ mints s₂)
      (hq : (Program.accumEach processBurn mints.1
        (burnTxOutsOf ext b.block.index b.timestamp before)).Returns s₂ q t) (burn : BurnTxOut) :
      (processBurn q.1 burn).Publishes t ↔
        burn.getAmount > (b.balancesAfter ext s before).balance burn.getTokenId := by
    obtain ⟨hm,hma⟩ := returns_processMints _ (hopen.refs hr) hmints
    obtain ⟨hbal,hba⟩ := returns_processBurns _ hq
    have hsome : t.counters.isSome = true := by
      obtain ⟨u,rfl⟩ := hba.frame
      obtain ⟨u',rfl⟩ := hma.frame
      rw [Option.isSome_map, Option.isSome_map]
      exact hopen.isSome hc
    rw [publishes_processBurn_iff, and_iff_left hsome, hbal, hm, hopen.previousBalances]
    rfl
  constructor
  · rintro ⟨before,txOut,after,burn,houtputs,haccepts,hof,hover⟩
    obtain ⟨s₁,hopen,mints,s₂,hmints,q,t,hq⟩ := (hcut before).mp haccepts
    have hburns := burnTxOutsOf_eq_append.mpr ⟨before,txOut,after,houtputs,rfl,hof,rfl⟩
    exact ⟨s₁,hopen,mints,s₂,hmints,(Program.publishes_accumEach _ _ _).mpr
      ⟨_,burn,_,q,t,hburns,hq,(hburn hopen hmints hq burn).mpr hover⟩⟩
  · rintro ⟨s₁,hopen,mints,s₂,hmints,h⟩
    obtain ⟨_,burn,_,q,t,hburns,hq,hover⟩ := (Program.publishes_accumEach _ _ _).mp h
    obtain ⟨before,txOut,after,houtputs,rfl,hof,-⟩ := burnTxOutsOf_eq_append.mp hburns
    exact ⟨before,txOut,after,burn,houtputs,(hcut before).mpr ⟨s₁,hopen,mints,s₂,hmints,q,t,hq⟩,hof,
      (hburn hopen hmints hq burn).mp hover⟩

/-- A sync publishes exactly if the block is accepted, or something in it is counted before the
sync fails. -/
theorem publishes_syncBlock_iff (ext : Externals) (b : BlockData) (hr : ConfigRefs s)
    (hg : Gapless n s) (hc : s.counters.isSome = true) :
    (syncBlockWithConn ext b.block b.contents b.timestamp).Publishes s ↔
      Accepts ext b s ∨ b.Counts ext s := by
  rw [publishes_syncBlock_iff_loops ext b hc, BlockData.Counts, countsMint_iff ext b hr hg hc,
    countsBurn_iff ext b hr hg hc, accepts_iff_loops ext b hr hg hc]
  constructor
  -- a mint is counted, a burn is counted, or both loops come to their end
  · rintro ⟨s₁,hopen,hmints | ⟨mints,s₂,hmints,hburns | ⟨burns,s₃,hburns⟩⟩⟩
    · exact Or.inr (Or.inl ⟨s₁,hopen,hmints⟩)
    · exact Or.inr (Or.inr ⟨s₁,hopen,mints,s₂,hmints,hburns⟩)
    · exact Or.inl ⟨s₁,hopen,mints,s₂,hmints,burns,s₃,hburns⟩
  · rintro (⟨s₁,hopen,mints,s₂,hmints,burns,s₃,hburns⟩ | ⟨s₁,hopen,hmints⟩ |
      ⟨s₁,hopen,mints,s₂,hmints,hburns⟩)
    · exact ⟨s₁,hopen,Or.inr ⟨mints,s₂,hmints,Or.inr ⟨burns,s₃,hburns⟩⟩⟩
    · exact ⟨s₁,hopen,Or.inl hmints⟩
    · exact ⟨s₁,hopen,Or.inr ⟨mints,s₂,hmints,Or.inl hburns⟩⟩

/-- What a sync publishes is what it leaves in the database exactly if the block is accepted, or
nothing in it is counted. -/
theorem tells_syncBlock_iff_accepts (ext : Externals) (b : BlockData) (hr : ConfigRefs s)
    (hg : Gapless n s) (hc : s.counters.isSome = true) :
    (syncBlockWithConn ext b.block b.contents b.timestamp).Tells Db.counters s ↔
      (b.Counts ext s → Accepts ext b s) := by
  rw [tells_syncBlock_iff b hc, publishes_syncBlock_iff ext b hr hg hc,
    syncBlockWithConn_returns_iff ext b hr hg hc, ← Accepts]
  tauto

end ReserveAuditor
