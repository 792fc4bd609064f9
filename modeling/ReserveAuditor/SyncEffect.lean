import ReserveAuditor.Attribution

/-! What a successful sync of a block leaves in the database. -/
namespace ReserveAuditor
open Txn Relational

/-! ### Counters -/

/-- Increase a counter several times. -/
def Counters.add (c : Counter) (n : ℕ) (row : Counters) : Counters := Function.update row c (row c+n)

namespace Counters

@[simp] theorem add_same (c : Counter) (n : ℕ) (row : Counters) : add c n row c = row c+n := by
  simp [add]

theorem add_ne {c d : Counter} (h : d ≠ c) (n : ℕ) (row : Counters) : add c n row d = row d := by
  simp [add, h]

@[simp] theorem add_zero (c : Counter) (row : Counters) : add c 0 row = row := by
  simp [add]

theorem add_add (c : Counter) (m n : ℕ) (row : Counters) : add c n (add c m row) = add c (m+n) row := by
  funext d
  by_cases h : d = c
  · subst h
    simp [Nat.add_assoc]
  · simp [add_ne h]

/-- What a block does to the counters. -/
def addBlock (row : Counters) (unattributed overBurns : ℕ) : Counters :=
  add .numBlocksSynced 1 (add .numBurnsExceedingBalance overBurns
    (add .numMintTxsWithoutMatchingMintConfig unattributed row))

end Counters

theorem returns_inc_iff (c : Counter) (s s' : Db) (u : Unit) :
    (Counters.inc c).Returns s u s' ↔ s.counters.isSome = true ∧
      s' = { s with counters := s.counters.map (Counters.add c 1) } := by
  rw [Counters.returns_inc]
  cases s.counters <;> simp [Counters.add, Counters.bump]

theorem returns_when_inc {p : Prop} [Decidable p] {c : Counter} {s s' : Db} {u : Unit}
    (h : (Program.when p (Counters.inc c)).Returns s u s') :
    s' = { s with counters := s.counters.map (Counters.add c (if p then 1 else 0)) } := by
  rw [Program.returns_when] at h
  rcases h with ⟨hp,h⟩ | ⟨hp,rfl⟩
  · rw [if_pos hp]
    exact ((returns_inc_iff c s s' ()).mp h).2
  · have hid : s'.counters.map (Counters.add c 0) = s'.counters := by
      cases s'.counters <;> simp
    rw [if_neg hp, hid]

/-! ### Mint configs -/

/-- The mint config txs of a block were stored, with their configs. -/
structure ConfigsAdded (b : Int64) (s s' : Db) : Prop where
  frame : ∃ t u, s' = { s with mintConfigTxs := t, mintConfigs := u }
  txs : ∃ ts, s'.mintConfigTxs.rows = s.mintConfigTxs.rows ++ ts ∧ ∀ t ∈ ts, t.blockIndex = b
  configs : ∃ cs, s'.mintConfigs.rows = s.mintConfigs.rows ++ cs ∧
    ∀ c ∈ cs, ∃ t, s'.mintConfigTxs.find c.mintConfigTxId = some t ∧ t.blockIndex = b

namespace ConfigsAdded
variable {b : Int64} {s s' s'' : Db}

theorem refl (b : Int64) (s : Db) : ConfigsAdded b s s where
  frame := ⟨_,_,rfl⟩
  txs := ⟨[],by simp⟩
  configs := ⟨[],by simp⟩

theorem trans (h : ConfigsAdded b s s') (h' : ConfigsAdded b s' s'') : ConfigsAdded b s s'' := by
  obtain ⟨⟨t,u,rfl⟩,⟨ts,ht,hts⟩,cs,hc,hcs⟩ := h
  obtain ⟨⟨t',u',rfl⟩,⟨ts',ht',hts'⟩,cs',hc',hcs'⟩ := h'
  refine ⟨⟨t',u',rfl⟩,⟨ts ++ ts',by rw [ht', ht, List.append_assoc],?_⟩,
    cs ++ cs',by rw [hc', hc, List.append_assoc],?_⟩
  · intro x hx
    exact (List.mem_append.mp hx).elim (hts x) (hts' x)
  · intro c h
    rcases List.mem_append.mp h with h | h
    · obtain ⟨x,hf,hb⟩ := hcs c h
      exact ⟨x,Table.find_append ht' hf,hb⟩
    · exact hcs' c h

theorem grown (h : ConfigsAdded b s s') : Grown b s s' := by
  obtain ⟨⟨t,u,rfl⟩,⟨ts,ht,hts⟩,cs,hc,hcs⟩ := h
  refine ⟨⟨ts,ht,fun x hx => Int64.le_of_eq (hts x hx).symm⟩,⟨cs,hc,fun c hmem => ?_⟩,[],by simp⟩
  obtain ⟨x,hf,hb⟩ := hcs c hmem
  exact ⟨x,hf,Int64.le_of_eq hb.symm⟩

theorem refs (h : ConfigsAdded b s s') (hr : ConfigRefs s) : ConfigRefs s' := by
  obtain ⟨⟨t,u,rfl⟩,⟨ts,ht,hts⟩,cs,hc,hcs⟩ := h
  refine ⟨fun m hm n hn => ?_,fun c hmem => ?_⟩
  · obtain ⟨c,hf⟩ := hr.ofMint m hm n hn
    exact ⟨c,Table.find_append hc hf⟩
  · rw [hc] at hmem
    rcases List.mem_append.mp hmem with hmem | hmem
    · obtain ⟨x,hf⟩ := hr.ofConfig c hmem
      exact ⟨x,Table.find_append ht hf⟩
    · obtain ⟨x,hf,-⟩ := hcs c hmem
      exact ⟨x,hf⟩

end ConfigsAdded

theorem configsAdded_configs {ext : Externals} {id : ℕ} (cs : List CoreMintConfig) {s s' : Db}
    {u : Unit} {t : MintConfigTx} (ht : s.mintConfigTxs.find id = some t)
    (h : (Program.forEach cs fun config => do
      let _ ← MintConfig.insertFromCoreMintConfig ext id config
      pure ()).Returns s u s') : ConfigsAdded t.blockIndex s s' := by
  induction cs generalizing s with
  | nil =>
    rw [(Program.returns_forEach_nil _ s s' u).mp h]
    exact .refl _ s
  | cons c cs ih =>
    obtain ⟨s₁,hc,hrest⟩ := (Program.returns_forEach_cons c cs _ s s' u).mp h
    simp only [MintConfig.insertFromCoreMintConfig, MintConfig.insert, Program.returns_bind,
      returns_insertInto, Table.insert_eq_ok, Program.returns_pure] at hc
    obtain ⟨_,_,⟨n,_,⟨u',⟨-,-,hu⟩,-,rfl⟩,rfl,rfl⟩,-,rfl⟩ := hc
    -- the config refers to the mint config tx `t`, which was stored before
    refine ConfigsAdded.trans ⟨⟨s.mintConfigTxs,u',rfl⟩,⟨[],by simp⟩,_,hu,?_⟩ (ih ht hrest)
    intro x hx
    rw [List.mem_singleton.mp hx]
    exact ⟨t,ht,rfl⟩

theorem configsAdded_insert {ext : Externals} {b : UInt64} {ts : Option DateTime}
    {tx : CoreMintConfigTx} {s s' : Db} {r : MintConfigTx}
    (h : (MintConfigTx.insertFromCoreMintConfigTx ext b ts tx).Returns s r s') :
    ConfigsAdded b.toInt64 s s' := by
  simp only [MintConfigTx.insertFromCoreMintConfigTx, MintConfigTx.insert, Program.returns_bind,
    Program.returns_ofExcept, returns_transaction, returns_insertInto, Table.insert_eq_ok,
    Program.returns_pure] at h
  obtain ⟨core,s₀,⟨-,h₀⟩,id,s₁,⟨n,_,⟨t,⟨-,-,ht⟩,-,rfl⟩,_,_,hcs,rfl,rfl⟩,-,rfl⟩ := h
  subst s₀
  let row := Record.withId (MintConfigTx.fromCoreMintConfigTx ext b ts tx) id
  have hf : t.find id = some row := Table.find_last ht rfl
  -- the transaction is stored first, and its configs then refer to it
  have hrow : ConfigsAdded b.toInt64 s { s with mintConfigTxs := t } := by
    refine ⟨⟨t,s.mintConfigs,rfl⟩,⟨_,ht,?_⟩,[],by simp⟩
    intro x hx
    rw [List.mem_singleton.mp hx]
    rfl
  exact hrow.trans (configsAdded_configs core.txPrefix.configs (t := row) hf hcs)

theorem configsAdded_loop {ext : Externals} {b : UInt64} {ts : Option DateTime}
    (txs : List CoreMintConfigTx) {s s' : Db} {u : Unit}
    (h : (Program.forEach txs fun tx => do
      let _ ← MintConfigTx.insertFromCoreMintConfigTx ext b ts tx
      pure ()).Returns s u s') : ConfigsAdded b.toInt64 s s' := by
  induction txs generalizing s with
  | nil =>
    rw [(Program.returns_forEach_nil _ s s' u).mp h]
    exact .refl _ s
  | cons tx txs ih =>
    obtain ⟨s₁,hc,hrest⟩ := (Program.returns_forEach_cons tx txs _ s s' u).mp h
    simp only [Program.returns_bind, Program.returns_pure] at hc
    obtain ⟨r,_,hr,-,rfl⟩ := hc
    exact (configsAdded_insert hr).trans (ih hrest)

/-! ### Mints -/

theorem forall₂_mem_right {α β : Type} {R : α → β → Prop} {as : List α} {bs : List β}
    (h : List.Forall₂ R as bs) {b : β} (hb : b ∈ bs) : ∃ a ∈ as, R a b := by
  induction h with
  | nil => simp at hb
  | cons hr _ ih =>
    rcases List.mem_cons.mp hb with rfl | hb
    · exact ⟨_,List.mem_cons_self,hr⟩
    · obtain ⟨a,ha,hab⟩ := ih hb
      exact ⟨a,List.mem_cons_of_mem _ ha,hab⟩

/-- A mint was stored with the config that the lookup finds in `s`. -/
structure MintStored (ext : Externals) (b : UInt64) (ts : Option DateTime) (s : Db)
    (tx : CoreMintTx) (row : MintTx) : Prop where
  stored : ∃ cfg row₀ n, lookupMintConfig ext b tx s = .ok cfg ∧
    MintTx.fromCoreMintTx ext b ts (cfg.bind MintConfig.id) tx = .ok row₀ ∧
    row = Record.withId row₀ n

/-- The balances after the mint loop. -/
def mintBalances (m : BalanceMap) (txs : List CoreMintTx) : BalanceMap :=
  txs.foldl (fun m tx => m.insert tx.txPrefix.tokenId
    (m.balance tx.txPrefix.tokenId+tx.txPrefix.amount)) m

/-- The mints without a config. -/
def unattributed (rows : List MintTx) : ℕ := rows.countP (fun m => m.mintConfigId.isNone)

/-- The mint loop ran. -/
structure MintsAdded (ext : Externals) (b : UInt64) (ts : Option DateTime) (s : Db)
    (txs : List CoreMintTx) (rows : List MintTx) (s' : Db) : Prop where
  frame : ∃ t, s' = { s with
    mintTxs := t
    counters := s.counters.map
      (Counters.add .numMintTxsWithoutMatchingMintConfig (unattributed rows)) }
  appended : s'.mintTxs.rows = s.mintTxs.rows ++ rows
  stored : List.Forall₂ (MintStored ext b ts s) txs rows
  refs : ConfigRefs s'

theorem fromCoreMintTx_fields {ext : Externals} {b : UInt64} {ts : Option DateTime} {id : Option ℕ}
    {tx : CoreMintTx} {row : MintTx} (h : MintTx.fromCoreMintTx ext b ts id tx = .ok row) :
    row.id = none ∧ row.blockIndex = b.toInt64 ∧ row.tokenId = tx.txPrefix.tokenId.toInt64 ∧
    row.amount = tx.txPrefix.amount.toInt64 ∧ row.nonceHex = Hex.encode tx.txPrefix.nonce ∧
    row.protobuf = ext.encodeMintTx tx ∧ row.mintConfigId = id := by
  unfold MintTx.fromCoreMintTx at h
  cases hb : ext.b58Encode tx.txPrefix.spendPublicKey tx.txPrefix.viewPublicKey with
  | error e => simp [hb, Except.mapError, bind, Except.bind] at h
  | ok addr =>
    simp only [hb, Except.mapError, bind, Except.bind, pure, Except.pure, Except.ok.injEq] at h
    subst h
    exact ⟨rfl,rfl,rfl,rfl,rfl,rfl,rfl⟩

theorem MintStored.fields {ext : Externals} {b : UInt64} {ts : Option DateTime} {s : Db}
    {tx : CoreMintTx} {row : MintTx} (h : MintStored ext b ts s tx row) :
    row.blockIndex = b.toInt64 ∧ row.tokenId = tx.txPrefix.tokenId.toInt64 ∧
    row.amount = tx.txPrefix.amount.toInt64 ∧ row.nonceHex = Hex.encode tx.txPrefix.nonce ∧
    row.protobuf = ext.encodeMintTx tx := by
  obtain ⟨cfg,row₀,n,-,hrow,rfl⟩ := h.stored
  obtain ⟨-,hb,ht,ha,hn,hp,-⟩ := fromCoreMintTx_fields hrow
  exact ⟨hb,ht,ha,hn,hp⟩

/-- A config is found under the id that it has in the table. -/
theorem lookup_id {ext : Externals} {b : UInt64} {s : Db} {tx : CoreMintTx}
    {cfg : Option MintConfig} (h : lookupMintConfig ext b tx s = .ok cfg) :
    (cfg.bind MintConfig.id).isNone = cfg.isNone ∧
      ∀ n, cfg.bind MintConfig.id = some n → ∃ c, cfg = some c ∧ s.mintConfigs.find n = some c := by
  cases cfg with
  | none => simp
  | some c =>
    obtain ⟨-,-,hm,-⟩ := lookupMintConfig_eq_some h
    have hid : c.id = some (key c) := s.mintConfigs.keyed c hm
    refine ⟨by simp [hid],fun n hn => ⟨c,rfl,?_⟩⟩
    exact (Table.find_eq_some _ _ _).mpr ⟨hm,hn⟩

theorem returns_processMint {ext : Externals} {b : UInt64} {ts : Option DateTime} {m : BalanceMap}
    {tx : CoreMintTx} {s s' : Db} {p : BalanceMap × MintTx} (hr : ConfigRefs s)
    (h : (processMint ext b ts m tx).Returns s p s') :
    p.1 = mintBalances m [tx] ∧ MintsAdded ext b ts s [tx] [p.2] s' := by
  simp only [processMint, Program.returns_bind, Program.returns_query, Program.returns_ofExcept,
    Program.returns_pure, MintTx.insertFromCoreMintTx] at h
  obtain ⟨_,s₁,⟨rfl,h₁⟩,cfg,s₂,⟨hl,h₂⟩,_,s₃,hw,row,_,⟨row₀,s₄,⟨hrow,h₄⟩,hins⟩,rfl,rfl⟩ := h
  subst s₁ s₂ s₄
  have h₃ := returns_when_inc hw
  obtain ⟨hnone,n,t,hi,-,rfl,rfl⟩ := (returns_insertUnsaved _ _ _ _ _ _ _ _).mp hins
  obtain ⟨-,hn,ht⟩ := (Table.insert_eq_ok _ _ _ _).mp hi
  subst h₃
  -- the row refers to the config of the lookup, which is still in its table
  obtain ⟨hiso,hfind⟩ := lookup_id hl
  obtain ⟨-,-,-,-,-,-,hcid⟩ := fromCoreMintTx_fields hrow
  have hcid' : (Record.withId row₀ n).mintConfigId = cfg.bind MintConfig.id := hcid
  refine ⟨rfl,⟨⟨t,?_⟩,ht,.cons ⟨cfg,row₀,n,hl,hrow,rfl⟩ .nil,?_⟩⟩
  · simp only [unattributed, List.countP_singleton, hcid', hiso]
  · refine ⟨fun x hx k hk => ?_,hr.ofConfig⟩
    change x ∈ t.rows at hx
    rw [ht] at hx
    rcases List.mem_append.mp hx with hx | hx
    · exact hr.ofMint x hx k hk
    · rw [List.mem_singleton.mp hx, hcid'] at hk
      obtain ⟨c,-,hc⟩ := hfind k hk
      exact ⟨c,hc⟩

theorem MintsAdded.grown {ext : Externals} {b : UInt64} {ts : Option DateTime} {s s' : Db}
    {txs : List CoreMintTx} {rows : List MintTx} (h : MintsAdded ext b ts s txs rows s') :
    Grown b.toInt64 s s' := by
  have hb : ∀ m ∈ rows, b.toInt64 ≤ m.blockIndex := by
    intro m hm
    obtain ⟨tx,-,hst⟩ := forall₂_mem_right h.stored hm
    exact Int64.le_of_eq hst.fields.1.symm
  obtain ⟨t,rfl⟩ := h.frame
  exact ⟨⟨[],by simp⟩,⟨[],by simp⟩,rows,h.appended,hb⟩

theorem MintStored.of_grown {ext : Externals} {b : UInt64} {ts : Option DateTime} {s s' : Db}
    {tx : CoreMintTx} {row : MintTx} (hr : ConfigRefs s) (hg : Grown b.toInt64 s s')
    (h : MintStored ext b ts s' tx row) : MintStored ext b ts s tx row := by
  obtain ⟨cfg,row₀,n,hl,hrow,rfl⟩ := h.stored
  rw [lookupMintConfig_grown ext tx hr hg] at hl
  exact ⟨cfg,row₀,n,hl,hrow,rfl⟩

theorem mintsAdded_nil {ext : Externals} {b : UInt64} {ts : Option DateTime} {s : Db}
    (hr : ConfigRefs s) : MintsAdded ext b ts s [] [] s := by
  refine ⟨⟨s.mintTxs,?_⟩,by simp,.nil,hr⟩
  have hid : s.counters.map (Counters.add .numMintTxsWithoutMatchingMintConfig 0) = s.counters := by
    cases s.counters <;> simp
  simp only [unattributed, List.countP_nil, hid]

theorem MintsAdded.trans {ext : Externals} {b : UInt64} {ts : Option DateTime} {s s' s'' : Db}
    {txs txs' : List CoreMintTx} {rows rows' : List MintTx} (hr : ConfigRefs s)
    (h : MintsAdded ext b ts s txs rows s') (h' : MintsAdded ext b ts s' txs' rows' s'') :
    MintsAdded ext b ts s (txs ++ txs') (rows ++ rows') s'' := by
  have hg := h.grown
  obtain ⟨⟨t,rfl⟩,hm,hst,-⟩ := h
  obtain ⟨⟨t',rfl⟩,hm',hst',hr'⟩ := h'
  refine ⟨⟨t',?_⟩,by rw [hm', hm, List.append_assoc],List.rel_append hst ?_,hr'⟩
  · simp only [Option.map_map, unattributed, List.countP_append]
    congr 2
    funext row
    exact Counters.add_add _ _ _ row
  -- mints of the same block do not change what a lookup finds
  · exact hst'.imp fun tx row => MintStored.of_grown hr hg

theorem returns_processMints {ext : Externals} {b : UInt64} {ts : Option DateTime}
    (txs : List CoreMintTx) {m : BalanceMap} {s s' : Db} {q : BalanceMap × List MintTx}
    (hr : ConfigRefs s) (h : (Program.accumEach (processMint ext b ts) m txs).Returns s q s') :
    q.1 = mintBalances m txs ∧ MintsAdded ext b ts s txs q.2 s' := by
  induction txs generalizing m s q with
  | nil =>
    obtain ⟨rfl,rfl⟩ := (Program.returns_accumEach_nil _ m s s' q).mp h
    exact ⟨rfl,mintsAdded_nil hr⟩
  | cons tx txs ih =>
    obtain ⟨p,r,s₁,hp,hrest,rfl⟩ := (Program.returns_accumEach_cons _ m tx txs s s' q).mp h
    obtain ⟨hp₁,hone⟩ := returns_processMint hr hp
    obtain ⟨hr₁,hmore⟩ := ih hone.refs hrest
    refine ⟨?_,hone.trans hr hmore⟩
    rw [hr₁, hp₁]
    rfl

/-! ### Burns -/

/-- The balances after one turn of the burn loop. -/
def chargeBurn (m : BalanceMap) (burn : BurnTxOut) : BalanceMap :=
  m.insert burn.getTokenId (if burn.getAmount > m.balance burn.getTokenId then 0
    else m.balance burn.getTokenId-burn.getAmount)

/-- The turns of the burn loop that find less than is burned. -/
def overBurns : BalanceMap → List BurnTxOut → ℕ
  | _, [] => 0
  | m, burn :: burns => (if burn.getAmount > m.balance burn.getTokenId then 1 else 0)+
      overBurns (chargeBurn m burn) burns

/-- The burn loop ran. -/
structure BurnsAdded (m : BalanceMap) (s : Db) (burns rows : List BurnTxOut) (s' : Db) : Prop where
  frame : ∃ t, s' = { s with
    burnTxOuts := t
    counters := s.counters.map (Counters.add .numBurnsExceedingBalance (overBurns m burns)) }
  appended : s'.burnTxOuts.rows = s.burnTxOuts.rows ++ rows
  stored : List.Forall₂ (fun burn row => ∃ n, row = Record.withId burn n) burns rows

theorem returns_processBurns (burns : List BurnTxOut) {m : BalanceMap} {s s' : Db}
    {q : BalanceMap × List BurnTxOut} (h : (Program.accumEach processBurn m burns).Returns s q s') :
    q.1 = burns.foldl chargeBurn m ∧ BurnsAdded m s burns q.2 s' := by
  induction burns generalizing m s q with
  | nil =>
    obtain ⟨rfl,rfl⟩ := (Program.returns_accumEach_nil _ m s s' q).mp h
    have hid : s'.counters.map (Counters.add .numBurnsExceedingBalance 0) = s'.counters := by
      cases s'.counters <;> simp
    refine ⟨rfl,⟨s'.burnTxOuts,?_⟩,by simp,.nil⟩
    simp only [overBurns, hid]
  | cons burn burns ih =>
    obtain ⟨p,r,s₁,hp,hrest,rfl⟩ := (Program.returns_accumEach_cons _ m burn burns s s' q).mp h
    simp only [processBurn, Program.returns_bind, Program.returns_pure] at hp
    obtain ⟨_,s₂,hw,row,_,hins,rfl,rfl⟩ := hp
    have h₂ := returns_when_inc hw
    obtain ⟨-,n,t,hi,-,rfl,rfl⟩ := (returns_insertUnsaved _ _ _ _ _ _ _ _).mp hins
    obtain ⟨-,-,ht⟩ := (Table.insert_eq_ok _ _ _ _).mp hi
    subst h₂
    obtain ⟨hr,⟨t',rfl⟩,hb,hst⟩ := ih hrest
    refine ⟨hr,⟨t',?_⟩,?_,.cons ⟨n,rfl⟩ hst⟩
    -- the increase of this turn and those of the later turns add up
    · simp only [Option.map_map, overBurns]
      congr 2
      funext c
      exact Counters.add_add _ _ _ c
    · rw [hb]
      change t.rows ++ r.2 = _
      rw [ht, List.append_assoc]
      rfl

/-! ### The block -/

theorem returns_setBalances (b : UInt64) (entries : List (Sigma fun _ : TokenId => UInt64))
    {s s' : Db} {u : Unit} (h : (Program.forEach entries fun e =>
      BlockBalance.insert (.new b e.1 e.2)).Returns s u s') :
    s' = { s with blockBalance := s.blockBalance ++ entries.map fun e => .new b e.1 e.2 } := by
  induction entries generalizing s with
  | nil =>
    rw [(Program.returns_forEach_nil _ s s' u).mp h]
    simp
  | cons e entries ih =>
    obtain ⟨s₁,he,hrest⟩ := (Program.returns_forEach_cons e entries _ s s' u).mp h
    -- a turn that is refused does not return
    simp only [BlockBalance.insert, Program.returns_tryUpdate] at he
    split at he
    · simp at he
    · split at he
      · obtain rfl := (Prod.mk.inj (Except.ok.inj he)).2
        rw [ih hrest]
        simp
      · simp at he

/-- The tables that only Gnosis transactions and audits write are the same. -/
structure SameGnosis (s s' : Db) : Prop where
  txs : s'.gnosisSafeTxs = s.gnosisSafeTxs
  deposits : s'.gnosisSafeDeposits = s.gnosisSafeDeposits
  withdrawals : s'.gnosisSafeWithdrawals = s.gnosisSafeWithdrawals
  auditedMints : s'.auditedMints = s.auditedMints
  auditedBurns : s'.auditedBurns = s.auditedBurns

/-- What a successful sync of a block leaves. -/
structure BlockSynced (ext : Externals) (b : BlockData) (s : Db) (data : SyncBlockData)
    (s' : Db) : Prop where
  index : b.block.index.toNat = Counters.get s .numBlocksSynced
  counters : ∃ row, s.counters = some row ∧ s'.counters = some (row.addBlock
    (unattributed data.mintTxs) (overBurns
      (mintBalances (previousBalances b.block.index s) b.contents.mintTxs)
      (burnTxOutsOf ext b.block.index b.timestamp b.contents.outputs)))
  grown : Grown b.block.index.toInt64 s s'
  refs : ConfigRefs s'
  configTxs : ∃ ts, s'.mintConfigTxs.rows = s.mintConfigTxs.rows ++ ts ∧
    ∀ t ∈ ts, t.blockIndex = b.block.index.toInt64
  mints : s'.mintTxs.rows = s.mintTxs.rows ++ data.mintTxs
  mintsStored : List.Forall₂ (MintStored ext b.block.index b.timestamp s) b.contents.mintTxs
    data.mintTxs
  burns : s'.burnTxOuts.rows = s.burnTxOuts.rows ++ data.burnTxOuts
  burnsStored : List.Forall₂ (fun burn row => ∃ n, row = Record.withId burn n)
    (burnTxOutsOf ext b.block.index b.timestamp b.contents.outputs) data.burnTxOuts
  balances : data.balanceMap =
    (burnTxOutsOf ext b.block.index b.timestamp b.contents.outputs).foldl chargeBurn
      (mintBalances (previousBalances b.block.index s) b.contents.mintTxs)
  blockBalance : s'.blockBalance = s.blockBalance ++
    data.balanceMap.entries.map fun e => .new b.block.index e.1 e.2
  blockAudit : s'.blockAuditData = s.blockAuditData.filter
    (fun x => decide (x.blockIndex ≠ b.block.index.toInt64)) ++ [.new b.block.index]
  gnosis : SameGnosis s s'

/-- The stages of a sync: the mint config txs, the mints, the burns, and the block itself with its
balances. -/
theorem returns_syncBlockWithConn_iff {ext : Externals} {b : BlockData} {s s' : Db}
    {data : SyncBlockData} :
    (syncBlockWithConn ext b.block b.contents b.timestamp).Returns s data s' ↔
    b.block.index.toNat = Counters.get s .numBlocksSynced ∧ ∃ s₁ mints s₂ burns s₃,
      (Program.forEach b.contents.validatedMintConfigTxs fun tx => do
        let _ ← MintConfigTx.insertFromCoreMintConfigTx ext b.block.index b.timestamp tx
        pure ()).Returns s () s₁ ∧
      (Program.accumEach (processMint ext b.block.index b.timestamp)
        (previousBalances b.block.index s₁) b.contents.mintTxs).Returns s₁ mints s₂ ∧
      (Program.accumEach processBurn mints.1 (burnTxOutsOf ext b.block.index b.timestamp
        b.contents.outputs)).Returns s₂ burns s₃ ∧
      s₃.counters.isSome = true ∧
      (Program.forEach burns.1.entries fun e =>
        BlockBalance.insert (.new b.block.index e.1 e.2)).Returns { s₃ with
          counters := s₃.counters.map (Counters.add .numBlocksSynced 1)
          blockAuditData := s₃.blockAuditData.filter (fun x =>
            decide (x.blockIndex ≠ b.block.index.toInt64)) ++ [.new b.block.index] } () s' ∧
      data = ⟨.new b.block.index,burns.1,mints.2,burns.2⟩ := by
  simp only [syncBlockWithConn, returns_transaction, Program.returns_bind, Program.returns_query,
    Program.returns_when, Program.returns_fail, and_false, false_or, Program.returns_pure,
    returns_inc_iff, BlockAuditData.set, Program.returns_update, BlockBalance.setBalancesForBlock]
  constructor
  · rintro ⟨_,s₀,⟨rfl,h₀⟩,_,s₁,⟨hidx,h₁⟩,_,s₂,hcfg,_,s₃,⟨rfl,h₃⟩,mints,s₄,hmints,burns,s₅,hburns,
      _,s₆,⟨hsome,h₆⟩,_,s₇,h₇,_,_,hset,rfl,rfl⟩
    -- the queries and the check of the index leave the state alone
    subst s₀ s₁ s₃ s₆ s₇
    exact ⟨not_ne_iff.mp hidx,s₂,mints,s₄,burns,s₅,hcfg,hmints,hburns,hsome,hset,rfl⟩
  · rintro ⟨hidx,s₁,mints,s₂,burns,s₃,hcfg,hmints,hburns,hsome,hset,rfl⟩
    exact ⟨_,s,⟨rfl,rfl⟩,(),s,⟨not_ne_iff.mpr hidx,rfl⟩,(),s₁,hcfg,_,s₁,⟨rfl,rfl⟩,mints,s₂,hmints,
      burns,s₃,hburns,(),_,⟨hsome,rfl⟩,(),_,rfl,(),s',hset,rfl,rfl⟩

theorem returns_syncBlockWithConn {ext : Externals} {b : BlockData} {s s' : Db}
    {data : SyncBlockData} (hr : ConfigRefs s)
    (h : (syncBlockWithConn ext b.block b.contents b.timestamp).Returns s data s') :
    BlockSynced ext b s data s' := by
  obtain ⟨hidx,s₂,mints,s₄,burns,s₅,hcfg,hmints,hburns,hsome,hset,rfl⟩ :=
    returns_syncBlockWithConn_iff.mp h
  have hcfg' := configsAdded_loop _ hcfg
  have hr₂ := hcfg'.refs hr
  obtain ⟨hm,hma⟩ := returns_processMints _ hr₂ hmints
  obtain ⟨hb,hba⟩ := returns_processBurns _ hburns
  have hset' := returns_setBalances _ _ hset
  have hg := hcfg'.grown.trans hma.grown
  have hstored := hma.stored.imp fun tx row => MintStored.of_grown hr hcfg'.grown
  -- the states in between stay variables: each table is traced back on its own
  obtain ⟨t,u,h₂⟩ := hcfg'.frame
  obtain ⟨t',h₄⟩ := hma.frame
  obtain ⟨t'',h₅⟩ := hba.frame
  have hprev' : previousBalances b.block.index s₂ = previousBalances b.block.index s := by
    rw [h₂]
    rfl
  rw [hprev'] at hm
  rw [hm] at hb
  have hmintTxs : s'.mintTxs = s₄.mintTxs := by rw [hset', h₅]
  have hconfigs : s'.mintConfigs = s₄.mintConfigs := by rw [hset', h₅]
  have hconfigTxs : s'.mintConfigTxs = s₄.mintConfigTxs := by rw [hset', h₅]
  have hburnTxOuts : s'.burnTxOuts = s₅.burnTxOuts := by rw [hset']
  exact {
    index := hidx
    counters := by
      have hcount : s'.counters = s₅.counters.map (Counters.add .numBlocksSynced 1) := by
        rw [hset']
      have hcount₅ := congrArg Db.counters h₅
      have hcount₄ := congrArg Db.counters h₄
      have hcount₂ := congrArg Db.counters h₂
      simp only at hcount₅ hcount₄ hcount₂
      rw [hcount₅, hcount₄, hcount₂] at hcount
      cases hc : s.counters with
      | none => simp [hcount₅, hcount₄, hcount₂, hc] at hsome
      | some row =>
        refine ⟨row,rfl,?_⟩
        simp only [hcount, hc, Option.map_some, hm]
        rfl
    grown := by
      have htxs := hg.txs
      have hcs := hg.configs
      have hms := hg.mints
      simp only [← hmintTxs, ← hconfigs, ← hconfigTxs] at htxs hcs hms
      exact ⟨htxs,hcs,hms⟩
    refs := ⟨hmintTxs ▸ hconfigs ▸ hma.refs.ofMint,hconfigs ▸ hconfigTxs ▸ hma.refs.ofConfig⟩
    configTxs := by
      obtain ⟨ts,hts,hidx⟩ := hcfg'.txs
      refine ⟨ts,?_,hidx⟩
      rw [hconfigTxs, h₄]
      exact hts
    mints := by
      rw [hmintTxs, hma.appended, h₂]
    mintsStored := hstored
    burns := by
      rw [hburnTxOuts, hba.appended, h₄, h₂]
    burnsStored := hba.stored
    balances := hb
    blockBalance := by rw [hset', h₅, h₄, h₂]
    blockAudit := by rw [hset', h₅, h₄, h₂]
    gnosis := by
      rw [hset', h₅, h₄, h₂]
      exact ⟨rfl,rfl,rfl,rfl,rfl⟩ }

/-- A synced block is counted. -/
theorem BlockSynced.counted {ext : Externals} {b : BlockData} {s s' : Db} {data : SyncBlockData}
    (h : BlockSynced ext b s data s') :
    Counters.get s' .numBlocksSynced = Counters.get s .numBlocksSynced+1 := by
  obtain ⟨row,hrow,hrow'⟩ := h.counters
  have hne₁ : Counter.numBlocksSynced ≠ .numBurnsExceedingBalance := by decide
  have hne₂ : Counter.numBlocksSynced ≠ .numMintTxsWithoutMatchingMintConfig := by decide
  simp only [Counters.get, hrow, hrow', Option.getD_some, Counters.addBlock, Counters.add_same,
    Counters.add_ne hne₁, Counters.add_ne hne₂]

end ReserveAuditor
