import ReserveAuditor.Totality
import ReserveAuditor.Balances

/-! Which blocks a sync accepts: the next one, if what it adds breaks no uniqueness constraint. -/
namespace ReserveAuditor
open Txn Relational

variable {ext : Externals} {s s' : Db} {b : BlockData} {idx : UInt64} {ts : Option DateTime}

/-! ### The rows of mint config txs -/

/-- The rows that a mint config tx is stored as: its own, and one for each of its configs. -/
structure ConfigTxStored (ext : Externals) (idx : UInt64) (ts : Option DateTime)
    (tx : CoreMintConfigTx) (rows : MintConfigTx × List MintConfig) : Prop where
  row : ∃ n, rows.1 = Record.withId (MintConfigTx.fromCoreMintConfigTx ext idx ts tx) n
  configs : ∃ core, rows.1.decode ext = .ok core ∧ List.Forall₂ (fun c r => ∃ n,
    r = Record.withId (MintConfig.fromCoreMintConfig ext (key rows.1) c) n) core.txPrefix.configs rows.2

theorem returns_insertConfigs {id : ℕ} (cs : List CoreMintConfig) {u : Unit}
    (h : (Program.forEach cs fun config => do
      let _ ← MintConfig.insertFromCoreMintConfig ext id config
      pure ()).Returns s u s') : ∃ t rows, s' = { s with mintConfigs := t } ∧
      t.rows = s.mintConfigs.rows ++ rows ∧ List.Forall₂ (fun c r => ∃ n,
        r = Record.withId (MintConfig.fromCoreMintConfig ext id c) n) cs rows := by
  induction cs generalizing s with
  | nil =>
    rw [(Program.returns_forEach_nil _ s s' u).mp h]
    exact ⟨s.mintConfigs,[],rfl,by simp,.nil⟩
  | cons c cs ih =>
    obtain ⟨s₁,hc,hrest⟩ := (Program.returns_forEach_cons c cs _ s s' u).mp h
    simp only [MintConfig.insertFromCoreMintConfig, MintConfig.insert, Program.returns_bind,
      returns_insertInto, Table.insert_eq_ok, Program.returns_pure] at hc
    obtain ⟨_,_,⟨n,_,⟨t,⟨-,-,ht⟩,-,rfl⟩,rfl,rfl⟩,-,rfl⟩ := hc
    obtain ⟨t',rows,rfl,ht',hrows⟩ := ih hrest
    refine ⟨t',_ :: rows,rfl,?_,.cons ⟨n,rfl⟩ hrows⟩
    rw [ht']
    change t.rows ++ rows = _
    rw [ht, List.append_assoc]
    rfl

theorem returns_insertConfigTx {tx : CoreMintConfigTx} {r : MintConfigTx}
    (h : (MintConfigTx.insertFromCoreMintConfigTx ext idx ts tx).Returns s r s') :
    ∃ t u rows, s' = { s with mintConfigTxs := t, mintConfigs := u } ∧
      t.rows = s.mintConfigTxs.rows ++ [rows.1] ∧ u.rows = s.mintConfigs.rows ++ rows.2 ∧
      ConfigTxStored ext idx ts tx rows := by
  simp only [MintConfigTx.insertFromCoreMintConfigTx, MintConfigTx.insert, Program.returns_bind,
    Program.returns_ofExcept, returns_transaction, returns_insertInto, Table.insert_eq_ok,
    Program.returns_pure] at h
  obtain ⟨core,s₀,⟨hcore,h₀⟩,id,s₁,⟨n,_,⟨t,⟨-,-,ht⟩,-,rfl⟩,_,_,hcs,rfl,rfl⟩,-,rfl⟩ := h
  subst s₀
  obtain ⟨u,rows,rfl,hu,hrows⟩ := returns_insertConfigs _ hcs
  refine ⟨t,u,(_,rows),rfl,ht,hu,⟨_,rfl⟩,core,hcore,?_⟩
  rwa [Table.key_withId]

/-- The mint config txs of a block were stored. -/
structure ConfigTxsStored (ext : Externals) (b : BlockData) (s s' : Db)
    (added : List (MintConfigTx × List MintConfig)) : Prop where
  stored : List.Forall₂ (ConfigTxStored ext b.block.index b.timestamp)
    b.contents.validatedMintConfigTxs added
  configTxs : s'.mintConfigTxs.rows = s.mintConfigTxs.rows ++ added.map Prod.fst
  configs : s'.mintConfigs.rows = s.mintConfigs.rows ++ added.flatMap Prod.snd

theorem returns_insertConfigTxs (txs : List CoreMintConfigTx) {u : Unit}
    (h : (Program.forEach txs fun tx => do
      let _ ← MintConfigTx.insertFromCoreMintConfigTx ext idx ts tx
      pure ()).Returns s u s') : ∃ added, List.Forall₂ (ConfigTxStored ext idx ts) txs added ∧
      s'.mintConfigTxs.rows = s.mintConfigTxs.rows ++ added.map Prod.fst ∧
      s'.mintConfigs.rows = s.mintConfigs.rows ++ added.flatMap Prod.snd := by
  induction txs generalizing s with
  | nil =>
    rw [(Program.returns_forEach_nil _ s s' u).mp h]
    exact ⟨[],.nil,by simp,by simp⟩
  | cons tx txs ih =>
    obtain ⟨s₁,hc,hrest⟩ := (Program.returns_forEach_cons tx txs _ s s' u).mp h
    simp only [Program.returns_bind, Program.returns_pure] at hc
    obtain ⟨r,_,hr,-,rfl⟩ := hc
    obtain ⟨t,u,rows,rfl,ht,hu,hstored⟩ := returns_insertConfigTx hr
    -- each transaction appends itself and its configs, in this order
    obtain ⟨added,hadded,htxs,hconfigs⟩ := ih hrest
    refine ⟨rows :: added,.cons hstored hadded,?_,?_⟩
    · rw [htxs]
      change t.rows ++ _ = _
      rw [ht, List.append_assoc]
      rfl
    · rw [hconfigs]
      change u.rows ++ _ = _
      rw [hu, List.append_assoc]
      rfl

theorem returns_configTxsStored {data : SyncBlockData} (hr : ConfigRefs s)
    (h : (syncBlockWithConn ext b.block b.contents b.timestamp).Returns s data s') :
    ∃ added, ConfigTxsStored ext b s s' added := by
  obtain ⟨-,s₁,mints,s₂,burns,s₃,hcfg,hmints,hburns,-,hset,-⟩ := returns_syncBlockWithConn_iff.mp h
  obtain ⟨added,hadded,htxs,hconfigs⟩ := returns_insertConfigTxs _ hcfg
  obtain ⟨-,hma⟩ := returns_processMints _ ((configsAdded_loop _ hcfg).refs hr) hmints
  obtain ⟨-,hba⟩ := returns_processBurns _ hburns
  obtain ⟨t,h₂⟩ := hma.frame
  obtain ⟨t',h₃⟩ := hba.frame
  have hset' := returns_setBalances _ _ hset
  exact ⟨added,hadded,by rw [hset', h₃, h₂, ← htxs],by rw [hset', h₃, h₂, ← hconfigs]⟩

/-! ### Acceptance -/

/-- The burn view key matches the output. -/
def burned (ext : Externals) (txOut : TxOut) : Bool :=
  match ext.viewKeyMatch txOut with
  | .ok _ => true
  | .error _ => false

/-- The block is the next one, and the mint config txs, mints and burns in it break no uniqueness
constraint: among each other, and with what is stored. -/
structure Acceptable (ext : Externals) (b : BlockData) (s : Db) : Prop where
  next : b.block.index.toNat = Counters.get s .numBlocksSynced
  configTxTokens : (b.contents.validatedMintConfigTxs.map fun tx => tx.txPrefix.tokenId).Nodup
  configTxNonces : Table.NewKeys MintConfigTx.nonceHex s.mintConfigTxs
    (b.contents.validatedMintConfigTxs.map fun tx => Hex.encode tx.txPrefix.nonce)
  mintNonces : Table.NewKeys MintTx.nonceHex s.mintTxs
    (b.contents.mintTxs.map fun tx => Hex.encode tx.txPrefix.nonce)
  burnKeys : Table.NewKeys BurnTxOut.publicKeyHex s.burnTxOuts
    ((b.contents.outputs.filter (burned ext)).map fun txOut => Hex.encode txOut.publicKey)

/-- The other crates do their part: the mint config txs of the block decode, it can be told which
config each of its mints has, and the recipients of the mints have printable addresses. -/
structure Readable (ext : Externals) (b : BlockData) (s : Db) : Prop where
  configTxs : ∀ tx ∈ b.contents.validatedMintConfigTxs, ∃ core,
    ext.decodeMintConfigTx (ext.encodeMintConfigTx tx) = .ok core
  lookups : ∀ tx ∈ b.contents.mintTxs, ∃ cfg, lookupMintConfig ext b.block.index tx s = .ok cfg
  recipients : ∀ tx ∈ b.contents.mintTxs, ∃ addr,
    ext.b58Encode tx.txPrefix.spendPublicKey tx.txPrefix.viewPublicKey = .ok addr

/-- A sync of the block returns, if the database is a reached one. -/
def Accepts (ext : Externals) (b : BlockData) (s : Db) : Prop :=
  Acceptable ext b s ∧ Readable ext b s

theorem burnKeys_eq (outputs : List TxOut) :
    (burnTxOutsOf ext idx ts outputs).map BurnTxOut.publicKeyHex =
      (outputs.filter (burned ext)).map fun txOut => Hex.encode txOut.publicKey := by
  simp only [burnTxOutsOf, fromCoreTxOut_toOption]
  induction outputs with
  | nil => rfl
  | cons txOut outputs ih =>
    cases hv : ext.viewKeyMatch txOut with
    | error e => simpa [List.filterMap_cons, hv, burned, Except.toOption] using ih
    | ok amount => simpa [List.filterMap_cons, hv, burned, Except.toOption] using ih

theorem burnTxOutsOf_id {outputs : List TxOut} {burn : BurnTxOut}
    (h : burn ∈ burnTxOutsOf ext idx ts outputs) : burn.id = none := by
  obtain ⟨txOut,-,hout⟩ := List.mem_filterMap.mp h
  rw [fromCoreTxOut_toOption, Option.map_eq_some_iff] at hout
  obtain ⟨amount,-,rfl⟩ := hout
  rfl

/-! ### What an accepted block satisfies -/

theorem acceptable_of_returns {data : SyncBlockData} (hr : ConfigRefs s)
    (h : (syncBlockWithConn ext b.block b.contents b.timestamp).Returns s data s') :
    Acceptable ext b s := by
  have hsynced := returns_syncBlockWithConn hr h
  obtain ⟨added,hadded,htxs,-⟩ := returns_configTxsStored hr h
  -- the stored rows have the nonces and tokens of the block's transactions
  have hrows : List.Forall₂ (fun tx (row : MintConfigTx) =>
      row.nonceHex = Hex.encode tx.txPrefix.nonce ∧ (row.blockIndex,row.tokenId) =
        (b.block.index.toInt64,tx.txPrefix.tokenId.toInt64))
      b.contents.validatedMintConfigTxs (added.map Prod.fst) := by
    refine List.forall₂_map_right_iff.mpr (hadded.imp fun tx rows hst => ?_)
    obtain ⟨n,hn⟩ := hst.row
    rw [hn]
    exact ⟨rfl,rfl⟩
  -- each unique column: the new keys are distinct, and none was there before
  have hkeys := Table.newKeys_of_append MintConfigTx.nonceHex htxs
    fun a b hc he => by simp [Record.clash, he] at hc
  have htokens := Table.newKeys_of_append (fun r : MintConfigTx => (r.blockIndex,r.tokenId))
    htxs fun a b hc he => by
      simp only [Prod.mk.injEq] at he
      simp only [Record.clash, he, and_self, ite_true] at hc
      split at hc <;> simp at hc
  have hmints := Table.newKeys_of_append MintTx.nonceHex hsynced.mints
    fun a b hc he => by simp [Record.clash, he] at hc
  have hburns := Table.newKeys_of_append BurnTxOut.publicKeyHex hsynced.burns
    fun a b hc he => by simp [Record.clash, he] at hc
  rw [forall₂_map_eq hrows fun tx row h => h.1] at hkeys
  rw [forall₂_map_eq hrows fun tx row h => h.2] at htokens
  rw [forall₂_map_eq hsynced.mintsStored fun tx row hst => hst.fields.2.2.2.1] at hmints
  rw [forall₂_map_eq (f := BurnTxOut.publicKeyHex) hsynced.burnsStored fun burn row hst => by
    obtain ⟨n,rfl⟩ := hst
    rfl, burnKeys_eq] at hburns
  refine ⟨hsynced.index,?_,hkeys,hmints,hburns⟩
  -- within one block the pair of index and token is unique when the token is
  refine (List.Nodup.of_map (fun t : TokenId => (b.block.index.toInt64,t.toInt64)) ?_)
  rw [List.map_map]
  exact htokens.nodup

theorem readable_of_returns {data : SyncBlockData} (hr : ConfigRefs s)
    (h : (syncBlockWithConn ext b.block b.contents b.timestamp).Returns s data s') :
    Readable ext b s := by
  have hsynced := returns_syncBlockWithConn hr h
  obtain ⟨added,hadded,-,-⟩ := returns_configTxsStored hr h
  have hmint (tx : CoreMintTx) (htx : tx ∈ b.contents.mintTxs) :
      ∃ row, MintStored ext b.block.index b.timestamp s tx row := by
    obtain ⟨row,-,hst⟩ := forall₂_mem_right hsynced.mintsStored.flip htx
    exact ⟨row,hst⟩
  refine ⟨fun tx htx => ?_,fun tx htx => ?_,fun tx htx => ?_⟩
  · obtain ⟨rows,-,⟨n,hn⟩,core,hcore,-⟩ := forall₂_mem_right hadded.flip htx
    rw [MintConfigTx.decode, hn] at hcore
    change (ext.decodeMintConfigTx (ext.encodeMintConfigTx tx)).mapError Error.decode = _ at hcore
    cases hd : ext.decodeMintConfigTx (ext.encodeMintConfigTx tx) with
    | ok core => exact ⟨core,rfl⟩
    | error e => simp [hd, Except.mapError] at hcore
  · obtain ⟨row,hst⟩ := hmint tx htx
    -- the lookup of a stored mint had returned
    obtain ⟨cfg,-,-,hl,-,-⟩ := hst.stored
    exact ⟨cfg,hl⟩
  · obtain ⟨row,hst⟩ := hmint tx htx
    obtain ⟨cfg,row₀,-,-,hrow,-⟩ := hst.stored
    unfold MintTx.fromCoreMintTx at hrow
    cases hb : ext.b58Encode tx.txPrefix.spendPublicKey tx.txPrefix.viewPublicKey with
    | ok addr => exact ⟨addr,rfl⟩
    | error e => simp [hb, Except.mapError, bind, Except.bind] at hrow

/-! ### What satisfies it is accepted -/

theorem insertConfigs_return (ext : Externals) {id : ℕ} {t : MintConfigTx} (cs : List CoreMintConfig)
    (ht : s.mintConfigTxs.find id = some t) : ∃ s', (Program.forEach cs fun config => do
      let _ ← MintConfig.insertFromCoreMintConfig ext id config
      pure ()).Returns s () s' := by
  refine Program.forEach_returns (I := fun _ s => s.mintConfigTxs.find id = some t) ?_ cs ht
  intro c cs s ht
  obtain ⟨u,hu,-⟩ := s.mintConfigs.insert_returns (r := .fromCoreMintConfig ext id c)
    fun _ _ => rfl
  have hfk : (s.mintConfigTxs.find (MintConfig.fromCoreMintConfig ext id c).mintConfigTxId).isSome =
      true := Option.isSome_of_eq_some ht
  simp only [MintConfig.insertFromCoreMintConfig, MintConfig.insert, Program.returns_bind,
    returns_insertInto, Program.returns_pure]
  exact ⟨{ s with mintConfigs := u },⟨_,_,⟨_,_,⟨u,hu,hfk,rfl⟩,rfl,rfl⟩,trivial,rfl⟩,ht⟩

/-- The row of a mint config tx breaks no constraint. -/
theorem insertConfigTx_return (ts : Option DateTime) {tx core : CoreMintConfigTx}
    (hcore : ext.decodeMintConfigTx (ext.encodeMintConfigTx tx) = .ok core)
    (hnonce : ∀ r ∈ s.mintConfigTxs.rows, r.nonceHex ≠ Hex.encode tx.txPrefix.nonce)
    (htoken : ∀ r ∈ s.mintConfigTxs.rows,
      (r.blockIndex,r.tokenId) ≠ (idx.toInt64,tx.txPrefix.tokenId.toInt64)) :
    ∃ r s', (MintConfigTx.insertFromCoreMintConfigTx ext idx ts tx).Returns s r s' := by
  let row := MintConfigTx.fromCoreMintConfigTx ext idx ts tx
  obtain ⟨t,ht,hrows⟩ := s.mintConfigTxs.insert_returns (r := row) fun x hx => by
    -- neither of the two unique constraints is violated
    have hblock : ¬(x.blockIndex = row.blockIndex ∧ x.tokenId = row.tokenId) :=
      fun he => htoken x hx (Prod.ext he.1 he.2)
    have hhex : x.nonceHex ≠ row.nonceHex := hnonce x hx
    simp only [Record.clash, hhex, hblock, ite_false]
  -- the configs refer to the row that was just stored
  have hfind : t.find s.mintConfigTxs.nextKey = some (Record.withId row s.mintConfigTxs.nextKey) :=
    Table.find_last hrows rfl
  obtain ⟨s',hs'⟩ := insertConfigs_return (s := { s with mintConfigTxs := t }) ext
    core.txPrefix.configs hfind
  have hdecode : row.decode ext = .ok core := by
    rw [MintConfigTx.decode]
    change (ext.decodeMintConfigTx (ext.encodeMintConfigTx tx)).mapError Error.decode = _
    rw [hcore]
    rfl
  simp only [MintConfigTx.insertFromCoreMintConfigTx, MintConfigTx.insert, Program.returns_bind,
    Program.returns_ofExcept, returns_transaction, returns_insertInto, Program.returns_pure]
  exact ⟨_,s',core,s,⟨hdecode,rfl⟩,_,s',⟨_,_,⟨t,ht,trivial,rfl⟩,(),s',hs',rfl,rfl⟩,rfl,rfl⟩

theorem insertConfigTxs_return (ts : Option DateTime) (txs : List CoreMintConfigTx)
    (hcore : ∀ tx ∈ txs, ∃ core, ext.decodeMintConfigTx (ext.encodeMintConfigTx tx) = .ok core)
    (hnonces : Table.NewKeys MintConfigTx.nonceHex s.mintConfigTxs
      (txs.map fun tx => Hex.encode tx.txPrefix.nonce))
    (htokens : Table.NewKeys (fun r : MintConfigTx => (r.blockIndex,r.tokenId)) s.mintConfigTxs
      (txs.map fun tx => (idx.toInt64,tx.txPrefix.tokenId.toInt64))) :
    ∃ s', (Program.forEach txs fun tx => do
      let _ ← MintConfigTx.insertFromCoreMintConfigTx ext idx ts tx
      pure ()).Returns s () s' := by
  refine Program.forEach_returns (I := fun txs s =>
    (∀ tx ∈ txs, ∃ core, ext.decodeMintConfigTx (ext.encodeMintConfigTx tx) = .ok core) ∧
    Table.NewKeys MintConfigTx.nonceHex s.mintConfigTxs
      (txs.map fun tx => Hex.encode tx.txPrefix.nonce) ∧
    Table.NewKeys (fun r : MintConfigTx => (r.blockIndex,r.tokenId)) s.mintConfigTxs
      (txs.map fun tx => (idx.toInt64,tx.txPrefix.tokenId.toInt64))) ?_ txs ⟨hcore,hnonces,htokens⟩
  -- the keys of the rest are new in the state that the first transaction leaves
  rintro tx txs s ⟨hcore,hnonces,htokens⟩
  obtain ⟨core,htx⟩ := hcore tx List.mem_cons_self
  obtain ⟨r,s₁,hr⟩ := insertConfigTx_return ts htx hnonces.head htokens.head
  obtain ⟨t,u,rows,hs₁,ht,-,⟨n,hn⟩,-⟩ := returns_insertConfigTx hr
  have ht₁ : s₁.mintConfigTxs.rows = s.mintConfigTxs.rows ++ [rows.1] := by rw [hs₁, ← ht]
  refine ⟨s₁,?_,fun tx htx => hcore tx (List.mem_cons_of_mem _ htx),hnonces.tail ?_ ht₁,
    htokens.tail ?_ ht₁⟩
  · exact (Program.returns_bind _ _ _ _ _).mpr ⟨r,s₁,hr,(Program.returns_pure _ _ _ _).mpr ⟨rfl,rfl⟩⟩
  · rw [hn]
    rfl
  · rw [hn]
    rfl

theorem when_inc_return (p : Prop) [Decidable p] (c : Counter) (hc : s.counters.isSome = true) :
    ∃ s', (Program.when p (Counters.inc c)).Returns s () s' := by
  by_cases hp : p
  · exact ⟨_,(Program.returns_when _ _ _ _ _).mpr (Or.inl ⟨hp,(returns_inc_iff c s _ ()).mpr
      ⟨hc,rfl⟩⟩)⟩
  · exact ⟨s,(Program.returns_when _ _ _ _ _).mpr (Or.inr ⟨hp,rfl⟩)⟩

theorem processMint_return (ts : Option DateTime) (m : BalanceMap) {tx : CoreMintTx}
    {cfg : Option MintConfig} {addr : String}
    (hl : lookupMintConfig ext idx tx s = .ok cfg)
    (haddr : ext.b58Encode tx.txPrefix.spendPublicKey tx.txPrefix.viewPublicKey = .ok addr)
    (hnonce : ∀ r ∈ s.mintTxs.rows, r.nonceHex ≠ Hex.encode tx.txPrefix.nonce)
    (hc : s.counters.isSome = true) : ∃ p s', (processMint ext idx ts m tx).Returns s p s' := by
  obtain ⟨s₁,hw⟩ := when_inc_return (cfg.isNone = true) .numMintTxsWithoutMatchingMintConfig hc
  have hs₁ := returns_when_inc hw
  have hfrom : ∃ row, MintTx.fromCoreMintTx ext idx ts (cfg.bind MintConfig.id) tx = .ok row := by
    simp [MintTx.fromCoreMintTx, haddr, Except.mapError, bind, Except.bind, pure, Except.pure]
  obtain ⟨row,hrow⟩ := hfrom
  obtain ⟨hnone,-,-,-,hhex,-,hcid⟩ := fromCoreMintTx_fields hrow
  -- the foreign key names a stored config, if it names one
  have hfk : (row.mintConfigId.all fun id => (s₁.mintConfigs.find id).isSome) = true := by
    rw [hcid]
    cases hb : cfg.bind MintConfig.id with
    | none => rfl
    | some n =>
      obtain ⟨c,-,hfind⟩ := (lookup_id hl).2 n hb
      rw [hs₁, Option.all_some]
      exact Option.isSome_of_eq_some hfind
  obtain ⟨t,ht,-⟩ := s₁.mintTxs.insert_returns (r := row) fun x hx => by
    rw [hs₁] at hx
    have hne : x.nonceHex ≠ row.nonceHex := hhex ▸ hnonce x hx
    simp only [Record.clash, hne, ite_false]
  have hins : row.insert.Returns s₁ _ _ :=
    (returns_insertUnsaved _ _ _ _ _ _ _ _).mpr ⟨hnone,_,t,ht,hfk,rfl,rfl⟩
  simp only [processMint, Program.returns_bind, Program.returns_query, Program.returns_ofExcept,
    Program.returns_pure, MintTx.insertFromCoreMintTx]
  exact ⟨_,_,_,s,⟨rfl,rfl⟩,cfg,s,⟨hl,rfl⟩,(),s₁,hw,_,_,⟨row,s₁,⟨hrow,rfl⟩,hins⟩,rfl,rfl⟩

theorem processMints_return (ts : Option DateTime) (m : BalanceMap) (txs : List CoreMintTx)
    (hr : ConfigRefs s)
    (hl : ∀ tx ∈ txs, ∃ cfg, lookupMintConfig ext idx tx s = .ok cfg)
    (haddr : ∀ tx ∈ txs, ∃ addr,
      ext.b58Encode tx.txPrefix.spendPublicKey tx.txPrefix.viewPublicKey = .ok addr)
    (hnonces : Table.NewKeys MintTx.nonceHex s.mintTxs
      (txs.map fun tx => Hex.encode tx.txPrefix.nonce))
    (hc : s.counters.isSome = true) :
    ∃ q s', (Program.accumEach (processMint ext idx ts) m txs).Returns s q s' := by
  refine Program.accumEach_returns (I := fun txs t => ConfigRefs t ∧
    (∀ tx ∈ txs, (∃ cfg, lookupMintConfig ext idx tx t = .ok cfg) ∧ ∃ addr,
      ext.b58Encode tx.txPrefix.spendPublicKey tx.txPrefix.viewPublicKey = .ok addr) ∧
    Table.NewKeys MintTx.nonceHex t.mintTxs (txs.map fun tx => Hex.encode tx.txPrefix.nonce) ∧
    t.counters.isSome = true) ?_ txs ⟨hr,fun tx htx => ⟨hl tx htx,haddr tx htx⟩,hnonces,hc⟩
  rintro m tx txs s ⟨hr,htxs,hnonces,hc⟩
  obtain ⟨⟨cfg,hl⟩,addr,haddr⟩ := htxs tx List.mem_cons_self
  obtain ⟨p,s₁,hp⟩ := processMint_return ts m hl haddr hnonces.head hc
  obtain ⟨-,hadded⟩ := returns_processMint hr hp
  have hgrown := hadded.grown
  refine ⟨p,s₁,hp,hadded.refs,fun tx' htx' => ?_,hnonces.tail ?_ hadded.appended,?_⟩
  · -- the mint that was just stored is of this block, which the lookup does not look at
    rw [lookupMintConfig_grown ext tx' hr hgrown]
    exact htxs tx' (List.mem_cons_of_mem tx htx')
  · obtain ⟨hst,-⟩ := List.forall₂_cons.mp hadded.stored
    exact hst.fields.2.2.2.1
  · obtain ⟨t,ht⟩ := hadded.frame
    rw [ht, Option.isSome_map]
    exact hc

theorem processBurns_return (burns : List BurnTxOut) {m : BalanceMap}
    (hid : ∀ burn ∈ burns, burn.id = none)
    (hkeys : Table.NewKeys BurnTxOut.publicKeyHex s.burnTxOuts (burns.map BurnTxOut.publicKeyHex))
    (hc : s.counters.isSome = true) :
    ∃ q s', (Program.accumEach processBurn m burns).Returns s q s' := by
  refine Program.accumEach_returns (I := fun burns t => (∀ burn ∈ burns, burn.id = none) ∧
    Table.NewKeys BurnTxOut.publicKeyHex t.burnTxOuts (burns.map BurnTxOut.publicKeyHex) ∧
    t.counters.isSome = true) ?_ burns ⟨hid,hkeys,hc⟩
  rintro m burn burns s ⟨hid,hkeys,hc⟩
  obtain ⟨s₁,hw⟩ := when_inc_return (burn.getAmount > m.balance burn.getTokenId)
    .numBurnsExceedingBalance hc
  have hs₁ := returns_when_inc hw
  obtain ⟨t,ht,hrows⟩ := s₁.burnTxOuts.insert_returns (r := burn) fun x hx => by
    rw [hs₁] at hx
    simp only [Record.clash, hkeys.head x hx, ite_false]
  -- a burn has no foreign key, so a new public key is all it takes
  have hins : burn.insert.Returns s₁ _ _ := (returns_insertUnsaved _ _ _ _ _ _ _ _).mpr
    ⟨hid burn List.mem_cons_self,_,t,ht,rfl,rfl,rfl⟩
  have hrun : ∃ p, (processBurn m burn).Returns s p { s₁ with burnTxOuts := t } := by
    simp only [processBurn, Program.returns_bind, Program.returns_pure]
    exact ⟨_,(),s₁,hw,_,_,hins,rfl,rfl⟩
  obtain ⟨p,hrun⟩ := hrun
  refine ⟨p,_,hrun,fun x hx => hid x (List.mem_cons_of_mem burn hx),
    hkeys.tail (r := Record.withId burn s₁.burnTxOuts.nextKey) rfl ?_,?_⟩
  · change t.rows = _
    rw [hrows, hs₁]
  · change s₁.counters.isSome = true
    rw [hs₁, Option.isSome_map]
    exact hc

/-- The balances of a block are stored once the block is, if no token has one already. -/
theorem setBalances_return (idx : UInt64) (entries : List (Sigma fun _ : TokenId => UInt64))
    (hkeys : entries.NodupKeys)
    (hfresh : ∀ r ∈ s.blockBalance, ∀ e ∈ entries,
      ¬(r.blockIndex = idx.toInt64 ∧ r.tokenId = e.1.toInt64))
    (haudit : ∃ x ∈ s.blockAuditData, x.blockIndex = idx.toInt64) :
    ∃ s', (Program.forEach entries fun e =>
      BlockBalance.insert (.new idx e.1 e.2)).Returns s () s' := by
  refine Program.forEach_returns (I := fun entries s => entries.NodupKeys ∧
    (∀ r ∈ s.blockBalance, ∀ e ∈ entries,
      ¬(r.blockIndex = idx.toInt64 ∧ r.tokenId = e.1.toInt64)) ∧
    ∃ x ∈ s.blockAuditData, x.blockIndex = idx.toInt64) ?_ entries
    ⟨hkeys,hfresh,haudit⟩
  rintro e entries s ⟨hkeys,hfresh,haudit⟩
  obtain ⟨hnot,hkeys⟩ := List.nodupKeys_cons.mp hkeys
  -- no row for this block and token yet
  have hunique : ¬s.blockBalance.any (fun x => decide (x.blockIndex = idx.toInt64 ∧
      x.tokenId = e.1.toInt64)) = true := by
    simp only [List.any_eq_true, decide_eq_true_eq]
    rintro ⟨r,hr,he⟩
    exact hfresh r hr e List.mem_cons_self he
  -- the audit row of the block, which the balances refer to, is there
  have hforeign : s.blockAuditData.any (fun x => decide (x.blockIndex = idx.toInt64)) = true := by
    simpa using haudit
  refine ⟨{ s with blockBalance := s.blockBalance ++ [.new idx e.1 e.2] },?_,hkeys,?_,haudit⟩
  · exact (Program.returns_tryUpdate _ _ _ _).mpr ((if_neg hunique).trans (if_pos hforeign))
  · intro r hr e' he'
    rcases List.mem_append.mp hr with hr | hr
    · exact hfresh r hr e' (List.mem_cons_of_mem e he')
    · rw [List.mem_singleton.mp hr]
      rintro ⟨-,ht⟩
      -- the map lists each token once
      have hkey : e.1 = e'.1 := (toInt64_inj _ _).mp ht
      exact hnot (hkey ▸ List.mem_keys_of_mem he')

/-! ### The stages of a sync -/

/-- The block is the next one, and its mint config txs are stored. -/
structure Opened (ext : Externals) (b : BlockData) (s s₁ : Db) : Prop where
  next : b.block.index.toNat = Counters.get s .numBlocksSynced
  configTxs : (Program.forEach b.contents.validatedMintConfigTxs fun tx => do
    let _ ← MintConfigTx.insertFromCoreMintConfigTx ext b.block.index b.timestamp tx
    pure ()).Returns s () s₁

section Opened
variable {s₁ : Db} (h : Opened ext b s s₁)
include h

theorem Opened.grown : Grown b.block.index.toInt64 s s₁ := (configsAdded_loop _ h.configTxs).grown

theorem Opened.refs (hr : ConfigRefs s) : ConfigRefs s₁ := (configsAdded_loop _ h.configTxs).refs hr

theorem Opened.isSome (hc : s.counters.isSome = true) : s₁.counters.isSome = true := by
  obtain ⟨t,u,rfl⟩ := (configsAdded_loop _ h.configTxs).frame
  exact hc

theorem Opened.previousBalances :
    previousBalances b.block.index s₁ = ReserveAuditor.previousBalances b.block.index s := by
  obtain ⟨t,u,rfl⟩ := (configsAdded_loop _ h.configTxs).frame
  rfl

end Opened

/-- The loop over the mints of a block. -/
def mintsLoop (ext : Externals) (b : BlockData) (s : Db) (txs : List CoreMintTx) :
    Conn (BalanceMap × List MintTx) :=
  Program.accumEach (processMint ext b.block.index b.timestamp)
    (previousBalances b.block.index s) txs

/-- After the loops over its mints and burns a block is kept: its own rows are new. -/
theorem syncBlockWithConn_of_stages {n : ℕ} {s₁ s₂ s₃ : Db} {mints : BalanceMap × List MintTx}
    {burns : BalanceMap × List BurnTxOut} (hr : ConfigRefs s) (hg : Gapless n s)
    (hc : s.counters.isSome = true)
    (hidx : b.block.index.toNat = Counters.get s .numBlocksSynced)
    (hcfg : (Program.forEach b.contents.validatedMintConfigTxs fun tx => do
      let _ ← MintConfigTx.insertFromCoreMintConfigTx ext b.block.index b.timestamp tx
      pure ()).Returns s () s₁)
    (hmints : (Program.accumEach (processMint ext b.block.index b.timestamp)
      (previousBalances b.block.index s₁) b.contents.mintTxs).Returns s₁ mints s₂)
    (hburns : (Program.accumEach processBurn mints.1 (burnTxOutsOf ext b.block.index b.timestamp
      b.contents.outputs)).Returns s₂ burns s₃) :
    ∃ data s', (syncBlockWithConn ext b.block b.contents b.timestamp).Returns s data s' := by
  have hn : b.block.index.toNat = n := hidx.trans hg.counted
  have hadded := configsAdded_loop _ hcfg
  obtain ⟨t,u,h₁⟩ := hadded.frame
  obtain ⟨t',h₂⟩ := (returns_processMints _ (hadded.refs hr) hmints).2.frame
  obtain ⟨t'',h₃⟩ := (returns_processBurns _ hburns).2.frame
  have hsome : s₃.counters.isSome = true := by
    rw [h₃, h₂, h₁, Option.isSome_map, Option.isSome_map]
    exact hc
  -- no loop writes a balance, so all stored ones are of earlier blocks
  have hbalances : s₃.blockBalance = s.blockBalance := by rw [h₃, h₂, h₁]
  obtain ⟨s',hset⟩ := setBalances_return
    (s := { s₃ with
      counters := s₃.counters.map (Counters.add .numBlocksSynced 1)
      blockAuditData := s₃.blockAuditData.filter (fun x =>
        decide (x.blockIndex ≠ b.block.index.toInt64)) ++ [.new b.block.index] })
    b.block.index burns.1.entries burns.1.nodupKeys
    (fun r hr _ _ he => ne_toInt64_of_lt (hn.symm ▸ hg.balances r (hbalances ▸ hr)) he.1)
    ⟨_,List.mem_append_right _ (List.mem_singleton.mpr rfl),rfl⟩
  exact ⟨_,s',returns_syncBlockWithConn_iff.mpr
    ⟨hidx,s₁,mints,s₂,burns,s₃,hcfg,hmints,hburns,hsome,hset,rfl⟩⟩

/-- A block is accepted exactly when it is the next one and breaks no constraint, if the other
crates do their part. -/
theorem syncBlockWithConn_returns_iff (ext : Externals) (b : BlockData) {n : ℕ}
    (hr : ConfigRefs s) (hg : Gapless n s) (hc : s.counters.isSome = true) :
    (∃ data s', (syncBlockWithConn ext b.block b.contents b.timestamp).Returns s data s') ↔
      Acceptable ext b s ∧ Readable ext b s := by
  constructor
  · rintro ⟨data,s',h⟩
    exact ⟨acceptable_of_returns hr h,readable_of_returns hr h⟩
  · rintro ⟨ha,hread⟩
    have hn : b.block.index.toNat = n := ha.next.trans hg.counted
    -- the pair of index and token is new because the index is
    have htokens : Table.NewKeys (fun r : MintConfigTx => (r.blockIndex,r.tokenId)) s.mintConfigTxs
        (b.contents.validatedMintConfigTxs.map fun tx =>
          (b.block.index.toInt64,tx.txPrefix.tokenId.toInt64)) := by
      refine ⟨?_,fun r hr hmem => ?_⟩
      · have hinj : Function.Injective fun t : TokenId => (b.block.index.toInt64,t.toInt64) :=
          fun t t' h => (toInt64_inj t t').mp (Prod.mk.inj h).2
        have hmap := ha.configTxTokens.map hinj
        rwa [List.map_map] at hmap
      · obtain ⟨tx,-,he⟩ := List.mem_map.mp hmem
        exact ne_toInt64_of_lt (hn.symm ▸ hg.configTxs r hr) (Prod.mk.inj he).1.symm
    obtain ⟨s₁,hcfg⟩ := insertConfigTxs_return b.timestamp _ hread.configTxs
      ha.configTxNonces htokens
    have hadded := configsAdded_loop _ hcfg
    obtain ⟨t,u,h₁⟩ := hadded.frame
    -- the lookups read earlier blocks only, so the configs just stored do not disturb them
    obtain ⟨mints,s₂,hmints⟩ := processMints_return b.timestamp
      (previousBalances b.block.index s₁) b.contents.mintTxs (hadded.refs hr)
      (fun tx htx => by
        rw [lookupMintConfig_grown ext tx hr hadded.grown]
        exact hread.lookups tx htx)
      hread.recipients (by rw [h₁]; exact ha.mintNonces) (by rw [h₁]; exact hc)
    obtain ⟨t',h₂⟩ := (returns_processMints _ (hadded.refs hr) hmints).2.frame
    obtain ⟨burns,s₃,hburns⟩ := processBurns_return (s := s₂) (m := mints.1)
      (burnTxOutsOf ext b.block.index b.timestamp b.contents.outputs)
      (fun burn hburn => burnTxOutsOf_id hburn)
      (by rw [burnKeys_eq, h₂, h₁]; exact ha.burnKeys)
      (by rw [h₂, h₁, Option.isSome_map]; exact hc)
    exact syncBlockWithConn_of_stages hr hg hc ha.next hcfg hmints hburns

/-! ### Reached databases -/

/-- The counters are there, and each stored mint config is an encoded one. -/
structure Encoded (ext : Externals) (s : Db) : Prop where
  counters : s.counters.isSome = true
  configs : ∀ c ∈ s.mintConfigs.rows, ∃ core, c.protobuf = ext.encodeMintConfig core

theorem encoded_initial : Encoded ext initialDb where
  counters := rfl
  configs := by simp [initialDb_eq, Db.empty, Table.empty]

theorem ConfigTxsStored.encoded {added : List (MintConfigTx × List MintConfig)}
    (h : ConfigTxsStored ext b s s' added)
    (hs : ∀ c ∈ s.mintConfigs.rows, ∃ core, c.protobuf = ext.encodeMintConfig core) :
    ∀ c ∈ s'.mintConfigs.rows, ∃ core, c.protobuf = ext.encodeMintConfig core := by
  intro c hc
  rw [h.configs] at hc
  rcases List.mem_append.mp hc with hc | hc
  · exact hs c hc
  · obtain ⟨rows,hrows,hc⟩ := List.mem_flatMap.mp hc
    obtain ⟨tx,-,hst⟩ := forall₂_mem_right h.stored hrows
    obtain ⟨core,-,hconfigs⟩ := hst.configs
    obtain ⟨config,-,n,rfl⟩ := forall₂_mem_right hconfigs hc
    exact ⟨config,rfl⟩

theorem syncBlocks_encoded {blocks : List BlockData}
    (h : (syncBlocks ext blocks).Returns initialDb () s) :
    ConfigRefs s ∧ Gapless blocks.length s ∧ Encoded ext s := by
  refine syncBlocks_induction (I := fun _ s => Encoded ext s) encoded_initial ?_ h
  intro before b s data s' _ _ hr _ hi hsync hsynced
  obtain ⟨added,hadded⟩ := returns_configTxsStored hr hsync
  obtain ⟨row,-,hrow⟩ := hsynced.counters
  exact ⟨by rw [hrow]; rfl,hadded.encoded hi.configs⟩

theorem findMintConfig_ok (hdec : ∀ c, ext.decodeMintConfig (ext.encodeMintConfig c) = .ok c)
    {cs : List MintConfig} (hcs : ∀ c ∈ cs, ∃ core, c.protobuf = ext.encodeMintConfig core)
    (tx : CoreMintTx) : ∃ cfg, findMintConfig ext idx tx s cs = .ok cfg := by
  induction cs with
  | nil => exact ⟨none,rfl⟩
  | cons c cs ih =>
    have hrest := ih fun c hc => hcs c (List.mem_cons_of_mem _ hc)
    obtain ⟨core,hcore⟩ := hcs c List.mem_cons_self
    have hdecode : c.decode ext = .ok core := by
      rw [MintConfig.decode, hcore, hdec]
      rfl
    -- whatever the checks of this config say, the search takes it or goes on
    simp only [findMintConfig, hdecode, bind, Except.bind]
    split
    · exact hrest
    · split
      · split
        · exact ⟨some c,rfl⟩
        · exact hrest
      · exact hrest

theorem lookupMintConfig_ok (hdec : ∀ c, ext.decodeMintConfig (ext.encodeMintConfig c) = .ok c)
    (hs : Encoded ext s) (tx : CoreMintTx) : ∃ cfg, lookupMintConfig ext idx tx s = .ok cfg := by
  unfold lookupMintConfig
  split
  · exact ⟨none,rfl⟩
  · split
    · exact ⟨none,rfl⟩
    · split
      · exact ⟨none,rfl⟩
      · exact findMintConfig_ok hdec (fun c hc => hs.configs c (List.mem_filter.mp hc).1) tx

/-- A block is synced exactly when it is acceptable; otherwise the sync fails, and no table is
changed. -/
theorem syncBlocks_accepts_iff (ext : Externals)
    (hdecTx : ∀ tx, ext.decodeMintConfigTx (ext.encodeMintConfigTx tx) = .ok tx)
    (hdec : ∀ c, ext.decodeMintConfig (ext.encodeMintConfig c) = .ok c)
    (hb58 : ∀ spend view, ∃ addr, ext.b58Encode spend view = .ok addr) (blocks : List BlockData)
    (s : Db) (h : (syncBlocks ext blocks).Returns initialDb () s) (b : BlockData) :
    ((∃ data s', (syncBlockWithConn ext b.block b.contents b.timestamp).Returns s data s') ↔
      Acceptable ext b s) ∧
    (¬Acceptable ext b s →
      ∃ e, (syncBlockWithConn ext b.block b.contents b.timestamp).Fails s e s) := by
  obtain ⟨hr,hg,hi⟩ := syncBlocks_encoded h
  -- all that was stored was encoded from the ledger's own types, and decodes again
  have hread : Readable ext b s := ⟨fun tx _ => ⟨tx,hdecTx tx⟩,
    fun tx _ => lookupMintConfig_ok hdec hi tx,fun tx _ => hb58 _ _⟩
  have hiff := syncBlockWithConn_returns_iff ext b hr hg hi.counters
  refine ⟨hiff.trans (and_iff_left hread),fun hnot => ?_⟩
  exact syncBlockWithConn_fails fun hret => hnot (hiff.mp hret).1

/-- A mint config tx and a mint. -/
def firstBlock : BlockData :=
  Reference.blockOf 0 [Reference.configTxOf [1] 10 10] [Reference.mintFor 0x11 4] []

/-- A block that uses the nonce of the mint again. -/
def sameNonceBlock : BlockData := Reference.blockOf 1 [] [Reference.mintFor 0x11 5] []

theorem sameNonceBlock_accepts_iff :
    let s := (syncBlocks Reference.externals [firstBlock] initialDb).state
    let b := sameNonceBlock
    ((∃ data s', (syncBlockWithConn Reference.externals b.block b.contents b.timestamp).Returns s
      data s') ↔ Acceptable Reference.externals b s) ∧
    (¬Acceptable Reference.externals b s → ∃ e,
      (syncBlockWithConn Reference.externals b.block b.contents b.timestamp).Fails s e s) :=
  syncBlocks_accepts_iff Reference.externals
    (fun tx => Reference.readMessage_encode Reference.mintConfigTxCodec tx)
    (fun c => Reference.readMessage_encode Reference.mintConfigCodec c) (fun _ _ => ⟨_,rfl⟩)
    [firstBlock] _ (Program.returns_of_isOk (by decide +kernel)) sameNonceBlock

end ReserveAuditor
