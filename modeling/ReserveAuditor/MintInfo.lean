import ReserveAuditor.BlockAcceptance
import Mathlib.Data.List.ReduceOption

/-! What the HTTP service answers about the mints and mint config txs of a block
(`http_api/service.rs`). -/
namespace ReserveAuditor
open Txn Relational

/-! ### The service -/

/-- Get the mint config txs of a block. -/
def MintConfigTx.getByBlockIndex (blockIndex : UInt64) (s : Db) : List MintConfigTx :=
  s.mintConfigTxs.rows.filter (fun t => decide (t.blockIndex = blockIndex.toInt64))

def MintConfig.getById (id : ℕ) (s : Db) : Option MintConfig := s.mintConfigs.find id

def MintConfigTx.getById (id : ℕ) (s : Db) : Option MintConfigTx := s.mintConfigTxs.find id

/-- `ok_or` on what a query returned. -/
def okOr {α : Type} (error : Error) : Option α → Except Error α
  | some a => .ok a
  | none => .error error

/-- Get the signers of a mint. -/
def MintTx.getSigners (ext : Externals) (m : MintTx) (s : Db) : Except Error (List Bytes) := do
  let coreMintTx ← m.decode ext
  let mintConfigId ← okOr .objectNotSaved m.mintConfigId
  let sqlMintConfig ← okOr .notFound (MintConfig.getById mintConfigId s)
  let mintConfig ← sqlMintConfig.decode ext
  (ext.verify mintConfig.signerSet (ext.mintTxPrefixHash coreMintTx.txPrefix)
    coreMintTx.signature).mapError .signature

/-- A mint config with its id. -/
structure HybridMintConfig where
  id : ℕ
  tokenId : UInt64
  signerSet : Bytes
  mintLimit : UInt64

structure MintWithConfig where
  mintTx : MintTx
  mintConfigTx : MintConfigTx
  mintConfig : HybridMintConfig
  mintTxSigners : List Bytes

structure MintConfigTxWithConfig where
  mintConfigTx : MintConfigTx
  mintConfigs : List HybridMintConfig

structure MintInfoResponse where
  mintTxs : List MintWithConfig
  mintConfigTxs : List MintConfigTxWithConfig

def hybridMintConfig (ext : Externals) (mintConfig : MintConfig) : Except Error HybridMintConfig := do
  let coreMintConfig ← mintConfig.decode ext
  let id ← okOr .objectNotSaved mintConfig.id
  pure ⟨id,coreMintConfig.tokenId,coreMintConfig.signerSet,coreMintConfig.mintLimit⟩

/-- One turn of the loop over the mint config txs. -/
def configTxInfo (ext : Externals) (s : Db) (mintConfigTx : MintConfigTx) :
    Except Error (Option MintConfigTxWithConfig) :=
  match mintConfigTx.id with
  | none => pure none
  | some id => do
    let mintConfigs ← (MintConfig.getByMintConfigTxId id s).mapM (hybridMintConfig ext)
    pure (some ⟨mintConfigTx,mintConfigs⟩)

/-- One turn of the loop over the mints. A mint without a config is passed over, but its signers
are asked for before. -/
def mintInfo (ext : Externals) (s : Db) (mintTx : MintTx) : Except Error (Option MintWithConfig) := do
  let mintTxSigners ← mintTx.getSigners ext s
  match mintTx.mintConfigId with
  | none => pure none
  | some configId =>
    match MintConfig.getById configId s with
    | none => pure none
    | some mintConfig => do
      let coreMintConfig ← mintConfig.decode ext
      match MintConfigTx.getById mintConfig.mintConfigTxId s with
      | none => pure none
      | some mintConfigTx => pure (some ⟨mintTx,mintConfigTx,⟨configId,coreMintConfig.tokenId,
          coreMintConfig.signerSet,coreMintConfig.mintLimit⟩,mintTxSigners⟩)

def getMintInfoByBlock (ext : Externals) (blockIndex : UInt64) (s : Db) :
    Except Error MintInfoResponse := do
  let mintConfigTxs ← (MintConfigTx.getByBlockIndex blockIndex s).mapM (configTxInfo ext s)
  let mintTxs ← (MintTx.getMintTxsByBlockIndex blockIndex s).mapM (mintInfo ext s)
  pure ⟨mintTxs.reduceOption,mintConfigTxs.reduceOption⟩

/-! ### Loops that stop at the first error -/

section mapM
variable {ε α β : Type} {f : α → Except ε β}

theorem mapM_cons_eq_ok (a : α) (as : List α) (bs : List β) : (a :: as).mapM f = .ok bs ↔
    ∃ b rest, f a = .ok b ∧ as.mapM f = .ok rest ∧ bs = b :: rest := by
  rw [List.mapM_cons]
  cases f a with
  | error e => simp [bind, Except.bind]
  | ok b => cases as.mapM f <;> simp [bind, Except.bind, pure, Except.pure, Eq.comm]

theorem mapM_eq_ok (as : List α) (bs : List β) :
    as.mapM f = .ok bs ↔ List.Forall₂ (fun a b => f a = .ok b) as bs := by
  induction as generalizing bs with
  | nil =>
    rw [List.forall₂_nil_left_iff]
    exact ⟨fun h => (Except.ok.inj h).symm,fun h => h ▸ rfl⟩
  | cons a as ih =>
    rw [mapM_cons_eq_ok, List.forall₂_cons_left_iff]
    simp only [ih]

theorem mapM_returns {as : List α} (h : ∀ a ∈ as, ∃ b, f a = .ok b) : ∃ bs, as.mapM f = .ok bs := by
  induction as with
  | nil => exact ⟨[],rfl⟩
  | cons a as ih =>
    obtain ⟨b,hb⟩ := h a List.mem_cons_self
    obtain ⟨bs,hbs⟩ := ih fun x hx => h x (List.mem_cons_of_mem a hx)
    exact ⟨b :: bs,(mapM_eq_ok _ _).mpr (.cons hb ((mapM_eq_ok _ _).mp hbs))⟩

theorem mapM_eq_error {as : List α} {e : ε} (h : ∀ a ∈ as, (∃ b, f a = .ok b) ∨ f a = .error e)
    (he : ∃ a ∈ as, f a = .error e) : as.mapM f = .error e := by
  induction as with
  | nil => simp at he
  | cons a as ih =>
    rw [List.mapM_cons]
    rcases h a List.mem_cons_self with ⟨b,hb⟩ | ha
    -- the first element converts, so the one that fails is behind it
    · have hrest : ∃ x ∈ as, f x = .error e := by
        obtain ⟨x,hx,hxe⟩ := he
        rcases List.mem_cons.mp hx with rfl | hx
        · simp [hb] at hxe
        · exact ⟨x,hx,hxe⟩
      simp only [hb, ih (fun x hx => h x (List.mem_cons_of_mem a hx)) hrest, bind, Except.bind]
    · simp only [ha, bind, Except.bind]

end mapM

/-! ### What the database holds -/

/-- Each mint was signed by the signers of the config it is attributed to. -/
def MintsSigned (ext : Externals) (s : Db) : Prop :=
  ∀ m ∈ s.mintTxs.rows, ∃ tx, m.protobuf = ext.encodeMintTx tx ∧
    ∀ n, m.mintConfigId = some n → ∃ c core signers, s.mintConfigs.find n = some c ∧
      c.decode ext = .ok core ∧
      ext.verify core.signerSet (ext.mintTxPrefixHash tx.txPrefix) tx.signature = .ok signers

/-- The configs that are stored for a mint config tx are those that it decodes to. -/
def ConfigsComplete (ext : Externals) (s : Db) : Prop :=
  ∀ t ∈ s.mintConfigTxs.rows, ∃ core, t.decode ext = .ok core ∧ List.Forall₂ (fun c r => ∃ n,
    r = Record.withId (MintConfig.fromCoreMintConfig ext (key t) c) n) core.txPrefix.configs
      (MintConfig.getByMintConfigTxId (key t) s)

variable {ext : Externals} {s s' : Db} {b : BlockData} {data : SyncBlockData}

theorem MintStored.signed {idx : UInt64} {ts : Option DateTime} {tx : CoreMintTx} {m : MintTx}
    (h : MintStored ext idx ts s tx m) (hg : ∃ cs, s'.mintConfigs.rows = s.mintConfigs.rows ++ cs) :
    m.protobuf = ext.encodeMintTx tx ∧ ∀ n, m.mintConfigId = some n → ∃ c core signers,
      s'.mintConfigs.find n = some c ∧ c.decode ext = .ok core ∧
      ext.verify core.signerSet (ext.mintTxPrefixHash tx.txPrefix) tx.signature = .ok signers := by
  obtain ⟨cfg,row₀,k,hl,hrow,rfl⟩ := h.stored
  obtain ⟨-,-,-,-,-,hp,hid⟩ := fromCoreMintTx_fields hrow
  refine ⟨hp,fun n hn => ?_⟩
  obtain ⟨c,rfl,hfind⟩ := (lookup_id hl).2 n (hid.symm.trans hn)
  obtain ⟨-,-,-,-,⟨core,signers,hcore,hsigned⟩,-,-⟩ := lookupMintConfig_eq_some hl
  obtain ⟨cs,hcs⟩ := hg
  exact ⟨c,core,signers,Table.find_append hcs hfind,hcore,hsigned⟩

theorem BlockSynced.mintsSigned (h : BlockSynced ext b s data s') (hs : MintsSigned ext s) :
    MintsSigned ext s' := by
  obtain ⟨cs,hcs,-⟩ := h.grown.configs
  intro m hm
  rw [h.mints] at hm
  rcases List.mem_append.mp hm with hm | hm
  · obtain ⟨tx,hp,hsigned⟩ := hs m hm
    refine ⟨tx,hp,fun n hn => ?_⟩
    obtain ⟨c,core,signers,hfind,hrest⟩ := hsigned n hn
    exact ⟨c,core,signers,Table.find_append hcs hfind,hrest⟩
  · obtain ⟨tx,-,hst⟩ := forall₂_mem_right h.mintsStored hm
    exact ⟨tx,hst.signed ⟨cs,hcs⟩⟩

/-- Where the members of the lists tell which list they are of, one list can be told from all. -/
theorem filter_flatMap_eq {α β : Type} {f : α → List β} {k : α → ℕ} {owner : β → ℕ} {l : List α}
    (howner : ∀ a ∈ l, ∀ b ∈ f a, owner b = k a) (hn : (l.map k).Nodup) {a : α} (ha : a ∈ l) :
    (l.flatMap f).filter (fun b => decide (owner b = k a)) = f a := by
  -- the elements of one list all have the key of their owner
  have hown (x : α) (hx : x ∈ l) (n : ℕ) : (f x).filter (fun b => decide (owner b = n)) =
      if k x = n then f x else [] := by
    split
    · rename_i he
      refine List.filter_eq_self.mpr fun b hb => ?_
      rw [decide_eq_true_eq, howner x hx b hb, he]
    · rename_i hne
      refine List.filter_eq_nil_iff.mpr fun b hb => ?_
      rw [howner x hx b hb]
      simpa using hne
  induction l with
  | nil => simp at ha
  | cons x l ih =>
    rw [List.map_cons, List.nodup_cons] at hn
    have hrest := fun (y : α) (hy : y ∈ l) => howner y (List.mem_cons_of_mem x hy)
    rw [List.flatMap_cons, List.filter_append, hown x List.mem_cons_self]
    rcases List.mem_cons.mp ha with rfl | ha
    -- the keys are distinct, so no later list is taken
    · have hnil : (l.flatMap f).filter (fun b => decide (owner b = k a)) = [] := by
        refine List.filter_eq_nil_iff.mpr fun b hb => ?_
        obtain ⟨y,hy,hb⟩ := List.mem_flatMap.mp hb
        rw [hrest y hy b hb, decide_eq_true_eq]
        exact fun he => hn.1 (he ▸ List.mem_map_of_mem hy)
      rw [if_pos rfl, hnil, List.append_nil]
    · have hne : k x ≠ k a := fun he => hn.1 (he ▸ List.mem_map_of_mem ha)
      rw [if_neg hne, List.nil_append]
      exact ih hrest hn.2 ha fun y hy => hown y (List.mem_cons_of_mem x hy)

theorem ConfigTxStored.owner {idx : UInt64} {ts : Option DateTime} {tx : CoreMintConfigTx}
    {rows : MintConfigTx × List MintConfig} (h : ConfigTxStored ext idx ts tx rows) :
    ∀ c ∈ rows.2, c.mintConfigTxId = key rows.1 := by
  intro c hc
  obtain ⟨core,-,hconfigs⟩ := h.configs
  obtain ⟨config,-,n,rfl⟩ := forall₂_mem_right hconfigs hc
  rfl

theorem ConfigTxsStored.complete {added : List (MintConfigTx × List MintConfig)}
    (h : ConfigTxsStored ext b s s' added) (hr : ConfigRefs s) (hs : ConfigsComplete ext s) :
    ConfigsComplete ext s' := by
  have hinc := s'.mintConfigTxs.increasing
  rw [h.configTxs, List.pairwise_append] at hinc
  have howner : ∀ rows ∈ added, ∀ c ∈ rows.2, c.mintConfigTxId = key rows.1 := by
    intro rows hrows
    obtain ⟨tx,-,hst⟩ := forall₂_mem_right h.stored hrows
    exact hst.owner
  -- each older config belongs to an older mint config tx
  have hold (c : MintConfig) (hc : c ∈ s.mintConfigs.rows) :
      ∃ t ∈ s.mintConfigTxs.rows, c.mintConfigTxId = key t := by
    obtain ⟨t,ht⟩ := hr.ofConfig c hc
    obtain ⟨htm,hid⟩ := (Table.find_eq_some _ _ _).mp ht
    refine ⟨t,htm,?_⟩
    rw [key, hid, Option.getD_some]
  intro t ht
  rw [h.configTxs] at ht
  rw [MintConfig.getByMintConfigTxId, h.configs, List.filter_append]
  rcases List.mem_append.mp ht with ht | ht
  · -- the configs of the block belong to mint config txs with larger ids
    have hnil : (added.flatMap Prod.snd).filter (fun c => decide (c.mintConfigTxId = key t)) = [] := by
      refine List.filter_eq_nil_iff.mpr fun c hc => ?_
      obtain ⟨rows,hrows,hc⟩ := List.mem_flatMap.mp hc
      have hlt := hinc.2.2 t ht rows.1 (List.mem_map_of_mem hrows)
      rw [howner rows hrows c hc, decide_eq_true_eq]
      exact hlt.ne'
    rw [hnil, List.append_nil]
    exact hs t ht
  · obtain ⟨rows,hrows,rfl⟩ := List.mem_map.mp ht
    have hnil : s.mintConfigs.rows.filter (fun c => decide (c.mintConfigTxId = key rows.1)) = [] := by
      refine List.filter_eq_nil_iff.mpr fun c hc => ?_
      obtain ⟨t,ht,he⟩ := hold c hc
      have hlt := hinc.2.2 t ht rows.1 (List.mem_map_of_mem hrows)
      rw [he, decide_eq_true_eq]
      exact hlt.ne
    -- the new mint config txs have distinct ids
    have hnodup : (added.map fun rows => key rows.1).Nodup := by
      have hp := hinc.2.1
      rw [List.pairwise_map] at hp
      exact List.pairwise_map.mpr (hp.imp fun hlt => hlt.ne)
    rw [hnil, List.nil_append, filter_flatMap_eq howner hnodup hrows]
    obtain ⟨tx,-,hst⟩ := forall₂_mem_right h.stored hrows
    exact hst.configs

/-- Two relations along one list compose. -/
theorem forall₂_comp {α β γ : Type} {R : α → β → Prop} {S : β → γ → Prop} {T : α → γ → Prop}
    {as : List α} {bs : List β} {cs : List γ} (h : List.Forall₂ R as bs)
    (h' : List.Forall₂ S bs cs) (hT : ∀ a b c, b ∈ bs → R a b → S b c → T a c) :
    List.Forall₂ T as cs := by
  induction h generalizing cs with
  | nil =>
    cases h'
    exact .nil
  | cons hr _ ih =>
    cases h' with
    | cons hs hrest =>
      exact .cons (hT _ _ _ List.mem_cons_self hr hs)
        (ih hrest fun a b c hb => hT a b c (List.mem_cons_of_mem _ hb))

/-- Every config tx, config and mint of a database that syncing blocks reached can be decoded, and
fits together. -/
theorem syncBlocks_complete {blocks : List BlockData}
    (h : (syncBlocks ext blocks).Returns initialDb () s) :
    ConfigRefs s ∧ MintsSigned ext s ∧ ConfigsComplete ext s := by
  have hinitial : MintsSigned ext initialDb ∧ ConfigsComplete ext initialDb := by
    constructor
    · simp [MintsSigned, initialDb_eq, Db.empty, Table.empty]
    · simp [ConfigsComplete, initialDb_eq, Db.empty, Table.empty]
  have hrun := syncBlocks_induction (I := fun _ s => MintsSigned ext s ∧ ConfigsComplete ext s)
    hinitial ?_ h
  · exact ⟨hrun.1,hrun.2.2⟩
  · intro before b s data s' _ _ hr _ hi hsync hsynced
    obtain ⟨added,hadded⟩ := returns_configTxsStored hr hsync
    exact ⟨hsynced.mintsSigned hi.1,hadded.complete hr hi.2⟩

/-! ### What the service answers -/

/-- The answer shows the config that the mint is attributed to, the mint config tx of that config,
and the signers that verify the mint. -/
structure AttributionShown (ext : Externals) (s : Db) (x : MintWithConfig) : Prop where
  shown : ∃ c core tx, c ∈ s.mintConfigs.rows ∧ x.mintTx.mintConfigId = c.id ∧
    c.decode ext = .ok core ∧
    x.mintConfig = ⟨key c,core.tokenId,core.signerSet,core.mintLimit⟩ ∧
    x.mintConfigTx ∈ s.mintConfigTxs.rows ∧ x.mintConfigTx.id = some c.mintConfigTxId ∧
    x.mintTx.decode ext = .ok tx ∧ ext.verify core.signerSet (ext.mintTxPrefixHash tx.txPrefix)
      tx.signature = .ok x.mintTxSigners

/-- The answer shows the configs of the mint config tx. -/
structure ConfigsShown (ext : Externals) (s : Db) (x : MintConfigTxWithConfig) : Prop where
  shown : ∃ core, x.mintConfigTx.decode ext = .ok core ∧ List.Forall₂ (fun c h =>
    h.tokenId = c.tokenId ∧ h.signerSet = c.signerSet ∧ h.mintLimit = c.mintLimit ∧
    ∃ r ∈ s.mintConfigs.rows, r.id = some h.id ∧ x.mintConfigTx.id = some r.mintConfigTxId)
    core.txPrefix.configs x.mintConfigs

/-- The answer for a block holds each of its mints that is attributed to a config, and each of its
mint config txs, once and in the order of their ids. -/
structure MintInfoComplete (ext : Externals) (blockIndex : UInt64) (s : Db)
    (r : MintInfoResponse) : Prop where
  mints : r.mintTxs.map MintWithConfig.mintTx = s.mintTxs.rows.filter (fun m =>
    decide (m.blockIndex = blockIndex.toInt64) && m.mintConfigId.isSome)
  attributions : ∀ x ∈ r.mintTxs, AttributionShown ext s x
  configTxs : r.mintConfigTxs.map MintConfigTxWithConfig.mintConfigTx =
    s.mintConfigTxs.rows.filter (fun t => decide (t.blockIndex = blockIndex.toInt64))
  configs : ∀ x ∈ r.mintConfigTxs, ConfigsShown ext s x

theorem configTxInfo_returns (hdec : ∀ c, ext.decodeMintConfig (ext.encodeMintConfig c) = .ok c)
    (hs : ConfigsComplete ext s) {t : MintConfigTx} (ht : t ∈ s.mintConfigTxs.rows) :
    ∃ x, configTxInfo ext s t = .ok (some x) ∧ x.mintConfigTx = t ∧ ConfigsShown ext s x := by
  obtain ⟨core,hcore,hconfigs⟩ := hs t ht
  have hid : t.id = some (key t) := s.mintConfigTxs.keyed t ht
  have hrow (r : MintConfig) (hr : r ∈ MintConfig.getByMintConfigTxId (key t) s) :
      r ∈ s.mintConfigs.rows ∧ r.mintConfigTxId = key t := by
    simpa [MintConfig.getByMintConfigTxId] using hr
  -- each config was encoded when it was stored, so it decodes
  have hhybrid (r : MintConfig) (hr : r ∈ MintConfig.getByMintConfigTxId (key t) s) :
      ∃ h, hybridMintConfig ext r = .ok h := by
    obtain ⟨c,-,n,rfl⟩ := forall₂_mem_right hconfigs hr
    simp [hybridMintConfig, MintConfig.decode, MintConfig.fromCoreMintConfig, Record.withId, hdec,
      Except.mapError, okOr, bind, Except.bind, pure, Except.pure]
  obtain ⟨hs,hhs⟩ := mapM_returns hhybrid
  have hpairs := (mapM_eq_ok _ _).mp hhs
  refine ⟨⟨t,hs⟩,?_,rfl,core,hcore,?_⟩
  · simp only [configTxInfo, hid, hhs, bind, Except.bind, pure, Except.pure]
  · refine forall₂_comp hconfigs hpairs fun c r h hr hstored hh => ?_
    obtain ⟨n,rfl⟩ := hstored
    obtain ⟨hmem,howner⟩ := hrow _ hr
    simp only [hybridMintConfig, MintConfig.decode, MintConfig.fromCoreMintConfig, Record.withId,
      hdec, Except.mapError, okOr, bind, Except.bind, pure, Except.pure, Except.ok.injEq] at hh
    subst hh
    exact ⟨rfl,rfl,rfl,_,hmem,rfl,by rw [hid, howner]⟩

theorem MintTx.decode_eq (hdec : ∀ tx, ext.decodeMintTx (ext.encodeMintTx tx) = .ok tx) {m : MintTx}
    {tx : CoreMintTx} (hp : m.protobuf = ext.encodeMintTx tx) : m.decode ext = .ok tx := by
  rw [MintTx.decode, hp, hdec]
  rfl

theorem mintInfo_returns (hdec : ∀ tx, ext.decodeMintTx (ext.encodeMintTx tx) = .ok tx)
    (hr : ConfigRefs s) (hs : MintsSigned ext s) {m : MintTx} (hm : m ∈ s.mintTxs.rows)
    (hsome : m.mintConfigId ≠ none) :
    ∃ x, mintInfo ext s m = .ok (some x) ∧ x.mintTx = m ∧ AttributionShown ext s x := by
  obtain ⟨n,hn⟩ := Option.ne_none_iff_exists'.mp hsome
  obtain ⟨tx,hp,hsigned⟩ := hs m hm
  -- the config that the mint names had verified its signature
  obtain ⟨c,core,signers,hfind,hcore,hverify⟩ := hsigned n hn
  obtain ⟨hc,hid⟩ := (Table.find_eq_some _ _ _).mp hfind
  obtain ⟨t,ht⟩ := hr.ofConfig c hc
  obtain ⟨htm,htid⟩ := (Table.find_eq_some _ _ _).mp ht
  have hdecode := MintTx.decode_eq hdec hp
  have hkey : n = key c := by
    rw [key, hid, Option.getD_some]
  refine ⟨⟨m,t,⟨n,core.tokenId,core.signerSet,core.mintLimit⟩,signers⟩,?_,rfl,c,core,tx,hc,
    hn.trans hid.symm,hcore,by rw [hkey],htm,htid,hdecode,hverify⟩
  simp only [mintInfo, MintTx.getSigners, hdecode, hn, okOr, MintConfig.getById, hfind, hcore,
    hverify, MintConfigTx.getById, ht, Except.mapError, bind, Except.bind, pure, Except.pure]

/-- The signers of a mint without a config cannot be told. -/
theorem mintInfo_error (hdec : ∀ tx, ext.decodeMintTx (ext.encodeMintTx tx) = .ok tx)
    (hs : MintsSigned ext s) {m : MintTx} (hm : m ∈ s.mintTxs.rows) (hnone : m.mintConfigId = none) :
    mintInfo ext s m = .error .objectNotSaved := by
  obtain ⟨tx,hp,-⟩ := hs m hm
  simp only [mintInfo, MintTx.getSigners, MintTx.decode_eq hdec hp, hnone, okOr, bind, Except.bind]

theorem reduceOption_forall₂ {α β : Type} {R : α → β → Prop} {as : List α} {bs : List (Option β)}
    (h : List.Forall₂ (fun a o => ∃ b, o = some b ∧ R a b) as bs) :
    List.Forall₂ R as bs.reduceOption := by
  induction h with
  | nil => exact .nil
  | cons hr _ ih =>
    obtain ⟨b,rfl,hb⟩ := hr
    rw [List.reduceOption_cons_of_some]
    exact .cons hb ih

/-- A loop each turn of which has something to add. -/
theorem mapM_some {α β : Type} {f : α → Except Error (Option β)} {R : α → β → Prop} (as : List α)
    (h : ∀ a ∈ as, ∃ b, f a = .ok (some b) ∧ R a b) :
    ∃ bs, as.mapM f = .ok bs ∧ List.Forall₂ R as bs.reduceOption := by
  obtain ⟨bs,hbs⟩ := mapM_returns (f := f) fun a ha => by
    obtain ⟨b,hb,-⟩ := h a ha
    exact ⟨_,hb⟩
  refine ⟨bs,hbs,reduceOption_forall₂ ?_⟩
  refine List.forall₂_iff_get.mpr ⟨((mapM_eq_ok _ _).mp hbs).length_eq,fun i h₁ h₂ => ?_⟩
  have hi := ((mapM_eq_ok _ _).mp hbs).get h₁ h₂
  obtain ⟨b,hb,hR⟩ := h _ (List.get_mem as ⟨i,h₁⟩)
  exact ⟨b,Except.ok.inj (hi.symm.trans hb),hR⟩

/-- The service answers completely for a block exactly when no mint of the block is without a
config; otherwise it fails. -/
theorem syncBlocks_mintInfo_iff (ext : Externals)
    (hdecMint : ∀ tx, ext.decodeMintTx (ext.encodeMintTx tx) = .ok tx)
    (hdec : ∀ c, ext.decodeMintConfig (ext.encodeMintConfig c) = .ok c) (blocks : List BlockData)
    (s : Db) (h : (syncBlocks ext blocks).Returns initialDb () s) (blockIndex : UInt64) :
    ((∃ r, getMintInfoByBlock ext blockIndex s = .ok r ∧ MintInfoComplete ext blockIndex s r) ↔
      ∀ m ∈ s.mintTxs.rows, m.blockIndex = blockIndex.toInt64 → m.mintConfigId ≠ none) ∧
    (¬(∀ m ∈ s.mintTxs.rows, m.blockIndex = blockIndex.toInt64 → m.mintConfigId ≠ none) →
      getMintInfoByBlock ext blockIndex s = .error .objectNotSaved) := by
  obtain ⟨hr,hsigned,hcomplete⟩ := syncBlocks_complete h
  obtain ⟨ts,hts,htsInfo⟩ := mapM_some
    (MintConfigTx.getByBlockIndex blockIndex s) fun t ht =>
      configTxInfo_returns hdec hcomplete (List.mem_filter.mp ht).1
  have hmem (m : MintTx) : m ∈ MintTx.getMintTxsByBlockIndex blockIndex s ↔
      m ∈ s.mintTxs.rows ∧ m.blockIndex = blockIndex.toInt64 := by
    simp [MintTx.getMintTxsByBlockIndex]
  -- one mint without a config makes the whole request fail
  have hfails (hnot : ¬(∀ m ∈ s.mintTxs.rows, m.blockIndex = blockIndex.toInt64 →
      m.mintConfigId ≠ none)) : getMintInfoByBlock ext blockIndex s = .error .objectNotSaved := by
    push Not at hnot
    obtain ⟨m,hm,hidx,hnone⟩ := hnot
    have herror : (MintTx.getMintTxsByBlockIndex blockIndex s).mapM (mintInfo ext s) =
        .error .objectNotSaved := by
      refine mapM_eq_error (fun x hx => ?_)
        ⟨m,(hmem m).mpr ⟨hm,hidx⟩,mintInfo_error hdecMint hsigned hm hnone⟩
      by_cases hx' : x.mintConfigId = none
      · exact Or.inr (mintInfo_error hdecMint hsigned ((hmem x).mp hx).1 hx')
      · obtain ⟨y,hy,-⟩ := mintInfo_returns hdecMint hr hsigned ((hmem x).mp hx).1 hx'
        exact Or.inl ⟨_,hy⟩
    simp only [getMintInfoByBlock, hts, herror, bind, Except.bind]
  refine ⟨⟨?_,fun hall => ?_⟩,hfails⟩
  -- so a request that succeeds has met none
  · rintro ⟨r,hok,-⟩
    by_contra hnot
    rw [hfails hnot] at hok
    simp at hok
  · obtain ⟨ms,hms,hmsInfo⟩ := mapM_some
      (MintTx.getMintTxsByBlockIndex blockIndex s) fun m hm =>
        mintInfo_returns hdecMint hr hsigned ((hmem m).mp hm).1
          (hall m ((hmem m).mp hm).1 ((hmem m).mp hm).2)
    -- nothing is dropped, as each row gives an entry
    refine ⟨⟨ms.reduceOption,ts.reduceOption⟩,?_,?_,fun x hx => ?_,?_,fun x hx => ?_⟩
    · simp only [getMintInfoByBlock, hts, hms, bind, Except.bind, pure, Except.pure]
    · rw [forall₂_map_eq hmsInfo (f := id) fun m x hx => hx.1, List.map_id,
        MintTx.getMintTxsByBlockIndex]
      refine List.filter_congr fun m hm => ?_
      by_cases hidx : m.blockIndex = blockIndex.toInt64
      · simp [hidx, Option.isSome_iff_ne_none.mpr (hall m hm hidx)]
      · simp [hidx]
    · obtain ⟨m,-,-,hx⟩ := forall₂_mem_right hmsInfo hx
      exact hx
    · rw [forall₂_map_eq htsInfo (f := id) fun t x hx => hx.1, List.map_id]
      rfl
    · obtain ⟨t,-,-,hx⟩ := forall₂_mem_right htsInfo hx
      exact hx

/-- A block with a mint that the config of the first block allows. -/
def secondBlock : BlockData := Reference.blockOf 1 [] [Reference.mintFor 0x12 5] []

theorem secondBlock_mintInfo_iff :
    let s := (syncBlocks Reference.externals [firstBlock,secondBlock] initialDb).state
    ((∃ r, getMintInfoByBlock Reference.externals 1 s = .ok r ∧
      MintInfoComplete Reference.externals 1 s r) ↔
      ∀ m ∈ s.mintTxs.rows, m.blockIndex = UInt64.toInt64 1 → m.mintConfigId ≠ none) ∧
    (¬(∀ m ∈ s.mintTxs.rows, m.blockIndex = UInt64.toInt64 1 → m.mintConfigId ≠ none) →
      getMintInfoByBlock Reference.externals 1 s = .error .objectNotSaved) :=
  syncBlocks_mintInfo_iff Reference.externals
    (fun tx => Reference.readMessage_encode Reference.mintTxCodec tx)
    (fun c => Reference.readMessage_encode Reference.mintConfigCodec c) [firstBlock,secondBlock] _
    (Program.returns_of_isOk (by decide +kernel)) 1

/-- The mint of the first block has no config, since the config of the same block does not count
yet. -/
theorem firstBlock_mintInfo_fails :
    (syncBlocks Reference.externals [firstBlock] initialDb).outcome.isOk = true ∧
    ¬∃ r, getMintInfoByBlock Reference.externals 0
      (syncBlocks Reference.externals [firstBlock] initialDb).state = .ok r := by
  have hrun : (syncBlocks Reference.externals [firstBlock] initialDb).outcome.isOk = true ∧
      (getMintInfoByBlock Reference.externals 0
        (syncBlocks Reference.externals [firstBlock] initialDb).state).toBool = false := by
    decide +kernel
  refine ⟨hrun.1,?_⟩
  rintro ⟨r,hr⟩
  have hfalse := hrun.2
  rw [hr] at hfalse
  simp [Except.toBool] at hfalse

end ReserveAuditor
