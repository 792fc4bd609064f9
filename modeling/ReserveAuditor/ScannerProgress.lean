import ReserveAuditor.ScannerAgreement

/-! Scanners make progress. Each turn of a scanner, from its read of the index to its transaction,
ends with one more block that is synced, by itself or by another one, unless no auditor of the
ledger would get any further. A panic that leaves a transaction open would hold up all scanners,
so there is none in the runs that this is about. -/
namespace ReserveAuditor
open Txn Relational

variable {ext : Externals} {serde : Serde} {s : Db} {n : ℕ} {ledger : List BlockData}

/-! ### How far a ledger can be synced -/

/-- The first `k` blocks of the ledger are there, and can be synced alone and in order. -/
structure Accepted (ext : Externals) (ledger : List BlockData) (k : ℕ) : Prop where
  length : k ≤ ledger.length
  synced : ∃ t, (syncBlocks ext (ledger.take k)).Returns initialDb () t

theorem Accepted.mono {j k : ℕ} (h : Accepted ext ledger k) (hj : j ≤ k) :
    Accepted ext ledger j := by
  obtain ⟨t,ht⟩ := h.synced
  obtain ⟨t₁,ht₁,-⟩ := syncBlocks_take hj ht
  exact ⟨hj.trans h.length,t₁,ht₁⟩

/-- The last of the blocks has the next index, and it is synced after the others. -/
theorem Accepted.next (h : Accepted ext ledger (n+1)) : ∃ b t data t',
    ledger[n]? = some b ∧ b.block.index.toNat = n ∧
    (syncBlocks ext (ledger.take n)).Returns initialDb () t ∧
    (syncBlockWithConn ext b.block b.contents b.timestamp).Returns t data t' := by
  obtain ⟨t',ht'⟩ := h.synced
  have hn : n < ledger.length := h.length
  rw [List.take_add_one, List.getElem?_eq_getElem hn, Option.toList_some] at ht'
  obtain ⟨t,ht,hlast⟩ := (Program.returns_forEach_append _ _ _ _ _ _).mp ht'
  obtain ⟨t₁,hb,-⟩ := (Program.returns_forEach_cons _ _ _ _ _ _).mp hlast
  simp only [Program.returns_bind, Program.returns_pure] at hb
  obtain ⟨data,_,hsync,-,rfl⟩ := hb
  obtain ⟨hrefs,hgapless,-⟩ := syncBlocks_induction (I := fun _ _ => True) trivial
    (fun _ _ _ _ _ _ _ _ _ _ _ _ => trivial) ht
  refine ⟨ledger[n],t,data,_,List.getElem?_eq_getElem hn,?_,ht,hsync⟩
  rw [(returns_syncBlockWithConn hrefs hsync).index, hgapless.counted, List.length_take]
  exact min_eq_left hn.le

/-- A database with the first blocks of the ledger takes the next one, audited or not. -/
theorem LedgerOf.accepts (h : LedgerOf ext ledger n s) (hnext : Accepted ext ledger (n+1))
    {b : BlockData} (hb : ledger[n]? = some b) (config : Option GnosisSafeConfig) :
    ∃ s', (ReserveAuditor.syncAndAudit ext config b).Returns s () s' := by
  obtain ⟨t,ht,hkept⟩ := h
  obtain ⟨b',t',data,u,hb',-,ht',hsync⟩ := hnext.next
  obtain rfl := Option.some.inj (hb.symm.trans hb')
  obtain ⟨-,rfl⟩ := ht.unique ht'
  obtain ⟨u',hu',-⟩ := (respects_syncBlockWithConn b).returns hkept hsync
  exact (syncAndAudit_returns_iff ext config b s).mpr ⟨data,u',hu'⟩

/-! ### Turns -/

section ScanState
variable {ι : Type} [DecidableEq ι] {c c' : ScanState ι}

/-- What can happen between two transactions, where none is left open. -/
inductive LiveStep (ext : Externals) (serde : Serde) (ledger : List BlockData) :
    ScanState ι → ScanState ι → Prop where
  | read (c : ScanState ι) (i : ι) : LiveStep ext serde ledger c
      ⟨c.db,Function.update c.held i (some (nextBlockToSync c.db))⟩
  | sync (c : ScanState ι) (i : ι) (config : Option GnosisSafeConfig) (b : BlockData)
      (held : c.held i = some b.block.index) (stored : ledger[b.block.index.toNat]? = some b) :
      LiveStep ext serde ledger c
        ⟨(syncAndAudit ext config b c.db).state,Function.update c.held i none⟩
  | crash (c : ScanState ι) (i : ι) : LiveStep ext serde ledger c
      ⟨(newFromPath c.db).state,Function.update c.held i none⟩
  | gnosis (c : ScanState ι) (safe : AuditedSafeConfig) (tx : RawGnosisTransaction)
      (closed : ¬safe.LeavesOpen serde tx c.db) :
      LiveStep ext serde ledger c ⟨(safe.processRawTransaction serde tx c.db).state,c.held⟩

theorem LiveStep.ledgerStep (h : LiveStep ext serde ledger c c') :
    LedgerStep ext serde ledger c c' := by
  cases h with
  | read i => exact .read c i
  | sync i config b held stored => exact .sync c i config b held stored
  | crash i => exact .crash c i
  | gnosis safe tx closed => exact .gnosis c safe tx

/-- A scanner reads which block is next, and runs its transaction on that block. In between, anything
can happen but that this scanner drops the index. -/
inductive Turn (ext : Externals) (serde : Serde) (ledger : List BlockData) :
    ScanState ι → ScanState ι → Prop where
  | mk (c c₁ : ScanState ι) (i : ι) (config : Option GnosisSafeConfig) (b : BlockData)
      (between : Relation.ReflTransGen
        (fun x y => LiveStep ext serde ledger x y ∧ y.held i = x.held i)
        ⟨c.db,Function.update c.held i (some (nextBlockToSync c.db))⟩ c₁)
      (next : b.block.index = nextBlockToSync c.db)
      (stored : ledger[b.block.index.toNat]? = some b) : Turn ext serde ledger c
      ⟨(syncAndAudit ext config b c₁.db).state,Function.update c₁.held i none⟩

/-- A run in which scanners have `m` turns, one after the other, and anything else happens around
them. -/
inductive Turns (ext : Externals) (serde : Serde) (ledger : List BlockData) :
    ℕ → ScanState ι → ScanState ι → Prop where
  | rest {c c' : ScanState ι} (run : Relation.ReflTransGen (LiveStep ext serde ledger) c c') :
      Turns ext serde ledger 0 c c'
  | turn {m : ℕ} {c c₁ c₂ c' : ScanState ι}
      (run : Relation.ReflTransGen (LiveStep ext serde ledger) c c₁)
      (turn : Turn ext serde ledger c₁ c₂) (more : Turns ext serde ledger m c₂ c') :
      Turns ext serde ledger (m+1) c c'

theorem ScannedOf.run (h : ScannedOf ext serde ledger c)
    (hrun : Relation.ReflTransGen (LiveStep ext serde ledger) c c') :
    ScannedOf ext serde ledger c' ∧
      Counters.get c.db .numBlocksSynced ≤ Counters.get c'.db .numBlocksSynced := by
  induction hrun with
  | refl => exact ⟨h,le_rfl⟩
  | tail _ next ih =>
    obtain ⟨hmid,hle⟩ := ih
    have hgrows := next.ledgerStep.scanStep.grows hmid.scanned.syncedTo.counters
    exact ⟨hmid.step next.ledgerStep,hle.trans (hgrows.counters _)⟩

/-- The steps between leave the index with the scanner. -/
theorem held_of_between {i : ι} (h : Relation.ReflTransGen
    (fun x y => LiveStep ext serde ledger x y ∧ y.held i = x.held i) c c') :
    Relation.ReflTransGen (LiveStep ext serde ledger) c c' ∧ c'.held i = c.held i := by
  induction h with
  | refl => exact ⟨.refl,rfl⟩
  | tail _ next ih => exact ⟨ih.1.tail next.1,next.2.trans ih.2⟩

theorem ScannedOf.turn (h : ScannedOf ext serde ledger c) (hturn : Turn ext serde ledger c c')
    (hlen : ledger.length < 2^63) : ScannedOf ext serde ledger c' ∧
      Counters.get c.db .numBlocksSynced ≤ Counters.get c'.db .numBlocksSynced ∧
      (Accepted ext ledger (Counters.get c.db .numBlocksSynced+1) →
        Counters.get c.db .numBlocksSynced < Counters.get c'.db .numBlocksSynced) := by
  cases hturn with | mk c₁ i config b between next stored => ?_
  obtain ⟨hbetween,hheld⟩ := held_of_between between
  have hread := h.step (.read c i)
  obtain ⟨h₁,hle⟩ := hread.run hbetween
  have hheld₁ : c₁.held i = some b.block.index := by
    rw [hheld, next]
    exact Function.update_self _ _ _
  have hsync : LiveStep ext serde ledger c₁ _ := .sync c₁ i config b hheld₁ stored
  obtain ⟨h',hle'⟩ := h₁.run (.single hsync)
  refine ⟨h',hle.trans hle',fun haccepted => ?_⟩
  rcases hle.lt_or_eq with hlt | heq
  -- another scanner has synced a block by now
  · exact hlt.trans_le hle'
  -- none has, so the scanner syncs its own
  · change Counters.get c.db .numBlocksSynced = Counters.get c₁.db .numBlocksSynced at heq
    have hindex : b.block.index.toNat = Counters.get c₁.db .numBlocksSynced := by
      have hlt : Counters.get c.db .numBlocksSynced < 2^63 :=
        (Nat.lt_of_succ_le haccepted.length).trans hlen
      rw [next, h.scanned.syncedTo.gapless.nextBlockToSync_toNat hlt, heq]
    rw [heq] at haccepted ⊢
    rw [hindex] at stored
    obtain ⟨s',hs'⟩ := h₁.ledgerOf.accepts haccepted stored config
    have hsynced := h₁.scanned.syncedTo.syncAndAudit hs'
    change _ < Counters.get (syncAndAudit ext config b c₁.db).state .numBlocksSynced
    rw [hs'.2, hsynced.gapless.counted]
    exact Nat.lt_succ_self _

theorem ScannedOf.length (h : ScannedOf ext serde ledger c) :
    Counters.get c.db .numBlocksSynced ≤ ledger.length := by
  induction h with
  | start => simp [Counters.get, initialDb_eq]
  | step before next ih =>
    have hs := before.scanned.syncedTo
    rcases next.changes hs.counters with hkept | ⟨config,b,hb,hsync⟩
    · rwa [hkept.counters.get rfl]
    · obtain ⟨hlt,-⟩ := List.getElem?_eq_some_iff.mp hb
      rw [(hs.syncAndAudit hsync).gapless.counted]
      simp only [syncAndAudit, returns_exclusiveTransaction, Program.returns_bind] at hsync
      obtain ⟨data,s₁,hsync,-⟩ := hsync
      rwa [(returns_syncBlockWithConn hs.refs hsync).index] at hlt

/-- No auditor of a ledger gets further than its blocks can be synced alone. -/
theorem ScannedOf.accepted (h : ScannedOf ext serde ledger c) :
    Accepted ext ledger (Counters.get c.db .numBlocksSynced) := by
  obtain ⟨t,ht,-⟩ := h.ledgerOf
  exact ⟨h.length,t,ht⟩

theorem ScannedOf.turns {m : ℕ} (h : ScannedOf ext serde ledger c) (hlen : ledger.length < 2^63)
    (hrun : Turns ext serde ledger m c c') :
    Accepted ext ledger (Counters.get c'.db .numBlocksSynced) ∧
    ∀ k, Accepted ext ledger k → min (Counters.get c.db .numBlocksSynced+m) k ≤
      Counters.get c'.db .numBlocksSynced := by
  induction hrun with
  | rest run =>
    obtain ⟨h',hle⟩ := h.run run
    exact ⟨h'.accepted,fun k hk => (min_le_left _ k).trans hle⟩
  | @turn m c c₁ c₂ c' run turn more ih =>
    obtain ⟨h₁,hle⟩ := h.run run
    obtain ⟨h₂,hle',hnext⟩ := h₁.turn turn hlen
    obtain ⟨haccepted,hrest⟩ := ih h₂
    refine ⟨haccepted,fun k hk => le_trans ?_ (hrest k hk)⟩
    rcases lt_or_ge (Counters.get c₁.db .numBlocksSynced) k with hlt | hge
    · have hgain := hnext (hk.mono hlt)
      omega
    · omega

end ScanState

/-- After `m` turns the scanners have synced `m` more blocks, or all that can be synced at all; they
never sync more than these. -/
theorem scanners_progress {ι : Type} [DecidableEq ι] (ext : Externals) (serde : Serde)
    (ledger : List BlockData) (hlen : ledger.length < 2^63) (m : ℕ) (c c' : ScanState ι)
    (h : Relation.ReflTransGen (LiveStep ext serde ledger) ⟨initialDb,fun _ => none⟩ c)
    (hrun : Turns ext serde ledger m c c') :
    Accepted ext ledger (Counters.get c'.db .numBlocksSynced) ∧
    ∀ k, Accepted ext ledger k → min (Counters.get c.db .numBlocksSynced+m) k ≤
      Counters.get c'.db .numBlocksSynced :=
  (ScannedOf.start.run h).1.turns hlen hrun

/-- The scanner has read that block 0 is next, and a deposit is processed before it syncs it. -/
def depositBetween : ScanState Unit where
  db := (Reference.safeA.processRawTransaction Reference.serde depositOfThree initialDb).state
  held := Function.update (fun _ => none) () (some (nextBlockToSync initialDb))

def depositTurn : ScanState Unit where
  db := (syncAndAudit Reference.externals (some Reference.config) mintAndBurn
    depositBetween.db).state
  held := Function.update depositBetween.held () none

theorem depositTurn_progress :
    Accepted Reference.externals [mintAndBurn] (Counters.get depositTurn.db .numBlocksSynced) ∧
    ∀ k, Accepted Reference.externals [mintAndBurn] k →
      min (Counters.get initialDb .numBlocksSynced+1) k ≤
        Counters.get depositTurn.db .numBlocksSynced := by
  have hclosed : ¬Reference.safeA.LeavesOpen Reference.serde depositOfThree initialDb :=
    Program.not_panics_of_isOk (by decide +kernel)
  have hturn : Turn Reference.externals Reference.serde [mintAndBurn] ⟨initialDb,fun _ => none⟩
      depositTurn :=
    .mk _ depositBetween () (some Reference.config) mintAndBurn
      (.single ⟨.gnosis _ Reference.safeA depositOfThree hclosed,rfl⟩) rfl rfl
  exact scanners_progress Reference.externals Reference.serde [mintAndBurn] (by decide) 1
    ⟨initialDb,fun _ => none⟩ depositTurn .refl (.turn .refl hturn (.rest .refl))

end ReserveAuditor
