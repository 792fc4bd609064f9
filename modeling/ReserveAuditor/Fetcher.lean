import ReserveAuditor.Lib.Paging
import ReserveAuditor.Polling
import ReserveAuditor.RecordIsolation

/-! Polling for the transactions of a safe: fetching all pages (`gnosis/fetcher.rs`) and processing
what was fetched (`gnosis/sync.rs`), while other threads go on. -/
namespace ReserveAuditor
open Txn Relational Paging

/-! ### The fetcher -/

/-- A page of transactions, as it is deserialized. -/
structure AllTransactionsResponse (Url : Type) where
  count : UInt64
  next : Option Url
  previous : Option Url
  results : List Json

/-- `reqwest::blocking::Response` -/
structure HttpResponse (Url : Type) where
  status : ℕ
  statusText : String
  json : Except String (AllTransactionsResponse Url)

/-- What is used of `url` and of `reqwest`; `send k` is how request number `k` is answered. -/
structure Web (Url : Type) where
  display : Url → String
  path : Url → String
  join : Url → String → Except String Url
  send : ℕ → Url → Except String (HttpResponse Url)

inductive FetchError where
  | urlParse (message : String)
  | gnosis (error : GnosisError)

/-- A fetcher of the transactions from a URL endpoint, which ends with a slash. -/
structure GnosisSafeFetcher (Url : Type) where
  baseUrl : Url

namespace GnosisSafeFetcher
variable {Url : Type}

def new (web : Web Url) (baseUrl : Url) : Except FetchError (GnosisSafeFetcher Url) :=
  if (web.path baseUrl).endsWith "/" then .ok ⟨baseUrl⟩
  else ((web.join baseUrl s!"{web.path baseUrl}/").map fun url => ⟨url⟩).mapError .urlParse

/-- Fetch transaction data from a specific url endpoint. -/
def getAllTransactionDataFromUrl (web : Web Url) (k : ℕ) (url : Url) :
    Except GnosisError (AllTransactionsResponse Url) := do
  let response ← (web.send k url).mapError fun err =>
    .other s!"Failed to fetch '{web.display url}': {err}"
  if response.status ≠ 200 then
    .error (.other (s!"Failed to fetch '{web.display url}': Expected status 200, " ++
      s!"got {response.statusText}"))
  else
    response.json.mapError fun err =>
      .apiResultParse s!"Failed parsing JSON from '{web.display url}': {err}"

/-- The raw transactions of a page. -/
def requestPage (web : Web Url) (k : ℕ) (url : Url) :
    Except GnosisError (Page RawGnosisTransaction Url) :=
  (getAllTransactionDataFromUrl web k url).map fun response =>
    ⟨response.results.map RawGnosisTransaction.mk,response.next⟩

/-- Where the first page of the transactions of a safe is. -/
def allTransactionsUrl (web : Web Url) (fetcher : GnosisSafeFetcher Url) (safeAddr : EthAddr) :
    Except String Url :=
  web.join fetcher.baseUrl
    s!"api/v1/safes/{safeAddr}/all-transactions/?executed=true&queued=false&trusted=true"

/-- Fetch transaction data, page by page, from request number `k` on. -/
def getAllTransactionData (web : Web Url) (fetcher : GnosisSafeFetcher Url) (safeAddr : EthAddr)
    (fuel k : ℕ) : Option (Except FetchError (List RawGnosisTransaction)) :=
  match allTransactionsUrl web fetcher safeAddr with
  | .error err => some (.error (.urlParse err))
  | .ok url => (readPages (requestPage web) fuel k url []).map (Except.mapError .gnosis)

end GnosisSafeFetcher

/-- What there is to process after a fetch. -/
def fetchedTransactions (fetched : Except FetchError (List RawGnosisTransaction)) :
    List RawGnosisTransaction := fetched.toOption.getD []

/-- Poll the Gnosis API for transaction data, given what was fetched. Failures are counted by the
process, in `NUM_FAILED_GNOSIS_GET_ALL_TRANSACTION_DATA`. -/
def AuditedSafeConfig.poll (safe : AuditedSafeConfig) (serde : Serde)
    (fetched : Except FetchError (List RawGnosisTransaction)) (numFailed : ℕ) : Conn ℕ :=
  match fetched with
  | .ok transactions => do
    safe.processTransactions serde transactions
    pure numFailed
  | .error _ => pure (numFailed+1)

/-! ### The journal -/

variable {ext : Externals} {serde : Serde} {safe : AuditedSafeConfig} {s s' s'' : Db}
  {txs : List RawGnosisTransaction}

/-- New hashes were recorded, each of them once. -/
def Journaled (s s' : Db) : Prop := ∃ hashes : List EthTxHash,
  s'.gnosisSafeTxs.map (·.ethTxHash) = s.gnosisSafeTxs.map (·.ethTxHash) ++
    hashes.map EthTxHash.toString ∧
  hashes.Nodup ∧ ∀ hash ∈ hashes, hashProcessed s hash.toString = false

theorem journaled_of_eq (h : s'.gnosisSafeTxs = s.gnosisSafeTxs) : Journaled s s' :=
  ⟨[],by rw [h, List.map_nil, List.append_nil],List.nodup_nil,by simp⟩

theorem hashProcessed_iff (s : Db) (hash : String) :
    hashProcessed s hash = true ↔ hash ∈ s.gnosisSafeTxs.map (·.ethTxHash) := by
  simp [hashProcessed]

theorem Journaled.hashProcessed (h : Journaled s s') {hash : String}
    (hs : ReserveAuditor.hashProcessed s hash = true) :
    ReserveAuditor.hashProcessed s' hash = true := by
  obtain ⟨hashes,hmap,-⟩ := h
  rw [hashProcessed_iff] at hs ⊢
  rw [hmap]
  exact List.mem_append_left _ hs

theorem Journaled.trans (h : Journaled s s') (h' : Journaled s' s'') : Journaled s s'' := by
  obtain ⟨hashes,hmap,hnodup,hnew⟩ := h
  obtain ⟨hashes',hmap',hnodup',hnew'⟩ := h'
  refine ⟨hashes ++ hashes',by rw [hmap', hmap, List.map_append, List.append_assoc],?_,?_⟩
  -- what is new to the second part was not recorded in the first
  · refine List.nodup_append.mpr ⟨hnodup,hnodup',?_⟩
    rintro hash hhash _ hhash' rfl
    have hrec : ReserveAuditor.hashProcessed s' hash.toString = true := by
      rw [hashProcessed_iff, hmap]
      exact List.mem_append_right _ (List.mem_map_of_mem hhash)
    rw [hnew' hash hhash'] at hrec
    exact absurd hrec (by decide)
  · intro hash hhash
    rcases List.mem_append.mp hhash with hhash | hhash
    · exact hnew hash hhash
    · by_contra hrec
      have hlater := Journaled.hashProcessed ⟨hashes,hmap,hnodup,hnew⟩ (by simpa using hrec)
      rw [hnew' hash hhash] at hlater
      exact absurd hlater (by decide)

theorem journaled_processRawTransaction {tx : RawGnosisTransaction}
    (h : (safe.processRawTransaction serde tx).Returns s () s') : Journaled s s' := by
  obtain ⟨hash,-,⟨-,rfl⟩ | ⟨hfresh,decoded,-,hp⟩⟩ := returns_processRawTransaction h
  · exact journaled_of_eq rfl
  · refine ⟨[hash],?_,List.nodup_singleton hash,fun x hx => by rwa [List.mem_singleton.mp hx]⟩
    rw [hp.rowsAdded.txs, recordHash, List.map_append]
    rfl

/-- Whatever happens in the database, nothing is recorded twice and no record is lost. -/
theorem journaled_activity (ext : Externals) (serde : Serde) (config : Option GnosisSafeConfig)
    (a : Activity) (s : Db) : Journaled s (a.program ext serde config s).state := by
  rcases activity_cases ext serde config a s with h | ⟨-,h⟩
  · cases a with
    | ledger b => exact journaled_of_eq (recordsKept_syncAndAudit ext config b s).txs
    | gnosis safe tx => exact journaled_processRawTransaction h
  · rw [h]
    exact journaled_of_eq rfl

/-! ### Polls -/

/-- The thread of a safe processes transactions, each in its own transaction of the database, while
others act in between. -/
inductive Interleaved (ext : Externals) (serde : Serde) (safe : AuditedSafeConfig) :
    Db → List RawGnosisTransaction → Db → Prop where
  | done (s : Db) : Interleaved ext serde safe s [] s
  | other {s s' : Db} {txs : List RawGnosisTransaction} (config : Option GnosisSafeConfig)
      (a : Activity)
      (rest : Interleaved ext serde safe (a.program ext serde config s).state txs s') :
      Interleaved ext serde safe s txs s'
  | next {s s₁ s' : Db} {tx : RawGnosisTransaction} {txs : List RawGnosisTransaction}
      (processed : (safe.processRawTransaction serde tx).Returns s () s₁)
      (rest : Interleaved ext serde safe s₁ txs s') : Interleaved ext serde safe s (tx :: txs) s'

theorem Interleaved.records (h : Interleaved ext serde safe s txs s') : Journaled s s' ∧
    ∀ tx ∈ txs, ∃ hash, tx.txHash = .ok hash ∧ hashProcessed s' hash.toString = true := by
  induction h with
  | done s => exact ⟨journaled_of_eq rfl,by simp⟩
  | other config a rest ih => exact ⟨(journaled_activity ext serde config a _).trans ih.1,ih.2⟩
  | next processed rest ih =>
    obtain ⟨hash,hhash,hrec⟩ := processRawTransaction_records processed
    refine ⟨(journaled_processRawTransaction processed).trans ih.1,fun tx htx => ?_⟩
    rcases List.mem_cons.mp htx with rfl | htx
    · exact ⟨hash,hhash,ih.1.hashProcessed ((hrec hash).mpr (Or.inr rfl))⟩
    · exact ih.2 tx htx

theorem interleaved_of_processTransactions {u : Unit}
    (h : (safe.processTransactions serde txs).Returns s u s') :
    Interleaved ext serde safe s txs s' := by
  unfold AuditedSafeConfig.processTransactions at h
  induction txs generalizing s with
  | nil =>
    obtain rfl := (Program.returns_forEach_nil _ s s' u).mp h
    exact .done _
  | cons tx txs ih =>
    obtain ⟨s₁,hone,hrest⟩ := (Program.returns_forEach_cons _ _ _ s s' u).mp h
    exact .next hone (ih hrest)

/-- How a poll that nothing comes in between of ends, given what was fetched: it is processed, and
exactly its hashes are recorded with those that were before. A fetch that failed is counted and
leaves the database as it was. -/
def PollEnds (ext : Externals) (serde : Serde) (safe : AuditedSafeConfig) (n : ℕ) (s : Db) (m : ℕ)
    (s' : Db) : Except FetchError (List RawGnosisTransaction) → Prop
  | .ok txs => m = n ∧ (safe.processTransactions serde txs).Returns s () s' ∧
      Interleaved ext serde safe s txs s' ∧ ∀ hash : EthTxHash,
        hashProcessed s' hash.toString = true ↔
          hashProcessed s hash.toString = true ∨ ∃ tx ∈ txs, tx.txHash = .ok hash
  | .error _ => m = n+1 ∧ s' = s

theorem returns_poll {fetched : Except FetchError (List RawGnosisTransaction)} {n m : ℕ}
    (h : (safe.poll serde fetched n).Returns s m s') :
    PollEnds ext serde safe n s m s' fetched := by
  cases fetched with
  | error e =>
    obtain ⟨rfl,rfl⟩ := (Program.returns_pure _ _ _ _).mp h
    exact ⟨rfl,rfl⟩
  | ok txs =>
    simp only [AuditedSafeConfig.poll, Program.returns_bind, Program.returns_pure] at h
    obtain ⟨u,t,h,rfl,rfl⟩ := h
    exact ⟨rfl,h,interleaved_of_processTransactions h,processTransactions_records h⟩

/-- How a safe whose transactions are served as a growing history is polled: a fetch ends unless
requests fail or the history outruns it, nothing is recorded twice, and whatever was there when the
fetch began is recorded once it was processed. -/
structure PollsRecord {Url : Type} (web : Web Url) (fetcher : GnosisSafeFetcher Url)
    (ext : Externals) (serde : Serde) (safe : AuditedSafeConfig)
    (history : ℕ → List RawGnosisTransaction) (size : ℕ) (key : ℕ → Url) : Prop where
  ends : ∀ bound fuel k, (∀ k, (history k).length ≤ bound) → bound < fuel*size →
    (∀ k offset, ∃ page, GnosisSafeFetcher.requestPage web k (key offset) = .ok page) →
    ∃ txs, fetcher.getAllTransactionData web safe.safeAddr fuel k = some (.ok txs)
  records : ∀ fuel k fetched,
    fetcher.getAllTransactionData web safe.safeAddr fuel k = some fetched → ∀ s s',
    Interleaved ext serde safe s (fetchedTransactions fetched) s' → Journaled s s' ∧
      (fetched.isOk = true → ∀ tx ∈ history k, ∃ hash, tx.txHash = .ok hash ∧
        hashProcessed s' hash.toString = true)
  polls : ∀ fetched n m s s', (safe.poll serde fetched n).Returns s m s' →
    PollEnds ext serde safe n s m s' fetched

/-- The service serves the transactions of the safe newest first, in pages of `size`, so that new
transactions move the others to later pages while they are fetched. Even so none is missed. -/
theorem polls_record_history {Url : Type} (web : Web Url) (fetcher : GnosisSafeFetcher Url)
    (ext : Externals) (serde : Serde) (safe : AuditedSafeConfig)
    (history : ℕ → List RawGnosisTransaction) (size : ℕ) (key : ℕ → Url)
    (hurl : fetcher.allTransactionsUrl web safe.safeAddr = .ok (key 0))
    (hserves : ServesHistory (GnosisSafeFetcher.requestPage web) history size key) :
    PollsRecord web fetcher ext serde safe history size key := by
  refine ⟨fun bound fuel k hbound hfuel hok => ?_,fun fuel k fetched hfetch s s' h =>
    ⟨h.records.1,fun hisOk tx htx => h.records.2 tx ?_⟩,fun _ _ _ _ _ => returns_poll⟩
  · have hpos : 0 < fuel := by
      by_contra hzero
      obtain rfl : fuel = 0 := by omega
      simp at hfuel
    obtain ⟨txs,htxs⟩ : ∃ txs, readPages (GnosisSafeFetcher.requestPage web) fuel k (key 0) [] =
        some (.ok txs) := hserves.readPages_ends hok hbound k [] (by omega) hpos
    refine ⟨txs,?_⟩
    simp only [GnosisSafeFetcher.getAllTransactionData, hurl, htxs]
    rfl
  · simp only [GnosisSafeFetcher.getAllTransactionData, hurl, Option.map_eq_some_iff] at hfetch
    obtain ⟨result,hread,rfl⟩ := hfetch
    cases result with
    | error e => simp [Except.mapError, Except.isOk, Except.toBool] at hisOk
    | ok txs =>
      obtain ⟨more,rfl,hsub,-⟩ := hserves.readPages_sublist hread
      exact hsub.subset htx

/-! ### A service -/

/-- A service whose URLs are offsets, and which never fails. -/
def pagedWeb (history : ℕ → List RawGnosisTransaction) (size : ℕ) : Web ℕ where
  display := toString
  path _ := "/"
  join _ _ := .ok 0
  send k offset := .ok ⟨200,"200 OK",.ok {
    count := .ofNat (history k).length
    next := if offset+size < (history k).length then some (offset+size) else none
    previous := none
    results := (((history k).drop offset).take size).map RawGnosisTransaction.raw }⟩

/-- Three transactions, and a fourth one from the second request on. -/
def racingHistory (k : ℕ) : List RawGnosisTransaction :=
  (if k = 0 then [] else [Reference.depositTx '4' []]) ++
    [Reference.depositTx '3' [],Reference.depositTx '2' [],Reference.depositTx '1' []]

theorem racingHistory_polls_record : PollsRecord (pagedWeb racingHistory 2) ⟨0⟩ Reference.externals
    Reference.serde Reference.safeA racingHistory 2 id := by
  refine polls_record_history _ _ _ _ _ _ _ _ rfl ⟨fun k => ?_,fun k offset page hpage => ?_⟩
  · cases k with
    | zero => exact List.suffix_append _ _
    | succ k => exact List.suffix_rfl
  · obtain rfl := Except.ok.inj hpage
    have hraw (txs : List RawGnosisTransaction) :
        (txs.map RawGnosisTransaction.raw).map RawGnosisTransaction.mk = txs := by
      rw [List.map_map]
      exact List.map_id txs
    simp only [hraw, id]

end ReserveAuditor
