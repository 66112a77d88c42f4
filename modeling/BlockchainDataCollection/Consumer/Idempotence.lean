import BlockchainDataCollection.Consumer.Completeness

/-!
# Processing a transaction twice

Every table but `internal_transaction` keeps the first row of a key, so a second
run writes only the internal transactions again.
-/

namespace BlockchainDataCollection.Idempotence

open BlockchainDataCollection.Effect
open BlockchainDataCollection.Python
open BlockchainDataCollection.Data
open BlockchainDataCollection.KeyedTable
open BlockchainDataCollection.Parser
open BlockchainDataCollection.Storage
open BlockchainDataCollection.TxProcessor
open BlockchainDataCollection.Processing
open BlockchainDataCollection.Saving
open BlockchainDataCollection.Relevance
open BlockchainDataCollection.Completeness

section Processors

variable [ChecksumSpelling] {node : Node} {tx : TxData} {receipt : TxReceipt}

/-- The parsed list has one element for each entry of the trace. -/
theorem storedInternalTransactions_eq_nil_iff {txHash : String}
    (h : ∃ internalTxData, internalTransactions node txHash = .ok internalTxData) :
    storedInternalTransactions node txHash = [] ↔ node.traceReplayTransaction txHash = .ok [] := by
  obtain ⟨internalTxData, h⟩ := h
  have hstored : storedInternalTransactions node txHash = internalTxData := by
    simp [storedInternalTransactions, h]
  rw [hstored]
  unfold internalTransactions at h
  cases hdata : node.traceReplayTransaction txHash with
  | error error => simp [hdata, bind, Except.bind] at h
  | ok data =>
      simp only [hdata, bind, Except.bind] at h
      cases data with
      | nil =>
          obtain rfl : [] = internalTxData := Except.ok.inj h
          simp
      | cons entry data =>
          rw [List.mapM_cons] at h
          cases hentry : InternalTransactionData.parse (TraceEntry.txData entry) with
          | error error => simp [hentry, bind, Except.bind] at h
          | ok first =>
              cases hrest : data.mapM fun entry =>
                  InternalTransactionData.parse (TraceEntry.txData entry) with
              | error error => simp [hentry, hrest, bind, Except.bind] at h
              | ok rest =>
                  simp only [hentry, hrest, bind, Except.bind, pure, Except.pure] at h
                  obtain rfl := Except.ok.inj h
                  simp

theorem rowsOf_internalTransaction_saveStatements_eq_nil_iff {txData : TransactionData}
    (txReceiptData : TransactionReceiptData) (indices : Finset ℕ)
    (h : ∃ internalTxData,
      internalTransactions node txData.transactionHash = .ok internalTxData) :
    rowsOf .internalTransaction (saveStatements node txData txReceiptData indices) = [] ↔
      node.traceReplayTransaction txData.transactionHash = .ok [] := by
  rw [rowsOf_internalTransaction_saveStatements, ← storedInternalTransactions_eq_nil_iff h]
  exact List.map_eq_nil_iff

theorem rowsOf_internalTransaction_partialStatements_eq_nil_iff {settings : ParserSettings}
    {setOrder : SetOrder} (h : Succeeds node settings setOrder tx receipt) :
    rowsOf .internalTransaction (partialStatements node settings setOrder tx receipt) = [] ↔
      node.traceReplayTransaction tx.hash = .ok [] ∨ ¬ SaveCase settings tx receipt := by
  rw [partialStatements, rowsOf_append, rowsOf_decisionStatements_eq_nil (by decide),
    List.nil_append, ← shouldSave_iff]
  cases hsave : shouldSave settings setOrder tx receipt with
  | false => simp
  | true =>
      rw [if_pos rfl, rowsOf_internalTransaction_saveStatements_eq_nil_iff _ _ (h.traced hsave)]
      simp [TransactionData.parse]

/-- A second run that writes what the first one wrote. -/
theorem Performs.process_twice_same_iff {A B : Type} {first : ConsumerProgram A}
    {second : ConsumerProgram B} {value : A} {result : B} {statements : List Statement}
    (hfirst : Performs node first value statements)
    (hsecond : Performs node second result statements) (db : Database) :
    (process node second (process node first db).2).2.Same (process node first db).2 ↔
      rowsOf .internalTransaction statements = [] := by
  rw [hfirst.process, hsecond.process]
  exact db.executeAll_twice_same_iff statements

/-- After a run that returned, a second run changes no table exactly when the
trace is empty or, in mode `partial`, the transaction is not saved. -/
theorem second_run_same_iff (setOrder : SetOrder) (tx : TxData) (receipt : TxReceipt) :
    (∀ db save db₁,
      process node (FullTransactionProcessor.processTransaction (.parse tx) (.parse receipt)) db =
          (.returned save, db₁) →
        ((process node (FullTransactionProcessor.processTransaction (.parse tx) (.parse receipt))
            db₁).2.Same db₁ ↔ node.traceReplayTransaction tx.hash = .ok [])) ∧
      ∀ (parser : ContractParser) db save parser₁ db₁, parser.Consistent →
        process node (PartialTransactionProcessor.processTransaction setOrder parser (.parse tx)
          (.parse receipt) receipt) db = (.returned (save, parser₁), db₁) →
        ((process node (PartialTransactionProcessor.processTransaction setOrder parser₁
            (.parse tx) (.parse receipt) receipt) db₁).2.Same db₁ ↔
          node.traceReplayTransaction tx.hash = .ok [] ∨
            ¬ SaveCase parser.settings tx receipt) := by
  constructor
  · intro db save db₁ hrun
    obtain ⟨htrace, hperforms⟩ := full_of_returned (outcome_of_process hrun)
    obtain rfl : (process node _ db).2 = db₁ := congrArg Prod.snd hrun
    exact (Performs.process_twice_same_iff hperforms hperforms db).trans
      (rowsOf_internalTransaction_saveStatements_eq_nil_iff _ _ htrace)
  · intro parser db save parser₁ db₁ hparser hrun
    have hreturned := outcome_of_process hrun
    have hsucceeds := succeeds_of_returned hparser hreturned
    obtain ⟨_, hsettings, hconsistent, hperforms⟩ := partial_of_returned hparser hreturned
    obtain ⟨_, _, _, hsecond⟩ :=
      partial_performs hconsistent
        (hsettings.symm ▸ hsucceeds : Succeeds node _ setOrder tx receipt)
    rw [hsettings] at hsecond
    obtain rfl : (process node _ db).2 = db₁ := congrArg Prod.snd hrun
    exact (Performs.process_twice_same_iff hperforms hsecond db).trans
      (rowsOf_internalTransaction_partialStatements_eq_nil_iff hsucceeds)

end Processors

section Deployment

open Deployment

/-- A node whose traces hold the call of the transaction itself. -/
def tracingNode : Node :=
  { node with traceReplayTransaction := fun _ => .ok [{
      action := [("from", holder.val), ("to", coin.val), ("value", "0x10"), ("gas", "0x5208"),
        ("input", "0x"), ("callType", "call")]
      result := some [("gasUsed", "0x0"), ("output", "0x")] }] }

/-- The mint of a coin, and the transfer of a collectible. -/
def transferReceipt : TxReceipt where
  gasUsed := 21000
  logs := [transferLog coin 0 zeroAddress holder "0x10" [],
    transferLog collectible 1 zeroAddress holder "0x"
      ["0x000000000000000000000000000000000000000000000000000000000000002a"]]
  contractAddress := none

/-- Without a trace the second run changes nothing, in either mode: not the rows of
the two logs, nor the supply change and the token transfer. -/
theorem second_run_same_of_no_trace :
    (∃ db, process node (FullTransactionProcessor.processTransaction
          (.parse (transaction (some holder))) (.parse transferReceipt)) Database.empty =
        (.returned true, db) ∧
      (process node (FullTransactionProcessor.processTransaction
        (.parse (transaction (some holder))) (.parse transferReceipt)) db).2.Same db) ∧
    ∃ parser' db, process node (PartialTransactionProcessor.processTransaction setOrder parser
          (.parse (transaction (some holder))) (.parse transferReceipt) transferReceipt)
          Database.empty = (.returned (true, parser'), db) ∧
      (process node (PartialTransactionProcessor.processTransaction setOrder parser'
          (.parse (transaction (some holder))) (.parse transferReceipt) transferReceipt)
          db).2.Same db := by
  constructor
  · have hperforms : Performs node (FullTransactionProcessor.processTransaction
        (.parse (transaction (some holder))) (.parse transferReceipt)) true _ :=
      full_performs rfl transferReceipt
    have hrun := hperforms.process Database.empty
    exact ⟨_, hrun, ((second_run_same_iff setOrder _ _).1 _ _ _ hrun).mpr rfl⟩
  · obtain ⟨parser', _, _, hperforms⟩ := partial_performs parser_consistent
      (succeeds (transaction (some holder)) transferReceipt)
    have hsave : shouldSave parser.settings setOrder (transaction (some holder)) transferReceipt =
        true := by decide
    rw [hsave] at hperforms
    have hrun := hperforms.process Database.empty
    exact ⟨parser', _, hrun,
      ((second_run_same_iff setOrder _ _).2 _ _ _ _ _ parser_consistent hrun).mpr (.inl rfl)⟩

/-- The internal transaction is stored twice. -/
theorem internalTransaction_stored_twice :
    let program := FullTransactionProcessor.processTransaction (.parse (transaction (some holder)))
      (.parse transferReceipt)
    let first := process tracingNode program Database.empty
    first.1 = .returned true ∧ ¬ (process tracingNode program first.2).2.Same first.2 := by
  refine ⟨by decide, fun hsame => ?_⟩
  exact absurd (hsame .internalTransaction).length_eq (by decide)

end Deployment

end BlockchainDataCollection.Idempotence
