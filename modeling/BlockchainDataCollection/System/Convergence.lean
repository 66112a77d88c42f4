import BlockchainDataCollection.System.Integrity

/-!
# The tables converge

A message may be handled by any consumer, in part, and any number of times.
Whatever has happened, every table with a primary key holds rows of one reference
only: what a single consumer writes that reads the topic once.  Where the callback
of every message has returned at least once, nothing of the reference is missing.
-/

namespace BlockchainDataCollection.Convergence

open BlockchainDataCollection.Effect
open BlockchainDataCollection.Python
open BlockchainDataCollection.Data
open BlockchainDataCollection.KeyedTable
open BlockchainDataCollection.Parser
open BlockchainDataCollection.Storage
open BlockchainDataCollection.TxProcessor
open BlockchainDataCollection.Processing
open BlockchainDataCollection.Saving
open BlockchainDataCollection.Relevance
open BlockchainDataCollection.Consuming
open BlockchainDataCollection.Confluence
open BlockchainDataCollection.IterationOrder
open BlockchainDataCollection.Attempts
open BlockchainDataCollection.Pipeline
open BlockchainDataCollection.Progress
open BlockchainDataCollection.Integrity

section Convergence

variable [ChecksumSpelling]

/-- The tables of a single consumer that has read the messages once. -/
def replayed (node : Node) (settings : ParserSettings) (setOrder : SetOrder)
    (messages : List String) : Database :=
  Database.empty.executeAll (messages.flatMap (kafkaEventStatements node settings setOrder))

/-- The callback of every message of the topic has returned. -/
def AllHandled (system : System) : Prop :=
  ∀ event ∈ system.topic, event ∈ system.handled

section Reference

variable {node : Node} {settings : ParserSettings} {setOrder : SetOrder} {topic : List String}
  {name : TableName}

theorem table_replayed (name : TableName) :
    (replayed node settings setOrder topic).table name =
      (Table.empty).insertAll (topic.flatMap fun event =>
        rowsOf name (kafkaEventStatements node settings setOrder event)) := by
  rw [replayed, Database.table_executeAll, rowsOf_flatMap]
  rfl

/-- The internal transactions of an event, in any order of its addresses. -/
theorem rowsOf_internalTransaction_order_eq (event : String) (left right : SetOrder) :
    rowsOf .internalTransaction (kafkaEventStatements node settings left event) =
      rowsOf .internalTransaction (kafkaEventStatements node settings right event) := by
  unfold kafkaEventStatements
  split
  · rfl
  next mode _ _ =>
      split
      · cases mode with
        | full | getLogs | logFilter => rfl
        | partialMode =>
            rw [modeStatements, modeStatements, partialStatements, partialStatements, rowsOf_append,
              rowsOf_append, rowsOf_decisionStatements_eq_nil (by decide),
              rowsOf_decisionStatements_eq_nil (by decide), shouldSave_eq left right,
              savedIndices_eq left right]
      · rfl

/-- A key leads to one row in all messages together. -/
theorem eq_of_original (hnode : CoherentNode node) (horders : OrdersAgree node settings)
    {left right : Row name} {k : Key name} (hleft : Original node {settings} topic name left)
    (hright : Original node {settings} topic name right) (hkleft : primaryKey name left = some k)
    (hkright : primaryKey name right = some k) : left = right := by
  obtain ⟨_, _, _, rfl, _, _, hfirst⟩ := hleft
  obtain ⟨_, _, _, rfl, _, _, hfirst'⟩ := hright
  exact firstWith_kafkaEventStatements_agrees hnode horders (hfirst k hkleft) (hfirst' k hkright)

/-- The rows of the reference are the first ones of some message. -/
theorem original_of_mem_replayed {row : Row name} {k : Key name} (hk : primaryKey name row = some k)
    (hrow : row ∈ ((replayed node settings setOrder topic).table name).rows) :
    ∃ event ∈ topic, Table.firstWith (primaryKey name) k
      (rowsOf name (kafkaEventStatements node settings setOrder event)) = some row := by
  rw [table_replayed, Table.mem_insertAll_iff hk, Table.firstWith_flatMap] at hrow
  rcases hrow with hrow | ⟨_, hfirst⟩
  · cases hrow
  · exact List.exists_of_findSome?_eq_some hfirst

/-- The first row of a message under a key is in the reference. -/
theorem mem_replayed_of_original (hnode : CoherentNode node) (horders : OrdersAgree node settings)
    {row : Row name} {k : Key name} (hk : primaryKey name row = some k)
    (horiginal : Original node {settings} topic name row) :
    row ∈ ((replayed node settings setOrder topic).table name).rows := by
  obtain ⟨event, hevent, settings, rfl, order, _, hfirst⟩ := horiginal
  have hsame := hfirst k hk
  rw [firstWith_kafkaEventStatements_order_eq horders event order setOrder] at hsame
  rw [table_replayed, Table.mem_insertAll_iff hk, Table.firstWith_flatMap]
  refine .inr ⟨rfl, ?_⟩
  cases hfound : topic.findSome? fun event => Table.firstWith (primaryKey name) k
      (rowsOf name (kafkaEventStatements node settings setOrder event)) with
  | none =>
      rw [List.findSome?_eq_none_iff] at hfound
      rw [hfound event hevent] at hsame
      cases hsame
  | some other =>
      obtain ⟨event', _, hother⟩ := List.exists_of_findSome?_eq_some hfound
      rw [firstWith_kafkaEventStatements_agrees hnode horders hother hsame]

theorem mem_replayed_internalTransaction_iff {row : InternalTransactionRow} :
    row ∈ ((replayed node settings setOrder topic).table .internalTransaction).rows ↔
      ∃ event ∈ topic,
        row ∈ rowsOf .internalTransaction (kafkaEventStatements node settings setOrder event) := by
  have hkeyless : ∀ rows : List InternalTransactionRow,
      Table.keyless (primaryKey .internalTransaction) rows = rows :=
    fun rows => List.filter_eq_self.mpr fun row _ => rfl
  rw [table_replayed, ← hkeyless ((Table.empty).insertAll _).rows, Table.keyless_insertAll,
    hkeyless, hkeyless]
  exact List.mem_flatMap

end Reference

/-! ## Reached states -/

section Reached

variable {node : Node} {settings : ParserSettings} {system : System} {topic : List String}

/-- With one configuration file, a stored row is the first one of some message. -/
theorem original_of_reaches (hreaches : Reaches node system)
    (hsame : SameSettings system.workers settings) {name : TableName} (hname : name ≠ .block)
    {row : Row name} (hrow : row ∈ (system.db.table name).rows) :
    Original node {settings} system.topic name row :=
  ((sound_of_reaches hreaches).rows name hname row hrow).mono hsame.settingsOf_subset
    (List.Subset.refl _)

/-- With one configuration file, all that a handled message writes is held. -/
theorem held_of_handled (hreaches : Reaches node system)
    (hsame : SameSettings system.workers settings) {event : String}
    (hevent : event ∈ system.handled) : event ∈ system.topic ∧ ∃ setOrder,
      ∀ statement ∈ kafkaEventStatements node settings setOrder event,
        system.db.Holds statement := by
  have hhandled := (sound_of_reaches hreaches).handled event hevent
  obtain ⟨_, hknown, setOrder, hheld⟩ := hhandled.held
  obtain rfl := hsame.settingsOf_subset hknown
  exact ⟨hhandled.retrieved, setOrder, hheld⟩

/-- Every row that is stored is in the reference. -/
theorem mem_replayed_of_reaches (hnode : CoherentNode node) (horders : OrdersAgree node settings)
    (hreaches : Reaches node system) (hsame : SameSettings system.workers settings)
    (setOrder : SetOrder) (htopic : system.topic ⊆ topic) {name : TableName}
    (hname : name ≠ .block) {row : Row name} (hrow : row ∈ (system.db.table name).rows) :
    row ∈ ((replayed node settings setOrder topic).table name).rows := by
  have horiginal :=
    (original_of_reaches hreaches hsame hname hrow).mono (Set.Subset.refl _) htopic
  by_cases hinternal : name = .internalTransaction
  · subst name
    obtain ⟨event, hevent, settings, rfl, order, hmem, _⟩ := horiginal
    rw [rowsOf_internalTransaction_order_eq event order setOrder] at hmem
    exact mem_replayed_internalTransaction_iff.mpr ⟨event, hevent, hmem⟩
  · obtain ⟨k, hk⟩ := Option.ne_none_iff_exists'.mp
      fun hnone => hinternal (primaryKey_eq_none_iff.mp hnone)
    exact mem_replayed_of_original hnode horders hk horiginal

/-- The first row of a message that was handled is stored. -/
theorem mem_of_handled (hnode : CoherentNode node) (horders : OrdersAgree node settings)
    (hreaches : Reaches node system) (hsame : SameSettings system.workers settings)
    {event : String} (hevent : event ∈ system.handled) {setOrder : SetOrder} {name : TableName}
    (hname : name ≠ .block) {row : Row name} {k : Key name}
    (hfirst : Table.firstWith (primaryKey name) k
      (rowsOf name (kafkaEventStatements node settings setOrder event)) = some row) :
    row ∈ (system.db.table name).rows := by
  obtain ⟨hretrieved, order, hheld⟩ := held_of_handled hreaches hsame hevent
  have hk := Table.key_of_firstWith hfirst
  rw [firstWith_kafkaEventStatements_order_eq horders event setOrder order] at hfirst
  have hmem := Table.mem_of_firstWith hfirst
  rcases hheld _ (mem_rowsOf_iff.mp hmem) with hrow | ⟨k', hk', htaken⟩
  · exact hrow
  · -- another row has the key, and it is the same row
    obtain ⟨other, hother, hkother⟩ := List.mem_filterMap.mp htaken
    have horiginal : Original node {settings} system.topic name row :=
      ⟨event, hretrieved, settings, rfl, order, hmem, fun k'' hk'' => by
        obtain rfl := Option.some.inj (hk.symm.trans hk''); exact hfirst⟩
    rw [eq_of_original hnode horders horiginal
      (original_of_reaches hreaches hsame hname hother) hk' hkother]
    exact hother

theorem mem_internalTransaction_of_handled (hreaches : Reaches node system)
    (hsame : SameSettings system.workers settings) {event : String}
    (hevent : event ∈ system.handled) {setOrder : SetOrder} {row : InternalTransactionRow}
    (hrow : row ∈ rowsOf .internalTransaction (kafkaEventStatements node settings setOrder event)) :
    row ∈ (system.db.table .internalTransaction).rows := by
  obtain ⟨_, order, hheld⟩ := held_of_handled hreaches hsame hevent
  rw [rowsOf_internalTransaction_order_eq event setOrder order] at hrow
  rcases hheld _ (mem_rowsOf_iff.mp hrow) with hmem | ⟨_, hk, _⟩
  · exact hmem
  · cases hk

/-- Where all messages were handled, the tables are those of the reference, but for
copies of internal transactions, in whatever order it reads the messages. -/
theorem tables_converged_of_handled (hnode : CoherentNode node)
    (horders : OrdersAgree node settings) (hreaches : Reaches node system)
    (hsame : SameSettings system.workers settings) (setOrder : SetOrder)
    (hall : AllHandled system) (htopic : ∀ message, message ∈ topic ↔ message ∈ system.topic) :
    (∀ name, name ≠ .block → name ≠ .internalTransaction → (system.db.table name).Same
        ((replayed node settings setOrder topic).table name)) ∧
      ∀ row, row ∈ (system.db.table .internalTransaction).rows ↔
        row ∈ ((replayed node settings setOrder topic).table .internalTransaction).rows := by
  have hsubset : system.topic ⊆ topic := fun message => (htopic message).mpr
  refine ⟨fun name hname hinternal => ?_, fun row => ⟨?_, ?_⟩⟩
  · have hkeyless : ∀ rows : List (Row name), Table.keyless (primaryKey name) rows = [] :=
      fun rows => List.filter_eq_nil_iff.mpr fun row _ hnone =>
        hinternal (primaryKey_eq_none_iff.mp (of_decide_eq_true hnone))
    refine Table.same_iff.mpr ⟨by rw [hkeyless, hkeyless], fun k => Option.ext fun row => ?_⟩
    constructor
    · intro hlookup
      have hk := Table.key_of_firstWith hlookup
      exact (Table.mem_rows_iff_lookup hk).mp (mem_replayed_of_reaches hnode horders hreaches hsame
        setOrder hsubset hname ((Table.mem_rows_iff_lookup hk).mpr hlookup))
    · intro hlookup
      have hk := Table.key_of_firstWith hlookup
      obtain ⟨event, hevent, hfirst⟩ :=
        original_of_mem_replayed hk ((Table.mem_rows_iff_lookup hk).mpr hlookup)
      exact (Table.mem_rows_iff_lookup hk).mp
        (mem_of_handled hnode horders hreaches hsame (hall event ((htopic event).mp hevent)) hname
          hfirst)
  · exact mem_replayed_of_reaches hnode horders hreaches hsame setOrder hsubset
      TableName.noConfusion
  · intro hrow
    obtain ⟨event, hevent, hmem⟩ := mem_replayed_internalTransaction_iff.mp hrow
    exact mem_internalTransaction_of_handled hreaches hsame (hall event ((htopic event).mp hevent))
      hmem

end Reached

end Convergence

section Deployment

open Relevance.Deployment

theorem ordersAgree_mintNode : OrdersAgree mintNode parser.settings := by
  intro _ tx receipt htx hreceipt
  obtain rfl := Except.ok.inj htx
  obtain rfl := Except.ok.inj hreceipt
  have hsupply : ∀ i ∈ eventAddresses mintReceipt, ∀ j ∈ eventAddresses mintReceipt,
      netSupply parser.settings mintReceipt i ≠ 0 → netSupply parser.settings mintReceipt j ≠ 0 →
        netSupply parser.settings mintReceipt i = netSupply parser.settings mintReceipt j := by
    decide
  have htransfers : ∀ left ∈ mintReceipt.logs, ∀ right ∈ mintReceipt.logs,
      (recordedTransfer parser.settings left).isSome →
        (recordedTransfer parser.settings right).isSome → left.logIndex = right.logIndex →
          left.address.val = right.address.val := by
    decide
  exact ⟨fun i hi j hj hi' hj' => .inl (hsupply i hi j hj hi' hj'),
    fun left hleft right hright hleft' hright' hindex =>
      .inl (Subtype.ext (htransfers left hleft right hright hleft' hright' hindex))⟩

end Deployment

end BlockchainDataCollection.Convergence
