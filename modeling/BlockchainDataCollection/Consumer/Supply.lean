import BlockchainDataCollection.Consumer.Relevance

/-!
# Accounting for supply changes

A handler adds the mints of its contract up and subtracts the burns, over all
the events its generator yields.  The amount only sees the contract's own
events, but the row is keyed by the loop variable, which is left on the last
event whoever emitted it.
-/

namespace BlockchainDataCollection.Supply

open BlockchainDataCollection.Effect
open BlockchainDataCollection.Python
open BlockchainDataCollection.Data
open BlockchainDataCollection.Events
open BlockchainDataCollection.Parser
open BlockchainDataCollection.Storage
open BlockchainDataCollection.TxProcessor
open BlockchainDataCollection.Processing
open BlockchainDataCollection.Relevance

/-! ## The net amount -/

def minted (event : ContractEvent) : ℤ :=
  match event.body with
  | .mintFungible value => value
  | _ => 0

def burned (event : ContractEvent) : ℤ :=
  match event.body with
  | .burnFungible value => value
  | _ => 0

/-- The values of the contract's own allowed mints, less those of its own
allowed burns. -/
def netAmount (allowed : Finset String) (contractAddress : String)
    (events : List ContractEvent) : ℤ :=
  ((events.filter (IsHandled allowed contractAddress)).map minted).sum -
    ((events.filter (IsHandled allowed contractAddress)).map burned).sum

/-- The row a net amount calls for, under the contract's own address. -/
def supplyRows (contractAddress txHash : String) (amount : ℤ) : List ContractSupplyChangeRow :=
  if amount = 0 then []
  else [{ address := contractAddress, transactionHash := txHash, amountChanged := amount }]

/-- The same own events, in whatever order; events of other addresses are free. -/
def Varies (allowed : Finset String) (contractAddress : String)
    (events varied : List ContractEvent) : Prop :=
  (events.filter (IsHandled allowed contractAddress)).Perm
    (varied.filter (IsHandled allowed contractAddress))

/-- The generator ends on an event of this address, allowed or not. -/
def EndsAt (contractAddress : String) (events : List ContractEvent) : Prop :=
  events.getLast?.map ContractEvent.address = some contractAddress

theorem amountChanged_totalsOf (allowed : Finset String) (contractAddress : String)
    (events : List ContractEvent) :
    (totalsOf allowed contractAddress events).amountChanged =
      netAmount allowed contractAddress events := by
  have hdelta : (fun event => supplyDelta event + burned event) = minted := by
    funext event
    obtain ⟨address, logIndex, body⟩ := event
    cases body <;> simp [supplyDelta, minted, burned]
  apply eq_sub_of_add_eq
  calc (totalsOf allowed contractAddress events).amountChanged +
        ((events.filter (IsHandled allowed contractAddress)).map burned).sum
      = ((events.filter (IsHandled allowed contractAddress)).map
          fun event => supplyDelta event + burned event).sum := List.sum_map_add.symm
    _ = ((events.filter (IsHandled allowed contractAddress)).map minted).sum := by rw [hdelta]

theorem netAmount_eq_of_varies {allowed : Finset String} {contractAddress : String}
    {events varied : List ContractEvent} (hvaries : Varies allowed contractAddress events varied) :
    netAmount allowed contractAddress events = netAmount allowed contractAddress varied := by
  rw [netAmount, netAmount, (hvaries.map minted).sum_eq, (hvaries.map burned).sum_eq]

/-- A net amount that is not zero comes from some event. -/
theorem exists_getLast?_of_netAmount {allowed : Finset String} {contractAddress : String}
    {events : List ContractEvent} (h : netAmount allowed contractAddress events ≠ 0) :
    ∃ last, events.getLast? = some last := by
  refine Option.ne_none_iff_exists'.mp fun hnone => h ?_
  simp [List.getLast?_eq_none_iff.mp hnone, netAmount]

/-! ## Events of one category -/

/-- Events of a category without fungible tokens do not change any supply. -/
theorem netAmount_eq_zero {category : ContractCategory} (hcategory : category ≠ .erc20)
    {events : List ContractEvent} (hevents : ∀ event ∈ events, categoryOf event.body = category)
    (allowed : Finset String) (contractAddress : String) :
    netAmount allowed contractAddress events = 0 := by
  have hzero : ∀ event ∈ events.filter (IsHandled allowed contractAddress),
      minted event = 0 ∧ burned event = 0 := by
    intro event hevent
    have hbody := hevents event (List.mem_of_mem_filter hevent)
    obtain ⟨address, logIndex, body⟩ := event
    cases body <;> simp_all [categoryOf, minted, burned]
  rw [netAmount, List.map_congr_left fun event hevent => (hzero event hevent).1,
    List.map_congr_left fun event hevent => (hzero event hevent).2, sub_self]

/-- Only transfers of tokens are written inside the loop. -/
theorem nftStatements_eq_nil {category : ContractCategory} (hcategory : category ≠ .erc721)
    {events : List ContractEvent} (hevents : ∀ event ∈ events, categoryOf event.body = category)
    (allowed : Finset String) (contractAddress txHash : String) :
    nftStatements allowed contractAddress txHash events = [] := by
  refine List.filterMap_eq_nil_iff.mpr fun event hevent => ?_
  have hbody := hevents event (List.mem_of_mem_filter hevent)
  obtain ⟨address, logIndex, body⟩ := event
  cases body <;> simp_all [categoryOf, nftTransferStatement]

section Handler

variable [ChecksumSpelling]

/-! ## Attempted inserts -/

/-- The rows a program tries to insert into `contract_supply_change`, whatever
its calls answer. -/
def attemptedSupplyRows {A : Type} (answer : (op : ConsumerCall) → Except PyError op.Answer)
    (program : ConsumerProgram A) : List ContractSupplyChangeRow :=
  rowsOf .contractSupplyChange
    ((@Program.calls consumerSignature _ _ answer program).flatMap callStatements)

/-- Committing statements one by one stops at the first that fails. -/
theorem flatMap_calls_writeEach_isPrefix {A : Type}
    (answer : (op : ConsumerCall) → Except PyError op.Answer) (value : A)
    (statements : List Statement) :
    (@Program.calls consumerSignature _ _ answer (writeEach value statements)).flatMap
      callStatements <+: statements := by
  induction statements with
  | nil => exact List.prefix_refl _
  | cons statement statements ih =>
      unfold writeEach execute Program.perform
      rw [Program.call_bind, Program.calls_call, List.flatMap_cons]
      refine (List.prefix_append_right_inj [statement]).mpr ?_
      cases answer (.execute [statement]) with
      | ok _ => exact ih
      | error error => exact List.nil_prefix

/-- The first statement is attempted in any case. -/
theorem exists_flatMap_calls_writeEach_cons {A : Type}
    (answer : (op : ConsumerCall) → Except PyError op.Answer) (value : A)
    (statement : Statement) (statements : List Statement) :
    ∃ later, later <+: statements ∧
      (@Program.calls consumerSignature _ _ answer
        (writeEach value (statement :: statements))).flatMap callStatements =
          statement :: later := by
  have hprefix := flatMap_calls_writeEach_isPrefix answer value (statement :: statements)
  have hhead : ∃ later, (@Program.calls consumerSignature _ _ answer
      (writeEach value (statement :: statements))).flatMap callStatements =
        statement :: later := ⟨_, rfl⟩
  obtain ⟨later, hlater⟩ := hhead
  rw [hlater] at hprefix
  exact ⟨later, (List.cons_prefix_cons.mp hprefix).2, hlater⟩

theorem attemptedSupplyRows_eq_nil {A : Type}
    {answer : (op : ConsumerCall) → Except PyError op.Answer} {value : A}
    {statements : List Statement}
    (h : ∀ statement ∈ statements, statement.table ≠ .contractSupplyChange) :
    attemptedSupplyRows answer (writeEach value statements) = [] :=
  rowsOf_eq_nil fun statement hstatement =>
    h statement ((flatMap_calls_writeEach_isPrefix answer value statements).subset hstatement)

/-- A net amount of zero attempts nothing. -/
theorem attemptedSupplyRows_of_eq_zero (answer : (op : ConsumerCall) → Except PyError op.Answer)
    {allowed : Finset String} {contract : Contract} {events : List ContractEvent}
    (hzero : netAmount allowed contract.address events = 0) (txHash : String) :
    attemptedSupplyRows answer (handleYieldedEvents (some allowed) contract txHash events) =
      [] := by
  have hsupply : supplyStatements txHash (totalsOf allowed contract.address events) = [] := by
    simp only [supplyStatements, amountChanged_totalsOf, hzero, if_true]
    split <;> rfl
  rw [handleYieldedEvents_eq]
  refine attemptedSupplyRows_eq_nil fun statement hstatement => ?_
  rw [hsupply, List.nil_append, List.mem_append] at hstatement
  rcases hstatement with hstatement | hstatement
  · exact table_of_mem_nftStatements hstatement ▸ TableName.noConfusion
  · exact table_of_mem_pairStatements hstatement ▸ TableName.noConfusion

/-- Any other net amount attempts one row, under the last event's address. -/
theorem attemptedSupplyRows_of_ne_zero (answer : (op : ConsumerCall) → Except PyError op.Answer)
    {allowed : Finset String} {contract : Contract} {category : ContractCategory}
    {events : List ContractEvent}
    (hevents : ∀ event ∈ events, categoryOf event.body = category)
    (hne : netAmount allowed contract.address events ≠ 0) {last : ContractEvent}
    (hlast : events.getLast? = some last) (txHash : String) :
    attemptedSupplyRows answer (handleYieldedEvents (some allowed) contract txHash events) =
      supplyRows last.address txHash (netAmount allowed contract.address events) := by
  have hcategory : category = .erc20 := by
    by_contra hother
    exact hne (netAmount_eq_zero hother hevents allowed contract.address)
  have hnft : nftStatements allowed contract.address txHash events = [] :=
    nftStatements_eq_nil (by simp [hcategory]) hevents allowed contract.address txHash
  have hsupply : supplyStatements txHash (totalsOf allowed contract.address events) =
      [insertContractSupplyChange {
        address := last.address
        transactionHash := txHash
        amountChanged := netAmount allowed contract.address events }] := by
    have hevent : (totalsOf allowed contract.address events).event = some last := hlast
    simp only [supplyStatements, hevent, amountChanged_totalsOf, hne, if_false]
  obtain ⟨later, hlater, hcalls⟩ := exists_flatMap_calls_writeEach_cons answer
    (totalsOf allowed contract.address events).logIndicesToSave _
    (pairStatements contract.address txHash (totalsOf allowed contract.address events))
  have hnone : rowsOf .contractSupplyChange later = [] :=
    rowsOf_eq_nil fun _ hstatement =>
      table_of_mem_pairStatements (hlater.subset hstatement) ▸ TableName.noConfusion
  rw [handleYieldedEvents_eq, hnft, hsupply, List.nil_append, List.singleton_append,
    attemptedSupplyRows, hcalls, insertContractSupplyChange, rowsOf_insert_cons_self, hnone,
    supplyRows, if_neg hne]

/-! ## Accounting -/

/-- Exactly one insert is attempted for a net amount that is not zero, and none
otherwise; and the same ones for the varied events. -/
def Accounted (answer : (op : ConsumerCall) → Except PyError op.Answer)
    (settings : ParserSettings) (contract : Contract) (config : ContractConfig)
    (txData : TransactionData) (receipt : TxReceipt) (varied : List ContractEvent) : Prop :=
  let events := getTransactionEvents settings.w3 config.category contract receipt
  attemptedSupplyRows answer
      (handleTransactionEvents settings contract config.category txData receipt) =
    supplyRows contract.address txData.transactionHash
      (netAmount config.events contract.address events) ∧
  attemptedSupplyRows answer (handleYieldedEvents (settings.getContractEvents contract.address)
      contract txData.transactionHash varied) =
    attemptedSupplyRows answer
      (handleTransactionEvents settings contract config.category txData receipt)

omit [ChecksumSpelling] in
theorem supplyRows_eq_iff {contractAddress other txHash : String} {amount : ℤ}
    (hamount : amount ≠ 0) :
    supplyRows other txHash amount = supplyRows contractAddress txHash amount ↔
      other = contractAddress := by
  simp [supplyRows, hamount]

/-- Supply changes are accounted for exactly when the contract's net amount is
zero, or the generator ends on one of the contract's own events. -/
theorem accounted_iff (answer : (op : ConsumerCall) → Except PyError op.Answer)
    {settings : ParserSettings} {contract : Contract} {config : ContractConfig}
    (hconfig : settings.config contract.address = some config) (txData : TransactionData)
    (receipt : TxReceipt) {varied : List ContractEvent}
    (hcategory : ∀ event ∈ varied, categoryOf event.body = config.category)
    (hvaries : Varies config.events contract.address
      (getTransactionEvents settings.w3 config.category contract receipt) varied) :
    Accounted answer settings contract config txData receipt varied ↔
      netAmount config.events contract.address
          (getTransactionEvents settings.w3 config.category contract receipt) = 0 ∨
        EndsAt contract.address
            (getTransactionEvents settings.w3 config.category contract receipt) ∧
          EndsAt contract.address varied := by
  have hevents : settings.getContractEvents contract.address = some config.events := by
    simp [ParserSettings.getContractEvents, hconfig]
  have hhandler : handleTransactionEvents settings contract config.category txData receipt =
      handleYieldedEvents (settings.getContractEvents contract.address) contract
        txData.transactionHash
        (getTransactionEvents settings.w3 config.category contract receipt) := rfl
  have hyielded : ∀ event ∈ getTransactionEvents settings.w3 config.category contract receipt,
      categoryOf event.body = config.category :=
    fun _ => categoryOf_of_mem_getTransactionEvents
  have hsame := netAmount_eq_of_varies hvaries
  simp only [Accounted, hhandler, hevents]
  by_cases hzero : netAmount config.events contract.address
      (getTransactionEvents settings.w3 config.category contract receipt) = 0
  · refine iff_of_true ?_ (.inl hzero)
    rw [attemptedSupplyRows_of_eq_zero answer hzero,
      attemptedSupplyRows_of_eq_zero answer (hsame ▸ hzero), hzero]
    exact ⟨rfl, rfl⟩
  · obtain ⟨last, hlast⟩ := exists_getLast?_of_netAmount hzero
    obtain ⟨lastVaried, hlastVaried⟩ := exists_getLast?_of_netAmount (hsame ▸ hzero)
    rw [attemptedSupplyRows_of_ne_zero answer hyielded hzero hlast,
      attemptedSupplyRows_of_ne_zero answer hcategory (hsame ▸ hzero) hlastVaried, ← hsame]
    simp only [hlast, hlastVaried, supplyRows_eq_iff hzero, hzero, false_or, EndsAt,
      Option.map_some, Option.some.injEq]
    constructor
    · rintro ⟨haddress, hsame⟩
      exact ⟨haddress, hsame.trans haddress⟩
    · rintro ⟨haddress, haddressVaried⟩
      exact ⟨haddress, haddressVaried.trans haddress.symm⟩

end Handler

section Deployment

open Deployment

/-- A mint of the coin, followed by a transfer of the other token. -/
def mixedReceipt : TxReceipt where
  gasUsed := 21000
  logs := [transferLog coin 0 zeroAddress holder "0x10" [],
    transferLog token 1 holder holder "0x05" []]
  contractAddress := none

def coinContract : Contract := ⟨coin.val, some contractAbi.erc20⟩

def coinConfig : ContractConfig :=
  ⟨coin.val, "COIN", .erc20, {"MintFungibleEvent", "BurnFungibleEvent"}⟩

/-- The mint of the coin is booked as a supply change of the other token. -/
theorem mint_booked_for_other_token :
    attemptedSupplyRows node.answer (handleTransactionEvents parser.settings coinContract .erc20
      (.parse (transaction (some coin))) mixedReceipt) = [⟨token.val, 16, txHash⟩] ∧
    ¬ Accounted node.answer parser.settings coinContract coinConfig
      (.parse (transaction (some coin))) mixedReceipt
      (getTransactionEvents parser.settings.w3 .erc20 coinContract mixedReceipt) := by
  constructor
  · decide
  · intro haccounted
    exact absurd haccounted.1 (by decide)

/-- The mint alone is booked for the coin, also when a foreign event precedes it. -/
theorem mint_accounted :
    Accounted node.answer parser.settings coinContract coinConfig
      (.parse (transaction (some coin)))
      ⟨21000, [transferLog coin 0 zeroAddress holder "0x10" []], none⟩
      [⟨token.val, 1, .transferFungible holder.val holder.val 5⟩,
        ⟨coin.val, 0, .mintFungible 16⟩] :=
  (accounted_iff node.answer (by decide) _ _ (by decide) (by unfold Varies; decide)).mpr
    (.inr (by unfold EndsAt; decide))

end Deployment

end BlockchainDataCollection.Supply
