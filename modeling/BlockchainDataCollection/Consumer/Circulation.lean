import BlockchainDataCollection.Consumer.Supply
import BlockchainDataCollection.Store.Ledger

/-!
# Mints, burns and the supply in circulation

A `Transfer` log moves tokens between two accounts, and the burn set holds the
accounts out of circulation.  What the mappers count as minted less what they
count as burned is the change of the supply in circulation, but for transfers
inside the burn set: those are counted as burns and change nothing.
-/

namespace BlockchainDataCollection.Circulation

open BlockchainDataCollection.Python
open BlockchainDataCollection.Data
open BlockchainDataCollection.Events
open BlockchainDataCollection.Ledger
open BlockchainDataCollection.Supply
open BlockchainDataCollection.Relevance

/-- An address of the burn set. -/
abbrev Burn (address : String) : Prop := address ∈ burnAddresses

/-! ## Any mapper of transfers -/

section Mapper

variable {Log : Type} (net : List ContractEvent → ℤ) (isTransfer : ContractEvent → Bool)
  (yields : Log → List ContractEvent) (transferOf : Log → Transfer String)

/-- What the mapper counts is the change of the supply in circulation, from any
balances, and each log yields exactly one transfer event. -/
def SupplyMatches (logs : List Log) (balances : String →₀ ℤ) : Prop :=
  net (logs.flatMap yields) =
      circulating Burn (applyAll balances (logs.map transferOf)) - circulating Burn balances ∧
    ∀ log ∈ logs, (yields log).countP isTransfer = 1

variable {net isTransfer yields transferOf}

/-- A count that adds up over the logs, and is the inflow of each of them less
what the log moves inside the burn set. -/
theorem net_flatMap (hnil : net [] = 0)
    (happend : ∀ first second, net (first ++ second) = net first + net second) {logs : List Log}
    (hyields : ∀ log ∈ logs, net (yields log) =
      inflow Burn (transferOf log) - retiredAmount Burn (transferOf log)) :
    net (logs.flatMap yields) =
      ((logs.map transferOf).map (inflow Burn)).sum -
        ((logs.map transferOf).map (retiredAmount Burn)).sum := by
  induction logs with
  | nil => simpa using hnil
  | cons log logs ih =>
      obtain ⟨hlog, hlogs⟩ := List.forall_mem_cons.mp hyields
      rw [List.flatMap_cons, happend, hlog, ih hlogs]
      simp only [List.map_cons, List.sum_cons]
      ring

theorem supplyMatches_iff (hnil : net [] = 0)
    (happend : ∀ first second, net (first ++ second) = net first + net second) {logs : List Log}
    (hyields : ∀ log ∈ logs, net (yields log) =
      inflow Burn (transferOf log) - retiredAmount Burn (transferOf log))
    (htransfer : ∀ log ∈ logs, (yields log).countP isTransfer = 1) (balances : String →₀ ℤ) :
    SupplyMatches net isTransfer yields transferOf logs balances ↔
      ((logs.map transferOf).map (retiredAmount Burn)).sum = 0 := by
  rw [SupplyMatches, and_iff_left htransfer, net_flatMap hnil happend hyields,
    circulating_applyAll, add_sub_cancel_left, sub_eq_self]

end Mapper

/-- A decoded log carries the name of the event it was decoded as. -/
theorem event_of_mem_processReceipt [ChecksumSpelling] {w3 : Web3} {contract : Contract}
    {event : AbiEvent} {receipt : TxReceipt} {eventLog : EventData event.Args}
    (h : eventLog ∈ w3.processReceipt contract event receipt) : eventLog.event = event.name := by
  obtain ⟨log, _, hlog⟩ := List.mem_filterMap.mp h
  obtain ⟨args, _, rfl⟩ := Option.map_eq_some_iff.mp hlog
  rfl

/-! ## ERC20 -/

namespace Erc20

def netAmount (events : List ContractEvent) : ℤ :=
  (events.map minted).sum - (events.map burned).sum

def isTransfer (event : ContractEvent) : Bool :=
  event.body.typeName = "TransferFungibleEvent"

def transferOf (eventLog : EventData TransferArgs) : Transfer String :=
  ⟨eventLog.args.src, eventLog.args.dst, eventLog.args.value⟩

theorem netAmount_append (first second : List ContractEvent) :
    netAmount (first ++ second) = netAmount first + netAmount second := by
  simp only [netAmount, List.map_append, List.sum_append]
  ring

theorem netAmount_yields {eventLog : EventData TransferArgs} (h : eventLog.event = "Transfer") :
    netAmount (Events.Erc20.transfer.yields eventLog) =
      inflow Burn (transferOf eventLog) - retiredAmount Burn (transferOf eventLog) := by
  by_cases hdst : eventLog.args.dst ∈ burnAddresses <;>
    by_cases hsrc : eventLog.args.src ∈ burnAddresses <;>
    simp [Events.Erc20.transfer, netAmount, minted, burned, inflow, retiredAmount, transferOf,
      Burn, h, hdst, hsrc]

theorem countP_yields {eventLog : EventData TransferArgs} (h : eventLog.event = "Transfer") :
    (Events.Erc20.transfer.yields eventLog).countP isTransfer = 1 := by
  by_cases hdst : eventLog.args.dst ∈ burnAddresses <;>
    by_cases hsrc : eventLog.args.src ∈ burnAddresses <;>
    simp [Events.Erc20.transfer, isTransfer, EventBody.typeName, h, hdst, hsrc]

section Receipts

variable [ChecksumSpelling] (w3 : Web3) (contract : Contract) (receipt : TxReceipt)

def transferLogs : List (EventData TransferArgs) :=
  w3.processReceipt contract .erc20Transfer receipt

/-- `erc20._transfer` mints and burns what its logs move in and out of circulation. -/
def Matches (balances : String →₀ ℤ) : Prop :=
  SupplyMatches netAmount isTransfer Events.Erc20.transfer.yields transferOf
    (transferLogs w3 contract receipt) balances

/-- What the logs move inside the burn set. -/
def amountInside : ℤ :=
  (((transferLogs w3 contract receipt).map transferOf).map (retiredAmount Burn)).sum

theorem matches_iff (balances : String →₀ ℤ) :
    Matches w3 contract receipt balances ↔ amountInside w3 contract receipt = 0 :=
  supplyMatches_iff rfl netAmount_append
    (fun _ hlog => netAmount_yields (event_of_mem_processReceipt hlog))
    (fun _ hlog => countP_yields (event_of_mem_processReceipt hlog)) balances

end Receipts

end Erc20

/-! ## ERC721 -/

namespace Erc721

def isMint (event : ContractEvent) : Bool := event.body.typeName = "MintNonFungibleEvent"

def isBurn (event : ContractEvent) : Bool := event.body.typeName = "BurnNonFungibleEvent"

def isTransfer (event : ContractEvent) : Bool :=
  event.body.typeName = "TransferNonFungibleEvent"

def netCount (events : List ContractEvent) : ℤ :=
  events.countP isMint - events.countP isBurn

/-- One token changes hands; the balance of an address is its number of tokens. -/
def transferOf (eventLog : EventData TokenTransferArgs) : Transfer String :=
  ⟨eventLog.args.src, eventLog.args.dst, 1⟩

theorem netCount_append (first second : List ContractEvent) :
    netCount (first ++ second) = netCount first + netCount second := by
  simp only [netCount, List.countP_append, Nat.cast_add]
  ring

theorem netCount_yields {eventLog : EventData TokenTransferArgs}
    (h : eventLog.event = "Transfer") :
    netCount (Events.Erc721.transfer.yields eventLog) =
      inflow Burn (transferOf eventLog) - retiredAmount Burn (transferOf eventLog) := by
  by_cases hdst : eventLog.args.dst ∈ burnAddresses <;>
    by_cases hsrc : eventLog.args.src ∈ burnAddresses <;>
    simp [Events.Erc721.transfer, netCount, isMint, isBurn, EventBody.typeName, inflow,
      retiredAmount, transferOf, Burn, h, hdst, hsrc]

theorem countP_yields {eventLog : EventData TokenTransferArgs}
    (h : eventLog.event = "Transfer") :
    (Events.Erc721.transfer.yields eventLog).countP isTransfer = 1 := by
  by_cases hdst : eventLog.args.dst ∈ burnAddresses <;>
    by_cases hsrc : eventLog.args.src ∈ burnAddresses <;>
    simp [Events.Erc721.transfer, isTransfer, EventBody.typeName, h, hdst, hsrc]

/-- Both ends of the log are in the burn set. -/
def IsInside (eventLog : EventData TokenTransferArgs) : Prop :=
  Burn eventLog.args.src ∧ Burn eventLog.args.dst

instance (eventLog : EventData TokenTransferArgs) : Decidable (IsInside eventLog) :=
  inferInstanceAs (Decidable (_ ∧ _))

theorem sum_retiredAmount (logs : List (EventData TokenTransferArgs)) :
    ((logs.map transferOf).map (retiredAmount Burn)).sum =
      logs.countP fun eventLog => IsInside eventLog := by
  induction logs with
  | nil => rfl
  | cons eventLog logs ih =>
      rw [List.map_cons, List.map_cons, List.sum_cons, ih, List.countP_cons]
      by_cases hinside : IsInside eventLog
      · have hamount : retiredAmount Burn (transferOf eventLog) = 1 := if_pos hinside
        simp only [hamount, hinside, decide_true, if_true, Nat.cast_add, Nat.cast_one]
        ring
      · have hamount : retiredAmount Burn (transferOf eventLog) = 0 := if_neg hinside
        simp [hamount, hinside]

section Receipts

variable [ChecksumSpelling] (w3 : Web3) (contract : Contract) (receipt : TxReceipt)

def transferLogs : List (EventData TokenTransferArgs) :=
  w3.processReceipt contract .erc721Transfer receipt

/-- `erc721._transfer` mints and burns what its logs move in and out of circulation. -/
def Matches (balances : String →₀ ℤ) : Prop :=
  SupplyMatches netCount isTransfer Events.Erc721.transfer.yields transferOf
    (transferLogs w3 contract receipt) balances

theorem matches_iff (balances : String →₀ ℤ) :
    Matches w3 contract receipt balances ↔
      ∀ eventLog ∈ transferLogs w3 contract receipt, ¬ IsInside eventLog := by
  have hsum : Matches w3 contract receipt balances ↔
      (((transferLogs w3 contract receipt).map transferOf).map (retiredAmount Burn)).sum = 0 :=
    supplyMatches_iff rfl netCount_append
      (fun _ hlog => netCount_yields (event_of_mem_processReceipt hlog))
      (fun _ hlog => countP_yields (event_of_mem_processReceipt hlog)) balances
  rw [hsum, sum_retiredAmount, Nat.cast_eq_zero, List.countP_eq_zero]
  simp

end Receipts

end Erc721

/-! ## Both standards -/

section Circulation

variable [ChecksumSpelling]

/-- Mints less burns are the change of the supply in circulation exactly when
the ERC20 transfers inside the burn set cancel out, and no ERC721 transfer is
inside it. -/
theorem circulation_matches_iff (w3 : Web3) (contract : Contract) (receipt : TxReceipt)
    (balances : String →₀ ℤ) :
    (Erc20.Matches w3 contract receipt balances ↔
      Erc20.amountInside w3 contract receipt = 0) ∧
    (Erc721.Matches w3 contract receipt balances ↔
      ∀ eventLog ∈ Erc721.transferLogs w3 contract receipt, ¬ Erc721.IsInside eventLog) :=
  ⟨Erc20.matches_iff w3 contract receipt balances, Erc721.matches_iff w3 contract receipt balances⟩

end Circulation

section Deployment

open Deployment

/-- A transfer of sixteen coins from the zero address to itself. -/
def insideReceipt : TxReceipt where
  gasUsed := 21000
  logs := [transferLog coin 0 zeroAddress zeroAddress "0x10" []]
  contractAddress := none

/-- It counts as a burn of sixteen coins, but nobody's balance changes. -/
theorem transfer_inside_counts_as_burn :
    Erc20.netAmount ((Erc20.transferLogs w3 coinContract insideReceipt).flatMap
      Events.Erc20.transfer.yields) = -16 ∧
    ¬ Erc20.Matches w3 coinContract insideReceipt 0 := by
  constructor
  · decide
  · rw [Erc20.matches_iff]
    decide

end Deployment

end BlockchainDataCollection.Circulation
