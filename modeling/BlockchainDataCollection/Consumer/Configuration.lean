import BlockchainDataCollection.Store.LastWrite
import BlockchainDataCollection.Consumer.Relevance

/-!
# The effective contract configuration

A consumer collects the contracts of all configurations in a Python set and
enters them, in the order in which that set is visited, into a dictionary keyed
by the lower-cased address.  Each consumer process hashes strings with a seed
of its own, so an address that is listed with different categories or events is
configured differently from one consumer to the next.
-/

namespace BlockchainDataCollection.Configuration

open BlockchainDataCollection.LastWrite
open BlockchainDataCollection.Python
open BlockchainDataCollection.Data
open BlockchainDataCollection.Events
open BlockchainDataCollection.Parser

/-- What `DataConsumer.__init__` adds to the set: the contracts of every
configuration that lists some. -/
def contracts (dataCollection : List DataCollectionConfig) : List ContractConfig :=
  dataCollection.flatMap fun dataCfg => dataCfg.contracts.getD []

def addressLower (contract : ContractConfig) : String := lower contract.address

/-- The part of a configured contract that the processors ask for. -/
def effective (contract : ContractConfig) : ContractCategory × Finset String :=
  (contract.category, contract.events)

/-- Contracts listed under spellings of one address are listed with the same
category and events.  Their symbols and spellings are free. -/
def Unambiguous (dataCollection : List DataCollectionConfig) : Prop :=
  ∀ left ∈ contracts dataCollection, ∀ right ∈ contracts dataCollection,
    lower left.address = lower right.address →
      left.category = right.category ∧ left.events = right.events

theorem unambiguous_iff_agree (dataCollection : List DataCollectionConfig) :
    Unambiguous dataCollection ↔
      Agree addressLower effective (contracts dataCollection) := by
  simp only [Unambiguous, Agree, addressLower, effective, Prod.mk.injEq]

theorem effective_eq_iff {left right : Option ContractConfig} :
    left.map effective = right.map effective ↔
      left.map ContractConfig.category = right.map ContractConfig.category ∧
        left.map ContractConfig.events = right.map ContractConfig.events := by
  cases left <;> cases right <;> simp [effective]

section Parser

variable [ChecksumSpelling]
variable (w3 : Web3) (contractAbi : ContractABI) (dataCollection : List DataCollectionConfig)

/-- A parser that a consumer may be built with.  `__hash__` joins the events in
the order of a frozenset, so the set may keep equal contracts apart. -/
def InitialParser (parser : ContractParser) : Prop :=
  ∃ order, SetIteration (contracts dataCollection) order ∧
    parser = ContractParser.init w3 order contractAbi

/-- Two parsers answer every question about an address alike. -/
def SameAnswers (left right : ContractParser) : Prop :=
  ∀ contractAddress,
    left.settings.getContractCategory contractAddress =
        right.settings.getContractCategory contractAddress ∧
      left.settings.getContractEvents contractAddress =
        right.settings.getContractEvents contractAddress

theorem config_init (order : List ContractConfig) (contractAddress : String) :
    (ContractParser.init w3 order contractAbi).settings.config contractAddress =
      (index addressLower order).lookup (lower contractAddress) := rfl

/-- An answer is that of a contract listed under a spelling of the address. -/
theorem InitialParser.listed {parser : ContractParser}
    (hparser : InitialParser w3 contractAbi dataCollection parser)
    {contractAddress : String} {contract : ContractConfig}
    (hconfig : parser.settings.config contractAddress = some contract) :
    contract ∈ contracts dataCollection ∧ lower contract.address = lower contractAddress := by
  obtain ⟨order, horder, rfl⟩ := hparser
  rw [config_init] at hconfig
  obtain ⟨hmem, haddress⟩ := mem_of_lookup_index addressLower hconfig
  exact ⟨horder.mem_iff.mp hmem, haddress⟩

/-- Every listed contract is the effective one for some consumer. -/
theorem exists_effective {contract : ContractConfig}
    (hcontract : contract ∈ contracts dataCollection) :
    ∃ parser, InitialParser w3 contractAbi dataCollection parser ∧
      parser.settings.config contract.address = some contract := by
  obtain ⟨before, horder⟩ := SetIteration.exists_last hcontract
  refine ⟨_, ⟨_, horder, rfl⟩, ?_⟩
  rw [config_init]
  exact lookup_index_concat addressLower before contract

/-- All consumers of a deployment see one configuration exactly when the file
is unambiguous. -/
theorem same_answers_iff :
    (∀ left right, InitialParser w3 contractAbi dataCollection left →
      InitialParser w3 contractAbi dataCollection right → SameAnswers left right) ↔
    Unambiguous dataCollection := by
  constructor
  · intro hsame left hleft right hright haddress
    obtain ⟨leftParser, hleftParser, hleftConfig⟩ :=
      exists_effective w3 contractAbi dataCollection hleft
    obtain ⟨rightParser, hrightParser, hrightConfig⟩ :=
      exists_effective w3 contractAbi dataCollection hright
    have hanswers := effective_eq_iff.mpr
      (hsame leftParser rightParser hleftParser hrightParser left.address)
    have hconfig : rightParser.settings.config left.address = some right := by
      rw [ParserSettings.config, haddress]
      exact hrightConfig
    rw [hleftConfig, hconfig] at hanswers
    exact Prod.mk.inj (Option.some.inj hanswers)
  · intro hunambiguous left right hleft hright contractAddress
    obtain ⟨leftOrder, hleftOrder, rfl⟩ := hleft
    obtain ⟨rightOrder, hrightOrder, rfl⟩ := hright
    have hagree := (unambiguous_iff_agree dataCollection).mp hunambiguous
    exact effective_eq_iff.mp
      (lookup_eq_of_agree addressLower effective hagree hleftOrder hrightOrder
        (lower contractAddress))

end Parser

section Deployment

open BlockchainDataCollection.Relevance.Deployment

/-- The coin as an earlier and a later configuration list it. -/
def transfersOnly : ContractConfig := ⟨coin.val, "COIN", .erc20, {"TransferFungibleEvent"}⟩

def supplyOnly : ContractConfig :=
  ⟨coin.val, "COIN", .erc20, {"MintFungibleEvent", "BurnFungibleEvent"}⟩

def dataCollection : List DataCollectionConfig :=
  [{ mode := .partialMode, startBlock := some 1, endBlock := some 10,
      contracts := some [transfersOnly] },
    { mode := .partialMode, startBlock := some 11, endBlock := none,
      contracts := some [supplyOnly] }]

/-- Two consumers of this file store different events of the coin. -/
theorem listed_twice_differs :
    ¬ ∀ left right, InitialParser w3 contractAbi dataCollection left →
      InitialParser w3 contractAbi dataCollection right → SameAnswers left right := by
  intro hsame
  have hleft : InitialParser w3 contractAbi dataCollection
      (ContractParser.init w3 [transfersOnly, supplyOnly] contractAbi) :=
    ⟨_, ⟨fun _ h => h, List.Subperm.refl _⟩, rfl⟩
  have hright : InitialParser w3 contractAbi dataCollection
      (ContractParser.init w3 [supplyOnly, transfersOnly] contractAbi) :=
    ⟨_, SetIteration.of_perm_dedup (by decide), rfl⟩
  exact absurd (hsame _ _ hleft hright coin.val).2 (by decide)

/-- A contract may be listed twice under different symbols. -/
example : Unambiguous
    [{ mode := .getLogs, startBlock := none, endBlock := none,
       contracts := some [⟨collectible.val, "Azuki", .erc721, {"TransferNonFungibleEvent"}⟩,
        ⟨collectible.val, "AZUKI", .erc721, {"TransferNonFungibleEvent"}⟩] }] := by
  simp [Unambiguous, contracts]

end Deployment

end BlockchainDataCollection.Configuration
