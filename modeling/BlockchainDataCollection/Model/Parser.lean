import BlockchainDataCollection.Model.Events

/-!
# The contract parser

Configured contracts are looked up by their lower-cased address.  Built web3
contracts are cached under the same key; a cache that only holds contracts
built for their own key never shows, because web3 accepts one spelling of each
address.
-/

namespace BlockchainDataCollection.Parser

open BlockchainDataCollection.Python
open BlockchainDataCollection.Data
open BlockchainDataCollection.Events
open ChecksumSpelling

variable [ChecksumSpelling]

/-- What `__init__` fixes: web3, the ABIs and the configured contracts. -/
structure ParserSettings where
  w3 : Web3
  contractAbi : ContractABI
  contractsConfigCache : AList fun _ : String => ContractConfig

structure ContractParser where
  settings : ParserSettings
  contractsCache : AList fun _ : String => Contract

namespace ParserSettings

/-- `_contracts_config_cache` after the loop of `__init__`: the last contract
listed for a lower-cased address wins. -/
def configCache (contracts : List ContractConfig) : AList fun _ : String => ContractConfig :=
  contracts.foldl (fun cache contract => cache.insert (lower contract.address) contract) ∅

variable (settings : ParserSettings)

def config (contractAddress : String) : Option ContractConfig :=
  settings.contractsConfigCache.lookup (lower contractAddress)

def getContractCategory (contractAddress : String) : Option ContractCategory :=
  (settings.config contractAddress).map ContractConfig.category

def getContractEvents (contractAddress : String) : Option (Finset String) :=
  (settings.config contractAddress).map ContractConfig.events

def getContractAbi (category : ContractCategory) : Option Abi :=
  match category with
  | .erc20 => some settings.contractAbi.erc20
  | .erc721 => some settings.contractAbi.erc721
  | .erc1155 => some settings.contractAbi.erc1155
  | .uniSwapV2Pair => some settings.contractAbi.uniSwapV2Pair
  | .uniSwapV2Factory => some settings.contractAbi.uniSwapV2Factory
  | .unknown => none

/-- The contract that is built when nothing is cached. -/
def buildContract (contractAddress : String) (category : ContractCategory) :
    Except PyError Contract :=
  settings.w3.ethContract contractAddress (settings.getContractAbi category)

theorem buildContract_ok {address : String} {category : ContractCategory} {contract : Contract}
    (h : settings.buildContract address category = .ok contract) :
    contract = ⟨address, settings.getContractAbi category⟩ :=
  (settings.w3.ethContract_ok h).2

end ParserSettings

namespace ContractParser

/-- `ContractParser.__init__`. -/
def init (w3 : Web3) (contracts : List ContractConfig) (contractAbi : ContractABI) :
    ContractParser where
  settings :=
    { w3, contractAbi, contractsConfigCache := ParserSettings.configCache contracts }
  contractsCache := ∅

def getContract (parser : ContractParser) (contractAddress : String)
    (category : ContractCategory) : Except PyError (Contract × ContractParser) :=
  let addressLower := lower contractAddress
  match parser.contractsCache.lookup addressLower with
  | some contract => .ok (contract, parser)
  | none => do
      let contract ← parser.settings.buildContract contractAddress category
      return (contract,
        { parser with contractsCache := parser.contractsCache.insert addressLower contract })

/-- Every cached contract was built for its key, under the category configured
for that key. -/
def Consistent (parser : ContractParser) : Prop :=
  ∀ addressLower contract, parser.contractsCache.lookup addressLower = some contract →
    ∃ config, parser.settings.contractsConfigCache.lookup addressLower = some config ∧
      lower contract.address = addressLower ∧
      parser.settings.buildContract contract.address config.category = .ok contract

theorem consistent_init (w3 : Web3) (contracts : List ContractConfig)
    (contractAbi : ContractABI) : (init w3 contracts contractAbi).Consistent := by
  intro addressLower contract h
  simp [init] at h

/-- For a checksum address the cache does not show: the contract, or the error,
is that of building it afresh. -/
theorem getContract_eq {parser : ContractParser} (hparser : parser.Consistent)
    (address : ChecksumAddress) {category : ContractCategory}
    (hcategory : parser.settings.getContractCategory address.val = some category) :
    ∃ parser' : ContractParser, parser'.settings = parser.settings ∧ parser'.Consistent ∧
      parser.getContract address.val category =
        (parser.settings.buildContract address.val category).map (·, parser') := by
  obtain ⟨config, hconfig, rfl⟩ := Option.map_eq_some_iff.mp hcategory
  cases hcached : parser.contractsCache.lookup (lower address.val) with
  | some contract =>
      obtain ⟨config', hconfig', hlower, hbuild⟩ := hparser _ _ hcached
      obtain rfl : config = config' := Option.some.inj (hconfig.symm.trans hconfig')
      have hchecksum := (parser.settings.w3.ethContract_ok hbuild).1
      have haddress : contract.address = address.val :=
        ChecksumSpelling.eq_of_lower_eq _ _ hchecksum address.property hlower
      rw [haddress] at hbuild
      refine ⟨parser, rfl, hparser, ?_⟩
      rw [getContract, hcached, hbuild]
      rfl
  | none =>
      cases hbuild : parser.settings.buildContract address.val config.category with
      | error error =>
          refine ⟨parser, rfl, hparser, ?_⟩
          rw [getContract, hcached]
          simp only [hbuild]
          rfl
      | ok contract =>
          refine ⟨{ parser with
            contractsCache := parser.contractsCache.insert (lower address.val) contract },
            rfl, ?_, ?_⟩
          · intro addressLower other hother
            by_cases hkey : addressLower = lower address.val
            · subst addressLower
              rw [AList.lookup_insert] at hother
              obtain rfl := Option.some.inj hother
              obtain rfl := parser.settings.buildContract_ok hbuild
              exact ⟨config, hconfig, rfl, hbuild⟩
            · rw [AList.lookup_insert_ne hkey] at hother
              exact hparser _ _ hother
          · rw [getContract, hcached]
            simp only [hbuild]
            rfl

end ContractParser

end BlockchainDataCollection.Parser
