import BlockchainDataCollection.Model.Events

/-!
# The spelling of addresses in transfers

The transfer mappers compare the two ends of a log with the burn set as strings.
Two lists of logs that differ in the letter case of their addresses therefore
yield the same events exactly when no burn address is spelled in lower case in
one list and otherwise in the other.
-/

namespace BlockchainDataCollection.Spelling

open BlockchainDataCollection.Python
open BlockchainDataCollection.Data
open BlockchainDataCollection.Events

/-! ## Lists compared through what their items yield -/

/-- When what an item yields can be told from what follows it, two lists yield
related results exactly when their items do one by one. -/
theorem forall₂_flatMap_iff {A B C D : Type} {related good : A → B → Prop} {same : C → D → Prop}
    {left : A → List C} {right : B → List D}
    (hitem : ∀ a b, related a b → ∀ later later',
      List.Forall₂ same (left a ++ later) (right b ++ later') ↔
        good a b ∧ List.Forall₂ same later later')
    {as : List A} {bs : List B} (h : List.Forall₂ related as bs) :
    List.Forall₂ same (as.flatMap left) (bs.flatMap right) ↔ List.Forall₂ good as bs := by
  induction h with
  | nil => simp
  | cons hab _ ih =>
      rw [List.flatMap_cons, List.flatMap_cons, hitem _ _ hab, ih, List.forall₂_cons]

/-! ## Spellings -/

/-- The same text but for the letter case behind the `0x`. -/
def Respelled (left right : String) : Prop :=
  left.toList.take 2 = right.toList.take 2 ∧ lower left = lower right

instance (left right : String) : Decidable (Respelled left right) :=
  inferInstanceAs (Decidable (_ ∧ _))

/-- A burn address is spelled in lower case on both sides or on neither. -/
def SameBurnSpelling (left right : String) : Prop :=
  lower left ∈ burnAddresses → (left = lower left ↔ right = lower right)

instance (left right : String) : Decidable (SameBurnSpelling left right) :=
  inferInstanceAs (Decidable (_ → _))

/-- The burn set holds its members in lower case only. -/
theorem mem_burnAddresses_iff (text : String) :
    text ∈ burnAddresses ↔ lower text ∈ burnAddresses ∧ text = lower text := by
  have hlower : ∀ address ∈ burnAddresses, lower address = address := by decide
  constructor
  · intro h
    rw [hlower text h]
    exact ⟨h, rfl⟩
  · rintro ⟨h, htext⟩
    rwa [htext]

theorem sameBurnSpelling_iff {left right : String} (h : Respelled left right) :
    SameBurnSpelling left right ↔ (left ∈ burnAddresses ↔ right ∈ burnAddresses) := by
  rw [SameBurnSpelling, mem_burnAddresses_iff left, mem_burnAddresses_iff right, ← h.2,
    and_congr_right_iff]

/-! ## Events -/

/-- Equal events, up to the spelling of `src` and `dst`. -/
def SameBody : EventBody → EventBody → Prop
  | .transferFungible src dst value, .transferFungible src' dst' value' =>
      Respelled src src' ∧ Respelled dst dst' ∧ value = value'
  | .transferNonFungible src dst tokenId, .transferNonFungible src' dst' tokenId' =>
      Respelled src src' ∧ Respelled dst dst' ∧ tokenId = tokenId'
  | left, right => left = right

def SameEvent (left right : ContractEvent) : Prop :=
  left.address = right.address ∧ left.logIndex = right.logIndex ∧ SameBody left.body right.body

/-! ## ERC20 -/

namespace Erc20

/-- The loop of `erc20._transfer` over the decoded logs. -/
def transferEvents (logs : List (EventData TransferArgs)) : List ContractEvent :=
  logs.flatMap Events.Erc20.transfer.yields

/-- Two `Transfer` logs that differ in the letter case of their addresses. -/
structure RespelledLog (left right : EventData TransferArgs) : Prop where
  leftEvent : left.event = "Transfer"
  rightEvent : right.event = "Transfer"
  address : left.address = right.address
  logIndex : left.logIndex = right.logIndex
  value : left.args.value = right.args.value
  src : Respelled left.args.src right.args.src
  dst : Respelled left.args.dst right.args.dst

/-- The source only counts where the destination is not in the burn set. -/
def SameClass (left right : EventData TransferArgs) : Prop :=
  SameBurnSpelling left.args.dst right.args.dst ∧
    (left.args.dst ∉ burnAddresses → SameBurnSpelling left.args.src right.args.src)

theorem forall₂_yields_iff {left right : EventData TransferArgs} (h : RespelledLog left right)
    (later later' : List ContractEvent) :
    List.Forall₂ SameEvent (Events.Erc20.transfer.yields left ++ later)
        (Events.Erc20.transfer.yields right ++ later') ↔
      SameClass left right ∧ List.Forall₂ SameEvent later later' := by
  rw [SameClass, sameBurnSpelling_iff h.src, sameBurnSpelling_iff h.dst]
  by_cases hdst : left.args.dst ∈ burnAddresses <;>
    by_cases hdst' : right.args.dst ∈ burnAddresses <;>
    by_cases hsrc : left.args.src ∈ burnAddresses <;>
    by_cases hsrc' : right.args.src ∈ burnAddresses <;>
    simp [Events.Erc20.transfer, SameEvent, SameBody, hdst, hdst', hsrc, hsrc', h.leftEvent,
      h.rightEvent, h.address, h.logIndex, h.value, h.src, h.dst]

end Erc20

/-! ## ERC721 -/

namespace Erc721

/-- The loop of `erc721._transfer` over the decoded logs. -/
def transferEvents (logs : List (EventData TokenTransferArgs)) : List ContractEvent :=
  logs.flatMap Events.Erc721.transfer.yields

/-- Two `Transfer` logs that differ in the letter case of their addresses. -/
structure RespelledLog (left right : EventData TokenTransferArgs) : Prop where
  leftEvent : left.event = "Transfer"
  rightEvent : right.event = "Transfer"
  address : left.address = right.address
  logIndex : left.logIndex = right.logIndex
  tokenId : left.args.tokenId = right.args.tokenId
  src : Respelled left.args.src right.args.src
  dst : Respelled left.args.dst right.args.dst

def SameClass (left right : EventData TokenTransferArgs) : Prop :=
  SameBurnSpelling left.args.dst right.args.dst ∧
    (left.args.dst ∉ burnAddresses → SameBurnSpelling left.args.src right.args.src)

theorem forall₂_yields_iff {left right : EventData TokenTransferArgs}
    (h : RespelledLog left right) (later later' : List ContractEvent) :
    List.Forall₂ SameEvent (Events.Erc721.transfer.yields left ++ later)
        (Events.Erc721.transfer.yields right ++ later') ↔
      SameClass left right ∧ List.Forall₂ SameEvent later later' := by
  rw [SameClass, sameBurnSpelling_iff h.src, sameBurnSpelling_iff h.dst]
  by_cases hdst : left.args.dst ∈ burnAddresses <;>
    by_cases hdst' : right.args.dst ∈ burnAddresses <;>
    by_cases hsrc : left.args.src ∈ burnAddresses <;>
    by_cases hsrc' : right.args.src ∈ burnAddresses <;>
    simp [Events.Erc721.transfer, SameEvent, SameBody, hdst, hdst', hsrc, hsrc', h.leftEvent,
      h.rightEvent, h.address, h.logIndex, h.tokenId, h.src, h.dst]

end Erc721

/-! ## Two spellings of the same logs -/

/-- The classification is that of the other spelling exactly when each burn
address it looks at is in lower case in both or in neither. -/
theorem same_events_iff {coins coins' : List (EventData TransferArgs)}
    {tokens tokens' : List (EventData TokenTransferArgs)}
    (hcoins : List.Forall₂ Erc20.RespelledLog coins coins')
    (htokens : List.Forall₂ Erc721.RespelledLog tokens tokens') :
    (List.Forall₂ SameEvent (Erc20.transferEvents coins) (Erc20.transferEvents coins') ↔
      List.Forall₂ Erc20.SameClass coins coins') ∧
    (List.Forall₂ SameEvent (Erc721.transferEvents tokens) (Erc721.transferEvents tokens') ↔
      List.Forall₂ Erc721.SameClass tokens tokens') := by
  constructor
  · exact @forall₂_flatMap_iff _ _ _ _ Erc20.RespelledLog Erc20.SameClass _ _ _
      (fun _ _ => Erc20.forall₂_yields_iff) _ _ hcoins
  · exact @forall₂_flatMap_iff _ _ _ _ Erc721.RespelledLog Erc721.SameClass _ _ _
      (fun _ _ => Erc721.forall₂_yields_iff) _ _ htokens

def transferTo (dst : String) : EventData TransferArgs :=
  ⟨"Transfer", ⟨"0x4000000000000000000000000000000000000004", dst, 5⟩,
    "0x1000000000000000000000000000000000000001", 0⟩

def tokenTransferTo (dst : String) : EventData TokenTransferArgs :=
  ⟨"Transfer", ⟨"0x4000000000000000000000000000000000000004", dst, 7⟩,
    "0x3000000000000000000000000000000000000003", 1⟩

theorem respelled_transferTo {dst dst' : String} (h : Respelled dst dst') :
    Erc20.RespelledLog (transferTo dst) (transferTo dst') :=
  ⟨rfl, rfl, rfl, rfl, rfl, ⟨rfl, rfl⟩, h⟩

theorem respelled_tokenTransferTo {dst dst' : String} (h : Respelled dst dst') :
    Erc721.RespelledLog (tokenTransferTo dst) (tokenTransferTo dst') :=
  ⟨rfl, rfl, rfl, rfl, rfl, ⟨rfl, rfl⟩, h⟩

/-- The checksum spelling that web3 delivers is not in the burn set. -/
theorem burn_depends_on_spelling :
    (Erc20.transferEvents [transferTo "0x000000000000000000000000000000000000dEaD"]).length = 1 ∧
    (Erc20.transferEvents [transferTo "0x000000000000000000000000000000000000dead"]).length = 2 ∧
    Erc20.RespelledLog (transferTo "0x000000000000000000000000000000000000dEaD")
      (transferTo "0x000000000000000000000000000000000000dead") ∧
    ¬ List.Forall₂ SameEvent
      (Erc20.transferEvents [transferTo "0x000000000000000000000000000000000000dEaD"])
      (Erc20.transferEvents [transferTo "0x000000000000000000000000000000000000dead"]) := by
  have hlength : (Erc20.transferEvents
      [transferTo "0x000000000000000000000000000000000000dEaD"]).length = 1 := by decide
  have hlength' : (Erc20.transferEvents
      [transferTo "0x000000000000000000000000000000000000dead"]).length = 2 := by decide
  refine ⟨hlength, hlength', respelled_transferTo (by decide), fun hsame => ?_⟩
  have hequal := hsame.length_eq
  rw [hlength, hlength'] at hequal
  cases hequal

/-- An address outside the burn set may be spelled in any way. -/
theorem same_events_for_recipient :
    List.Forall₂ SameEvent
      (Erc20.transferEvents [transferTo "0xAbcdefabcdefabcdefabcdefabcdefabcdefabcd"])
      (Erc20.transferEvents [transferTo "0xabcdefabcdefabcdefabcdefabcdefabcdefabcd"]) ∧
    List.Forall₂ SameEvent
      (Erc721.transferEvents [tokenTransferTo "0xAbcdefabcdefabcdefabcdefabcdefabcdefabcd"])
      (Erc721.transferEvents [tokenTransferTo "0xabcdefabcdefabcdefabcdefabcdefabcdefabcd"]) := by
  have hdst : Respelled "0xAbcdefabcdefabcdefabcdefabcdefabcdefabcd"
      "0xabcdefabcdefabcdefabcdefabcdefabcdefabcd" := by decide
  have hsame := same_events_iff (.cons (respelled_transferTo hdst) .nil)
    (.cons (respelled_tokenTransferTo hdst) .nil)
  exact ⟨hsame.1.mpr (.cons ⟨by decide, by decide⟩ .nil),
    hsame.2.mpr (.cons ⟨by decide, by decide⟩ .nil)⟩

end BlockchainDataCollection.Spelling
