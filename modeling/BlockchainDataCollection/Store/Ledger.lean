import Mathlib

/-!
# Ledgers of balances

Accounts hold integer balances and transfers move amounts between them.  Some
accounts are retired, and the supply in circulation is what the others hold.
It changes by exactly what crosses the boundary, whatever the balances are.
-/

namespace BlockchainDataCollection.Ledger

variable {Account : Type}

structure Transfer (Account : Type) where
  src : Account
  dst : Account
  amount : ℤ

noncomputable def apply (balances : Account →₀ ℤ) (transfer : Transfer Account) :
    Account →₀ ℤ :=
  balances - Finsupp.single transfer.src transfer.amount +
    Finsupp.single transfer.dst transfer.amount

/-- Transfers applied in order. -/
noncomputable def applyAll (balances : Account →₀ ℤ) (transfers : List (Transfer Account)) :
    Account →₀ ℤ :=
  transfers.foldl apply balances

variable (retired : Account → Prop) [DecidablePred retired]

/-- What the accounts that are not retired hold together. -/
noncomputable def circulating (balances : Account →₀ ℤ) : ℤ :=
  balances.sum fun account balance => if retired account then 0 else balance

/-- What a transfer brings into circulation. -/
def inflow (transfer : Transfer Account) : ℤ :=
  (if retired transfer.dst then 0 else transfer.amount) -
    if retired transfer.src then 0 else transfer.amount

/-- What a transfer moves between retired accounts. -/
def retiredAmount (transfer : Transfer Account) : ℤ :=
  if retired transfer.src ∧ retired transfer.dst then transfer.amount else 0

variable {retired}

theorem circulating_add (left right : Account →₀ ℤ) :
    circulating retired (left + right) =
      circulating retired left + circulating retired right := by
  refine Finsupp.sum_add_index' (fun account => ?_) fun account balance balance' => ?_ <;>
    split <;> simp

theorem circulating_sub (left right : Account →₀ ℤ) :
    circulating retired (left - right) =
      circulating retired left - circulating retired right := by
  refine Finsupp.sum_sub_index fun account balance balance' => ?_
  split <;> simp

theorem circulating_single (account : Account) (balance : ℤ) :
    circulating retired (Finsupp.single account balance) =
      if retired account then 0 else balance :=
  Finsupp.sum_single_index (by split <;> rfl)

theorem circulating_apply (balances : Account →₀ ℤ) (transfer : Transfer Account) :
    circulating retired (apply balances transfer) =
      circulating retired balances + inflow retired transfer := by
  rw [apply, circulating_add, circulating_sub, circulating_single, circulating_single, inflow]
  ring

/-- A run of transfers changes the supply in circulation by their inflows. -/
theorem circulating_applyAll (balances : Account →₀ ℤ) (transfers : List (Transfer Account)) :
    circulating retired (applyAll balances transfers) =
      circulating retired balances + (transfers.map (inflow retired)).sum := by
  induction transfers generalizing balances with
  | nil => simp [applyAll]
  | cons transfer transfers ih =>
      calc circulating retired (applyAll balances (transfer :: transfers))
          = circulating retired (applyAll (apply balances transfer) transfers) := rfl
        _ = circulating retired balances + inflow retired transfer +
              (transfers.map (inflow retired)).sum := by rw [ih, circulating_apply]
        _ = circulating retired balances +
              ((transfer :: transfers).map (inflow retired)).sum := by
            rw [List.map_cons, List.sum_cons, add_assoc]

end BlockchainDataCollection.Ledger
