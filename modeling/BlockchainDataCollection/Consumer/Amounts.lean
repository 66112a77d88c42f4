import BlockchainDataCollection.Numeric.Rounding
import BlockchainDataCollection.Consumer.Relevance

/-!
# Amounts pass through floats

Wei amounts are read into float fields, the fee is a product of two floats, and
the results go into numeric columns that could hold them exactly.  An amount
below `2 ^ 256` is far from where floats overflow, but it is stored exactly only
when it has at most 53 significant bits.
-/

namespace BlockchainDataCollection.Amounts

open BlockchainDataCollection.Effect
open BlockchainDataCollection.Rounding
open BlockchainDataCollection.Python
open BlockchainDataCollection.Data
open BlockchainDataCollection.Storage
open BlockchainDataCollection.TxProcessor
open BlockchainDataCollection.Processing
open BlockchainDataCollection.Saving
open BlockchainDataCollection.Relevance

/-! ## Floats -/

theorem toFloat_eq_roundTo : toFloat = roundTo 53 := by
  funext value
  rfl

/-- The numbers a float represents: at most 53 significant bits. -/
def FloatExact (value : ℕ) : Prop := Representable 53 value

/-- The float of a number is a nearest one. -/
theorem dist_toFloat_le {other : ℕ} (hother : FloatExact other) (value : ℕ) :
    Nat.dist (toFloat value) value ≤ Nat.dist other value := by
  rw [toFloat_eq_roundTo]
  exact dist_roundTo_le (by decide) hother value

theorem toFloat_eq_self_iff (value : ℕ) : toFloat value = value ↔ FloatExact value := by
  rw [toFloat_eq_roundTo]
  exact roundTo_eq_self_iff (by decide) value

theorem floatMul_toFloat_eq_iff (left right : ℕ) :
    floatMul (toFloat left) (toFloat right) = left * right ↔ FloatExact (left * right) := by
  rw [floatMul, toFloat_eq_roundTo]
  exact roundTo_mul_roundTo_eq_iff (by decide) left right

theorem toFloat_le_two_pow {value k : ℕ} (h : value ≤ 2 ^ k) : toFloat value ≤ 2 ^ k := by
  rw [toFloat_eq_roundTo]
  exact roundTo_le_two_pow (by decide) h

/-! ## Hexadecimal quantities -/

def hexMarkers : List (List Char) := [[], ['0', 'x'], ['0', 'X']]

/-- A hexadecimal text: an optional marker and the digits of the number, the
most significant one first. -/
def Denotes (text : String) (number : ℕ) : Prop :=
  ∃ marker ∈ hexMarkers, ∃ digits values,
    text.toList = marker ++ digits ∧ digits ≠ [] ∧
      List.Forall₂ (fun digit value => hexDigit digit = some value) digits values ∧
        number = Nat.ofDigits 16 values.reverse

theorem hexDigit_underscore : hexDigit '_' = none := by decide

theorem ne_underscore_of_hexDigit {digit : Char} {value : ℕ} (h : hexDigit digit = some value) :
    digit ≠ '_' := by
  rintro rfl
  rw [hexDigit_underscore] at h
  cases h

theorem hexDigits_cons {digit : Char} {value : ℕ} (h : hexDigit digit = some value) (acc : ℕ)
    (rest : List Char) : hexDigits acc (digit :: rest) = hexDigits (acc * 16 + value) rest := by
  rw [hexDigits, h, Option.bind_some]
  exact fun _ _ hunderscore _ => ne_underscore_of_hexDigit h hunderscore

theorem hexDigits_eq {digits : List Char} {values : List ℕ}
    (h : List.Forall₂ (fun digit value => hexDigit digit = some value) digits values) (acc : ℕ) :
    hexDigits acc digits =
      some (acc * 16 ^ values.length + Nat.ofDigits 16 values.reverse) := by
  induction h generalizing acc with
  | nil => simp [hexDigits]
  | cons hdigit _ ih =>
      rw [hexDigits_cons hdigit, ih, List.length_cons, Nat.ofDigits_reverse_cons]
      congr 1
      ring

theorem hexNumber_eq {digits : List Char} {values : List ℕ} (hdigits : digits ≠ [])
    (h : List.Forall₂ (fun digit value => hexDigit digit = some value) digits values) :
    hexNumber digits = some (Nat.ofDigits 16 values.reverse) := by
  cases h with
  | nil => exact absurd rfl hdigits
  | cons hdigit hrest =>
      rw [hexNumber, hdigit, Option.bind_some, hexDigits_eq hrest, Nat.ofDigits_reverse_cons]
      congr 1
      ring

theorem hexDigit_of_mem {digits : List Char} {values : List ℕ}
    (h : List.Forall₂ (fun digit value => hexDigit digit = some value) digits values)
    {digit : Char} (hdigit : digit ∈ digits) : ∃ value, hexDigit digit = some value := by
  induction h with
  | nil => cases hdigit
  | cons hhead _ ih =>
      rcases List.mem_cons.mp hdigit with rfl | hrest
      · exact ⟨_, hhead⟩
      · exact ih hrest

theorem dropHexMarker_append {marker digits : List Char} {values : List ℕ}
    (hmarker : marker ∈ hexMarkers)
    (h : List.Forall₂ (fun digit value => hexDigit digit = some value) digits values) :
    dropHexMarker (marker ++ digits) = digits := by
  have hnot : ∀ c ∈ ['_', 'x', 'X'], c ∉ digits := by
    intro c hc hmem
    obtain ⟨value, hvalue⟩ := hexDigit_of_mem h hmem
    have hnone : hexDigit c = none := by
      simp only [List.mem_cons, List.not_mem_nil, or_false] at hc
      rcases hc with rfl | rfl | rfl <;> decide
    rw [hnone] at hvalue
    cases hvalue
  have hunderscore : ∀ rest, digits = '_' :: rest → False := by
    rintro rest rfl
    exact hnot '_' (by simp) (by simp)
  simp only [hexMarkers, List.mem_cons, List.not_mem_nil, or_false] at hmarker
  rcases hmarker with rfl | rfl | rfl
  · rw [List.nil_append]
    unfold dropHexMarker
    split
    · exact absurd (by simp) (hnot 'x' (by simp))
    · exact absurd (by simp) (hnot 'X' (by simp))
    · exact absurd (by simp) (hnot 'x' (by simp))
    · exact absurd (by simp) (hnot 'X' (by simp))
    · rfl
  · change dropHexMarker ('0' :: 'x' :: digits) = digits
    rw [dropHexMarker]
    exact hunderscore
  · change dropHexMarker ('0' :: 'X' :: digits) = digits
    rw [dropHexMarker]
    exact hunderscore

/-- `float.fromhex` rounds the number that the text denotes. -/
theorem floatFromHex_of_denotes {text : String} {number : ℕ} (h : Denotes text number) :
    floatFromHex text = .ok (toFloat number) := by
  obtain ⟨marker, hmarker, digits, values, htext, hdigits, hvalues, rfl⟩ := h
  have hunderscore : '_' ∉ text.toList := by
    intro hmem
    rw [htext] at hmem
    rcases List.mem_append.mp hmem with hmem | hmem
    · have hmarkers : ∀ other ∈ hexMarkers, '_' ∉ other := by decide
      exact hmarkers marker hmarker hmem
    · obtain ⟨value, hvalue⟩ := hexDigit_of_mem hvalues hmem
      rw [hexDigit_underscore] at hvalue
      cases hvalue
  rw [floatFromHex, if_neg hunderscore, htext, dropHexMarker_append hmarker hvalues,
    hexNumber_eq hdigits hvalues]

/-! ## The trace of a transaction -/

/-- The quantities of a trace entry are hexadecimal texts; `amount` is the
number its value denotes, if it has one. -/
structure Quantities (entry : TraceEntry) (amount : Option ℕ) : Prop where
  value : Option.Rel Denotes ((TraceEntry.txData entry).lookup "value") amount
  gasUsed : ∃ number, Option.Rel Denotes ((TraceEntry.txData entry).lookup "gasUsed") number
  gasLimit : ∃ number, Option.Rel Denotes ((TraceEntry.txData entry).lookup "gas") number

theorem stringsToFloat_of_rel {text : Option String} {number : Option ℕ}
    (h : Option.Rel Denotes text number) : stringsToFloat text = .ok (number.map toFloat) := by
  cases h with
  | none => rfl
  | some hdenotes =>
      rw [stringsToFloat, floatFromHex_of_denotes hdenotes]
      rfl

theorem parse_of_quantities {entry : TraceEntry} {amount : Option ℕ}
    (h : Quantities entry amount) :
    ∃ internalTx, InternalTransactionData.parse (TraceEntry.txData entry) = .ok internalTx ∧
      internalTx.value = amount.map toFloat := by
  obtain ⟨gasUsed, hgasUsed⟩ := h.gasUsed
  obtain ⟨gasLimit, hgasLimit⟩ := h.gasLimit
  have hvalue := stringsToFloat_of_rel h.value
  have hgasUsed := stringsToFloat_of_rel hgasUsed
  have hgasLimit := stringsToFloat_of_rel hgasLimit
  unfold InternalTransactionData.parse
  rw [hvalue, hgasUsed, hgasLimit]
  exact ⟨_, rfl, rfl⟩

theorem mapM_parse_of_quantities {entries : List TraceEntry} {amounts : List (Option ℕ)}
    (h : List.Forall₂ Quantities entries amounts) :
    ∃ internalTxData,
      entries.mapM (fun entry => InternalTransactionData.parse (TraceEntry.txData entry)) =
        .ok internalTxData ∧
      internalTxData.map InternalTransactionData.value = amounts.map (Option.map toFloat) := by
  induction h with
  | nil => exact ⟨[], rfl, rfl⟩
  | cons hentry _ ih =>
      obtain ⟨internalTx, hparse, hvalue⟩ := parse_of_quantities hentry
      obtain ⟨internalTxData, hrest, hvalues⟩ := ih
      refine ⟨internalTx :: internalTxData, ?_, ?_⟩
      · rw [List.mapM_cons, hparse, hrest]
        rfl
      · rw [List.map_cons, List.map_cons, hvalue, hvalues]

/-! ## The stored amounts -/

theorem map_toFloat_eq_self_iff (amounts : List (Option ℕ)) :
    amounts.map (Option.map toFloat) = amounts ↔
      ∀ amount ∈ amounts, ∀ number ∈ amount, FloatExact number := by
  have hamount : ∀ amount : Option ℕ,
      amount.map toFloat = amount ↔ ∀ number ∈ amount, FloatExact number := by
    intro amount
    cases amount with
    | none => simp
    | some number => simp [toFloat_eq_self_iff]
  calc amounts.map (Option.map toFloat) = amounts
      ↔ amounts.map (Option.map toFloat) = amounts.map id := by rw [List.map_id]
    _ ↔ ∀ amount ∈ amounts, amount.map toFloat = amount := List.map_inj_left
    _ ↔ ∀ amount ∈ amounts, ∀ number ∈ amount, FloatExact number := by simp only [hamount]

section Stored

variable [ChecksumSpelling]

/-- The amounts that `_handle_transaction` passes to the inserts. -/
structure StoredExactly (tx : TxData) (receipt : TxReceipt) (amounts : List (Option ℕ))
    (statements : List Statement) : Prop where
  value : (rowsOf .transaction statements).map TransactionRow.value = [tx.value]
  gasPrice : (rowsOf .transaction statements).map TransactionRow.gasPrice = [tx.gasPrice]
  transactionFee : (rowsOf .transaction statements).map TransactionRow.transactionFee =
    [tx.gasPrice * receipt.gasUsed]
  internal : (rowsOf .internalTransaction statements).map InternalTransactionRow.value = amounts

variable {node : Node} {tx : TxData} {receipt : TxReceipt}

/-- The stored amounts, with every rounding on the way. -/
theorem storedExactly_saveStatements_iff {amounts : List (Option ℕ)}
    (hvalues : (storedInternalTransactions node tx.hash).map InternalTransactionData.value =
      amounts.map (Option.map toFloat)) (logIndicesToSave : Finset ℕ) :
    StoredExactly tx receipt amounts
        (saveStatements node (.parse tx) (.parse receipt) logIndicesToSave) ↔
      toFloat tx.value = tx.value ∧ toFloat tx.gasPrice = tx.gasPrice ∧
        floatMul (toFloat tx.gasPrice) (toFloat receipt.gasUsed) =
          tx.gasPrice * receipt.gasUsed ∧
        amounts.map (Option.map toFloat) = amounts := by
  have htransaction := @rowsOf_transaction_saveStatements _ node (.parse tx) (.parse receipt)
    logIndicesToSave
  have hinternal : (rowsOf .internalTransaction (saveStatements node (.parse tx)
      (.parse receipt) logIndicesToSave)).map InternalTransactionRow.value =
        amounts.map (Option.map toFloat) := by
    rw [rowsOf_internalTransaction_saveStatements, List.map_map]
    exact hvalues
  constructor
  · intro hstored
    have hvalue := hstored.value
    have hgasPrice := hstored.gasPrice
    have hfee := hstored.transactionFee
    rw [htransaction] at hvalue hgasPrice hfee
    exact ⟨List.head_eq_of_cons_eq hvalue, List.head_eq_of_cons_eq hgasPrice,
      List.head_eq_of_cons_eq hfee, hinternal.symm.trans hstored.internal⟩
  · rintro ⟨hvalue, hgasPrice, hfee, hamounts⟩
    refine ⟨?_, ?_, ?_, hinternal.trans hamounts⟩
    · rw [htransaction]
      exact congrArg ([·]) hvalue
    · rw [htransaction]
      exact congrArg ([·]) hgasPrice
    · rw [htransaction]
      exact congrArg ([·]) hfee

/-- The amounts of a transaction are stored exactly if and only if each of them
has at most 53 significant bits, the fee included. -/
theorem stored_exactly_iff {entries : List TraceEntry} {amounts : List (Option ℕ)}
    (htrace : node.traceReplayTransaction tx.hash = .ok entries)
    (hquantities : List.Forall₂ Quantities entries amounts) (logIndicesToSave : Finset ℕ) :
    StoredExactly tx receipt amounts
        (written node (handleTransaction (.parse tx) (.parse receipt) logIndicesToSave)) ↔
      FloatExact tx.value ∧ FloatExact tx.gasPrice ∧ FloatExact (tx.gasPrice * receipt.gasUsed) ∧
        ∀ amount ∈ amounts, ∀ number ∈ amount, FloatExact number := by
  obtain ⟨internalTxData, hparse, hvalues⟩ := mapM_parse_of_quantities hquantities
  have hinternal : internalTransactions node tx.hash = .ok internalTxData := by
    unfold internalTransactions
    rw [htrace]
    exact hparse
  have hstored : storedInternalTransactions node tx.hash = internalTxData := by
    rw [storedInternalTransactions, hinternal]
  rw [(handleTransaction_performs (.parse tx) hinternal (.parse receipt) logIndicesToSave).written,
    storedExactly_saveStatements_iff (hstored ▸ hvalues), toFloat_eq_self_iff,
    toFloat_eq_self_iff, floatMul_toFloat_eq_iff, map_toFloat_eq_self_iff]

/-- Below `2 ^ 256` no amount comes near the largest float. -/
theorem transactionRow_le (hvalue : tx.value < 2 ^ 256) (hgasPrice : tx.gasPrice < 2 ^ 256)
    (hgasUsed : receipt.gasUsed < 2 ^ 256) :
    (transactionRow (.parse tx) (.parse receipt)).value ≤ 2 ^ 256 ∧
      (transactionRow (.parse tx) (.parse receipt)).gasPrice ≤ 2 ^ 256 ∧
      (transactionRow (.parse tx) (.parse receipt)).transactionFee ≤ 2 ^ (256 + 256) := by
  have hprice := toFloat_le_two_pow hgasPrice.le
  have hused := toFloat_le_two_pow hgasUsed.le
  have hproduct : toFloat tx.gasPrice * toFloat receipt.gasUsed ≤ 2 ^ (256 + 256) :=
    (Nat.mul_le_mul hprice hused).trans_eq (pow_add 2 256 256).symm
  exact ⟨toFloat_le_two_pow hvalue.le, hprice, toFloat_le_two_pow hproduct⟩

end Stored

section Deployment

open Deployment

/-- A transaction that pays `value` wei at 20 gwei for each unit of gas. -/
def payment (value : ℕ) : TxData where
  hash := txHash
  blockNumber := 7
  fromAddress := holder
  toAddress := some coin
  value := value
  gasPrice := 20000000000
  gas := 30000
  input := "0x"

def paymentReceipt : TxReceipt := ⟨21000, [], none⟩

def paymentTrace : List TraceEntry :=
  [⟨[("from", holder.val), ("to", coin.val), ("value", "0x29a2241af62c0000"), ("gas", "0x2328")],
    some [("gasUsed", "0x0")]⟩]

def tracedNode : Node := { node with traceReplayTransaction := fun _ => .ok paymentTrace }

theorem quantities_paymentTrace :
    List.Forall₂ Quantities paymentTrace [some 3000000000000000000] := by
  refine .cons ⟨.some ?_, ⟨some 0, .some ?_⟩, ⟨some 9000, .some ?_⟩⟩ .nil
  · exact ⟨['0', 'x'], by decide,
      ['2', '9', 'a', '2', '2', '4', '1', 'a', 'f', '6', '2', 'c', '0', '0', '0', '0'],
      [2, 9, 10, 2, 2, 4, 1, 10, 15, 6, 2, 12, 0, 0, 0, 0],
      by decide, by decide, by decide, by decide⟩
  · exact ⟨['0', 'x'], by decide, ['0'], [0], by decide, by decide, by decide, by decide⟩
  · exact ⟨['0', 'x'], by decide, ['2', '3', '2', '8'], [2, 3, 2, 8], by decide, by decide,
      by decide, by decide⟩

/-- One ether and one wei is stored as one ether. -/
theorem wei_is_lost :
    (transactionRow (.parse (payment 1000000000000000001)) (.parse paymentReceipt)).value =
        1000000000000000000 ∧
      ¬ StoredExactly (payment 1000000000000000001) paymentReceipt [some 3000000000000000000]
        (written tracedNode (handleTransaction (.parse (payment 1000000000000000001))
          (.parse paymentReceipt) ∅)) := by
  refine ⟨by decide, fun hstored => ?_⟩
  exact absurd hstored.value (by decide)

/-- Whole ethers at a gas price in gwei are stored exactly. -/
theorem payment_stored_exactly :
    StoredExactly (payment 3000000000000000000) paymentReceipt [some 3000000000000000000]
      (written tracedNode (handleTransaction (.parse (payment 3000000000000000000))
        (.parse paymentReceipt) ∅)) := by
  have hether : FloatExact 3000000000000000000 := ⟨11444091796875, 18, by decide, by decide⟩
  refine (@stored_exactly_iff _ tracedNode _ _ _ _ rfl quantities_paymentTrace ∅).mpr
    ⟨hether, representable_of_lt (by decide), representable_of_lt (by decide), ?_⟩
  intro amount hamount number hnumber
  obtain rfl := List.mem_singleton.mp hamount
  obtain rfl := Option.some.inj hnumber
  exact hether

end Deployment

end BlockchainDataCollection.Amounts
