import BlockchainDataCollection.Model.Data
import BlockchainDataCollection.Store.KeyedTable

/-!
# The PostgreSQL tables of one node

Every `insert_*` method of the database manager is one `INSERT` with
`ON CONFLICT DO NOTHING` on the table's primary key; `internal_transaction` has
no primary key and no conflict clause.  The tables are indexed by their name,
so that one lemma covers all of them.
-/

namespace BlockchainDataCollection.Storage

open BlockchainDataCollection.Python
open BlockchainDataCollection.Data
open BlockchainDataCollection.KeyedTable

structure BlockRow where
  blockNumber : ℤ
  blockHash : String
  nonce : String
  difficulty : ℕ
  gasLimit : ℕ
  gasUsed : ℕ
  timestamp : ℤ
  miner : String
  parentHash : String
  blockReward : ℤ
  uncles : List String
  deriving DecidableEq

structure TransactionRow where
  transactionHash : String
  blockNumber : ℤ
  fromAddress : String
  toAddress : Option String
  value : ℕ
  transactionFee : ℕ
  gasPrice : ℕ
  gasLimit : ℕ
  gasUsed : ℕ
  isTokenTx : Bool
  inputData : String
  deriving DecidableEq

structure InternalTransactionRow where
  transactionHash : String
  fromAddress : Option String
  toAddress : Option String
  value : Option ℕ
  gasLimit : Option ℕ
  gasUsed : Option ℕ
  inputData : Option String
  callType : Option String
  deriving DecidableEq

structure TransactionLogsRow where
  transactionHash : String
  address : String
  logIndex : ℕ
  data : String
  removed : Bool
  topics : List String
  deriving DecidableEq

structure NftTransferRow where
  transactionHash : String
  logIndex : ℕ
  address : String
  fromAddress : String
  toAddress : String
  tokenId : ℤ
  deriving DecidableEq

structure ContractRow where
  address : String
  transactionHash : String
  isPairContract : Bool
  deriving DecidableEq

structure TokenContractRow where
  address : String
  symbol : Option String
  name : Option String
  decimals : Option ℤ
  totalSupply : Option ℕ
  tokenCategory : String
  deriving DecidableEq

structure PairContractRow where
  address : String
  token0Address : String
  token1Address : String
  reserve0 : ℤ
  reserve1 : ℤ
  factory : String
  deriving DecidableEq

structure ContractSupplyChangeRow where
  address : String
  amountChanged : ℤ
  transactionHash : String
  deriving DecidableEq

structure PairLiquidityChangeRow where
  address : String
  amount0 : ℤ
  amount1 : ℤ
  transactionHash : String
  deriving DecidableEq

/-! ## Tables and their primary keys -/

inductive TableName where
  | block
  | transaction
  | internalTransaction
  | transactionLogs
  | nftTransfer
  | contract
  | tokenContract
  | pairContract
  | contractSupplyChange
  | pairLiquidityChange
  deriving DecidableEq

abbrev Row : TableName → Type
  | .block => BlockRow
  | .transaction => TransactionRow
  | .internalTransaction => InternalTransactionRow
  | .transactionLogs => TransactionLogsRow
  | .nftTransfer => NftTransferRow
  | .contract => ContractRow
  | .tokenContract => TokenContractRow
  | .pairContract => PairContractRow
  | .contractSupplyChange => ContractSupplyChangeRow
  | .pairLiquidityChange => PairLiquidityChangeRow

abbrev Key : TableName → Type
  | .block => ℤ
  | .transaction => String
  | .internalTransaction => Empty
  | .transactionLogs => String × ℕ
  | .nftTransfer => String × ℕ
  | .contract => String
  | .tokenContract => String
  | .pairContract => String
  | .contractSupplyChange => String × String
  | .pairLiquidityChange => String × String

instance instDecidableEqKey : (name : TableName) → DecidableEq (Key name)
  | .block => inferInstanceAs (DecidableEq ℤ)
  | .transaction => inferInstanceAs (DecidableEq String)
  | .internalTransaction => inferInstanceAs (DecidableEq Empty)
  | .transactionLogs => inferInstanceAs (DecidableEq (String × ℕ))
  | .nftTransfer => inferInstanceAs (DecidableEq (String × ℕ))
  | .contract => inferInstanceAs (DecidableEq String)
  | .tokenContract => inferInstanceAs (DecidableEq String)
  | .pairContract => inferInstanceAs (DecidableEq String)
  | .contractSupplyChange => inferInstanceAs (DecidableEq (String × String))
  | .pairLiquidityChange => inferInstanceAs (DecidableEq (String × String))

/-- The `PRIMARY KEY` of each table; `internal_transaction` has none. -/
def primaryKey : (name : TableName) → Row name → Option (Key name)
  | .block, row => some row.blockNumber
  | .transaction, row => some row.transactionHash
  | .internalTransaction, _ => none
  | .transactionLogs, row => some (row.transactionHash, row.logIndex)
  | .nftTransfer, row => some (row.transactionHash, row.logIndex)
  | .contract, row => some row.address
  | .tokenContract, row => some row.address
  | .pairContract, row => some row.address
  | .contractSupplyChange, row => some (row.address, row.transactionHash)
  | .pairLiquidityChange, row => some (row.address, row.transactionHash)

theorem primaryKey_eq_none_iff {name : TableName} {row : Row name} :
    primaryKey name row = none ↔ name = .internalTransaction := by
  cases name <;> simp [primaryKey]

structure Database where
  table : (name : TableName) → Table (primaryKey name)

/-- One `INSERT INTO … VALUES …`. -/
structure Statement where
  table : TableName
  row : Row table

def Statement.insert (name : TableName) (row : Row name) : Statement := ⟨name, row⟩

theorem Statement.insert_inj {name : TableName} {left right : Row name} :
    Statement.insert name left = .insert name right ↔ left = right := by
  simp [Statement.insert]

/-- The rows a list of statements writes into one table, in order. -/
def rowsOf (name : TableName) (statements : List Statement) : List (Row name) :=
  statements.filterMap fun statement =>
    if h : statement.table = name then some (h ▸ statement.row) else none

namespace Database

def empty : Database := ⟨fun _ => Table.empty⟩

def execute (db : Database) (statement : Statement) : Database :=
  ⟨Function.update db.table statement.table
    ((db.table statement.table).insertNew statement.row)⟩

/-- One SQL transaction block. -/
def executeAll (db : Database) (statements : List Statement) : Database :=
  statements.foldl execute db

/-- The same rows in every table, in whatever order they were written. -/
def Same (left right : Database) : Prop :=
  ∀ name, (left.table name).Same (right.table name)

end Database

@[simp]
theorem rowsOf_nil (name : TableName) : rowsOf name [] = [] := rfl

theorem rowsOf_append (name : TableName) (first second : List Statement) :
    rowsOf name (first ++ second) = rowsOf name first ++ rowsOf name second :=
  List.filterMap_append

@[simp]
theorem rowsOf_insert_cons_self (name : TableName) (row : Row name)
    (statements : List Statement) :
    rowsOf name (.insert name row :: statements) = row :: rowsOf name statements := by
  simp [rowsOf, Statement.insert]

theorem rowsOf_insert_cons_of_ne {name other : TableName} (h : other ≠ name)
    (row : Row other) (statements : List Statement) :
    rowsOf name (.insert other row :: statements) = rowsOf name statements := by
  simp [rowsOf, Statement.insert, h]

theorem rowsOf_flatMap {I : Type} (name : TableName) (items : List I)
    (statements : I → List Statement) :
    rowsOf name (items.flatMap statements) =
      items.flatMap fun item => rowsOf name (statements item) := by
  induction items with
  | nil => rfl
  | cons item items ih => rw [List.flatMap_cons, rowsOf_append, ih, List.flatMap_cons]

theorem mem_rowsOf_iff {name : TableName} {row : Row name} {statements : List Statement} :
    row ∈ rowsOf name statements ↔ Statement.insert name row ∈ statements := by
  simp only [rowsOf, List.mem_filterMap]
  constructor
  · rintro ⟨⟨other, otherRow⟩, hmem, hrow⟩
    by_cases h : other = name
    · subst other
      simp only [dite_true, Option.some.injEq] at hrow
      exact hrow ▸ hmem
    · simp [h] at hrow
  · intro hmem
    exact ⟨_, hmem, by simp [Statement.insert]⟩

theorem rowsOf_eq_nil {name : TableName} {statements : List Statement}
    (h : ∀ statement ∈ statements, statement.table ≠ name) : rowsOf name statements = [] := by
  rw [rowsOf, List.filterMap_eq_nil_iff]
  intro statement hstatement
  rw [dif_neg (h statement hstatement)]

theorem rowsOf_map_insert {I : Type} (name : TableName) (items : List I) (row : I → Row name) :
    rowsOf name (items.map fun item => .insert name (row item)) = items.map row := by
  induction items with
  | nil => rfl
  | cons item items ih => rw [List.map_cons, rowsOf_insert_cons_self, ih, List.map_cons]

theorem rowsOf_map_insert_of_ne {I : Type} {name other : TableName} (h : other ≠ name)
    (items : List I) (row : I → Row other) :
    rowsOf name (items.map fun item => .insert other (row item)) = [] := by
  refine rowsOf_eq_nil fun statement hstatement => ?_
  obtain ⟨_, _, rfl⟩ := List.mem_map.mp hstatement
  exact h

theorem Database.table_execute_insert (db : Database) (name other : TableName)
    (row : Row other) :
    (db.execute (.insert other row)).table name =
      (db.table name).insertAll (rowsOf name [.insert other row]) := by
  by_cases h : other = name
  · subst other
    rw [rowsOf_insert_cons_self]
    exact Function.update_self ..
  · rw [rowsOf_insert_cons_of_ne h]
    exact Function.update_of_ne (Ne.symm h) ..

/-- Executing statements writes, into each table, the rows meant for it. -/
theorem Database.table_executeAll (db : Database) (statements : List Statement)
    (name : TableName) :
    (db.executeAll statements).table name =
      (db.table name).insertAll (rowsOf name statements) := by
  induction statements generalizing db with
  | nil => rfl
  | cons statement statements ih =>
      change ((db.execute statement).executeAll statements).table name = _
      rw [ih, ← List.singleton_append, rowsOf_append, Table.insertAll_append]
      exact congrArg (Table.insertAll · _) (db.table_execute_insert name _ statement.row)

theorem Database.executeAll_append (db : Database) (first second : List Statement) :
    db.executeAll (first ++ second) = (db.executeAll first).executeAll second :=
  List.foldl_append

/-- The row of the statement is stored, or another one under its key. -/
def Database.Holds (db : Database) (statement : Statement) : Prop :=
  (db.table statement.table).Holds statement.row

theorem Database.Holds.executeAll {db : Database} {statement : Statement}
    (h : db.Holds statement) (statements : List Statement) :
    (db.executeAll statements).Holds statement := by
  rw [Database.Holds, Database.table_executeAll]
  exact Table.Holds.insertAll h _

theorem Database.holds_executeAll {db : Database} {statements : List Statement}
    {statement : Statement} (h : statement ∈ statements) :
    (db.executeAll statements).Holds statement := by
  rw [Database.Holds, Database.table_executeAll]
  exact Table.holds_insertAll (mem_rowsOf_iff.mpr h)

/-- A row that was written has its key in the table. -/
theorem exists_transactionRow_of_mem {db : Database} {statements : List Statement}
    {row : TransactionRow} (h : .insert .transaction row ∈ statements) :
    ∃ txRow ∈ ((db.executeAll statements).table .transaction).rows,
      txRow.transactionHash = row.transactionHash := by
  have hlookup : ((db.executeAll statements).table .transaction).lookup row.transactionHash ≠
      none := by
    rw [Database.table_executeAll, Table.lookup_insertAll, ne_eq, Option.or_eq_none_iff]
    rintro ⟨_, hnone⟩
    exact Table.firstWith_eq_none_iff.mp hnone row (mem_rowsOf_iff.mpr h) rfl
  obtain ⟨txRow, htxRow⟩ := Option.ne_none_iff_exists'.mp hlookup
  have hkey : primaryKey .transaction txRow = some row.transactionHash :=
    Table.key_of_firstWith htxRow
  exact ⟨txRow, Table.mem_of_firstWith htxRow, Option.some.inj hkey⟩

/-- Executing statements changes nothing exactly when each of their rows has a
key that is taken. -/
theorem Database.executeAll_eq_self_iff {db : Database} {statements : List Statement} :
    db.executeAll statements = db ↔
      ∀ statement ∈ statements, (db.table statement.table).Conflicts statement.row := by
  have htables : db.executeAll statements = db ↔
      ∀ name, (db.table name).insertAll (rowsOf name statements) = db.table name := by
    simp only [← Database.table_executeAll]
    constructor
    · intro h name
      rw [h]
    · intro h
      exact congrArg Database.mk (funext h)
  simp only [htables, Table.insertAll_eq_self_iff, mem_rowsOf_iff]
  constructor
  · intro h statement hstatement
    exact h statement.table statement.row hstatement
  · intro h name row hrow
    exact h _ hrow

/-- Executing statements a second time changes nothing exactly when none of
them writes the table without a primary key. -/
theorem Database.executeAll_twice_same_iff (db : Database) (statements : List Statement) :
    ((db.executeAll statements).executeAll statements).Same (db.executeAll statements) ↔
      rowsOf .internalTransaction statements = [] := by
  have htable : ∀ name, ((((db.executeAll statements).executeAll statements).table name).Same
      ((db.executeAll statements).table name)) ↔
        ∀ row ∈ rowsOf name statements, primaryKey name row ≠ none := by
    intro name
    rw [Database.table_executeAll, Database.table_executeAll, Table.insertAll_twice_same_iff]
  simp only [Database.Same, htable, ne_eq, primaryKey_eq_none_iff]
  constructor
  · intro h
    exact List.eq_nil_iff_forall_not_mem.mpr fun row hrow => h _ row hrow rfl
  · rintro h name row hrow rfl
    rw [h] at hrow
    cases hrow

/-- Two arrangements of the same statements leave the same rows when they agree
on the first row written under every key. -/
theorem Database.executeAll_same_of_perm (db : Database) {left right : List Statement}
    (hperm : left.Perm right)
    (hagree : ∀ name k a b,
      Table.firstWith (primaryKey name) k (rowsOf name left) = some a →
      Table.firstWith (primaryKey name) k (rowsOf name right) = some b → a = b) :
    (db.executeAll left).Same (db.executeAll right) := by
  intro name
  rw [Database.table_executeAll, Database.table_executeAll]
  exact Table.insertAll_same_of_perm (hperm.filterMap _) (hagree name)

/-! ## The insert methods of the database manager -/

def insertBlock (row : BlockRow) : Statement := .insert .block row

def insertTransaction (row : TransactionRow) : Statement := .insert .transaction row

def insertInternalTransaction (row : InternalTransactionRow) : Statement :=
  .insert .internalTransaction row

def insertTransactionLogs (row : TransactionLogsRow) : Statement :=
  .insert .transactionLogs row

def insertNftTransfer (row : NftTransferRow) : Statement := .insert .nftTransfer row

/-- `is_pair_contract` is a required parameter: a call without it raises. -/
def insertContract (address transactionHash : String) (isPairContract : Option Bool) :
    Except PyError Statement :=
  match isPairContract with
  | some isPairContract => .ok (.insert .contract { address, transactionHash, isPairContract })
  | none => .error (.typeError
      "insert_contract() missing 1 required positional argument: 'is_pair_contract'")

def insertTokenContract (row : TokenContractRow) : Statement := .insert .tokenContract row

def insertContractSupplyChange (row : ContractSupplyChangeRow) : Statement :=
  .insert .contractSupplyChange row

def insertPairLiquidityChange (row : PairLiquidityChangeRow) : Statement :=
  .insert .pairLiquidityChange row

end BlockchainDataCollection.Storage
