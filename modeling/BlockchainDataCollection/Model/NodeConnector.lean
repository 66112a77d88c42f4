import BlockchainDataCollection.Effect.Program
import BlockchainDataCollection.Model.Python

/-!
# Requests to the node

Every request of the node connector goes through a middleware that makes it
again after a timeout or a failed connection.  The limit is the number of
requests it makes at most; below one it makes none and returns `None`.
-/

namespace BlockchainDataCollection.NodeConnector

open BlockchainDataCollection.Effect
open BlockchainDataCollection.Python

/-! ## The middleware -/

inductive RequestError where
  /-- `asyncio.TimeoutError`, which is the built-in `TimeoutError`. -/
  | timeoutError
  | clientConnectorError (message : String)
  | other (error : PyError)
  deriving DecidableEq

/-- The `errors` of `async_http_retry_request_middleware`. -/
def RequestError.Retriable : RequestError → Prop
  | .timeoutError => True
  | .clientConnectorError _ => True
  | .other _ => False

instance : (error : RequestError) → Decidable error.Retriable
  | .timeoutError => isTrue trivial
  | .clientConnectorError _ => isTrue trivial
  | .other _ => isFalse not_false

variable {Response : Type}

inductive RequestCall where
  | makeRequest (method : String) (params : List String)
  | sleep (delay : ℤ)

/-- A request is answered by any Python value, `None` among them. -/
abbrev RequestCall.Answer (Response : Type) : RequestCall → Type
  | .makeRequest _ _ => Option Response
  | .sleep _ => Unit

abbrev requestSignature (Response : Type) : Signature := ⟨RequestCall, RequestCall.Answer Response⟩

abbrev RequestProgram (Response A : Type) := Program (requestSignature Response) RequestError A

def sleep (delay : ℤ) : RequestProgram Response Unit :=
  @Program.perform (requestSignature Response) _ (.sleep delay)

/-- The loop of the middleware over the values of `i`; behind it, `return None`. -/
def tryRequests (retries delay : ℤ) (method : String) (params : List String) :
    List ℕ → RequestProgram Response (Option Response)
  | [] => .done none
  | i :: rest =>
      @Program.call (requestSignature Response) _ _ (.makeRequest method params) fun
        | .ok response => .done response
        | .error error =>
            if error.Retriable then
              if i < retries - 1 then do
                sleep delay
                tryRequests retries delay method params rest
              else .raise error
            else .raise error

/-- The coroutine `middleware`; `range` of a negative number is empty. -/
def middleware (retries delay : ℤ) (method : String) (params : List String) :
    RequestProgram Response (Option Response) :=
  tryRequests retries delay method params (List.range retries.toNat)

/-! ## Sequences of outcomes -/

/-- The outcomes of successive requests, whatever they ask for. -/
abbrev Outcomes (Response : Type) := ℕ → Except RequestError (Option Response)

/-- The answers to the middleware, counting the requests. -/
def answer (outcomes : Outcomes Response) : (op : RequestCall) → ℕ →
    Except RequestError (op.Answer Response) × ℕ
  | .makeRequest _ _, made => (outcomes made, made + 1)
  | .sleep _, made => (.ok (), made)

/-- An outcome that lets the middleware try again. -/
def TriesAgain : Except RequestError (Option Response) → Prop
  | .ok _ => False
  | .error error => error.Retriable

/-- At least one request and at most `max(1, retries)`, none of them after a
response or another error; and the last of them decides what comes out. -/
structure Retries (retries : ℤ) (outcomes : Outcomes Response)
    (result : Outcome RequestError (Option Response)) (made : ℕ) : Prop where
  atLeastOne : 1 ≤ made
  withinLimit : made ≤ max 1 retries
  triedAgain : ∀ n, n + 1 < made → TriesAgain (outcomes n)
  returns : ∀ response, outcomes (made - 1) = .ok response → result = .returned response
  raises : ∀ error, outcomes (made - 1) = .error error →
    result = .raised error ∧ (error.Retriable → made = max 1 retries)

/-! ## Runs of the loop -/

section Runs

variable {outcomes : Outcomes Response} {retries : ℤ} {made : ℕ}

theorem run_tryRequests_ok (delay : ℤ) (method : String) (params : List String) (rest : List ℕ)
    {response : Option Response} (houtcome : outcomes made = .ok response) :
    (tryRequests retries delay method params (made :: rest)).run (answer outcomes) made =
      (.returned response, made + 1) := by
  rw [tryRequests, Program.run_call]
  simp only [answer, houtcome]
  rfl

/-- A retriable error before the last attempt leads to the next one. -/
theorem run_tryRequests_again (delay : ℤ) (method : String) (params : List String)
    (rest : List ℕ) {error : RequestError} (houtcome : outcomes made = .error error)
    (hretriable : error.Retriable) (hlast : (made : ℤ) < retries - 1) :
    (tryRequests retries delay method params (made :: rest)).run (answer outcomes) made =
      (tryRequests retries delay method params rest).run (answer outcomes) (made + 1) := by
  rw [tryRequests, Program.run_call]
  simp only [answer, houtcome, if_pos hretriable, if_pos hlast]
  rfl

theorem run_tryRequests_raise (delay : ℤ) (method : String) (params : List String)
    (rest : List ℕ) {error : RequestError} (houtcome : outcomes made = .error error)
    (hraise : ¬ (error.Retriable ∧ (made : ℤ) < retries - 1)) :
    (tryRequests retries delay method params (made :: rest)).run (answer outcomes) made =
      (.raised error, made + 1) := by
  rw [tryRequests, Program.run_call]
  simp only [answer, houtcome]
  by_cases hretriable : error.Retriable
  · rw [if_pos hretriable, if_neg fun hlast => hraise ⟨hretriable, hlast⟩]
    rfl
  · rw [if_neg hretriable]
    rfl

/-- The middleware stops at a response. -/
theorem Retries.of_ok (hlimit : (made : ℤ) + 1 ≤ retries)
    (hbefore : ∀ n < made, TriesAgain (outcomes n)) {response : Option Response}
    (houtcome : outcomes made = .ok response) :
    Retries retries outcomes (.returned response) (made + 1) where
  atLeastOne := Nat.le_add_left 1 made
  withinLimit := by
    rw [Nat.cast_add, Nat.cast_one]
    exact hlimit.trans (le_max_right 1 retries)
  triedAgain n hn := hbefore n (Nat.lt_of_succ_lt_succ hn)
  returns other hother := by
    rw [Nat.add_sub_cancel, houtcome] at hother
    rw [Except.ok.inj hother]
  raises error herror := by
    rw [Nat.add_sub_cancel, houtcome] at herror
    cases herror

/-- It stops at an error that is not retriable, or that comes last. -/
theorem Retries.of_error (hlimit : (made : ℤ) + 1 ≤ retries)
    (hbefore : ∀ n < made, TriesAgain (outcomes n)) {error : RequestError}
    (houtcome : outcomes made = .error error)
    (hraise : ¬ (error.Retriable ∧ (made : ℤ) < retries - 1)) :
    Retries retries outcomes (.raised error) (made + 1) where
  atLeastOne := Nat.le_add_left 1 made
  withinLimit := by
    rw [Nat.cast_add, Nat.cast_one]
    exact hlimit.trans (le_max_right 1 retries)
  triedAgain n hn := hbefore n (Nat.lt_of_succ_lt_succ hn)
  returns response hresponse := by
    rw [Nat.add_sub_cancel, houtcome] at hresponse
    cases hresponse
  raises other hother := by
    rw [Nat.add_sub_cancel, houtcome] at hother
    obtain rfl := Except.error.inj hother
    refine ⟨rfl, fun hretriable => ?_⟩
    have hlast : ¬ (made : ℤ) < retries - 1 := fun hlast => hraise ⟨hretriable, hlast⟩
    rw [Nat.cast_add, Nat.cast_one]
    omega

/-- The attempts from the current one to the last, by induction on their number. -/
theorem retries_tryRequests (delay : ℤ) (method : String) (params : List String) {count : ℕ}
    (hcount : (made : ℤ) + count = retries) (hlimit : (made : ℤ) + 1 ≤ retries)
    (hbefore : ∀ n < made, TriesAgain (outcomes n)) :
    let run := (tryRequests retries delay method params (List.range' made count)).run
      (answer outcomes) made
    Retries retries outcomes run.1 run.2 := by
  induction count generalizing made with
  | zero => omega
  | succ count ih =>
      rw [List.range'_succ]
      cases houtcome : outcomes made with
      | ok response =>
          rw [run_tryRequests_ok delay method params _ houtcome]
          exact .of_ok hlimit hbefore houtcome
      | error error =>
          by_cases hagain : error.Retriable ∧ (made : ℤ) < retries - 1
          · rw [run_tryRequests_again delay method params _ houtcome hagain.1 hagain.2]
            refine ih (by push_cast at hcount ⊢; omega) (by push_cast; omega) fun n hn => ?_
            rcases Nat.lt_succ_iff_lt_or_eq.mp hn with hlt | rfl
            · exact hbefore n hlt
            · rw [houtcome]
              exact hagain.1
          · rw [run_tryRequests_raise delay method params _ houtcome hagain]
            exact .of_error hlimit hbefore houtcome hagain

/-- The middleware makes its requests as it should exactly when the limit is
positive. -/
theorem middleware_retries_iff (retries delay : ℤ) (method : String) (params : List String)
    (outcomes : Outcomes Response) :
    (let run := (middleware retries delay method params).run (answer outcomes) 0
    Retries retries outcomes run.1 run.2) ↔ 1 ≤ retries := by
  constructor
  · intro h
    by_contra hretries
    have hrange : List.range retries.toNat = [] := by
      rw [Int.toNat_of_nonpos (by omega), List.range_zero]
    have hatLeastOne := h.atLeastOne
    rw [middleware, hrange] at hatLeastOne
    cases hatLeastOne
  · intro hretries
    have hrun := @retries_tryRequests Response outcomes retries 0 delay method params
      retries.toNat (by rw [Int.toNat_of_nonneg (by omega)]; simp) (by simpa using hretries)
      fun n hn => absurd hn n.not_lt_zero
    rwa [← List.range_eq_range'] at hrun

end Runs

/-- A limit of zero: `None` without a request. -/
theorem middleware_zero_returns_none :
    (middleware 0 5 "trace_block" ["0x1"]).run (answer fun _ => .ok (some "{}")) 0 =
      (.returned none, 0) ∧
    ¬ (let run := (middleware 0 5 "trace_block" ["0x1"]).run (answer fun _ => .ok (some "{}")) 0
      Retries 0 (fun _ => .ok (some "{}")) run.1 run.2) :=
  ⟨rfl, fun h => absurd h.atLeastOne (by decide)⟩

end BlockchainDataCollection.NodeConnector
