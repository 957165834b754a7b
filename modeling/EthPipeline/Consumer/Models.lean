import EthPipeline.Data.Json

/-!
# The consumer's message models

`src/consumer/models.py`.  A payload is what `json.loads` made of a message;
`Model(**data)` gives a model, a `ValidationError`, or a `TypeError` when the
payload is no mapping.  The scalar validators are pydantic's and come in as a
parameter `Pydantic`; everything else, with the aliases, the defaults and the
fallbacks of `parse_eth_timestamp`, is the code's own.

* `parseEthTimestamp_eq`: on a value that `float` and `fromtimestamp` convert
  the clock is not used; on every other value the result is the clock.
* `TransactionModel.validate_eq_some`, `TokenTransferModel.validate_eq_some`:
  the timestamp is all that the clock decides.
* `transaction_construct_congr`, `tokenTransfer_construct_congr`: on a
  convertible payload the clock decides nothing.
-/

namespace Consumer

/-- The exceptions the consumer meets. -/
inductive Exc where
  | validationError
  | typeError
  | overflowError
  | runtimeError (message : String)
  | kafkaException
  | bufferError
  | redisError
  | databaseError
  | poolError
  | keyboardInterrupt
  deriving DecidableEq, Repr

/-- `except Exception` catches everything but the interrupts. -/
def Exc.isException : Exc → Bool
  | .keyboardInterrupt => false
  | _ => true

/-- The validators of the scalar field types, in pydantic's lax mode; `none` is
a validation error. -/
structure Pydantic where
  str : Json → Option String
  int : Json → Option ℤ
  datetime : Json → Option Timestamp

/-- The validators on values that have the type of the field already. -/
def Pydantic.plain : Pydantic where
  str
    | .str s => some s
    | _ => none
  int
    | .int n => some n
    | _ => none
  datetime
    | .int n => some (n * 1000000)
    | _ => none

abbrev Fields := List (String × Json)

def Fields.get (fields : Fields) (name : String) : Option Json := fields.lookup name

/-- `AliasChoices('timestamp', 'block_timestamp', 'item_timestamp')`: the first
of the three that the payload has. -/
def timestampAliases : List String := ["timestamp", "block_timestamp", "item_timestamp"]

def Fields.timestamp (fields : Fields) : Option Json := timestampAliases.findSome? fields.get

def Fields.required {α : Type} (fields : Fields) (name : String) (validate : Json → Option α) :
    Option α :=
  (fields.get name).bind validate

def Fields.withDefault {α : Type} (fields : Fields) (name : String) (validate : Json → Option α)
    (default : α) : Option α :=
  match fields.get name with
  | some v => validate v
  | none => some default

/-- The validator of `Optional[T]`. -/
def optional {α : Type} (validate : Json → Option α) : Json → Option (Option α)
  | .null => some none
  | v => (validate v).map some

/-- The Unix time `v` stands for, if `float` and `fromtimestamp` can convert it
and it is not one of the values `not v` sorts out. -/
def ethTimestamp (v : Json) : Option Timestamp :=
  if v.truthy then v.toFloat.bind fromtimestamp else none

def parseEthTimestamp (now : Timestamp) (v : Json) : Timestamp :=
  if !v.truthy then now
  else
    match v.toFloat.bind fromtimestamp with
    | some t => t
    | none => now

/-- **The clock is the fallback, and only that.** -/
theorem parseEthTimestamp_eq (now : Timestamp) (v : Json) :
    parseEthTimestamp now v = (ethTimestamp v).getD now := by
  unfold parseEthTimestamp ethTimestamp
  cases v.truthy with
  | false => rfl
  | true => cases v.toFloat.bind fromtimestamp <;> rfl

structure BlockModel where
  number : ℤ
  timestamp : Timestamp
  deriving DecidableEq, Repr

structure TransactionModel where
  hash : String
  timestamp : Timestamp
  fromAddress : String
  toAddress : Option String
  value : ℤ
  gasPrice : ℤ
  deriving DecidableEq, Repr

structure TokenTransferModel where
  transactionHash : String
  logIndex : ℤ
  timestamp : Option Timestamp
  blockNumber : ℤ
  tokenAddress : String
  fromAddress : String
  toAddress : String
  value : ℤ
  deriving DecidableEq, Repr

def BlockModel.validate (P : Pydantic) (fields : Fields) : Option BlockModel := do
  let number ← fields.required "number" P.int
  let timestamp ← fields.timestamp.bind P.datetime
  return { number, timestamp }

def TransactionModel.validate (P : Pydantic) (now : Timestamp) (fields : Fields) :
    Option TransactionModel := do
  let hash ← fields.required "hash" P.str
  let timestamp ← fields.timestamp
  let fromAddress ← fields.required "from_address" P.str
  let toAddress ← fields.withDefault "to_address" (optional P.str) none
  let value ← fields.withDefault "value" P.int 0
  let gasPrice ← fields.withDefault "gas_price" P.int 0
  return { hash, timestamp := parseEthTimestamp now timestamp, fromAddress, toAddress, value, gasPrice }

/-- The validator of `timestamp` runs on a given value only: a `null` becomes
the clock, a missing field stays `None`. -/
def TokenTransferModel.validate (P : Pydantic) (now : Timestamp) (fields : Fields) :
    Option TokenTransferModel := do
  let transactionHash ← fields.required "transaction_hash" P.str
  let logIndex ← fields.required "log_index" P.int
  let blockNumber ← fields.required "block_number" P.int
  let tokenAddress ← fields.required "token_address" P.str
  let fromAddress ← fields.required "from_address" P.str
  let toAddress ← fields.required "to_address" P.str
  let value ← fields.withDefault "value" P.int 0
  return { transactionHash, logIndex, timestamp := fields.timestamp.map (parseEthTimestamp now),
           blockNumber, tokenAddress, fromAddress, toAddress, value }

/-- `Model(**data)`. -/
def construct {α : Type} (validate : Fields → Option α) : Json → Except Exc α
  | .obj fields =>
    match validate fields with
    | some m => .ok m
    | none => .error .validationError
  | _ => .error .typeError

theorem construct_eq_ok {α : Type} {validate : Fields → Option α} {data : Json} {m : α} :
    construct validate data = .ok m ↔ ∃ fields, data = .obj fields ∧ validate fields = some m := by
  constructor
  · intro h
    cases data with
    | obj fields =>
      refine ⟨fields, rfl, ?_⟩
      simp only [construct] at h
      cases hv : validate fields with
      | none => rw [hv] at h; simp at h
      | some m' => rw [hv] at h; exact congrArg some (Except.ok.inj h)
    | _ => simp [construct] at h
  · rintro ⟨fields, rfl, h⟩
    simp [construct, h]

/-! ### What the clock decides -/

theorem TransactionModel.validate_eq_some {P : Pydantic} {now : Timestamp} {fields : Fields}
    {tx : TransactionModel} (h : TransactionModel.validate P now fields = some tx)
    (now' : Timestamp) :
    ∃ v, fields.timestamp = some v ∧ tx.timestamp = parseEthTimestamp now v ∧
      TransactionModel.validate P now' fields
        = some { tx with timestamp := parseEthTimestamp now' v } := by
  simp only [TransactionModel.validate, Option.bind_eq_bind, Option.bind_eq_some_iff,
    Option.pure_def] at h ⊢
  obtain ⟨hash, h1, v, h2, src, h3, dst, h4, value, h5, price, h6, h⟩ := h
  obtain rfl := Option.some.inj h
  exact ⟨v, h2, rfl, hash, h1, v, h2, src, h3, dst, h4, value, h5, price, h6, rfl⟩

theorem TokenTransferModel.validate_eq_some {P : Pydantic} {now : Timestamp} {fields : Fields}
    {tt : TokenTransferModel} (h : TokenTransferModel.validate P now fields = some tt)
    (now' : Timestamp) :
    tt.timestamp = fields.timestamp.map (parseEthTimestamp now) ∧
      TokenTransferModel.validate P now' fields
        = some { tt with timestamp := fields.timestamp.map (parseEthTimestamp now') } := by
  simp only [TokenTransferModel.validate, Option.bind_eq_bind, Option.bind_eq_some_iff,
    Option.pure_def] at h ⊢
  obtain ⟨hash, h1, idx, h2, blk, h3, tok, h4, src, h5, dst, h6, value, h7, h⟩ := h
  obtain rfl := Option.some.inj h
  exact ⟨rfl, hash, h1, idx, h2, blk, h3, tok, h4, src, h5, dst, h6, value, h7, rfl⟩

/-- The payload's own timestamp, under the first alias it has, is one
`parse_eth_timestamp` can convert. -/
def Convertible (data : Json) : Prop :=
  ∀ (fields : Fields) (v : Json), data = .obj fields → fields.timestamp = some v →
    (ethTimestamp v).isSome

theorem parse_congr_of_convertible {fields : Fields} {v : Json} (h : Convertible (.obj fields))
    (hv : fields.timestamp = some v) (now now' : Timestamp) :
    parseEthTimestamp now v = parseEthTimestamp now' v := by
  obtain ⟨t, ht⟩ := Option.isSome_iff_exists.mp (h fields v rfl hv)
  rw [parseEthTimestamp_eq, parseEthTimestamp_eq, ht]
  rfl

/-- **On a convertible payload the model is a function of the payload.** -/
theorem transaction_construct_congr {P : Pydantic} {data : Json} (h : Convertible data)
    (now now' : Timestamp) {tx : TransactionModel}
    (htx : construct (TransactionModel.validate P now) data = .ok tx) :
    construct (TransactionModel.validate P now') data = .ok tx := by
  obtain ⟨(fields : Fields), rfl, hv⟩ := construct_eq_ok.mp htx
  obtain ⟨v, hf, ht, hv'⟩ := TransactionModel.validate_eq_some hv now'
  refine construct_eq_ok.mpr ⟨fields, rfl, ?_⟩
  rw [hv', ← parse_congr_of_convertible h hf now now', ← ht]

theorem tokenTransfer_construct_congr {P : Pydantic} {data : Json} (h : Convertible data)
    (now now' : Timestamp) {tt : TokenTransferModel}
    (htt : construct (TokenTransferModel.validate P now) data = .ok tt) :
    construct (TokenTransferModel.validate P now') data = .ok tt := by
  obtain ⟨(fields : Fields), rfl, hv⟩ := construct_eq_ok.mp htt
  obtain ⟨ht, hv'⟩ := TokenTransferModel.validate_eq_some hv now'
  refine construct_eq_ok.mpr ⟨fields, rfl, ?_⟩
  have heq : fields.timestamp.map (parseEthTimestamp now') = tt.timestamp := by
    rw [ht]
    exact Option.map_congr fun v hf => parse_congr_of_convertible h hf now' now
  rw [hv', heq]

end Consumer
