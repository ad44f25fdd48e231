import Pyrax.Base.Records
import Pyrax.Base.Word
import Pyrax.Types.Primitives

/-!
# The testnet faucet

`pyrax-node/src/services/faucet.rs`: one payout for each request that passes the balance,
the captcha, the cooldown of the address and the daily limit of the IP, and a queue of the
payouts that are not confirmed yet. A request reads the clock up to twelve times, and the
readings are its argument (`Readings`), in the order in which the code takes them.

A run is a list of calls, and its payouts are the requests that were paid, oldest first
(`Call.grants`). One lemma says what a request can do (`request_cases`): it is refused and
changes nothing, or every check has passed and it is paid.

Left out: the captcha keys, `min_balance`, the time and the user agent of a request, which
nothing reads, and the locks: a call is taken as one step.
-/

namespace Pyrax.Faucet

open Base Word

def DEFAULT_FAUCET_AMOUNT : UInt64 := 100 * 100000000
def FAUCET_COOLDOWN_SECS : UInt64 := 86400

structure FaucetConfig where
  enabled : Bool
  amount : UInt64
  cooldownSecs : UInt64
  maxRequestsPerIp : UInt32
  requireCaptcha : Bool
  faucetAddress : Address
  alertThreshold : UInt64
  deriving DecidableEq

/-- `Default`. -/
def FaucetConfig.default : FaucetConfig where
  enabled := true
  amount := DEFAULT_FAUCET_AMOUNT
  cooldownSecs := FAUCET_COOLDOWN_SECS
  maxRequestsPerIp := 3
  requireCaptcha := true
  faucetAddress := ⟨Vector.replicate 20 0xff⟩
  alertThreshold := 10000000 * 100000000

structure FaucetRequest where
  address : Address
  ipAddress : String
  captchaResponse : Option String
  deriving DecidableEq

structure FaucetResponse where
  success : Bool
  txHash : Option H256
  amount : UInt64
  message : String
  nextEligible : Option UInt64
  remainingRequests : UInt32
  deriving DecidableEq

namespace FaucetResponse

/-- `FaucetResponse::success`. -/
def ofSuccess (now : UInt64) (txHash : H256) (amount : UInt64) : FaucetResponse where
  success := true
  txHash := some txHash
  amount := amount
  message := "Successfully sent " ++ toString (amount / 100000000) ++ " PYRAX"
  nextEligible := some (now + FAUCET_COOLDOWN_SECS)
  remainingRequests := 0

def error (message : String) : FaucetResponse where
  success := false
  txHash := none
  amount := 0
  message := message
  nextEligible := none
  remainingRequests := 0

def cooldown (now nextEligible : UInt64) : FaucetResponse where
  success := false
  txHash := none
  amount := 0
  message := "Please wait " ++ toString (saturatingSub nextEligible now) ++
    " seconds before requesting again"
  nextEligible := some nextEligible
  remainingRequests := 0

end FaucetResponse

/-- The clock as one request reads it, in this order. -/
structure Readings where
  /-- `check_address_limit` -/
  address : UInt64
  /-- `FaucetResponse::cooldown` -/
  wait : UInt64
  /-- `requests_today` -/
  ip : UInt64
  /-- under the transaction hash -/
  hash : UInt64
  /-- in the queue -/
  created : UInt64
  /-- `RateLimitEntry::new` of the address -/
  addressNew : UInt64
  /-- `add_request` of the address -/
  addressNow : UInt64
  /-- its new day -/
  addressDay : UInt64
  /-- `RateLimitEntry::new` of the IP -/
  ipNew : UInt64
  /-- `add_request` of the IP -/
  ipNow : UInt64
  /-- its new day -/
  ipDay : UInt64
  /-- `FaucetResponse::success` -/
  replied : UInt64
  deriving DecidableEq

def Readings.toList (t : Readings) : List UInt64 :=
  [t.address, t.wait, t.ip, t.hash, t.created, t.addressNew, t.addressNow, t.addressDay, t.ipNew,
    t.ipNow, t.ipDay, t.replied]

def currentDayStart (now : UInt64) : UInt64 := now - now % 86400

structure RateLimitEntry where
  requests : List UInt64
  dailyCount : UInt32
  dayStart : UInt64
  deriving DecidableEq

namespace RateLimitEntry

def new (now : UInt64) : RateLimitEntry := ⟨[], 0, currentDayStart now⟩

/-- The entry `add_request` counts in: a fresh one on a new day. -/
def today (e : RateLimitEntry) (now dayNow : UInt64) : RateLimitEntry :=
  if e.dayStart + 86400 ≤ now then ⟨[], 0, currentDayStart dayNow⟩ else e

/-- What `add_request` does on the entry's day. -/
def push (e : RateLimitEntry) (now : UInt64) : RateLimitEntry :=
  { e with requests := e.requests ++ [now], dailyCount := e.dailyCount + 1 }

def addRequest (e : RateLimitEntry) (now dayNow : UInt64) : RateLimitEntry :=
  (e.today now dayNow).push now

def lastRequestTime (e : RateLimitEntry) : Option UInt64 := e.requests.getLast?

def requestsToday (e : RateLimitEntry) (now : UInt64) : UInt32 :=
  if e.dayStart + 86400 ≤ now then 0 else e.dailyCount

/-- What `cleanup` keeps. -/
def recent (e : RateLimitEntry) (cutoff : UInt64) : Bool :=
  match e.lastRequestTime with
  | some t => cutoff < t
  | none => false

theorem dayStart_push (e : RateLimitEntry) (now : UInt64) :
    (e.push now).dayStart = e.dayStart := rfl

theorem dayStart_addRequest (e : RateLimitEntry) (now dayNow : UInt64) :
    (e.addRequest now dayNow).dayStart = (e.today now dayNow).dayStart :=
  dayStart_push (e.today now dayNow) now

theorem dailyCount_push (e : RateLimitEntry) (now : UInt64) :
    (e.push now).dailyCount = e.dailyCount + 1 := rfl

theorem dailyCount_addRequest (e : RateLimitEntry) (now dayNow : UInt64) :
    (e.addRequest now dayNow).dailyCount = (e.today now dayNow).dailyCount + 1 :=
  dailyCount_push (e.today now dayNow) now

@[simp] theorem lastRequestTime_addRequest (e : RateLimitEntry) (now dayNow : UInt64) :
    (e.addRequest now dayNow).lastRequestTime = some now := by
  simp [addRequest, push, lastRequestTime]

end RateLimitEntry

structure PendingFaucetTx where
  address : Address
  amount : UInt64
  txHash : H256
  createdAt : UInt64
  confirmed : Bool
  deriving DecidableEq

structure FaucetStats where
  requestsFulfilled : UInt64
  requestsFailed : UInt64
  totalDispensed : UInt64
  uniqueAddresses : UInt64
  lowBalanceAlerts : UInt64
  deriving DecidableEq

structure FaucetService where
  addressLimits : Column Address RateLimitEntry
  ipLimits : Column String RateLimitEntry
  txQueue : List PendingFaucetTx
  balance : UInt64
  stats : FaucetStats

/-- What `send_tokens` hashes. -/
def payoutBytes (config : FaucetConfig) («to» : Address) (amount now : UInt64) : List UInt8 :=
  config.faucetAddress.asBytes ++ «to».asBytes ++ Wire.encU64 amount ++ Wire.encU64 now

/-- Seven days. -/
def RETENTION : UInt64 := 7 * 86400

namespace FaucetService

def new : FaucetService := ⟨∅, ∅, [], 0, ⟨0, 0, 0, 0, 0⟩⟩

def setBalance (s : FaucetService) (balance : UInt64) : FaucetService := { s with balance }

def verifyCaptcha (response : String) : Bool := !response.isEmpty

/-- The captcha branch of `request`. -/
def checkCaptcha (config : FaucetConfig) (req : FaucetRequest) : Option FaucetResponse :=
  if config.requireCaptcha then
    match req.captchaResponse with
    | none => some (.error "Captcha verification required")
    | some response =>
      if verifyCaptcha response then none else some (.error "Captcha verification failed")
  else none

def checkAddressLimit (s : FaucetService) (config : FaucetConfig) (t : Readings)
    (address : Address) : Option FaucetResponse :=
  match (s.addressLimits.lookup address).bind (·.lastRequestTime) with
  | some lastRequest =>
    let nextEligible := lastRequest + config.cooldownSecs
    if t.address < nextEligible then some (.cooldown t.wait nextEligible) else none
  | none => none

def checkIpLimit (s : FaucetService) (config : FaucetConfig) (t : Readings) (ip : String) :
    Option FaucetResponse :=
  match s.ipLimits.lookup ip with
  | some entry =>
    if config.maxRequestsPerIp ≤ entry.requestsToday t.ip then
      some (.error ("Maximum " ++ toString config.maxRequestsPerIp ++ " requests per day exceeded"))
    else none
  | none => none

def recordRequest (s : FaucetService) (t : Readings) (address : Address) (ip : String) :
    FaucetService :=
  { s with
    addressLimits := s.addressLimits.insert address
      (((s.addressLimits.lookup address).getD (.new t.addressNew)).addRequest t.addressNow
        t.addressDay)
    ipLimits := s.ipLimits.insert ip
      (((s.ipLimits.lookup ip).getD (.new t.ipNew)).addRequest t.ipNow t.ipDay) }

/-- The hash, and the queue with the payout. The code has no way to fail here. -/
def sendTokens (C : Crypto) (config : FaucetConfig) (s : FaucetService) (t : Readings)
    («to» : Address) (amount : UInt64) : Except String (H256 × FaucetService) :=
  let txHash := C.blake3 (payoutBytes config «to» amount t.hash)
  .ok (txHash, { s with
    txQueue := s.txQueue ++ [⟨«to», amount, txHash, t.created, false⟩] })

/-- The books after a payout: the balance, the statistics and the alert. -/
def settle (s : FaucetService) (config : FaucetConfig) : FaucetService :=
  let balance := s.balance - config.amount
  { s with
    balance
    stats := { s.stats with
      requestsFulfilled := s.stats.requestsFulfilled + 1
      totalDispensed := s.stats.totalDispensed + config.amount
      lowBalanceAlerts :=
        if balance < config.alertThreshold then s.stats.lowBalanceAlerts + 1
        else s.stats.lowBalanceAlerts } }

def request (C : Crypto) (config : FaucetConfig) (s : FaucetService) (req : FaucetRequest)
    (t : Readings) : FaucetService × FaucetResponse :=
  if !config.enabled then (s, .error "Faucet is currently disabled")
  else if s.balance < config.amount then (s, .error "Faucet is empty, please try later")
  else
    match checkCaptcha config req <|> s.checkAddressLimit config t req.address <|>
      s.checkIpLimit config t req.ipAddress with
    | some response => (s, response)
    | none =>
      match sendTokens C config s t req.address config.amount with
      | .ok (txHash, sent) =>
        ((sent.recordRequest t req.address req.ipAddress).settle config,
          .ofSuccess t.replied txHash config.amount)
      | .error e =>
        ({ s with stats := { s.stats with requestsFailed := s.stats.requestsFailed + 1 } },
          .error ("Failed to send tokens: " ++ e))

def getPendingTxs (s : FaucetService) : List H256 :=
  (s.txQueue.filter fun tx => !tx.confirmed).map (·.txHash)

/-- `iter_mut().find(..)` and the flag of what it finds. -/
def confirmFirst (txHash : H256) : List PendingFaucetTx → List PendingFaucetTx
  | [] => []
  | tx :: queue =>
    if tx.txHash = txHash then { tx with confirmed := true } :: queue
    else tx :: confirmFirst txHash queue

def confirmTx (s : FaucetService) (txHash : H256) : FaucetService :=
  { s with txQueue := confirmFirst txHash s.txQueue }

def cleanup (s : FaucetService) (now : UInt64) : FaucetService :=
  let cutoff := now - RETENTION
  { s with
    addressLimits := Column.filter (fun _ e => e.recent cutoff) s.addressLimits
    ipLimits := Column.filter (fun _ e => e.recent cutoff) s.ipLimits
    txQueue := s.txQueue.filter fun tx => !tx.confirmed || cutoff < tx.createdAt }

end FaucetService

open FaucetService

/-! ## Runs -/

/-- A call of the service. -/
inductive Call where
  | setBalance (balance : UInt64)
  | request (req : FaucetRequest) (t : Readings)
  | confirmTx (txHash : H256)
  | cleanup (now : UInt64)
  deriving DecidableEq

/-- A request that was paid. -/
structure Grant where
  req : FaucetRequest
  t : Readings

namespace Call

variable (C : Crypto) (config : FaucetConfig)

def apply (s : FaucetService) : Call → FaucetService
  | setBalance balance => s.setBalance balance
  | request req t => (s.request C config req t).1
  | confirmTx txHash => s.confirmTx txHash
  | cleanup now => s.cleanup now

/-- The payout of a call, if it makes one. -/
def grant (s : FaucetService) : Call → Option Grant
  | request req t => if (s.request C config req t).2.success then some ⟨req, t⟩ else none
  | _ => none

def readings : Call → List UInt64
  | request _ t => t.toList
  | cleanup now => [now]
  | _ => []

def run (s : FaucetService) (calls : List Call) : FaucetService := calls.foldl (apply C config) s

/-- The payouts of a run, oldest first. -/
def grants (s : FaucetService) : List Call → List Grant
  | [] => []
  | call :: calls => (call.grant C config s).toList ++ grants (call.apply C config s) calls

end Call

variable {C : Crypto} {config : FaucetConfig} {s : FaucetService} {req : FaucetRequest}
  {t : Readings}

/-- What a paid request leaves. -/
def FaucetService.paid (C : Crypto) (config : FaucetConfig) (s : FaucetService)
    (req : FaucetRequest) (t : Readings) : FaucetService :=
  (recordRequest { s with txQueue := s.txQueue ++
    [⟨req.address, config.amount, C.blake3 (payoutBytes config req.address config.amount t.hash),
      t.created, false⟩] } t req.address req.ipAddress).settle config

namespace FaucetService

theorem checkCaptcha_refuses {response : FaucetResponse}
    (h : checkCaptcha config req = some response) : response.success = false := by
  unfold checkCaptcha at h
  split at h
  · split at h
    · cases h
      rfl
    · split at h
      · cases h
      · cases h
        rfl
  · cases h

theorem checkAddressLimit_refuses {a : Address} {response : FaucetResponse}
    (h : s.checkAddressLimit config t a = some response) : response.success = false := by
  unfold checkAddressLimit at h
  split at h
  · simp only at h
    split at h
    · cases h
      rfl
    · cases h
  · cases h

theorem checkIpLimit_refuses {ip : String} {response : FaucetResponse}
    (h : s.checkIpLimit config t ip = some response) : response.success = false := by
  unfold checkIpLimit at h
  split at h
  · split at h
    · cases h
      rfl
    · cases h
  · cases h

/-- A request is refused and changes nothing, or every check has passed and it is paid. -/
theorem request_cases (C : Crypto) (config : FaucetConfig) (s : FaucetService)
    (req : FaucetRequest) (t : Readings) :
    (∃ response, response.success = false ∧ s.request C config req t = (s, response)) ∨
    (config.amount ≤ s.balance ∧ s.checkAddressLimit config t req.address = none ∧
      s.checkIpLimit config t req.ipAddress = none ∧
      s.request C config req t = (s.paid C config req t, .ofSuccess t.replied
        (C.blake3 (payoutBytes config req.address config.amount t.hash)) config.amount)) := by
  unfold request
  split
  · exact .inl ⟨_, rfl, rfl⟩
  split
  · exact .inl ⟨_, rfl, rfl⟩
  · next hbalance =>
    cases hcaptcha : checkCaptcha config req with
    | some response => exact .inl ⟨response, checkCaptcha_refuses hcaptcha, rfl⟩
    | none =>
      cases haddress : s.checkAddressLimit config t req.address with
      | some response => exact .inl ⟨response, checkAddressLimit_refuses haddress, rfl⟩
      | none =>
        cases hip : s.checkIpLimit config t req.ipAddress with
        | some response => exact .inl ⟨response, checkIpLimit_refuses hip, rfl⟩
        | none => exact .inr ⟨UInt64.not_lt.mp hbalance, rfl, rfl, rfl⟩

end FaucetService

namespace Call

/-- A call that pays has passed every check. -/
theorem grant_cases (C : Crypto) (config : FaucetConfig) (s : FaucetService) (call : Call) :
    (call.grant C config s = none ∧
      (∀ req t, call = .request req t → call.apply C config s = s)) ∨
    ∃ req t, call = .request req t ∧ call.grant C config s = some ⟨req, t⟩ ∧
      config.amount ≤ s.balance ∧ s.checkAddressLimit config t req.address = none ∧
      s.checkIpLimit config t req.ipAddress = none ∧
      call.apply C config s = s.paid C config req t := by
  cases call with
  | setBalance balance => exact .inl ⟨rfl, by intro _ _ h; cases h⟩
  | confirmTx txHash => exact .inl ⟨rfl, by intro _ _ h; cases h⟩
  | cleanup now => exact .inl ⟨rfl, by intro _ _ h; cases h⟩
  | request req t =>
    rcases request_cases C config s req t with ⟨response, hfalse, heq⟩ | ⟨hbal, haddr, hip, heq⟩
    · refine .inl ⟨?_, ?_⟩
      · rw [grant, heq, if_neg (by rw [hfalse]; exact Bool.false_ne_true)]
      · intro req' t' h
        cases h
        rw [apply, heq]
    · refine .inr ⟨req, t, rfl, ?_, hbal, haddr, hip, ?_⟩
      · rw [grant, heq]
        rfl
      · rw [apply, heq]

variable {call : Call} {calls : List Call}

theorem run_snoc : run C config s (calls ++ [call]) = call.apply C config (run C config s calls) :=
  List.foldl_append ..

theorem grants_snoc : ∀ (calls : List Call) (s : FaucetService),
    grants C config s (calls ++ [call])
      = grants C config s calls ++ (call.grant C config (run C config s calls)).toList
  | [], s => List.append_nil _
  | c :: calls, s => by
    rw [List.cons_append, grants, grants_snoc calls, grants, List.append_assoc]
    rfl

end Call

/-! ## Clocks -/

/-- The clock of a run: it never goes back, a clean-up is made more than a week after its
start, and a day more than a reading fits in 64 bits. -/
structure Clocked (calls : List Call) : Prop where
  ordered : (calls.flatMap Call.readings).Pairwise (· ≤ ·)
  started : ∀ now, .cleanup now ∈ calls → RETENTION ≤ now
  room : ∀ now ∈ calls.flatMap Call.readings, now.toNat + 86400 < 2 ^ 64

namespace Clocked

variable {calls : List Call} {call : Call}

theorem snoc (h : Clocked (calls ++ [call])) :
    Clocked calls ∧ call.readings.Pairwise (· ≤ ·) ∧
      (∀ past ∈ calls.flatMap Call.readings, ∀ now ∈ call.readings, past ≤ now) ∧
      (∀ now, call = .cleanup now → RETENTION ≤ now) ∧
      ∀ now ∈ call.readings, now.toNat + 86400 < 2 ^ 64 := by
  have happ : (calls ++ [call]).flatMap Call.readings
      = calls.flatMap Call.readings ++ call.readings := by
    rw [List.flatMap_append, List.flatMap_singleton]
  obtain ⟨hord, hstart, hroom⟩ := h
  rw [happ] at hord hroom
  obtain ⟨hpast, hnow, hle⟩ := List.pairwise_append.mp hord
  refine ⟨⟨hpast, fun now hmem => hstart now (List.mem_append_left _ hmem),
    fun now hmem => hroom now (List.mem_append_left _ hmem)⟩, hnow, hle, fun now hcall => ?_,
    fun now hmem => hroom now (List.mem_append_right _ hmem)⟩
  exact hstart now (List.mem_append_right _ (List.mem_singleton.mpr hcall.symm))

end Clocked

theorem toNat_currentDayStart (now : UInt64) :
    (currentDayStart now).toNat = 86400 * (now.toNat / 86400) := by
  have hmod : (now % 86400).toNat = now.toNat % 86400 := UInt64.toNat_mod ..
  rw [currentDayStart, toNat_sub_of_le (by omega), hmod]
  omega

end Pyrax.Faucet
